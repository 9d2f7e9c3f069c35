import CloudBackup.Config.Template

/-!
The validation of backups with its flag `logError`. It should only decide whether an error is
logged, and so it does for all errors but one kind: what is wrong with the parameters of a
target is returned from inside of the condition, and is forgotten where nothing is logged.

Here the errors are the texts that the callers get.
-/

namespace CloudBackup.Config.LogError

open Database UnixPath Casing Checks
open Scheduler (isBlank)

inductive Failure
  | message (text : Str)
  | panic (p : Panic)
  deriving DecidableEq, Repr

/-- The texts of the errors of `humanize.ParseBytes`, of the parser of package `cron` and of `os.Stat`. -/
structure Texts where
  parseBytes : Str → Str
  parseSchedule : Str → Str
  stat : Str → Str

def printList (l : List Str) : Str := '[' :: [' '].intercalate l ++ [']']

section

variable (env : Env) (texts : Texts)

/-! ### Names and files -/

def nameText (kind name : Str) : NameErr → Str
  | .separator =>
      kind ++ " 'name=".toList ++ name ++ "' contains the reserved substring '".toList ++ restoreDbSeparator ++
        "' which is used internally as a separator in restore database filenames. Choose a different name".toList
  | .pathSeparator =>
      kind ++ " 'name=".toList ++ name ++ "' contains a path separator character (one of '/' or '\\'). ".toList ++
        kind ++ " names are used as filename components and are not allowed to contain path separators".toList
  | .reservedName =>
      kind ++ " 'name=".toList ++ name ++
        "' is a reserved name that cannot be used because it would produce an ambiguous filename".toList

/-- `validateBackupOrTargetName`. -/
def validateName (kind name : Str) : Check Failure :=
  Check.under (fun e => Failure.message (nameText kind name e)) (validateBackupOrTargetName name)

def fileExists (path : Str) : Check Failure :=
  match env.stat path with
  | .error .notExist => .error (.message "file does not exist".toList)
  | .error .other => .error (.panic .nilPointer)
  | .ok info => require info.isRegular (.message "file is not a regular file".toList)

def executableText (path : Str) : Str :=
  match env.stat path with
  | .error _ => texts.stat path
  | .ok _ => "not executable".toList

def validatePrePostRunScript (path scriptType backupName : Str) : Check Failure :=
  (fileExists env path).andThen
    (require (isExecutable env path)
      (.message ("Encountered the following error when checking if ".toList ++ scriptType ++ " run script '".toList ++
        path ++ "', belonging to backup job '".toList ++ backupName ++ "' is executable: ".toList ++
        executableText env texts path)))

/-! ### Targets -/

def acceptedText (targetType name : Str) : Str :=
  if targetType = awsS3 then "case sensitive and one of: ".toList ++ printList s3StorageClasses
  else if toLower env.tables name = "storage_class".toList then
    "case sensitive and one of: ".toList ++ printList gcpStorageClasses
  else
    ("one of: \"yes\"(any case), \"no\"(any case), \"1\", \"t\", \"T\", \"true\", \"TRUE\", \"True\", " ++
      "\"0\", \"f\", \"F\", \"false\", \"FALSE\", \"False\"").toList

def parametersText (backupName targetName targetType : Str) : ParamErr → Str
  | .duplicate name =>
      "backup target parameter '".toList ++ name ++ "' belonging to backup '".toList ++ backupName ++
        "' and target '".toList ++ targetName ++ "' of type '".toList ++ targetType ++
        "' is present more than once".toList
  | .unknownTargetType =>
      "can not validate parameters for unknown target type of ".toList ++ targetType ++ " for backup ".toList ++
        backupName
  | .emptyPersistDir => targetText ++ " has an empty 'persist_dir' parameter".toList
  | .persistDirNotAbs value =>
      targetText ++ " has a 'persist_dir' parameter which is not an absolute path: '".toList ++ value ++ "'".toList
  | .notKnown name =>
      targetText ++ " has specified parameter '".toList ++ name ++
        "' which is not a known configuration option".toList
  | .notAccepted name value =>
      targetText ++ " has specified parameter '".toList ++ name ++ "' with value '".toList ++ value ++
        "'. This is not an accepted value; accepted values for this parameter are ".toList ++
        acceptedText env targetType name
  | .emptyRegion =>
      targetText ++ (" is has a parameter with name 'region' set with an empty value." ++
        " Either specify a value for it or remove the parameter").toList
  | .secretMissing =>
      targetText ++ (" has specified parameter 'AWS_ACCESS_KEY_ID' but is missing parameter 'AWS_SECRET_ACCESS_KEY'." ++
        " You must specify a value for both of them or otherwise not specify both of them").toList
  | .keyIdMissing =>
      targetText ++ (" has specified parameter 'AWS_SECRET_ACCESS_KEY' but is missing parameter 'AWS_ACCESS_KEY_ID'." ++
        " You must specify a value for both of them or otherwise not specify both of them").toList
  | .credentialMissing found missing =>
      targetText ++ " has specified parameter '".toList ++ found ++
        ("' which implies all parameters for credentials need to be specified but at least parameter '").toList ++
        missing ++ "' is missing. Parameters for credentials are: '".toList ++ printList gcpCredentialParameters ++
        "'".toList
  | .requiredMissing name =>
      targetText ++ " requires parameter '".toList ++ name ++ "' but this parameter has not been specified".toList
  | .notAUrl value =>
      "parameter 'primary_blob_service_endpoint' has value '".toList ++ value ++ "' which is not a valid URL".toList
  | .httpUrl value =>
      "parameter 'primary_blob_service_endpoint' has value '".toList ++ value ++
        "' which is an HTTP url. Only HTTPS urls are allowed".toList
where
  targetText : Str :=
    "target '".toList ++ targetName ++ "' of type '".toList ++ targetType ++ "' belonging to backup '".toList ++
      backupName ++ "'".toList

/-- `ValidateBackupTargetParameters`. It is not told the flag. -/
def validateParameters (backupName : Str) (target : ConfigBackupTarget) : Check Failure :=
  (validateBackupTargetParameters env target.parameters target.type).under fun e =>
    .message (parametersText env backupName target.name target.type e)

def validateBeforeParameters (backupName : Str) (target : ConfigBackupTarget) : Check Failure :=
  (validateName "Target".toList target.name).andThen <|
    (require (env.parseBytes target.rateLimit)
      (.message ("Target '".toList ++ target.name ++ "' for backup '".toList ++ backupName ++
        "' has ratelimit defined as ".toList ++ target.rateLimit ++ (" could not be translated to a number." ++
        " While attempting translation the following error was encountered: ").toList ++
        texts.parseBytes target.rateLimit))).andThen <|
    require (backupTargetTypes.any fun allowed => equalFold env.tables target.type allowed)
      (.message ("Target '".toList ++ target.name ++ "' is of type '".toList ++ target.type ++
        "' but this is not an allowed type. Allowed types are one of: ".toList ++
        [' '].intercalate [awsS3, gcpStorage, azureBlob]))

/-- A pass of the loop of `ValidateBackupTarget`, past the name. The error of the parameters is
returned if it is logged. -/
def validateTarget (logError : Bool) (backupName : Str) (target : ConfigBackupTarget) : Check Failure :=
  (validateBeforeParameters env texts backupName target).andThen
    (if logError then validateParameters env backupName target else .ok ())

def duplicateTarget (backupName : Str) (target : ConfigBackupTarget) : Failure :=
  .message ("more than one 'target' of the same 'backup' (belonging to backup section having 'name=".toList ++
    backupName ++ "') have the same 'name=".toList ++ target.name ++
    "' . Target 'name' values must be unique within a 'backup' section".toList)

def validateBackupTarget (logError : Bool) (targets : List ConfigBackupTarget) (backupName : Str) :
    Check Failure :=
  forAllNamed ConfigBackupTarget.name (duplicateTarget backupName)
    (fun _ target => validateTarget env texts logError backupName target) targets

/-! ### Backups -/

def validateBackupSchedule (schedules : List Str) (backupName : Str) : Check Failure :=
  forAll (fun expr =>
    (require (!isBlank expr)
      (.message ("backup '".toList ++ backupName ++ ("' has an empty schedule entry. Either remove the entry or" ++
        " set a valid cron expression").toList))).andThen
      (require (env.parseSchedule expr)
        (.message ("backup '".toList ++ backupName ++ "' has invalid schedule entry '".toList ++ expr ++
          "': ".toList ++ texts.parseSchedule expr)))) schedules

def placeText (i : ℕ) (backupName : Str) : Str :=
  "backup[".toList ++ Nat.toDigits 10 i ++ "] having 'name=".toList ++ backupName ++ "' has ".toList

def validateBeforeTargets (i : ℕ) (backup : ConfigBackup) : Check Failure :=
  (require (backup.name.all isAscii)
      (.message ("Backup having name '".toList ++ backup.name ++ ("' contains non ASCII characters but only ASCII" ++
        " characters are allowed for backup names").toList))).andThen <|
    (validateName "Backup".toList backup.name).andThen <|
    (require (!backup.encrypt || backup.encryptPass ≠ [])
      (.message (placeText i backup.name ++ ("setting 'encrypt=true' but 'encrypt_pass' is not set. Set a password" ++
        " or disable encryption").toList))).andThen <|
    (forAll (fun path => require (isAbs path)
      (.message (placeText i backup.name ++ "specified that path '".toList ++ path ++ ("' is to be backed but this" ++
        " particular path is not absolute. Only absolute paths are permitted in the 'paths' section").toList)))
      backup.paths).andThen <|
    (if backup.preRunScript = [] then .ok ()
      else validatePrePostRunScript env texts backup.preRunScript "pre".toList backup.name).andThen <|
    if backup.postRunScript = [] then .ok ()
      else validatePrePostRunScript env texts backup.postRunScript "post".toList backup.name

/-- A pass of the loop of `ValidateBackup`, past the name. -/
def validateBackupEntry (logError : Bool) (i : ℕ) (backup : ConfigBackup) : Check Failure :=
  (validateBeforeTargets env texts i backup).andThen <|
    (validateBackupTarget env texts logError backup.target backup.name).andThen <|
    validateBackupSchedule env texts backup.schedule backup.name

def duplicateBackup (backup : ConfigBackup) : Failure :=
  .message ("more than one Backups have the same 'name=".toList ++ backup.name ++
    "' . Backup 'name' values must be unique".toList)

def validateBackup (logError : Bool) (backups : List ConfigBackup) : Check Failure :=
  forAllNamed ConfigBackup.name duplicateBackup (validateBackupEntry env texts logError) backups

/-! ### With the flag -/

section

variable {env texts}

theorem fileExists_ok_iff {path : Str} : fileExists env path = .ok () ↔ Config.fileExists env path = .ok () := by
  rw [fileExists, Config.fileExists]
  cases env.stat path with
  | ok info => simp only [require_ok]
  | error e => cases e <;> simp

theorem validatePrePostRunScript_ok_iff {path scriptType backupName : Str} :
    validatePrePostRunScript env texts path scriptType backupName = .ok () ↔
      Config.validatePrePostRunScript env path backupName = .ok () := by
  simp only [validatePrePostRunScript, Config.validatePrePostRunScript, andThen_ok, require_ok, fileExists_ok_iff]

theorem validateBackupTarget_ok_iff {targets : List ConfigBackupTarget} {backupName : Str} :
    validateBackupTarget env texts true targets backupName = .ok () ↔
      Config.validateBackupTarget env targets backupName = .ok () := by
  rw [validateBackupTarget, Config.validateBackupTarget, forAllNamed_ok (fun _ _ _ => id),
    forAllNamed_ok (fun _ _ _ => id)]
  simp only [validateTarget, validateBeforeParameters, validateName, validateParameters, Config.validateTarget,
    andThen_ok, under_ok, require_ok, if_true, and_assoc]

theorem validateBackupEntry_ok_iff_config {i j : ℕ} {backup : ConfigBackup} :
    validateBackupEntry env texts true i backup = .ok () ↔ Config.validateBackupEntry env j backup = .ok () := by
  have hscript : ∀ path scriptType,
      (if path = [] then .ok () else validatePrePostRunScript env texts path scriptType backup.name) = .ok () ↔
        (if path = [] then .ok () else Config.validatePrePostRunScript env path backup.name) = .ok () := by
    intro path scriptType
    split
    · simp
    · exact validatePrePostRunScript_ok_iff
  simp only [validateBackupEntry, validateBeforeTargets, validateName, validateBackupSchedule,
    Config.validateBackupEntry, Config.validateBackupSchedule, andThen_ok, under_ok, require_ok, forAll_ok, hscript,
    validateBackupTarget_ok_iff, and_assoc]

/-- With the flag, it is the validation that the daemon starts with. -/
theorem validateBackup_ok_iff {backups : List ConfigBackup} :
    validateBackup env texts true backups = .ok () ↔ Config.validateBackup env backups = .ok () := by
  have hplace : ∀ i j backup, validateBackupEntry env texts true i backup = .ok () →
      validateBackupEntry env texts true j backup = .ok () := fun i j backup h =>
    validateBackupEntry_ok_iff_config.mpr (validateBackupEntry_ok_iff_config (j := 0) |>.mp h)
  have hplace' : ∀ i j backup, Config.validateBackupEntry env i backup = .ok () →
      Config.validateBackupEntry env j backup = .ok () := by
    intro i j backup h
    have hentry : validateBackupEntry env texts true 0 backup = .ok () := validateBackupEntry_ok_iff_config.mpr h
    exact validateBackupEntry_ok_iff_config.mp hentry
  rw [validateBackup, Config.validateBackup, forAllNamed_ok hplace, forAllNamed_ok hplace']
  simp only [validateBackupEntry_ok_iff_config (j := 0)]

end

/-! ### The errors of the parameters -/

def parametersBeginnings : List Str :=
  ["backup target parameter '".toList, "target '".toList, "parameter '".toList, "can not".toList]

def Failure.IsOfParameters : Failure → Prop
  | .message text => (parametersBeginnings.any fun beginning => beginning.isPrefixOf text) = true
  | .panic _ => False

variable {env texts}

theorem isOfParameters_beginning {beginning : Str} (h : beginning ∈ parametersBeginnings) :
    (Failure.message beginning).IsOfParameters :=
  List.any_eq_true.mpr ⟨beginning, h, List.isPrefixOf_iff_prefix.mpr (List.prefix_refl beginning)⟩

theorem Failure.IsOfParameters.append {text : Str} (h : (Failure.message text).IsOfParameters) (rest : Str) :
    (Failure.message (text ++ rest)).IsOfParameters := by
  obtain ⟨beginning, hmem, hprefix⟩ := List.any_eq_true.mp h
  refine List.any_eq_true.mpr ⟨beginning, hmem, ?_⟩
  rw [List.isPrefixOf_iff_prefix] at hprefix ⊢
  exact hprefix.trans (List.prefix_append text rest)

theorem isOfParameters_parametersText (backupName targetName targetType : Str) (e : ParamErr) :
    (Failure.message (parametersText env backupName targetName targetType e)).IsOfParameters := by
  have hduplicate : (Failure.message "backup target parameter '".toList).IsOfParameters :=
    isOfParameters_beginning (by decide)
  have hparameter : (Failure.message "parameter 'primary_blob_service_endpoint' has value '".toList).IsOfParameters :=
    rfl
  have hunknown : (Failure.message "can not validate parameters for unknown target type of ".toList).IsOfParameters :=
    rfl
  have htarget : (Failure.message (parametersText.targetText backupName targetName targetType)).IsOfParameters :=
    ((((((isOfParameters_beginning (by decide)).append _).append _).append _).append _).append _).append _
  cases e with
  | duplicate name =>
      exact (((((((hduplicate.append _).append _).append _).append _).append _).append _).append _).append _
  | unknownTargetType => exact ((hunknown.append _).append _).append _
  | emptyPersistDir => exact htarget.append _
  | persistDirNotAbs value => exact ((htarget.append _).append _).append _
  | notKnown name => exact ((htarget.append _).append _).append _
  | notAccepted name value => exact (((((htarget.append _).append _).append _).append _).append _).append _
  | emptyRegion => exact htarget.append _
  | secretMissing => exact htarget.append _
  | keyIdMissing => exact htarget.append _
  | credentialMissing found missing =>
      exact ((((((htarget.append _).append _).append _).append _).append _).append _).append _
  | requiredMissing name => exact ((htarget.append _).append _).append _
  | notAUrl value => exact (hparameter.append _).append _
  | httpUrl value => exact (hparameter.append _).append _

theorem not_isOfParameters_nameText {kind : Str} (hkind : kind = "Target".toList ∨ kind = "Backup".toList)
    (name : Str) (e : NameErr) : ¬ (Failure.message (nameText kind name e)).IsOfParameters := by
  rcases hkind with rfl | rfl <;> cases e <;> exact Bool.false_ne_true

abbrev Other (c : Check Failure) : Prop := c.Errs fun e => ¬ e.IsOfParameters

theorem other_validateName {kind : Str} (hkind : kind = "Target".toList ∨ kind = "Backup".toList) (name : Str) :
    Other (validateName kind name) := by
  refine errs_under (fun e => ?_) _
  exact not_isOfParameters_nameText hkind name e

theorem other_require {p : Bool} {text : Str} (h : ¬ (Failure.message text).IsOfParameters) :
    Other (require p (.message text)) := errs_require h

theorem other_fileExists (path : Str) : Other (fileExists env path) := by
  rw [fileExists]
  split
  · exact errs_error Bool.false_ne_true
  · exact errs_error id
  · exact other_require Bool.false_ne_true

theorem other_validatePrePostRunScript (path scriptType backupName : Str) :
    Other (validatePrePostRunScript env texts path scriptType backupName) :=
  (other_fileExists path).andThen (other_require Bool.false_ne_true)

theorem other_validateBeforeParameters (backupName : Str) (target : ConfigBackupTarget) :
    Other (validateBeforeParameters env texts backupName target) := by
  refine (other_validateName (.inl rfl) _).andThen (Check.Errs.andThen ?_ ?_)
  · exact other_require Bool.false_ne_true
  · exact other_require Bool.false_ne_true

theorem other_duplicateTarget (backupName : Str) (target : ConfigBackupTarget) :
    ¬ (duplicateTarget backupName target).IsOfParameters := Bool.false_ne_true

theorem other_validateBackupTarget (targets : List ConfigBackupTarget) (backupName : Str) :
    Other (validateBackupTarget env texts false targets backupName) := by
  rw [validateBackupTarget]
  refine errs_forAllNamed (P := fun e : Failure => ¬ e.IsOfParameters) (other_duplicateTarget backupName)
    (fun _ target => ?_) targets
  exact (other_validateBeforeParameters backupName target).andThen errs_ok

theorem other_validateBackupSchedule (schedules : List Str) (backupName : Str) :
    Other (validateBackupSchedule env texts schedules backupName) := by
  refine errs_forAll (fun expr => Check.Errs.andThen ?_ ?_) schedules
  · exact other_require Bool.false_ne_true
  · exact other_require Bool.false_ne_true

theorem other_validateBeforeTargets (i : ℕ) (backup : ConfigBackup) :
    Other (validateBeforeTargets env texts i backup) := by
  have hscript : ∀ path scriptType, Other (if path = [] then .ok ()
      else validatePrePostRunScript env texts path scriptType backup.name) := by
    intro path scriptType
    split
    · exact errs_ok
    · exact other_validatePrePostRunScript path scriptType backup.name
  refine Check.Errs.andThen (other_require Bool.false_ne_true) ?_
  refine (other_validateName (.inr rfl) _).andThen ?_
  refine Check.Errs.andThen (other_require Bool.false_ne_true) ?_
  refine Check.Errs.andThen (errs_forAll (fun path => ?_) _) ?_
  · exact other_require Bool.false_ne_true
  · exact (hscript _ _).andThen (hscript _ _)

theorem other_duplicateBackup (backup : ConfigBackup) : ¬ (duplicateBackup backup).IsOfParameters :=
  Bool.false_ne_true

theorem other_validateBackup (backups : List ConfigBackup) : Other (validateBackup env texts false backups) := by
  rw [validateBackup]
  refine errs_forAllNamed (P := fun e : Failure => ¬ e.IsOfParameters) other_duplicateBackup
    (fun i backup => ?_) backups
  exact (other_validateBeforeTargets i backup).andThen <|
    (other_validateBackupTarget _ _).andThen (other_validateBackupSchedule _ _)

/-! ### With the flag and without it -/

theorem errs_validateParameters (backupName : Str) (target : ConfigBackupTarget) :
    (validateParameters env backupName target).Errs Failure.IsOfParameters :=
  errs_under (isOfParameters_parametersText backupName target.name target.type) _

theorem sameUnless_validateTarget (backupName : Str) (target : ConfigBackupTarget) :
    (validateTarget env texts true backupName target).SameUnless Failure.IsOfParameters
      (validateTarget env texts false backupName target) := by
  refine Check.SameUnless.andThen (.inl rfl) ?_
  cases h : validateParameters env backupName target with
  | ok _ => exact .inl rfl
  | error e => exact .inr ⟨e, errs_validateParameters backupName target e h, rfl⟩

theorem sameUnless_validateBackupTarget (targets : List ConfigBackupTarget) (backupName : Str) :
    (validateBackupTarget env texts true targets backupName).SameUnless Failure.IsOfParameters
      (validateBackupTarget env texts false targets backupName) :=
  sameUnless_forAllNamed (fun _ => sameUnless_validateTarget backupName) targets

theorem sameUnless_validateBackup (backups : List ConfigBackup) :
    (validateBackup env texts true backups).SameUnless Failure.IsOfParameters
      (validateBackup env texts false backups) := by
  refine sameUnless_forAllNamed (fun i backup => ?_) backups
  exact Check.SameUnless.andThen (.inl rfl) ((sameUnless_validateBackupTarget _ _).andThen (.inl rfl))

variable (env texts)

/-- All of a target is in order, but for its name, which others may have. -/
structure SoundTarget (backupName : Str) (target : ConfigBackupTarget) : Prop where
  before : validateBeforeParameters env texts backupName target = .ok ()
  parameters : validateBackupTargetParameters env target.parameters target.type = .ok ()

structure WrongParameters (backupName : Str) (target : ConfigBackupTarget) : Prop where
  before : validateBeforeParameters env texts backupName target = .ok ()
  parameters : validateBackupTargetParameters env target.parameters target.type ≠ .ok ()

/-- The first target that is not in order has wrong parameters. -/
def ParametersFirst (backupName : Str) (targets : List ConfigBackupTarget) : Prop :=
  FailsFirst ConfigBackupTarget.name (SoundTarget env texts backupName) (WrongParameters env texts backupName) targets

/-- All of a backup is in order, but for its name, which others may have. -/
structure SoundBackup (backup : ConfigBackup) : Prop where
  before : validateBeforeTargets env texts 0 backup = .ok ()
  names : (backup.target.map ConfigBackupTarget.name).Nodup
  targets : ∀ target ∈ backup.target, SoundTarget env texts backup.name target
  schedule : validateBackupSchedule env texts backup.schedule backup.name = .ok ()

/-- What is first wrong with a backup is the parameters of a target. -/
structure WrongTarget (backup : ConfigBackup) : Prop where
  before : validateBeforeTargets env texts 0 backup = .ok ()
  targets : ParametersFirst env texts backup.name backup.target

/-- In the first backup that is not in order, the parameters of a target come first. -/
def ParametersFirstOfAll (backups : List ConfigBackup) : Prop :=
  FailsFirst ConfigBackup.name (SoundBackup env texts) (WrongTarget env texts) backups

variable {env texts}

theorem validateTarget_ok_iff {backupName : Str} {target : ConfigBackupTarget} :
    validateTarget env texts true backupName target = .ok () ↔ SoundTarget env texts backupName target := by
  rw [validateTarget, andThen_ok, if_pos rfl, validateParameters, under_ok]
  exact ⟨fun h => ⟨h.1, h.2⟩, fun h => ⟨h.before, h.parameters⟩⟩

theorem validateTarget_fails_iff {backupName : Str} {target : ConfigBackupTarget} :
    (validateTarget env texts true backupName target).Fails Failure.IsOfParameters ↔
      WrongParameters env texts backupName target := by
  rw [validateTarget, (other_validateBeforeParameters backupName target).andThen_fails_iff, if_pos rfl,
    (errs_validateParameters backupName target).fails_iff, validateParameters, ne_eq, under_ok]
  exact ⟨fun h => ⟨h.1, h.2⟩, fun h => ⟨h.before, h.parameters⟩⟩

theorem validateBackupTarget_fails_iff {targets : List ConfigBackupTarget} {backupName : Str} :
    (validateBackupTarget env texts true targets backupName).Fails Failure.IsOfParameters ↔
      ParametersFirst env texts backupName targets := by
  rw [validateBackupTarget, ParametersFirst]
  have hok : ∀ (_ : ℕ) target, validateTarget env texts true backupName target = .ok () ↔
      SoundTarget env texts backupName target := fun _ _ => validateTarget_ok_iff
  have hfails : ∀ (_ : ℕ) target, (validateTarget env texts true backupName target).Fails Failure.IsOfParameters ↔
      WrongParameters env texts backupName target := fun _ _ => validateTarget_fails_iff
  exact forAllNamed_fails_iff (other_duplicateTarget backupName) hok hfails

/-- The place of the backup is there for the messages only. -/
theorem validateBeforeTargets_ok_iff (i j : ℕ) (backup : ConfigBackup) :
    validateBeforeTargets env texts i backup = .ok () ↔ validateBeforeTargets env texts j backup = .ok () := by
  simp only [validateBeforeTargets, andThen_ok, require_ok, forAll_ok]

theorem validateBackupEntry_ok_iff (i : ℕ) {backup : ConfigBackup} :
    validateBackupEntry env texts true i backup = .ok () ↔ SoundBackup env texts backup := by
  rw [validateBackupEntry, andThen_ok, andThen_ok, validateBeforeTargets_ok_iff i 0, validateBackupTarget,
    forAllNamed_ok (fun _ _ _ => id)]
  simp only [validateTarget_ok_iff]
  exact ⟨fun h => ⟨h.1, h.2.1.1, h.2.1.2, h.2.2⟩, fun h => ⟨h.before, ⟨h.names, h.targets⟩, h.schedule⟩⟩

theorem validateBackupEntry_fails_iff (i : ℕ) {backup : ConfigBackup} :
    (validateBackupEntry env texts true i backup).Fails Failure.IsOfParameters ↔ WrongTarget env texts backup := by
  rw [validateBackupEntry, (other_validateBeforeTargets i backup).andThen_fails_iff,
    (other_validateBackupSchedule _ _).fails_andThen_iff, validateBackupTarget_fails_iff,
    validateBeforeTargets_ok_iff i 0]
  exact ⟨fun h => ⟨h.1, h.2⟩, fun h => ⟨h.before, h.targets⟩⟩

theorem validateBackup_fails_iff {backups : List ConfigBackup} :
    (validateBackup env texts true backups).Fails Failure.IsOfParameters ↔ ParametersFirstOfAll env texts backups := by
  rw [validateBackup, ParametersFirstOfAll]
  have hok : ∀ i backup, validateBackupEntry env texts true i backup = .ok () ↔ SoundBackup env texts backup :=
    fun i _ => validateBackupEntry_ok_iff i
  have hfails : ∀ i backup, (validateBackupEntry env texts true i backup).Fails Failure.IsOfParameters ↔
      WrongTarget env texts backup := fun i _ => validateBackupEntry_fails_iff i
  exact forAllNamed_fails_iff other_duplicateBackup hok hfails

/-- The flag changes the verdict just where the parameters of a target are the first thing that
is wrong. -/
theorem logError_irrelevant_iff (env : Env) (texts : Texts) :
    (∀ targets backupName, validateBackupTarget env texts true targets backupName =
        validateBackupTarget env texts false targets backupName ↔ ¬ ParametersFirst env texts backupName targets) ∧
      ∀ backups, validateBackup env texts true backups = validateBackup env texts false backups ↔
        ¬ ParametersFirstOfAll env texts backups := by
  constructor
  · intro targets backupName
    rw [(sameUnless_validateBackupTarget targets backupName).eq_iff (other_validateBackupTarget targets backupName),
      validateBackupTarget_fails_iff]
  · intro backups
    rw [(sameUnless_validateBackup backups).eq_iff (other_validateBackup backups), validateBackup_fails_iff]

end

/-! ### A relative directory -/

def silentTexts : Texts := ⟨fun _ => [], fun _ => [], fun _ => []⟩

def relativeTarget : ConfigBackupTarget where
  name := "target".toList
  type := testNull
  parameters := [⟨"persist_dir".toList, "backups".toList⟩]

def relativeBackup : ConfigBackup where
  name := "backup".toList
  target := [relativeTarget]

theorem logError_forgetsParameters : ¬ ∀ env texts,
    (∀ targets backupName, validateBackupTarget env texts true targets backupName =
      validateBackupTarget env texts false targets backupName) ∧
    ∀ backups, validateBackup env texts true backups = validateBackup env texts false backups := by
  intro h
  exact absurd ((h smallEnv silentTexts).2 [relativeBackup]) (by decide)

end CloudBackup.Config.LogError
