import CloudBackup.Database.DbFiles
import CloudBackup.Library.Casing
import CloudBackup.Library.Checks
import CloudBackup.Scheduler.Outcome

/-!
The configuration of the daemon and its validation. `Validate` goes through the sections one
after the other and ends with the first error. What it asks of the file system and of other
packages is `Env`.
-/

namespace CloudBackup.Config

open Database UnixPath Casing Checks
open Scheduler (isBlank)

/-! ### The configuration -/

structure ConfigBackupTargetParams where
  name : Str
  value : Str
  deriving DecidableEq, Repr

structure ConfigBackupTarget where
  name : Str
  type : Str
  keyPrefix : Str := []
  bucket : Str := []
  parameters : List ConfigBackupTargetParams := []
  rateLimit : Str := ['0']
  deriving DecidableEq, Repr

structure ConfigBackup where
  name : Str
  paths : List Str := []
  exclusions : List Str := []
  dereference : Option Bool := some true
  checksum : Bool := false
  target : List ConfigBackupTarget := []
  schedule : List Str := []
  encrypt : Bool := false
  encryptPass : Str := []
  versionsMaxNum : ℕ := 0
  versionsMaxAge : Str := ['0']
  preRunScript : Str := []
  postRunScript : Str := []
  deriving DecidableEq, Repr

structure ConfigUser where
  name : Str
  pass : Str
  access : Str := "read".toList
  deriving DecidableEq, Repr

structure ConfigHttp where
  bindAddress : Str := "127.0.0.1:8080".toList
  deriving DecidableEq, Repr

structure ConfigHttps where
  enabled : Bool := false
  bindAddress : Str := "127.0.0.1:8443".toList
  sslCertPath : Str := []
  sslKeyPath : Str := []
  deriving DecidableEq, Repr

structure ConfigNotificationEmail where
  server : Str
  user : Str := []
  pass : Str := []
  port : Str := "25".toList
  sender : Str := []
  recipient : Str := []
  cc : List Str := []
  type : List Str := ["failed".toList, "crashed".toList]
  deriving DecidableEq, Repr

structure ConfigNotificationScript where
  path : Str
  type : List Str := ["failed".toList, "crashed".toList]
  deriving DecidableEq, Repr

structure ConfigNotification where
  email : List ConfigNotificationEmail := []
  script : List ConfigNotificationScript := []
  deriving DecidableEq, Repr

structure CfgTemplate where
  dataDir : Str
  restoreDir : Str := []
  htmlDir : Str := "webstatic".toList
  user : List ConfigUser := []
  http : ConfigHttp := {}
  https : ConfigHttps := {}
  backup : List ConfigBackup := []
  notifications : ConfigNotification := {}
  deriving DecidableEq, Repr

/-! ### What can go wrong -/

inductive FileErr
  | noSuchFile
  | notRegularFile
  deriving DecidableEq, Repr

inductive DirErr
  | noSuchDir
  | unusableDirPath
  | noSuchRelativeDir
  | notADir
  deriving DecidableEq, Repr

inductive ParamErr
  | duplicate (name : Str)
  | unknownTargetType
  | emptyPersistDir
  | persistDirNotAbs (value : Str)
  | notKnown (name : Str)
  | notAccepted (name value : Str)
  | emptyRegion
  | secretMissing
  | keyIdMissing
  | credentialMissing (found missing : Str)
  | requiredMissing (name : Str)
  | notAUrl (value : Str)
  | httpUrl (value : Str)
  deriving DecidableEq, Repr

inductive NoSecret
  | noBackup
  | noTarget
  | emptyValue
  | noParameter
  deriving DecidableEq, Repr

inductive CfgErr
  | dir (paramName dir : Str) (e : DirErr)
  | sslCertPathNotSet
  | sslKeyPathNotSet
  | file (e : FileErr)
  | duplicateBackup (name : Str)
  | backupNotAscii (name : Str)
  | backupName (name : Str) (e : NameErr)
  | encryptPassNotSet (i : ℕ) (name : Str)
  | pathNotAbs (i : ℕ) (name path : Str)
  | scriptNotExecutable (path backupName : Str)
  | emptySchedule (backupName : Str)
  | invalidSchedule (backupName expr : Str)
  | duplicateTarget (backupName name : Str)
  | targetName (name : Str) (e : NameErr)
  | rateLimit (name backupName rateLimit : Str)
  | targetType (name type : Str)
  | parameters (backupName targetName targetType : Str) (e : ParamErr)
  | duplicateUser (name : Str)
  | notBcrypt (name : Str)
  | access (name access : Str)
  | notificationNotExecutable (path : Str)
  | notificationType
  | emailAuthMandatory (server : Str)
  | emailPassMissing
  | emailUserMissing
  | emailType (type : Str)
  | noSuchUser (name pass : Str)
  | encryptPassUnset (name pass : Str)
  | encryptPassNoBackup (name pass : Str)
  | noSecret (backupName targetName name value : Str) (why : NoSecret)
  | noSuchEmail (user server pass : Str)
  deriving DecidableEq, Repr

inductive Panic
  | nilPointer
  | indexOutOfRange
  deriving DecidableEq, Repr

inductive Fault
  | error (e : CfgErr)
  | panic (p : Panic)
  deriving DecidableEq, Repr

/-! ### What validation asks for -/

structure FileInfo where
  isDir : Bool := false
  isRegular : Bool := true
  executable : Bool := true

inductive StatErr
  | notExist
  | other

/-- The file system, `humanize.ParseBytes`, the parser of package `cron`, and
`url.ParseRequestURI`. The last three only with whether they end without an error. -/
structure Env where
  tables : Tables
  stat : Str → Except StatErr FileInfo
  absOk : Str → Bool
  parseBytes : Str → Bool
  parseSchedule : Str → Bool
  parseRequestURI : Str → Bool

section

variable (env : Env)

/-- `FileExists` of a file that is dereferenced. On an error other than that there is no
such file it goes on with what `os.Stat` has not returned. -/
def fileExists (path : Str) : Check Fault :=
  match env.stat path with
  | .error .notExist => .error (.error (.file .noSuchFile))
  | .error .other => .error (.panic .nilPointer)
  | .ok info => require info.isRegular (.error (.file .notRegularFile))

def isExecutable (path : Str) : Bool :=
  match env.stat path with
  | .error _ => false
  | .ok info => info.executable

def dirExists (path : Str) : Check DirErr :=
  match env.stat path with
  | .error _ =>
      if isAbs path then .error .noSuchDir
      else if env.absOk path then .error .noSuchRelativeDir
      else .error .unusableDirPath
  | .ok info => require info.isDir .notADir

def validateDir (dir paramName : Str) : Check Fault :=
  (dirExists env dir).under fun e => .error (.dir paramName dir e)

def stringInSlice (str : Str) (list : List Str) : Bool := list.any fun val => val = str

def stringParameterToBoolean (parameter : Str) : Bool :=
  stringInSlice (toLower env.tables parameter) ["yes".toList, "no".toList] ||
    stringInSlice parameter ["1".toList, "t".toList, "T".toList, "true".toList, "TRUE".toList, "True".toList,
      "0".toList, "f".toList, "F".toList, "false".toList, "FALSE".toList, "False".toList]

/-! ### Targets -/

def validateTargetParametersAreKnown (parameters : List ConfigBackupTargetParams) (allowed : List Str) :
    Check ParamErr :=
  forAll (fun entry => require (stringInSlice (toLower env.tables entry.name) allowed) (.notKnown entry.name))
    parameters

def validateTargetRequiredParameters (parameters : List ConfigBackupTargetParams) (required : List Str) :
    Check ParamErr :=
  forAll (fun param => require (parameters.any fun entry => toLower env.tables entry.name = param)
    (.requiredMissing param)) required

def validateBackupTargetParametersForTestNull (parameters : List ConfigBackupTargetParams) : Check ParamErr :=
  forAll (fun entry =>
    if equalFold env.tables entry.name "persist_dir".toList then
      (require (entry.value ≠ []) .emptyPersistDir).andThen
        (require (isAbs entry.value) (.persistDirNotAbs entry.value))
    else .ok ()) parameters

def s3Parameters : List Str :=
  ["aws_access_key_id".toList, "aws_secret_access_key".toList, "storage_class".toList, "region".toList]

def s3StorageClasses : List Str :=
  ["STANDARD".toList, "REDUCED_REDUNDANCY".toList, "STANDARD_IA".toList, "ONEZONE_IA".toList,
    "INTELLIGENT_TIERING".toList]

def isSet (parameters : List ConfigBackupTargetParams) (name : Str) : Bool :=
  parameters.any fun entry => toLower env.tables entry.name = name && entry.value ≠ []

def validateBackupTargetParametersForS3 (parameters : List ConfigBackupTargetParams) : Check ParamErr :=
  let foundKeyId := isSet env parameters "aws_access_key_id".toList
  let foundPrivateKey := isSet env parameters "aws_secret_access_key".toList
  (validateTargetParametersAreKnown env parameters s3Parameters).andThen <|
    (forAll (fun entry =>
      if toLower env.tables entry.name = "storage_class".toList then
        require (stringInSlice entry.value s3StorageClasses) (.notAccepted entry.name entry.value)
      else if toLower env.tables entry.name = "region".toList then require (entry.value ≠ []) .emptyRegion
      else .ok ()) parameters).andThen <|
    (require (!foundKeyId || foundPrivateKey) .secretMissing).andThen
      (require (foundKeyId || !foundPrivateKey) .keyIdMissing)

def gcpCredentialParameters : List Str :=
  ["type".toList, "project_id".toList, "private_key_id".toList, "private_key".toList, "client_email".toList,
    "client_id".toList, "auth_uri".toList, "token_uri".toList, "auth_provider_x509_cert_url".toList,
    "client_x509_cert_url".toList]

def gcpParameters : List Str :=
  gcpCredentialParameters ++ ["storage_class".toList, "disable_crc32c_hash".toList]

def gcpStorageClasses : List Str :=
  ["multi_regional".toList, "regional".toList, "nearline".toList, "coldline".toList]

def validateGCPCredentials (parameters : List ConfigBackupTargetParams) : Check ParamErr :=
  match parameters.find? fun entry => stringInSlice (toLower env.tables entry.name) gcpCredentialParameters with
  | none => .ok ()
  | some found =>
      forAll (fun param => require (parameters.any fun entry => toLower env.tables entry.name = param)
        (.credentialMissing found.name param)) gcpCredentialParameters

def validateBackupTargetParametersForGCPStorage (parameters : List ConfigBackupTargetParams) : Check ParamErr :=
  (validateTargetParametersAreKnown env parameters gcpParameters).andThen <|
    (validateGCPCredentials env parameters).andThen <|
    forAll (fun entry =>
      if toLower env.tables entry.name = "storage_class".toList then
        require (stringInSlice entry.value gcpStorageClasses) (.notAccepted entry.name entry.value)
      else if toLower env.tables entry.name = "disable_crc32c_hash".toList then
        require (stringParameterToBoolean env entry.value) (.notAccepted entry.name entry.value)
      else .ok ()) parameters

def azureParameters : List Str :=
  ["storage_account".toList, "storage_access_key".toList, "primary_blob_service_endpoint".toList]

def validateBackupTargetParametersForAzureBlob (parameters : List ConfigBackupTargetParams) : Check ParamErr :=
  (validateTargetParametersAreKnown env parameters azureParameters).andThen <|
    (validateTargetRequiredParameters env parameters ["storage_account".toList, "storage_access_key".toList]).andThen <|
    forAll (fun entry =>
      if toLower env.tables entry.name = "primary_blob_service_endpoint".toList then
        (require (env.parseRequestURI entry.value) (.notAUrl entry.value)).andThen
          (require (!"http://".toList.isPrefixOf entry.value) (.httpUrl entry.value))
      else .ok ()) parameters

def awsS3 : Str := "aws_s3".toList

def gcpStorage : Str := "gcp_storage".toList

def azureBlob : Str := "azure_blob".toList

def testNull : Str := "test_null".toList

def validateParametersForType (parameters : List ConfigBackupTargetParams) (targetType : Str) : Check ParamErr :=
  if targetType = testNull then validateBackupTargetParametersForTestNull env parameters
  else if targetType = awsS3 then validateBackupTargetParametersForS3 env parameters
  else if targetType = gcpStorage then validateBackupTargetParametersForGCPStorage env parameters
  else if targetType = azureBlob then validateBackupTargetParametersForAzureBlob env parameters
  else .error .unknownTargetType

def validateBackupTargetParameters (parameters : List ConfigBackupTargetParams) (targetType : Str) :
    Check ParamErr :=
  if parameters = [] then .ok ()
  else
    (forAll (fun i => require (parameters.countP (fun j => equalFold env.tables i.name j.name) ≤ 1)
      (.duplicate i.name)) parameters).andThen
        (validateParametersForType env parameters targetType)

def backupTargetTypes : List Str := [awsS3, gcpStorage, azureBlob, testNull]

/-- A pass of the loop of `ValidateBackupTarget`, past the name. -/
def validateTarget (backupName : Str) (target : ConfigBackupTarget) : Check Fault :=
  (Check.under (fun e => Fault.error (.targetName target.name e)) (validateBackupOrTargetName target.name)).andThen <|
    (require (env.parseBytes target.rateLimit) (.error (.rateLimit target.name backupName target.rateLimit))).andThen <|
    (require (backupTargetTypes.any fun allowed => equalFold env.tables target.type allowed)
      (.error (.targetType target.name target.type))).andThen <|
    (validateBackupTargetParameters env target.parameters target.type).under fun e =>
      .error (.parameters backupName target.name target.type e)

def validateBackupTarget (targets : List ConfigBackupTarget) (backupName : Str) : Check Fault :=
  forAllNamed ConfigBackupTarget.name (fun target => .error (.duplicateTarget backupName target.name))
    (fun _ target => validateTarget env backupName target) targets

/-! ### Backups -/

def validatePrePostRunScript (path backupName : Str) : Check Fault :=
  (fileExists env path).andThen
    (require (isExecutable env path) (.error (.scriptNotExecutable path backupName)))

def validateBackupSchedule (schedules : List Str) (backupName : Str) : Check Fault :=
  forAll (fun expr =>
    (require (!isBlank expr) (.error (.emptySchedule backupName))).andThen
      (require (env.parseSchedule expr) (.error (.invalidSchedule backupName expr)))) schedules

/-- A pass of the loop of `ValidateBackup`, past the name. -/
def validateBackupEntry (i : ℕ) (backup : ConfigBackup) : Check Fault :=
  (require (backup.name.all isAscii) (.error (.backupNotAscii backup.name))).andThen <|
    (Check.under (fun e => Fault.error (.backupName backup.name e)) (validateBackupOrTargetName backup.name)).andThen <|
    (require (!backup.encrypt || backup.encryptPass ≠ []) (.error (.encryptPassNotSet i backup.name))).andThen <|
    (forAll (fun path => require (isAbs path) (.error (.pathNotAbs i backup.name path))) backup.paths).andThen <|
    (if backup.preRunScript = [] then .ok ()
      else validatePrePostRunScript env backup.preRunScript backup.name).andThen <|
    (if backup.postRunScript = [] then .ok ()
      else validatePrePostRunScript env backup.postRunScript backup.name).andThen <|
    (validateBackupTarget env backup.target backup.name).andThen <|
    validateBackupSchedule env backup.schedule backup.name

def validateBackup (backups : List ConfigBackup) : Check Fault :=
  forAllNamed ConfigBackup.name (fun backup => .error (.duplicateBackup backup.name)) (validateBackupEntry env)
    backups

/-! ### The other sections -/

def validateHttps (https : ConfigHttps) : Check Fault :=
  if https.enabled then
    (require (https.sslCertPath ≠ []) (.error .sslCertPathNotSet)).andThen <|
      (require (https.sslKeyPath ≠ []) (.error .sslKeyPathNotSet)).andThen <|
      (fileExists env https.sslCertPath).andThen (fileExists env https.sslKeyPath)
  else .ok ()

def notificationTypes : List Str :=
  ["started".toList, "finished".toList, "failed".toList, "cancelled".toList, "crashed".toList]

def validateNotificationCommand (commands : List ConfigNotificationScript) : Check Fault :=
  forAll (fun command =>
    (fileExists env command.path).andThen <|
      (require (isExecutable env command.path) (.error (.notificationNotExecutable command.path))).andThen <|
      forAll (fun type => require (stringInSlice type notificationTypes) (.error .notificationType)) command.type)
    commands

def isLocalhost (name : Str) : Bool :=
  toLower env.tables name = "localhost".toList || name = "127.0.0.1".toList || name = "::1".toList

def validateEmail (email : ConfigNotificationEmail) : Check Fault :=
  (require (!(email.user = [] && email.pass = [] && !isLocalhost env email.server))
      (.error (.emailAuthMandatory email.server))).andThen <|
    (require (!(email.user ≠ [] && email.pass = [])) (.error .emailPassMissing)).andThen <|
    (require (!(email.user = [] && email.pass ≠ [])) (.error .emailUserMissing)).andThen <|
    forAll (fun type => require (stringInSlice type notificationTypes) (.error (.emailType type))) email.type

def validateNotificationEmail (emails : List ConfigNotificationEmail) : Check Fault :=
  forAll (validateEmail env) emails

/-- `CheckStringIsOnly` of stars. -/
def isStars (val : Str) : Bool := val ≠ [] && val.all fun c => c = '*'

def validateUserEntry (hiddenPass : Bool) (user : ConfigUser) : Check Fault :=
  (require ("$2".toList.isPrefixOf user.pass || (hiddenPass && isStars user.pass))
      (.error (.notBcrypt user.name))).andThen <|
    require (stringInSlice (toLower env.tables user.access) ["read".toList, "write".toList])
      (.error (.access user.name user.access))

def validateUser (users : List ConfigUser) (hiddenPass : Bool) : Check Fault :=
  forAllNamed ConfigUser.name (fun user => .error (.duplicateUser user.name))
    (fun _ user => validateUserEntry env hiddenPass user) users

def validate (config : CfgTemplate) (hiddenPass : Bool) : Check Fault :=
  (validateDir env config.dataDir "data_dir".toList).andThen <|
    (validateDir env config.htmlDir "html_dir".toList).andThen <|
    (if config.restoreDir = [] then .ok () else validateDir env config.restoreDir "restore_dir".toList).andThen <|
    (validateHttps env config.https).andThen <|
    (validateBackup env config.backup).andThen <|
    (validateUser env config.user hiddenPass).andThen <|
    (validateNotificationCommand env config.notifications.script).andThen <|
    validateNotificationEmail env config.notifications.email

end

/-! ### What is accepted -/

section

variable {env : Env}

structure SystemOk (env : Env) (config : CfgTemplate) : Prop where
  dataDir : validateDir env config.dataDir "data_dir".toList = .ok ()
  htmlDir : validateDir env config.htmlDir "html_dir".toList = .ok ()
  restoreDir : config.restoreDir = [] ∨ validateDir env config.restoreDir "restore_dir".toList = .ok ()
  https : validateHttps env config.https = .ok ()

theorem validate_ok {config : CfgTemplate} {hiddenPass : Bool} : validate env config hiddenPass = .ok () ↔
    SystemOk env config ∧ validateBackup env config.backup = .ok () ∧
      validateUser env config.user hiddenPass = .ok () ∧
      validateNotificationCommand env config.notifications.script = .ok () ∧
      validateNotificationEmail env config.notifications.email = .ok () := by
  have hrestore : (if config.restoreDir = [] then .ok () else
      validateDir env config.restoreDir "restore_dir".toList) = .ok () ↔
      config.restoreDir = [] ∨ validateDir env config.restoreDir "restore_dir".toList = .ok () := by
    split <;> simp_all
  simp only [validate, andThen_ok, hrestore]
  constructor
  · rintro ⟨hdata, hhtml, hrest, hhttps, hsections⟩
    exact ⟨⟨hdata, hhtml, hrest, hhttps⟩, hsections⟩
  · rintro ⟨⟨hdata, hhtml, hrest, hhttps⟩, hsections⟩
    exact ⟨hdata, hhtml, hrest, hhttps, hsections⟩

/-- The place of a backup is there only for the message. -/
theorem validateBackupEntry_ok_place {i j : ℕ} {b : ConfigBackup} (h : validateBackupEntry env i b = .ok ()) :
    validateBackupEntry env j b = .ok () := by
  simp only [validateBackupEntry, andThen_ok, require_ok, forAll_ok] at h ⊢
  exact h

theorem validateBackup_ok {backups : List ConfigBackup} : validateBackup env backups = .ok () ↔
    (backups.map ConfigBackup.name).Nodup ∧ ∀ b ∈ backups, validateBackupEntry env 0 b = .ok () := by
  rw [validateBackup]
  refine forAllNamed_ok ?_
  intro i j b h
  exact validateBackupEntry_ok_place h

theorem validateBackupTarget_ok {targets : List ConfigBackupTarget} {backupName : Str} :
    validateBackupTarget env targets backupName = .ok () ↔
      (targets.map ConfigBackupTarget.name).Nodup ∧ ∀ t ∈ targets, validateTarget env backupName t = .ok () := by
  rw [validateBackupTarget]
  refine forAllNamed_ok ?_
  intro _ _ _ h
  exact h

theorem validateUser_ok {users : List ConfigUser} {hiddenPass : Bool} :
    validateUser env users hiddenPass = .ok () ↔
      (users.map ConfigUser.name).Nodup ∧ ∀ user ∈ users, validateUserEntry env hiddenPass user = .ok () := by
  rw [validateUser]
  refine forAllNamed_ok ?_
  intro _ _ _ h
  exact h

theorem validateNotificationEmail_ok {emails : List ConfigNotificationEmail} :
    validateNotificationEmail env emails = .ok () ↔ ∀ e ∈ emails, validateEmail env e = .ok () :=
  forAll_ok

theorem countP_of_validateTarget {backupName : Str} {t : ConfigBackupTarget}
    (h : validateTarget env backupName t = .ok ()) {p : ConfigBackupTargetParams} (hp : p ∈ t.parameters) :
    t.parameters.countP (fun q => equalFold env.tables p.name q.name) ≤ 1 := by
  simp only [validateTarget, andThen_ok, under_ok] at h
  have hparams := h.2.2.2
  rw [validateBackupTargetParameters, if_neg (List.ne_nil_of_mem hp), andThen_ok, forAll_ok] at hparams
  have hcount := hparams.1 p hp
  rwa [require_ok, decide_eq_true_iff] at hcount

theorem pass_ne_nil_of_validateUserEntry {user : ConfigUser} (h : validateUserEntry env false user = .ok ()) :
    user.pass ≠ [] := by
  simp only [validateUserEntry, andThen_ok, require_ok, Bool.false_and, Bool.or_false] at h
  intro hnil
  rw [hnil] at h
  exact absurd h.1 (by decide)

theorem pass_eq_nil_iff_of_validateEmail {email : ConfigNotificationEmail}
    (h : validateEmail env email = .ok ()) : email.pass = [] ↔ email.user = [] := by
  simp only [validateEmail, andThen_ok, require_ok] at h
  obtain ⟨-, hpass, huser, -⟩ := h
  by_cases hu : email.user = [] <;> by_cases hp : email.pass = [] <;> simp_all

def Fault.InRange (e : Fault) : Prop := e ≠ .panic .indexOutOfRange

theorem inRange_error (e : CfgErr) : (Fault.error e).InRange := by simp [Fault.InRange]

theorem fileExists_inRange (path : Str) : (fileExists env path).Errs Fault.InRange := by
  intro e h
  unfold fileExists at h
  split at h
  · cases h
    exact inRange_error _
  · cases h
    simp [Fault.InRange]
  · exact errs_require (inRange_error _) e h

theorem validateTarget_inRange (backupName : Str) (t : ConfigBackupTarget) :
    (validateTarget env backupName t).Errs Fault.InRange :=
  (errs_under (fun _ => inRange_error _) _).andThen <| (errs_require (inRange_error _)).andThen <|
    (errs_require (inRange_error _)).andThen (errs_under (fun _ => inRange_error _) _)

theorem validateScript_inRange (path backupName : Str) :
    (if path = [] then .ok () else validatePrePostRunScript env path backupName).Errs Fault.InRange := by
  split
  · exact errs_ok
  · exact (fileExists_inRange path).andThen (errs_require (inRange_error _))

theorem validateBackupEntry_inRange (i : ℕ) (b : ConfigBackup) :
    (validateBackupEntry env i b).Errs Fault.InRange :=
  (errs_require (inRange_error _)).andThen <| (errs_under (fun _ => inRange_error _) _).andThen <|
    (errs_require (inRange_error _)).andThen <|
    (errs_forAll (fun _ => errs_require (inRange_error _)) _).andThen <|
    (validateScript_inRange _ _).andThen <| (validateScript_inRange _ _).andThen <|
    (errs_forAllNamed (fun _ => inRange_error _) (fun _ t => validateTarget_inRange _ t) _).andThen <|
    errs_forAll (fun _ => (errs_require (inRange_error _)).andThen (errs_require (inRange_error _))) _

theorem validateBackup_inRange (bs : List ConfigBackup) : (validateBackup env bs).Errs Fault.InRange :=
  errs_forAllNamed (fun _ => inRange_error _) validateBackupEntry_inRange bs

theorem validateHttps_inRange (https : ConfigHttps) : (validateHttps env https).Errs Fault.InRange := by
  unfold validateHttps
  split
  · exact (errs_require (inRange_error _)).andThen <| (errs_require (inRange_error _)).andThen <|
      (fileExists_inRange _).andThen (fileExists_inRange _)
  · exact errs_ok

theorem validate_inRange (c : CfgTemplate) (hiddenPass : Bool) : (validate env c hiddenPass).Errs Fault.InRange := by
  have hdir : ∀ dir name, (validateDir env dir name).Errs Fault.InRange :=
    fun _ _ => errs_under (fun _ => inRange_error _) _
  have hrestore : (if c.restoreDir = [] then .ok () else
      validateDir env c.restoreDir "restore_dir".toList).Errs Fault.InRange := by
    split
    · exact errs_ok
    · exact hdir _ _
  have huser : (validateUser env c.user hiddenPass).Errs Fault.InRange :=
    errs_forAllNamed (fun _ => inRange_error _)
      (fun _ _ => (errs_require (inRange_error _)).andThen (errs_require (inRange_error _))) _
  have hscript : (validateNotificationCommand env c.notifications.script).Errs Fault.InRange :=
    errs_forAll (fun _ => (fileExists_inRange _).andThen <| (errs_require (inRange_error _)).andThen <|
      errs_forAll (fun _ => errs_require (inRange_error _)) _) _
  have hemail : (validateNotificationEmail env c.notifications.email).Errs Fault.InRange :=
    errs_forAll (fun _ => (errs_require (inRange_error _)).andThen <| (errs_require (inRange_error _)).andThen <|
      (errs_require (inRange_error _)).andThen <| errs_forAll (fun _ => errs_require (inRange_error _)) _) _
  exact (hdir _ _).andThen <| (hdir _ _).andThen <| hrestore.andThen <| (validateHttps_inRange _).andThen <|
    (validateBackup_inRange _).andThen <| huser.andThen <| hscript.andThen hemail

end

def smallEnv : Env where
  tables := .plain
  stat path :=
    if path = "/data".toList ∨ path = "webstatic".toList then .ok { isDir := true, isRegular := false }
    else .error .notExist
  absOk _ := true
  parseBytes s := s = ['0']
  parseSchedule s := s = "@daily".toList
  parseRequestURI _ := true

end CloudBackup.Config
