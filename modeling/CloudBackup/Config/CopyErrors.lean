import CloudBackup.Config.CopyPasswords

/-!
What `CopyPasswordsFromOldConfig` says when there is nothing to copy. Its message should tell
what is missing and nothing of the secrets that are there. The one about an email is put
together with the password of the old email in the same place: this one is somebody else's, or
there is none, and then the place is out of range.

That a text does not tell the secrets of a configuration is said by the texts for all
configurations that differ from it only there: they are the same.
-/

namespace CloudBackup.Config

open Database Casing Checks

/-! ### The texts -/

def noSecretText (name : Str) : NoSecret → Str
  | .noBackup => "there isn't a backup section having the same name so there is nothing to copy from".toList
  | .noTarget =>
      ("the backup section having the same name does not also have a target with a matching name and matching " ++
        "type so there is nothing to copy from").toList
  | .emptyValue =>
      ("the backup section having the same name and target with a matching name and matching type does have " ++
        "a '").toList ++ name ++ "' parameter but its value is an empty string".toList
  | .noParameter =>
      ("the backup section having the same name and target with a matching name and matching type does not have " ++
        "a '").toList ++ name ++ "' parameter so the value can't be copied".toList

def noSuchEmailText (user server pass : Str) : Str :=
  ("in the notifications section, username '".toList ++ user ++ "' configured for email(SMTP) server '".toList ++
    server ++ "' has a password of '".toList) ++ (pass ++
    ("' which implies the password should be copied from the current(active) configuration but no such " ++
      "username + server address was found in the current configuration").toList)

def copyText : CfgErr → Option Str
  | .noSuchUser name pass =>
      some ("username '".toList ++ name ++ "' has a password of '".toList ++ pass ++
        ("' which implies the password should be copied from the current(active) configuration but no such " ++
          "username was found in the current configuration").toList)
  | .encryptPassUnset name pass =>
      some ("backup having name '".toList ++ name ++ "' has an 'encrypt_pass' of '".toList ++ pass ++
        ("' which implies the password should be copied from the current(active) configuration but in the current " ++
          "configuration there isn't a password set for 'encrypt_pass' so there is nothing to copy from").toList)
  | .encryptPassNoBackup name pass =>
      some ("backup having name '".toList ++ name ++ "' has an 'encrypt_pass' of '".toList ++ pass ++
        ("' which implies the password should be copied from the current(active) configuration but no backup with " ++
          "the same name was found in the current configuration").toList)
  | .noSecret backupName targetName name value why =>
      some ("backup having name '".toList ++ backupName ++ "' and target '".toList ++ targetName ++
        "' has secret parameter '".toList ++ name ++ "' with value '".toList ++ value ++
        ("' which implies the value should be copied from the current(active) configuration but in the current " ++
          "configuration ").toList ++ noSecretText name why)
  | .noSuchEmail user server pass => some (noSuchEmailText user server pass)
  | _ => none

def faultText : Fault → Option Str
  | .error e => copyText e
  | .panic _ => none

/-! ### What is missing -/

section

variable (u : Tables)

/-- The user has stars for a password, and the old configuration has no such user. -/
def MissingUser (old : List ConfigUser) (new : ConfigUser) : Prop :=
  isStars new.pass = true ∧ old.find? (fun o => o.name = new.name) = none

/-- The backup has stars for its password, and the old configuration has no such backup, or one
without a password. -/
def MissingEncryptPass (old : List ConfigBackup) (new : ConfigBackup) : Prop :=
  isStars new.encryptPass = true ∧
    ∀ o, old.find? (fun o => o.name = new.name) = some o → o.encryptPass = []

/-- The value that the old configuration has for a parameter: the first one of the name, of the
first target of the name and type, of the first backup of the name. -/
def matchingValue (old : List ConfigBackup) (backup : ConfigBackup) (target : ConfigBackupTarget) (name : Str) :
    Option Str :=
  ((old.find? fun o => o.name = backup.name).bind fun oldBackup =>
    (oldBackup.target.find? fun o => o.name = target.name && o.type = target.type).bind fun oldTarget =>
      oldTarget.parameters.find? fun o => equalFold u o.name name).map ConfigBackupTargetParams.value

/-- The secret parameter has stars for a value, and the old configuration has no such parameter,
or one without a value. -/
def MissingParameter (old : List ConfigBackup) (backup : ConfigBackup) (target : ConfigBackupTarget)
    (p : ConfigBackupTargetParams) : Prop :=
  (isSecretName u p.name = true ∧ isStars p.value = true) ∧
    ∀ v, matchingValue u old backup target p.name = some v → v = []

def MissingInBackup (old : List ConfigBackup) (new : ConfigBackup) : Prop :=
  MissingEncryptPass old new ∨ ∃ t ∈ new.target, ∃ p ∈ t.parameters, MissingParameter u old new t p

/-- The email has stars for a password, and the old configuration has none for this server and user. -/
def MissingEmail (old : List ConfigNotificationEmail) (new : ConfigNotificationEmail) : Prop :=
  isStars new.pass = true ∧ firstEmail old new.server new.user = none

def SecretMissing (new old : CfgTemplate) : Prop :=
  (∃ x ∈ new.user, MissingUser old.user x) ∨ (∃ b ∈ new.backup, MissingInBackup u old.backup b) ∨
    ∃ e ∈ new.notifications.email, MissingEmail old.notifications.email e

/-! ### What is not told -/

def blankUser (user : ConfigUser) : ConfigUser := { user with pass := masked user.pass }

def blankParameter (p : ConfigBackupTargetParams) : ConfigBackupTargetParams := { p with value := masked p.value }

def blankTarget (t : ConfigBackupTarget) : ConfigBackupTarget :=
  { t with parameters := t.parameters.map blankParameter }

def blankBackup (b : ConfigBackup) : ConfigBackup :=
  { b with encryptPass := masked b.encryptPass, target := b.target.map blankTarget }

def blankEmail (email : ConfigNotificationEmail) : ConfigNotificationEmail := { email with pass := masked email.pass }

/-- The configuration with all that may be secret masked: every password, and the value of
every parameter. -/
def blankSecrets (config : CfgTemplate) : CfgTemplate :=
  { config with
    user := config.user.map blankUser
    backup := config.backup.map blankBackup
    notifications := { config.notifications with email := config.notifications.email.map blankEmail } }

/-- It never indexes out of range; it fails just when a secret is missing; and the text of its
error is the same for all old configurations that differ only in their secrets. -/
structure CopiesCleanly (new old : CfgTemplate) : Prop where
  inRange : ∀ p, copyPasswordsFromOldConfig u new old ≠ .error (.panic p)
  fails_iff : (∃ e, copyPasswordsFromOldConfig u new old = .error (.error e)) ↔ SecretMissing u new old
  silent : ∀ old', blankSecrets old' = blankSecrets old →
    (errorOf (copyPasswordsFromOldConfig u new old')).bind faultText =
      (errorOf (copyPasswordsFromOldConfig u new old)).bind faultText

/-- The first secret that is missing is the one of the email `e`. -/
structure EmailFirst (new old : CfgTemplate) (pre : List ConfigNotificationEmail) (e : ConfigNotificationEmail)
    (post : List ConfigNotificationEmail) : Prop where
  users : ∀ x ∈ new.user, ¬ MissingUser old.user x
  backups : ∀ b ∈ new.backup, ¬ MissingInBackup u old.backup b
  emails : new.notifications.email = pre ++ e :: post
  before : ∀ x ∈ pre, ¬ MissingEmail old.notifications.email x
  missing : MissingEmail old.notifications.email e

/-- The first secret that is missing is the one of an email, and in its place the old
configuration has an email with a password, or no email at all. -/
def Misplaced (new old : CfgTemplate) : Prop :=
  ∃ pre e post, EmailFirst u new old pre e post ∧
    ∀ o, old.notifications.email[pre.length]? = some o → o.pass ≠ []

end

/-! ### The error of each part -/

section

variable {u : Tables}

theorem errorOf_copyUser_eq_none {old : List ConfigUser} {new : ConfigUser} :
    errorOf (copyUser old new) = none ↔ ¬ MissingUser old new := by
  rw [copyUser, MissingUser]
  cases hstars : isStars new.pass with
  | false => simp
  | true => cases hfind : old.find? (fun o => o.name = new.name) <;> simp

theorem errorOf_copyEncryptPass_eq_none {old : List ConfigBackup} {new : ConfigBackup} :
    errorOf (copyEncryptPass old new) = none ↔ ¬ MissingEncryptPass old new := by
  rw [copyEncryptPass, MissingEncryptPass]
  cases hstars : isStars new.encryptPass with
  | false => simp
  | true =>
      cases hfind : old.find? (fun o => o.name = new.name) with
      | none => simp
      | some o => by_cases hpass : o.encryptPass = [] <;> simp [hpass]

theorem oldValue_eq_ok_iff {old : List ConfigBackup} {backup : ConfigBackup} {target : ConfigBackupTarget}
    {name : Str} :
    errorOf (oldValue u old backup target name) = none ↔
      ¬ ∀ v, matchingValue u old backup target name = some v → v = [] := by
  rw [oldValue, matchingValue]
  cases old.find? fun entry => entry.name = backup.name with
  | none => simp
  | some oldBackup =>
      cases hold : oldBackup.target.find? fun t => t.name = target.name && t.type = target.type with
      | none => simp [hold]
      | some oldTarget =>
          cases hparam : oldTarget.parameters.find? fun o => equalFold u o.name name with
          | none => simp [hold, hparam]
          | some o => by_cases hvalue : o.value = [] <;> simp [hold, hparam, hvalue]

theorem errorOf_fillParameter {old : List ConfigBackup} {backup : ConfigBackup} {target : ConfigBackupTarget}
    {p : ConfigBackupTargetParams} : errorOf (fillParameter u old backup target p) =
      (errorOf (oldValue u old backup target p.name)).map fun why =>
        .error (.noSecret backup.name target.name p.name p.value why) := by
  rw [fillParameter]
  cases oldValue u old backup target p.name <;> rfl

theorem errorOf_copyParameter {old : List ConfigBackup} {backup : ConfigBackup} {target : ConfigBackupTarget}
    {p : ConfigBackupTargetParams} : errorOf (copyParameter u old backup target p) =
      if isSecretName u p.name = true ∧ isStars p.value = true then
        (errorOf (oldValue u old backup target p.name)).map fun why =>
          .error (.noSecret backup.name target.name p.name p.value why)
      else none := by
  rw [copyParameter_eq, ← errorOf_fillParameter]
  cases isSecretName u p.name <;> cases isStars p.value <;> rfl

theorem errorOf_copyParameter_eq_none {old : List ConfigBackup} {backup : ConfigBackup} {target : ConfigBackupTarget}
    {p : ConfigBackupTargetParams} :
    errorOf (copyParameter u old backup target p) = none ↔ ¬ MissingParameter u old backup target p := by
  rw [errorOf_copyParameter, MissingParameter]
  by_cases hstars : isSecretName u p.name = true ∧ isStars p.value = true
  · rw [if_pos hstars, Option.map_eq_none_iff, oldValue_eq_ok_iff, and_iff_right hstars]
  · rw [if_neg hstars]
    exact iff_of_true rfl fun h => hstars h.1

theorem errorOf_copyTarget {old : List ConfigBackup} {backup : ConfigBackup} {target : ConfigBackupTarget} :
    errorOf (copyTarget u old backup target) =
      errorOf (mapAll (copyParameter u old backup target) target.parameters) := by
  rw [copyTarget, errorOf_bind _ _ (n := none) fun _ _ => rfl, Option.or_none]

theorem copyTarget_congr {old : List ConfigBackup} {b b' : ConfigBackup} (h : b.name = b'.name) :
    copyTarget u old b = copyTarget u old b' := by
  have hparam : ∀ t, copyParameter u old b t = copyParameter u old b' t := by
    intro t
    funext p
    rw [copyParameter_eq, copyParameter_eq, fillParameter, fillParameter, oldValue, oldValue, h]
  funext t
  rw [copyTarget, copyTarget, hparam t]

/-- The error of a backup: first the one of its password, then those of its targets. -/
theorem errorOf_copyBackup {old : List ConfigBackup} {new : ConfigBackup} :
    errorOf (copyBackup u old new) =
      (errorOf (copyEncryptPass old new)).or (errorOf (mapAll (copyTarget u old new) new.target)) := by
  rw [copyBackup]
  refine errorOf_bind _ _ fun b hb => ?_
  -- with its password filled in, it is still the same backup
  have hsame : b.name = new.name ∧ b.target = new.target := by
    rw [copyEncryptPass] at hb
    split_ifs at hb with hstars
    · split at hb
      · split_ifs at hb
        obtain rfl := Except.ok.inj hb
        exact ⟨rfl, rfl⟩
      · cases hb
    · obtain rfl := Except.ok.inj hb
      exact ⟨rfl, rfl⟩
  rw [errorOf_bind _ _ (n := none) fun _ _ => rfl, Option.or_none, copyTarget_congr hsame.1, hsame.2]

theorem errorOf_copyTarget_eq_none {old : List ConfigBackup} {backup : ConfigBackup} {target : ConfigBackupTarget} :
    errorOf (copyTarget u old backup target) = none ↔
      ∀ p ∈ target.parameters, ¬ MissingParameter u old backup target p := by
  rw [errorOf_copyTarget, mapAll]
  exact errorOf_mapAllFrom_eq_none (f := fun _ => copyParameter u old backup target)
    fun _ _ => errorOf_copyParameter_eq_none

theorem errorOf_copyBackup_eq_none {old : List ConfigBackup} {new : ConfigBackup} :
    errorOf (copyBackup u old new) = none ↔ ¬ MissingInBackup u old new := by
  rw [errorOf_copyBackup, Option.or_eq_none_iff, errorOf_copyEncryptPass_eq_none, mapAll,
    errorOf_mapAllFrom_eq_none (f := fun _ => copyTarget u old new) fun _ _ => errorOf_copyTarget_eq_none,
    MissingInBackup]
  simp only [not_or, not_exists, not_and]

def missingEmailFault (new : ConfigNotificationEmail) : Option ConfigNotificationEmail → Fault
  | some o => .error (.noSuchEmail new.user new.server o.pass)
  | none => .panic .indexOutOfRange

theorem errorOf_copyEmail {old : List ConfigNotificationEmail} {i : ℕ} {new : ConfigNotificationEmail}
    (h : MissingEmail old new) : errorOf (copyEmail old i new) = some (missingEmailFault new old[i]?) := by
  have hfind : old.find? (fun o => o.server = new.server && o.user = new.user) = none := h.2
  rw [copyEmail, if_pos h.1, hfind]
  cases old[i]? <;> rfl

theorem errorOf_copyEmail_eq_none {old : List ConfigNotificationEmail} {i : ℕ} {new : ConfigNotificationEmail} :
    errorOf (copyEmail old i new) = none ↔ ¬ MissingEmail old new := by
  by_cases h : MissingEmail old new
  · rw [errorOf_copyEmail h]
    exact iff_of_false nofun fun hnot => hnot h
  · refine iff_of_true ?_ h
    rw [copyEmail]
    split_ifs with hstars
    · cases hfind : old.find? (fun o => o.server = new.server && o.user = new.user) with
      | some o => rfl
      | none => exact absurd ⟨hstars, hfind⟩ h
    · rfl

/-- The error of the whole: that of the users, or that of the backups, or that of the emails. -/
theorem errorOf_copyPasswords (new old : CfgTemplate) : errorOf (copyPasswordsFromOldConfig u new old) =
    (errorOf (copyPasswordsFromOldConfigUser new.user old.user)).or
      ((errorOf (copyPasswordsFromOldConfigBackup u new.backup old.backup)).or
        (errorOf (copyPasswordsFromOldConfigNotificationsEmails new.notifications.email
          old.notifications.email))) := by
  rw [copyPasswordsFromOldConfig]
  refine errorOf_bind _ _ fun _ _ => errorOf_bind _ _ fun _ _ => ?_
  rw [errorOf_bind _ _ (n := none) fun _ _ => rfl, Option.or_none]

theorem errorOf_copyUsers_eq_none {new old : List ConfigUser} :
    errorOf (copyPasswordsFromOldConfigUser new old) = none ↔ ∀ x ∈ new, ¬ MissingUser old x :=
  errorOf_mapAllFrom_eq_none (f := fun _ => copyUser old) fun _ _ => errorOf_copyUser_eq_none

theorem errorOf_copyBackups_eq_none {new old : List ConfigBackup} :
    errorOf (copyPasswordsFromOldConfigBackup u new old) = none ↔ ∀ b ∈ new, ¬ MissingInBackup u old b :=
  errorOf_mapAllFrom_eq_none (f := fun _ => copyBackup u old) fun _ _ => errorOf_copyBackup_eq_none

theorem errorOf_copyEmails_eq_none {new old : List ConfigNotificationEmail} :
    errorOf (copyPasswordsFromOldConfigNotificationsEmails new old) = none ↔ ∀ e ∈ new, ¬ MissingEmail old e :=
  errorOf_mapAllFrom_eq_none (f := copyEmail old) fun _ _ => errorOf_copyEmail_eq_none

/-- It fails just when a secret is missing, if in one way or the other. -/
theorem errorOf_copyPasswords_eq_none {new old : CfgTemplate} :
    errorOf (copyPasswordsFromOldConfig u new old) = none ↔ ¬ SecretMissing u new old := by
  rw [errorOf_copyPasswords, Option.or_eq_none_iff, Option.or_eq_none_iff, errorOf_copyUsers_eq_none,
    errorOf_copyBackups_eq_none, errorOf_copyEmails_eq_none, SecretMissing]
  simp only [not_or, not_exists, not_and]

/-! ### Without the secrets -/

theorem find?_blankUser (old : List ConfigUser) (name : Str) :
    (old.map blankUser).find? (fun o => o.name = name) = (old.find? fun o => o.name = name).map blankUser := by
  rw [List.find?_map]
  rfl

theorem find?_blankBackup (old : List ConfigBackup) (name : Str) :
    (old.map blankBackup).find? (fun o => o.name = name) = (old.find? fun o => o.name = name).map blankBackup := by
  rw [List.find?_map]
  rfl

theorem find?_blankTarget (old : List ConfigBackupTarget) (name type : Str) :
    (old.map blankTarget).find? (fun o => o.name = name && o.type = type) =
      (old.find? fun o => o.name = name && o.type = type).map blankTarget := by
  rw [List.find?_map]
  rfl

theorem find?_blankParameter (old : List ConfigBackupTargetParams) (name : Str) :
    (old.map blankParameter).find? (fun o => equalFold u o.name name) =
      (old.find? fun o => equalFold u o.name name).map blankParameter := by
  rw [List.find?_map]
  rfl

theorem firstEmail_blank (old : List ConfigNotificationEmail) (server user : Str) :
    firstEmail (old.map blankEmail) server user = (firstEmail old server user).map blankEmail := by
  rw [firstEmail, List.find?_map]
  rfl

theorem masked_eq_nil {s : Str} : masked s = [] ↔ s = [] := by
  rw [masked]
  split_ifs with h <;> simp [h]

theorem errorOf_copyUser_blank (old : List ConfigUser) (new : ConfigUser) :
    errorOf (copyUser (old.map blankUser) new) = errorOf (copyUser old new) := by
  rw [copyUser, copyUser, find?_blankUser]
  cases isStars new.pass with
  | false => rfl
  | true => cases old.find? (fun o => o.name = new.name) <;> rfl

theorem errorOf_copyEncryptPass_blank (old : List ConfigBackup) (new : ConfigBackup) :
    errorOf (copyEncryptPass (old.map blankBackup) new) = errorOf (copyEncryptPass old new) := by
  rw [copyEncryptPass, copyEncryptPass, find?_blankBackup]
  cases isStars new.encryptPass with
  | false => rfl
  | true =>
      cases old.find? (fun o => o.name = new.name) with
      | none => rfl
      | some o => by_cases hpass : o.encryptPass = [] <;> simp [blankBackup, masked_eq_nil, hpass]

theorem errorOf_oldValue_blank (old : List ConfigBackup) (backup : ConfigBackup) (target : ConfigBackupTarget)
    (name : Str) :
    errorOf (oldValue u (old.map blankBackup) backup target name) = errorOf (oldValue u old backup target name) := by
  rw [oldValue, oldValue, find?_blankBackup]
  cases old.find? fun entry => entry.name = backup.name with
  | none => rfl
  | some oldBackup =>
      simp only [Option.map_some, blankBackup, find?_blankTarget]
      cases oldBackup.target.find? fun t => t.name = target.name && t.type = target.type with
      | none => rfl
      | some oldTarget =>
          simp only [Option.map_some, blankTarget, find?_blankParameter]
          cases oldTarget.parameters.find? fun o => equalFold u o.name name with
          | none => rfl
          | some o => by_cases hvalue : o.value = [] <;> simp [blankParameter, masked_eq_nil, hvalue]

theorem errorOf_copyBackup_blank (old : List ConfigBackup) (new : ConfigBackup) :
    errorOf (copyBackup u (old.map blankBackup) new) = errorOf (copyBackup u old new) := by
  have htarget : ∀ t, errorOf (copyTarget u (old.map blankBackup) new t) = errorOf (copyTarget u old new t) := by
    intro t
    rw [errorOf_copyTarget, errorOf_copyTarget]
    refine errorOf_mapAllFrom_congr (fun _ p => ?_) 0 _
    rw [errorOf_copyParameter, errorOf_copyParameter, errorOf_oldValue_blank]
  rw [errorOf_copyBackup, errorOf_copyBackup, errorOf_copyEncryptPass_blank]
  congr 1
  exact errorOf_mapAllFrom_congr (fun _ t => htarget t) 0 _

theorem missingEmail_blank {old : List ConfigNotificationEmail} {new : ConfigNotificationEmail} :
    MissingEmail (old.map blankEmail) new ↔ MissingEmail old new := by
  rw [MissingEmail, MissingEmail, firstEmail_blank, Option.map_eq_none_iff]

theorem errorOf_copyUsers_blank (new old : List ConfigUser) :
    errorOf (copyPasswordsFromOldConfigUser new (old.map blankUser)) =
      errorOf (copyPasswordsFromOldConfigUser new old) :=
  errorOf_mapAllFrom_congr (fun _ x => errorOf_copyUser_blank old x) 0 new

theorem errorOf_copyBackups_blank (new old : List ConfigBackup) :
    errorOf (copyPasswordsFromOldConfigBackup u new (old.map blankBackup)) =
      errorOf (copyPasswordsFromOldConfigBackup u new old) :=
  errorOf_mapAllFrom_congr (fun _ x => errorOf_copyBackup_blank old x) 0 new

theorem missingUser_blank {old : List ConfigUser} {new : ConfigUser} :
    MissingUser (old.map blankUser) new ↔ MissingUser old new := by
  rw [← not_iff_not, ← errorOf_copyUser_eq_none, ← errorOf_copyUser_eq_none, errorOf_copyUser_blank]

theorem missingInBackup_blank {old : List ConfigBackup} {new : ConfigBackup} :
    MissingInBackup u (old.map blankBackup) new ↔ MissingInBackup u old new := by
  rw [← not_iff_not, ← errorOf_copyBackup_eq_none, ← errorOf_copyBackup_eq_none, errorOf_copyBackup_blank]

theorem emailFirst_blank {new old : CfgTemplate} {pre post : List ConfigNotificationEmail}
    {e : ConfigNotificationEmail} :
    EmailFirst u new (blankSecrets old) pre e post ↔ EmailFirst u new old pre e post := by
  constructor
  · rintro ⟨husers, hbackups, hemails, hbefore, hmissing⟩
    exact ⟨fun x hx h => husers x hx (missingUser_blank.mpr h),
      fun b hb h => hbackups b hb (missingInBackup_blank.mpr h), hemails,
      fun x hx h => hbefore x hx (missingEmail_blank.mpr h), missingEmail_blank.mp hmissing⟩
  · rintro ⟨husers, hbackups, hemails, hbefore, hmissing⟩
    exact ⟨fun x hx h => husers x hx (missingUser_blank.mp h),
      fun b hb h => hbackups b hb (missingInBackup_blank.mp h), hemails,
      fun x hx h => hbefore x hx (missingEmail_blank.mp h), missingEmail_blank.mpr hmissing⟩

/-- Whether the message is put together from a wrong email does not depend on the secrets. -/
theorem misplaced_blank {new old : CfgTemplate} : Misplaced u new (blankSecrets old) ↔ Misplaced u new old := by
  have hplace : ∀ i : ℕ, (∀ o, (old.notifications.email.map blankEmail)[i]? = some o → o.pass ≠ []) ↔
      ∀ o, old.notifications.email[i]? = some o → o.pass ≠ [] := by
    intro i
    rw [List.getElem?_map]
    cases old.notifications.email[i]? with
    | none => simp
    | some o => simp [blankEmail, masked_eq_nil]
  constructor
  · rintro ⟨pre, e, post, h, hold⟩
    exact ⟨pre, e, post, emailFirst_blank.mp h, (hplace _).mp hold⟩
  · rintro ⟨pre, e, post, h, hold⟩
    exact ⟨pre, e, post, emailFirst_blank.mpr h, (hplace _).mpr hold⟩

/-! ### The message about an email -/

theorem EmailFirst.errorOf_eq {new old : CfgTemplate} {pre post : List ConfigNotificationEmail}
    {e : ConfigNotificationEmail} (h : EmailFirst u new old pre e post) :
    errorOf (copyPasswordsFromOldConfig u new old) =
      some (missingEmailFault e old.notifications.email[pre.length]?) := by
  have hemails : errorOf (copyPasswordsFromOldConfigNotificationsEmails new.notifications.email
      old.notifications.email) = some (missingEmailFault e old.notifications.email[pre.length]?) := by
    refine (errorOf_mapAllFrom_eq_some (f := copyEmail old.notifications.email)
      fun _ _ => errorOf_copyEmail_eq_none).mpr ⟨pre, e, post, h.emails, h.before, ?_⟩
    rw [errorOf_copyEmail h.missing, Nat.zero_add]
  rw [errorOf_copyPasswords, errorOf_copyUsers_eq_none.mpr h.users, errorOf_copyBackups_eq_none.mpr h.backups,
    hemails]
  rfl

/-- If there is an error at all, then it comes from the users, from the backups, or from the
first email that is missing. -/
theorem exists_emailFirst {new old : CfgTemplate} (husers : ∀ x ∈ new.user, ¬ MissingUser old.user x)
    (hbackups : ∀ b ∈ new.backup, ¬ MissingInBackup u old.backup b)
    (hmissing : ∃ e ∈ new.notifications.email, MissingEmail old.notifications.email e) :
    ∃ pre e post, EmailFirst u new old pre e post := by
  have hfails : errorOf (copyPasswordsFromOldConfigNotificationsEmails new.notifications.email
      old.notifications.email) ≠ none := by
    rw [ne_eq, errorOf_copyEmails_eq_none]
    push Not
    exact hmissing
  obtain ⟨fault, hfault⟩ := Option.ne_none_iff_exists'.mp hfails
  obtain ⟨pre, e, post, hemails, hpre, he⟩ := (errorOf_mapAllFrom_eq_some (f := copyEmail old.notifications.email)
    fun _ _ => errorOf_copyEmail_eq_none).mp hfault
  refine ⟨pre, e, post, husers, hbackups, hemails, hpre, ?_⟩
  by_contra hnot
  cases (errorOf_copyEmail_eq_none.mpr hnot).symm.trans he

theorem isError_of_copyUsers {new old : List ConfigUser} {fault : Fault}
    (h : errorOf (copyPasswordsFromOldConfigUser new old) = some fault) : ∃ e, fault = .error e := by
  obtain ⟨-, x, -, hx⟩ := mapAllFrom_error (errorOf_eq_some.mp h)
  rw [copyUser] at hx
  split_ifs at hx
  split at hx
  · cases hx
  · cases hx
    exact ⟨_, rfl⟩

theorem isError_of_copyBackups {new old : List ConfigBackup} {fault : Fault}
    (h : errorOf (copyPasswordsFromOldConfigBackup u new old) = some fault) : ∃ e, fault = .error e := by
  obtain ⟨-, b, -, hb⟩ := mapAllFrom_error (errorOf_eq_some.mp h)
  have hb := errorOf_eq_some.mpr hb
  rw [errorOf_copyBackup, Option.or_eq_some_iff] at hb
  rcases hb with hpass | ⟨-, htargets⟩
  · rw [copyEncryptPass] at hpass
    split_ifs at hpass
    · split at hpass
      · split_ifs at hpass
        · cases hpass
        · cases hpass
          exact ⟨_, rfl⟩
      · cases hpass
        exact ⟨_, rfl⟩
    · cases hpass
  · obtain ⟨-, t, -, ht⟩ := mapAllFrom_error (errorOf_eq_some.mp htargets)
    have ht := errorOf_eq_some.mpr ht
    rw [errorOf_copyTarget] at ht
    obtain ⟨-, p, -, hp⟩ := mapAllFrom_error (errorOf_eq_some.mp ht)
    have hp := errorOf_eq_some.mpr hp
    rw [errorOf_copyParameter] at hp
    split_ifs at hp
    obtain ⟨why, -, rfl⟩ := Option.map_eq_some_iff.mp hp
    exact ⟨_, rfl⟩

/-- An email in its place that has no password has none that could be told. -/
theorem EmailFirst.errorOf_of_noPass {new old : CfgTemplate} {pre post : List ConfigNotificationEmail}
    {e o : ConfigNotificationEmail} (h : EmailFirst u new old pre e post)
    (ho : old.notifications.email[pre.length]? = some o) (hpass : o.pass = []) :
    errorOf (copyPasswordsFromOldConfig u new (blankSecrets old)) = errorOf (copyPasswordsFromOldConfig u new old) ∧
      ∀ fault, errorOf (copyPasswordsFromOldConfig u new old) = some fault → ∃ e, fault = .error e := by
  have hblank : (blankSecrets old).notifications.email[pre.length]? = some (blankEmail o) := by
    show (old.notifications.email.map blankEmail)[pre.length]? = _
    rw [List.getElem?_map, ho]
    rfl
  have hpass' : (blankEmail o).pass = o.pass := by rw [blankEmail, hpass]; rfl
  rw [(emailFirst_blank.mpr h).errorOf_eq, h.errorOf_eq, hblank, ho]
  simp [missingEmailFault, hpass']

/-- The messages about users and backups tell nothing of the old secrets. -/
theorem errorOf_of_not_emailFirst {new old : CfgTemplate} (h : ¬ ∃ pre e post, EmailFirst u new old pre e post) :
    errorOf (copyPasswordsFromOldConfig u new (blankSecrets old)) = errorOf (copyPasswordsFromOldConfig u new old) ∧
      ∀ fault, errorOf (copyPasswordsFromOldConfig u new old) = some fault → ∃ e, fault = .error e := by
  rw [errorOf_copyPasswords new old, errorOf_copyPasswords new (blankSecrets old),
    show (blankSecrets old).user = old.user.map blankUser from rfl,
    show (blankSecrets old).backup = old.backup.map blankBackup from rfl, errorOf_copyUsers_blank,
    errorOf_copyBackups_blank]
  cases husers : errorOf (copyPasswordsFromOldConfigUser new.user old.user) with
  | some fault =>
      refine ⟨rfl, fun fault' h' => ?_⟩
      obtain rfl := Option.some.inj h'
      exact isError_of_copyUsers husers
  | none =>
      cases hbackups : errorOf (copyPasswordsFromOldConfigBackup u new.backup old.backup) with
      | some fault =>
          refine ⟨rfl, fun fault' h' => ?_⟩
          obtain rfl := Option.some.inj h'
          exact isError_of_copyBackups hbackups
      | none =>
          -- then no email is missing either
          have hemails : ∀ e ∈ new.notifications.email, ¬ MissingEmail old.notifications.email e := fun e he hmiss =>
            h (exists_emailFirst (errorOf_copyUsers_eq_none.mp husers)
              (errorOf_copyBackups_eq_none.mp hbackups) ⟨e, he, hmiss⟩)
          have hblank : ∀ e ∈ new.notifications.email, ¬ MissingEmail (blankSecrets old).notifications.email e :=
            fun e he hmiss => hemails e he (missingEmail_blank.mp hmiss)
          rw [errorOf_copyEmails_eq_none.mpr hemails, errorOf_copyEmails_eq_none.mpr hblank]
          exact ⟨rfl, fun fault h' => by cases h'⟩

/-- Where nothing is misplaced, an error is a message, and the same for what is left of the old
configuration without its secrets. -/
theorem errorOf_of_not_misplaced {new old : CfgTemplate} (h : ¬ Misplaced u new old) :
    errorOf (copyPasswordsFromOldConfig u new (blankSecrets old)) = errorOf (copyPasswordsFromOldConfig u new old) ∧
      ∀ fault, errorOf (copyPasswordsFromOldConfig u new old) = some fault → ∃ e, fault = .error e := by
  by_cases hfirst : ∃ pre e post, EmailFirst u new old pre e post
  · obtain ⟨pre, e, post, hfirst⟩ := hfirst
    have hplace : ∃ o, old.notifications.email[pre.length]? = some o ∧ o.pass = [] := by
      by_contra hnone
      push Not at hnone
      exact h ⟨pre, e, post, hfirst, hnone⟩
    obtain ⟨o, ho, hpass⟩ := hplace
    exact hfirst.errorOf_of_noPass ho hpass
  · exact errorOf_of_not_emailFirst hfirst

theorem copiesCleanly_of_not_misplaced {new old : CfgTemplate} (h : ¬ Misplaced u new old) :
    CopiesCleanly u new old := by
  obtain ⟨hblank, hmessage⟩ := errorOf_of_not_misplaced h
  constructor
  · intro p hp
    obtain ⟨e, he⟩ := hmessage _ (errorOf_eq_some.mpr hp)
    cases he
  · rw [← not_iff_not, ← errorOf_copyPasswords_eq_none]
    constructor
    · intro hnone
      cases hfault : errorOf (copyPasswordsFromOldConfig u new old) with
      | none => rfl
      | some fault =>
          obtain ⟨e, rfl⟩ := hmessage fault hfault
          exact absurd ⟨e, errorOf_eq_some.mp hfault⟩ hnone
    · rintro hnone ⟨e, he⟩
      cases hnone.symm.trans (errorOf_eq_some.mpr he)
  · intro old' hsame
    have h' : ¬ Misplaced u new old' := by rwa [← misplaced_blank, hsame, misplaced_blank]
    rw [← (errorOf_of_not_misplaced h').1, hsame, hblank]

def withPass (config : CfgTemplate) (i : ℕ) (email : ConfigNotificationEmail) (pass : Str) : CfgTemplate :=
  { config with notifications :=
      { config.notifications with email := config.notifications.email.set i { email with pass } } }

theorem blankSecrets_withPass {config : CfgTemplate} {i : ℕ} {email : ConfigNotificationEmail} {pass : Str}
    (hi : config.notifications.email[i]? = some email) (hpass : email.pass ≠ []) (hnew : pass ≠ []) :
    blankSecrets (withPass config i email pass) = blankSecrets config := by
  have hblank : blankEmail { email with pass } = blankEmail email := by
    simp [blankEmail, masked, hpass, hnew]
  have hemails : (config.notifications.email.set i { email with pass }).map blankEmail =
      config.notifications.email.map blankEmail := by
    rw [List.map_set, hblank]
    -- the place is overwritten with what is there
    refine List.ext_getElem? fun k => ?_
    by_cases hk : i = k
    · subst hk
      have hlt : i < (config.notifications.email.map blankEmail).length := by
        rw [List.length_map]
        exact (List.getElem?_eq_some_iff.mp hi).1
      rw [List.getElem?_set_self hlt, List.getElem?_map, hi, Option.map_some]
    · rw [List.getElem?_set_ne hk]
  simp only [blankSecrets, withPass, hemails]

theorem not_copiesCleanly_of_misplaced {new old : CfgTemplate} (h : Misplaced u new old) :
    ¬ CopiesCleanly u new old := by
  intro hclean
  obtain ⟨pre, e, post, hfirst, hplace⟩ := h
  cases ho : old.notifications.email[pre.length]? with
  | none =>
      have herror := hfirst.errorOf_eq
      rw [ho] at herror
      exact hclean.inRange .indexOutOfRange (errorOf_eq_some.mp herror)
  | some o =>
      have hpass := hplace o ho
      -- with another password in this place, the text is another one
      have hsame := blankSecrets_withPass ho hpass (List.append_ne_nil_of_left_ne_nil hpass ['*'])
      have hfirst' := emailFirst_blank.mp (hsame ▸ emailFirst_blank.mpr hfirst)
      have hget : (withPass old pre.length o (o.pass ++ ['*'])).notifications.email[pre.length]? =
          some { o with pass := o.pass ++ ['*'] } :=
        List.getElem?_set_self (List.getElem?_eq_some_iff.mp ho).1
      have htexts := hclean.silent _ hsame
      rw [hfirst'.errorOf_eq, hfirst.errorOf_eq, ho, hget] at htexts
      have htexts : noSuchEmailText e.user e.server (o.pass ++ ['*']) = noSuchEmailText e.user e.server o.pass :=
        Option.some.inj htexts
      have hpasses := List.append_cancel_right (List.append_cancel_left htexts)
      exact List.cons_ne_nil _ _ (List.append_right_eq_self.mp hpasses)

/-- The copying fails cleanly, unless the message about an email is put together from another one. -/
theorem copiesCleanly_iff (u : Tables) (new old : CfgTemplate) : CopiesCleanly u new old ↔ ¬ Misplaced u new old :=
  ⟨fun hclean h => not_copiesCleanly_of_misplaced h hclean, copiesCleanly_of_not_misplaced⟩

end

/-! ### Another server -/

def emailThrough (server pass : Str) : CfgTemplate where
  dataDir := "/data".toList
  notifications := { email := [{ server, user := "user".toList, pass, recipient := "admin".toList }] }

/-- There is no email in the place of the new one, or there is one and its password is told. -/
theorem copy_anotherServer :
    (¬ ∀ u new old, CopiesCleanly u new old) ∧
      ∃ text, (errorOf (copyPasswordsFromOldConfig .plain (emailThrough "new".toList "***".toList)
        (emailThrough "old".toList "hunter2".toList))).bind faultText = some text ∧ "hunter2".toList <:+: text := by
  constructor
  · intro h
    have hclean := h .plain (emailThrough "new".toList "***".toList) { dataDir := "/data".toList }
    exact hclean.inRange .indexOutOfRange rfl
  · exact ⟨noSuchEmailText "user".toList "new".toList "hunter2".toList, rfl, _, _, (List.append_assoc _ _ _).trans rfl⟩

end CloudBackup.Config
