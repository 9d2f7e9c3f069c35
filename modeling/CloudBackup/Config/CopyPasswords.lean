import CloudBackup.Config.Sanitize

/-!
A configuration that is sent back has stars where its secrets were. `CopyPasswordsFromOldConfig`
puts in what the active configuration has in these places: it looks for the entry of the same
name, and for an email for the same server and user.
-/

namespace CloudBackup.Config

open Database Casing Checks

/-! ### Users and emails -/

def copyUser (old : List ConfigUser) (new : ConfigUser) : Except Fault ConfigUser :=
  if isStars new.pass then
    match old.find? fun o => o.name = new.name with
    | some o => .ok { new with pass := o.pass }
    | none => .error (.error (.noSuchUser new.name new.pass))
  else .ok new

def copyPasswordsFromOldConfigUser (new old : List ConfigUser) : Except Fault (List ConfigUser) :=
  mapAll (copyUser old) new

/-- A pass of the loop of `CopyPasswordsFromOldConfigNotificationsEmails`. The message that
there is no such email is put together with the password of the old email in the same place. -/
def copyEmail (old : List ConfigNotificationEmail) (i : ℕ) (new : ConfigNotificationEmail) :
    Except Fault ConfigNotificationEmail :=
  if isStars new.pass then
    match old.find? fun o => o.server = new.server && o.user = new.user with
    | some o => .ok { new with pass := o.pass }
    | none =>
        match old[i]? with
        | some o => .error (.error (.noSuchEmail new.user new.server o.pass))
        | none => .error (.panic .indexOutOfRange)
  else .ok new

def copyPasswordsFromOldConfigNotificationsEmails (new old : List ConfigNotificationEmail) :
    Except Fault (List ConfigNotificationEmail) :=
  mapAllFrom (copyEmail old) 0 new

/-! ### Backups -/

def copyEncryptPass (old : List ConfigBackup) (new : ConfigBackup) : Except Fault ConfigBackup :=
  if isStars new.encryptPass then
    match old.find? fun o => o.name = new.name with
    | some o =>
        if o.encryptPass ≠ [] then .ok { new with encryptPass := o.encryptPass }
        else .error (.error (.encryptPassUnset new.name new.encryptPass))
    | none => .error (.error (.encryptPassNoBackup new.name new.encryptPass))
  else .ok new

section

variable (u : Tables)

def oldValue (old : List ConfigBackup) (backup : ConfigBackup) (target : ConfigBackupTarget) (name : Str) :
    Except NoSecret Str :=
  match old.find? fun entry => entry.name = backup.name with
  | none => .error .noBackup
  | some oldBackup =>
      match oldBackup.target.find? fun t => t.name = target.name && t.type = target.type with
      | none => .error .noTarget
      | some oldTarget =>
          match oldTarget.parameters.find? fun o => equalFold u o.name name with
          | none => .error .noParameter
          | some o => if o.value = [] then .error .emptyValue else .ok o.value

def fillParameter (old : List ConfigBackup) (backup : ConfigBackup) (target : ConfigBackupTarget)
    (p : ConfigBackupTargetParams) : Except Fault ConfigBackupTargetParams :=
  match oldValue u old backup target p.name with
  | .ok value => .ok { p with value := value }
  | .error why => .error (.error (.noSecret backup.name target.name p.name p.value why))

def copyParameterFor (old : List ConfigBackup) (backup : ConfigBackup) (target : ConfigBackupTarget) :
    List Str → ConfigBackupTargetParams → Except Fault ConfigBackupTargetParams
  | [], p => .ok p
  | parameter :: rest, p =>
      if equalFold u p.name parameter && isStars p.value then do
        let p ← fillParameter u old backup target p
        copyParameterFor old backup target rest p
      else copyParameterFor old backup target rest p

def copyParameter (old : List ConfigBackup) (backup : ConfigBackup) (target : ConfigBackupTarget)
    (p : ConfigBackupTargetParams) : Except Fault ConfigBackupTargetParams :=
  copyParameterFor u old backup target parametersWithSecrets p

def copyTarget (old : List ConfigBackup) (backup : ConfigBackup) (target : ConfigBackupTarget) :
    Except Fault ConfigBackupTarget := do
  let parameters ← mapAll (copyParameter u old backup target) target.parameters
  return { target with parameters }

def copyBackup (old : List ConfigBackup) (new : ConfigBackup) : Except Fault ConfigBackup := do
  let new ← copyEncryptPass old new
  let target ← mapAll (copyTarget u old new) new.target
  return { new with target }

def copyPasswordsFromOldConfigBackup (new old : List ConfigBackup) : Except Fault (List ConfigBackup) :=
  mapAll (copyBackup u old) new

def copyPasswordsFromOldConfig (new old : CfgTemplate) : Except Fault CfgTemplate := do
  let user ← copyPasswordsFromOldConfigUser new.user old.user
  let backup ← copyPasswordsFromOldConfigBackup u new.backup old.backup
  let email ← copyPasswordsFromOldConfigNotificationsEmails new.notifications.email old.notifications.email
  return { new with user, backup, notifications := { new.notifications with email } }

end

/-! ### One secret -/

variable {u : Tables}

theorem isStars_secretReplace : isStars secretReplace = true := by decide

theorem isStars_starred {s : Str} : isStars (starred s) = true ↔ s ≠ [] := by
  by_cases h : s = []
  · simp [starred, h, isStars]
  · simp [starred, h, isStars_secretReplace]

/-- A parameter that has been filled in stays as it is. -/
theorem copyParameterFor_of_filled {old : List ConfigBackup} {backup : ConfigBackup} {target : ConfigBackupTarget}
    {p : ConfigBackupTargetParams} (h : oldValue u old backup target p.name = .ok p.value) (names : List Str) :
    copyParameterFor u old backup target names p = .ok p := by
  induction names with
  | nil => rfl
  | cons name names ih =>
      rw [copyParameterFor]
      split
      · rw [fillParameter, h]
        exact ih
      · exact ih

/-- The loop over the names of secret parameters fills in a parameter once. -/
theorem copyParameterFor_eq {old : List ConfigBackup} {backup : ConfigBackup} {target : ConfigBackupTarget}
    (names : List Str) (p : ConfigBackupTargetParams) : copyParameterFor u old backup target names p =
      if (names.any fun name => equalFold u p.name name) && isStars p.value then fillParameter u old backup target p
      else .ok p := by
  induction names with
  | nil => simp [copyParameterFor]
  | cons name names ih =>
      rw [copyParameterFor, List.any_cons, ih]
      cases hname : equalFold u p.name name with
      | false => simp
      | true =>
          cases hstars : isStars p.value with
          | false => simp
          | true =>
              simp only [Bool.and_self, Bool.true_or, if_true]
              cases hold : oldValue u old backup target p.name with
              | error why => simp only [fillParameter, hold]; rfl
              | ok value =>
                  simp only [fillParameter, hold]
                  exact copyParameterFor_of_filled hold names

theorem copyParameter_eq (old : List ConfigBackup) (backup : ConfigBackup) (target : ConfigBackupTarget)
    (p : ConfigBackupTargetParams) : copyParameter u old backup target p =
      if isSecretName u p.name && isStars p.value then fillParameter u old backup target p else .ok p :=
  copyParameterFor_eq parametersWithSecrets p

/-! ### The round trip -/

section

variable {env : Env}

theorem copyUser_sanitizeUser {users : List ConfigUser} (h : validateUser env users false = .ok ())
    {user : ConfigUser} (huser : user ∈ users) : copyUser users (sanitizeUser user) = .ok user := by
  rw [validateUser_ok] at h
  have hpass := pass_ne_nil_of_validateUserEntry (h.2 user huser)
  have hstars : isStars (sanitizeUser user).pass = true := isStars_starred.mpr hpass
  have hfind : users.find? (fun o => o.name = (sanitizeUser user).name) = some user := find?_of_nodup h.1 huser
  rw [copyUser, if_pos hstars, hfind]
  rfl

def firstEmail (emails : List ConfigNotificationEmail) (server user : Str) : Option ConfigNotificationEmail :=
  emails.find? fun o => o.server = server && o.user = user

theorem firstEmail_some {emails : List ConfigNotificationEmail} {server user : Str} {first : ConfigNotificationEmail}
    (h : firstEmail emails server user = some first) :
    first ∈ emails ∧ first.server = server ∧ first.user = user := by
  have hkey := List.find?_some h
  simp only [Bool.and_eq_true, decide_eq_true_eq] at hkey
  exact ⟨List.mem_of_find?_eq_some h, hkey⟩

theorem exists_firstEmail {emails : List ConfigNotificationEmail} {email : ConfigNotificationEmail}
    (hemail : email ∈ emails) : ∃ first, firstEmail emails email.server email.user = some first := by
  cases hfind : firstEmail emails email.server email.user with
  | some first => exact ⟨first, rfl⟩
  | none => exact absurd (List.find?_eq_none.mp hfind email hemail) (by simp)

/-- An email gets the password of the first one for the same server and user. -/
theorem copyEmail_sanitizeEmail {emails : List ConfigNotificationEmail}
    (h : validateNotificationEmail env emails = .ok ()) {email first : ConfigNotificationEmail}
    (hemail : email ∈ emails) (hfirst : firstEmail emails email.server email.user = some first) (i : ℕ) :
    copyEmail emails i (sanitizeEmail email) = .ok { email with pass := first.pass } := by
  rw [validateNotificationEmail_ok] at h
  obtain ⟨hmem, -, huser⟩ := firstEmail_some hfirst
  by_cases hpass : email.pass = []
  · -- without a password there are no stars, and then there is no user either
    have hnone : first.pass = [] := by
      rw [pass_eq_nil_iff_of_validateEmail (h first hmem), huser,
        ← pass_eq_nil_iff_of_validateEmail (h email hemail)]
      exact hpass
    have hstars : ¬ isStars (sanitizeEmail email).pass = true := by
      simp [sanitizeEmail, isStars_starred, hpass]
    rw [copyEmail, if_neg hstars, hnone, sanitizeEmail, starred, if_pos hpass]
  · have hstars : isStars (sanitizeEmail email).pass = true := isStars_starred.mpr hpass
    have hfind : emails.find? (fun o => o.server = (sanitizeEmail email).server &&
        o.user = (sanitizeEmail email).user) = some first := hfirst
    rw [copyEmail, if_pos hstars, hfind]
    rfl

theorem copyEmails_sanitize_iff {emails : List ConfigNotificationEmail}
    (h : validateNotificationEmail env emails = .ok ()) :
    copyPasswordsFromOldConfigNotificationsEmails (emails.map sanitizeEmail) emails = .ok emails ↔
      ∀ e ∈ emails, ∀ e' ∈ emails, e.server = e'.server → e.user = e'.user → e.pass = e'.pass := by
  constructor
  · intro hcopy
    have hall := mapAllFrom_forall₂ hcopy
    rw [List.forall₂_map_left_iff, List.forall₂_same] at hall
    -- every email has the password of the first one, and so any two of them have the same
    have hpass : ∀ e ∈ emails, ∀ first, firstEmail emails e.server e.user = some first → e.pass = first.pass := by
      intro e he first hfirst
      obtain ⟨k, hk⟩ := hall e he
      rw [copyEmail_sanitizeEmail h he hfirst] at hk
      exact (congrArg ConfigNotificationEmail.pass (Except.ok.inj hk)).symm
    intro e he e' he' hserver huser
    obtain ⟨first, hfirst⟩ := exists_firstEmail he
    have hfirst' : firstEmail emails e'.server e'.user = some first := by rw [← hserver, ← huser, hfirst]
    rw [hpass e he first hfirst, hpass e' he' first hfirst']
  · intro hsame
    refine mapAllFrom_of_forall₂ ?_
    rw [List.forall₂_map_left_iff, List.forall₂_same]
    intro e he k
    obtain ⟨first, hfirst⟩ := exists_firstEmail he
    obtain ⟨hmem, hserver, huser⟩ := firstEmail_some hfirst
    rw [copyEmail_sanitizeEmail h he hfirst, hsame first hmem e he hserver huser]

theorem copyUsers_sanitize {users : List ConfigUser} (h : validateUser env users false = .ok ()) :
    copyPasswordsFromOldConfigUser (users.map sanitizeUser) users = .ok users := by
  refine mapAll_ok.mpr ?_
  rw [List.forall₂_map_left_iff, List.forall₂_same]
  exact fun user huser => copyUser_sanitizeUser h huser

theorem copyEncryptPass_sanitize {backups : List ConfigBackup} (h : validateBackup env backups = .ok ())
    {b : ConfigBackup} (hb : b ∈ backups) : copyEncryptPass backups (sanitizeBackup u b) =
      .ok { sanitizeBackup u b with encryptPass := b.encryptPass } := by
  rw [validateBackup_ok] at h
  by_cases hpass : b.encryptPass = []
  · have hstars : ¬ isStars (sanitizeBackup u b).encryptPass = true := by
      simp [sanitizeBackup, isStars_starred, hpass]
    rw [copyEncryptPass, if_neg hstars, sanitizeBackup, starred, if_pos hpass, hpass]
  · have hstars : isStars (sanitizeBackup u b).encryptPass = true := isStars_starred.mpr hpass
    have hfind : backups.find? (fun o => o.name = (sanitizeBackup u b).name) = some b := find?_of_nodup h.1 hb
    rw [copyEncryptPass, if_pos hstars, hfind]
    simp [hpass]

/-- The parameter itself is found when its old value is looked for. -/
theorem oldValue_self {backups : List ConfigBackup} (h : validateBackup env backups = .ok ()) {b b' : ConfigBackup}
    (hb : b ∈ backups) {t t' : ConfigBackupTarget} (ht : t ∈ b.target) {p : ConfigBackupTargetParams}
    (hp : p ∈ t.parameters) (hname : b'.name = b.name) (htarget : t'.name = t.name ∧ t'.type = t.type) :
    oldValue env.tables backups b' t' p.name = if p.value = [] then .error .emptyValue else .ok p.value := by
  rw [validateBackup_ok] at h
  have hentry := h.2 b hb
  simp only [validateBackupEntry, andThen_ok] at hentry
  have htargets := validateBackupTarget_ok.mp hentry.2.2.2.2.2.2.1
  have hbackup : backups.find? (fun entry => entry.name = b'.name) = some b := by
    rw [hname]
    exact find?_of_nodup h.1 hb
  have hold : b.target.find? (fun o => o.name = t'.name && o.type = t'.type) = some t := by
    rw [htarget.1, htarget.2]
    refine find?_of_unique ht (by simp) fun o ho hkey => ?_
    simp only [Bool.and_eq_true, decide_eq_true_eq] at hkey
    exact List.inj_on_of_nodup_map htargets.1 ho ht hkey.1
  have hparam : t.parameters.find? (fun o => equalFold env.tables o.name p.name) = some p := by
    simp only [equalFold_comm _ p.name]
    exact find?_of_countP (countP_of_validateTarget (htargets.2 t ht) hp) hp (equalFold_self p.name)
  simp only [oldValue, hbackup, hold, hparam]

theorem copyParameter_sanitize_iff {backups : List ConfigBackup} (h : validateBackup env backups = .ok ())
    {b b' : ConfigBackup} (hb : b ∈ backups) {t t' : ConfigBackupTarget} (ht : t ∈ b.target)
    {p : ConfigBackupTargetParams} (hp : p ∈ t.parameters) (hname : b'.name = b.name)
    (htarget : t'.name = t.name ∧ t'.type = t.type) :
    copyParameter env.tables backups b' t' (sanitizeParameter env.tables p) = .ok p ↔
      (isSecretName env.tables p.name = true → p.value ≠ []) := by
  rw [copyParameter_eq]
  cases hsecret : isSecretName env.tables p.name with
  | false => simp [sanitizeParameter, hsecret]
  | true =>
      have hsan : sanitizeParameter env.tables p = { p with value := secretReplace } := by
        rw [sanitizeParameter, if_pos hsecret]
      rw [hsan]
      simp only [hsecret, isStars_secretReplace, Bool.and_self, if_true, fillParameter,
        oldValue_self h hb ht hp hname htarget]
      by_cases hvalue : p.value = [] <;> simp [hvalue]

/-- No secret parameter of the backup is empty. -/
def NoEmptySecret (u : Tables) (b : ConfigBackup) : Prop :=
  ∀ t ∈ b.target, ∀ p ∈ t.parameters, isSecretName u p.name = true → p.value ≠ []

theorem copyTarget_sanitize_iff {backups : List ConfigBackup} (h : validateBackup env backups = .ok ())
    {b b' : ConfigBackup} (hb : b ∈ backups) (hname : b'.name = b.name) {t : ConfigBackupTarget}
    (ht : t ∈ b.target) : copyTarget env.tables backups b' (sanitizeTarget env.tables t) = .ok t ↔
      ∀ p ∈ t.parameters, isSecretName env.tables p.name = true → p.value ≠ [] := by
  have hparams : mapAll (copyParameter env.tables backups b' (sanitizeTarget env.tables t))
      (t.parameters.map (sanitizeParameter env.tables)) = .ok t.parameters ↔
        ∀ p ∈ t.parameters, isSecretName env.tables p.name = true → p.value ≠ [] := by
    rw [mapAll_ok, List.forall₂_map_left_iff, List.forall₂_same]
    exact forall₂_congr fun p hp => copyParameter_sanitize_iff h hb ht hp hname ⟨rfl, rfl⟩
  rw [← hparams, copyTarget, bind_ok]
  constructor
  · rintro ⟨parameters, hcopy, heq⟩
    have heq : parameters = t.parameters := congrArg ConfigBackupTarget.parameters (Except.ok.inj heq)
    exact hcopy.trans (congrArg Except.ok heq)
  · intro hcopy
    exact ⟨t.parameters, hcopy, rfl⟩

theorem copyBackup_sanitize_iff {backups : List ConfigBackup} (h : validateBackup env backups = .ok ())
    {b : ConfigBackup} (hb : b ∈ backups) :
    copyBackup env.tables backups (sanitizeBackup env.tables b) = .ok b ↔ NoEmptySecret env.tables b := by
  have htargets : mapAll (copyTarget env.tables backups
      { sanitizeBackup env.tables b with encryptPass := b.encryptPass }) (b.target.map (sanitizeTarget env.tables)) =
        .ok b.target ↔ NoEmptySecret env.tables b := by
    rw [mapAll_ok, List.forall₂_map_left_iff, List.forall₂_same]
    exact forall₂_congr fun t ht => copyTarget_sanitize_iff h hb rfl ht
  rw [← htargets, copyBackup, copyEncryptPass_sanitize h hb, ok_bind, bind_ok]
  constructor
  · rintro ⟨target, hcopy, heq⟩
    have heq : target = b.target := congrArg ConfigBackup.target (Except.ok.inj heq)
    exact hcopy.trans (congrArg Except.ok heq)
  · intro hcopy
    exact ⟨b.target, hcopy, rfl⟩

/-- Emails for the same server and user have the same password. -/
def OnePassPerAccount (emails : List ConfigNotificationEmail) : Prop :=
  ∀ e ∈ emails, ∀ e' ∈ emails, e.server = e'.server → e.user = e'.user → e.pass = e'.pass

/-- What was sanitized comes back as it was, if no secret parameter is empty and no two
emails for one account have different passwords, and only then. -/
theorem copyPasswords_sanitize_iff {c : CfgTemplate} (h : validate env c false = .ok ()) :
    copyPasswordsFromOldConfig env.tables (sanitizeCfgTemplate env.tables c) c = .ok c ↔
      (∀ b ∈ c.backup, NoEmptySecret env.tables b) ∧ OnePassPerAccount c.notifications.email := by
  obtain ⟨-, hbackup, huser, -, hemail⟩ := validate_ok.mp h
  have hbackups : copyPasswordsFromOldConfigBackup env.tables (c.backup.map (sanitizeBackup env.tables)) c.backup =
      .ok c.backup ↔ ∀ b ∈ c.backup, NoEmptySecret env.tables b := by
    rw [copyPasswordsFromOldConfigBackup, mapAll_ok, List.forall₂_map_left_iff, List.forall₂_same]
    exact forall₂_congr fun b hb => copyBackup_sanitize_iff hbackup hb
  rw [← hbackups, OnePassPerAccount, ← copyEmails_sanitize_iff hemail, copyPasswordsFromOldConfig]
  simp only [sanitizeCfgTemplate, copyUsers_sanitize huser, ok_bind]
  constructor
  · intro hcopy
    obtain ⟨backup, hb, hcopy⟩ := bind_ok.mp hcopy
    obtain ⟨email, he, hcopy⟩ := bind_ok.mp hcopy
    have hcopy := Except.ok.inj hcopy
    have hback : backup = c.backup := congrArg CfgTemplate.backup hcopy
    have hmail : email = c.notifications.email := congrArg (fun c => c.notifications.email) hcopy
    exact ⟨hback ▸ hb, hmail ▸ he⟩
  · rintro ⟨hb, he⟩
    rw [hb, ok_bind, he]
    rfl

end

def twoEmails (pass pass' : Str) : CfgTemplate where
  dataDir := "/data".toList
  notifications := { email := [{ server := "smtp".toList, user := "me".toList, pass := pass },
    { server := "smtp".toList, user := "me".toList, pass := pass' }] }

/-- With one password for the account it comes back. -/
theorem copyPasswords_sanitize_twoEmails : validate smallEnv (twoEmails "one".toList "one".toList) false = .ok () ∧
    copyPasswordsFromOldConfig smallEnv.tables
      (sanitizeCfgTemplate smallEnv.tables (twoEmails "one".toList "one".toList))
      (twoEmails "one".toList "one".toList) = .ok (twoEmails "one".toList "one".toList) :=
  have h : validate smallEnv (twoEmails "one".toList "one".toList) false = .ok () := by decide
  ⟨h, (copyPasswords_sanitize_iff h).mpr ⟨fun b hb => absurd hb (List.not_mem_nil), by
    unfold OnePassPerAccount
    decide⟩⟩

/-- With two of them, the second is lost without an error. A secret parameter without a
value cannot be sent back at all. -/
theorem copyPasswords_sanitize_fails :
    validate smallEnv (twoEmails "one".toList "two".toList) false = .ok () ∧
      copyPasswordsFromOldConfig smallEnv.tables
        (sanitizeCfgTemplate smallEnv.tables (twoEmails "one".toList "two".toList))
        (twoEmails "one".toList "two".toList) = .ok (twoEmails "one".toList "one".toList) ∧
      twoEmails "one".toList "one".toList ≠ twoEmails "one".toList "two".toList ∧
      validate smallEnv (oneTarget testNull [⟨"pass".toList, []⟩]) false = .ok () ∧
      copyPasswordsFromOldConfig smallEnv.tables
        (sanitizeCfgTemplate smallEnv.tables (oneTarget testNull [⟨"pass".toList, []⟩]))
        (oneTarget testNull [⟨"pass".toList, []⟩]) =
          .error (.error (.noSecret "docs".toList "cloud".toList "pass".toList secretReplace .emptyValue)) := by
  decide

end CloudBackup.Config
