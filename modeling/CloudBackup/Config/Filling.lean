import CloudBackup.Config.CopyPasswords

/-!
What `CopyPasswordsFromOldConfig` makes of a configuration that was accepted with its stars
is accepted without them, if the active configuration is accepted. The secrets that are
copied are not empty, and nothing else is asked of their values.
-/

namespace CloudBackup.Config

open Database Casing Checks

variable {u : Tables} {env : Env}

/-! ### Parameters -/

structure Refilled (u : Tables) (p p' : ConfigBackupTargetParams) : Prop where
  name : p'.name = p.name
  value : p'.value = p.value ∨ (isSecretName u p.name = true ∧ p.value ≠ [] ∧ p'.value ≠ [])

theorem ne_nil_of_isStars {s : Str} (h : isStars s = true) : s ≠ [] := by
  rintro rfl
  exact absurd h (by decide)

theorem oldValue_ne_nil {old : List ConfigBackup} {backup : ConfigBackup} {target : ConfigBackupTarget}
    {name value : Str} (h : oldValue u old backup target name = .ok value) : value ≠ [] := by
  unfold oldValue at h
  split at h
  · cases h
  · split at h
    · cases h
    · split at h
      · cases h
      · split at h
        · cases h
        · rename_i hvalue
          rw [← Except.ok.inj h]
          exact hvalue

theorem refilled_of_copyParameter {old : List ConfigBackup} {backup : ConfigBackup} {target : ConfigBackupTarget}
    {p p' : ConfigBackupTargetParams} (h : copyParameter u old backup target p = .ok p') : Refilled u p p' := by
  rw [copyParameter_eq] at h
  split at h
  · rename_i hsecret
    simp only [Bool.and_eq_true] at hsecret
    cases hold : oldValue u old backup target p.name with
    | error why => simp [fillParameter, hold] at h
    | ok value =>
        simp only [fillParameter, hold, Except.ok.injEq] at h
        obtain rfl := h
        exact ⟨rfl, .inr ⟨hsecret.1, ne_nil_of_isStars hsecret.2, oldValue_ne_nil hold⟩⟩
  · obtain rfl := Except.ok.inj h
    exact ⟨rfl, .inl rfl⟩

theorem Refilled.value_of_not_secret {p p' : ConfigBackupTargetParams} (h : Refilled u p p')
    (hname : isSecretName u p.name = false) : p'.value = p.value := by
  rcases h.value with heq | ⟨hsecret, -⟩
  · exact heq
  · rw [hname] at hsecret
    cases hsecret

/-- A check of the value, made only where the name shows that it is not secret. -/
theorem Refilled.ite_ok {p p' : ConfigBackupTargetParams} (h : Refilled u p p') {ε : Type} {q : Prop} [Decidable q]
    {check check' rest rest' : Check ε} (hname : q → isSecretName u p.name = false)
    (hcheck : p'.value = p.value → check = .ok () → check' = .ok ()) (hrest : rest = .ok () → rest' = .ok ())
    (hok : (if q then check else rest) = .ok ()) : (if q then check' else rest') = .ok () := by
  by_cases hq : q
  · rw [if_pos hq] at hok ⊢
    exact hcheck (h.value_of_not_secret (hname hq)) hok
  · rw [if_neg hq] at hok ⊢
    exact hrest hok

theorem Refilled.value_ne_nil_iff {p p' : ConfigBackupTargetParams} (h : Refilled u p p') :
    p'.value ≠ [] ↔ p.value ≠ [] := by
  rcases h.value with heq | ⟨-, hne, hne'⟩
  · rw [heq]
  · exact ⟨fun _ => hne, fun _ => hne'⟩

theorem isSecretName_of_persistDir {name : Str} (h : equalFold u name "persist_dir".toList = true) :
    isSecretName u name = false := by
  have hsame : isSecretName u name = isSecretName u "persist_dir".toList := by
    simp only [isSecretName, equalFold_congr h]
  rw [hsame]
  rfl

section

variable {ps ps' : List ConfigBackupTargetParams}

theorem names_eq (h : List.Forall₂ (Refilled u) ps ps') :
    ps'.map ConfigBackupTargetParams.name = ps.map ConfigBackupTargetParams.name :=
  map_eq_of_forall₂ h fun _ _ hp => hp.name

theorem any_name_eq (h : List.Forall₂ (Refilled u) ps ps') (q : Str → Bool) :
    (ps'.any fun p => q p.name) = ps.any fun p => q p.name :=
  any_eq_of_forall₂ h fun _ _ hp => congrArg q hp.name

theorem isSet_eq (h : List.Forall₂ (Refilled env.tables) ps ps') (name : Str) :
    isSet env ps' name = isSet env ps name := by
  refine any_eq_of_forall₂ h fun p p' hp => ?_
  rw [hp.name]
  exact congrArg _ (decide_eq_decide.mpr hp.value_ne_nil_iff)

/-- A check that is about names, and about values only where the name is not secret. -/
theorem forAll_refilled {ε : Type} {check : ConfigBackupTargetParams → Check ε}
    (hcheck : ∀ p p', Refilled u p p' → check p = .ok () → check p' = .ok ())
    (h : List.Forall₂ (Refilled u) ps ps') (hps : forAll check ps = .ok ()) : forAll check ps' = .ok () :=
  forAll_ok.mpr (forall_of_forall₂ h hcheck (forAll_ok.mp hps))

theorem known_refilled {allowed : List Str} (h : List.Forall₂ (Refilled env.tables) ps ps')
    (hps : validateTargetParametersAreKnown env ps allowed = .ok ()) :
    validateTargetParametersAreKnown env ps' allowed = .ok () := by
  refine forAll_refilled (fun p p' hp hok => ?_) h hps
  rw [require_ok] at hok ⊢
  rw [hp.name]
  exact hok

theorem testNull_refilled (h : List.Forall₂ (Refilled env.tables) ps ps')
    (hps : validateBackupTargetParametersForTestNull env ps = .ok ()) :
    validateBackupTargetParametersForTestNull env ps' = .ok () := by
  refine forAll_refilled (fun p p' hp hok => ?_) h hps
  rw [hp.name]
  refine hp.ite_ok isSecretName_of_persistDir (fun hvalue hok => ?_) id hok
  rwa [hvalue]

theorem s3_refilled (h : List.Forall₂ (Refilled env.tables) ps ps')
    (hps : validateBackupTargetParametersForS3 env ps = .ok ()) :
    validateBackupTargetParametersForS3 env ps' = .ok () := by
  simp only [validateBackupTargetParametersForS3, andThen_ok, isSet_eq h] at hps ⊢
  refine ⟨known_refilled h hps.1, ?_, hps.2.2⟩
  refine forAll_refilled (fun p p' hp hok => ?_) h hps.2.1
  rw [hp.name]
  refine hp.ite_ok (fun hclass => isSecretName_of_toLower_length hclass (by decide)) ?_ ?_ hok
  · intro hvalue hclass
    rwa [hvalue]
  · intro hrest
    refine hp.ite_ok (fun hregion => isSecretName_of_toLower_length hregion (by decide)) ?_ id hrest
    intro hvalue hregion
    rwa [hvalue]

theorem gcpCredentials_refilled (h : List.Forall₂ (Refilled env.tables) ps ps')
    (hps : validateGCPCredentials env ps = .ok ()) : validateGCPCredentials env ps' = .ok () := by
  unfold validateGCPCredentials at hps ⊢
  cases hfind' : ps'.find? fun entry => stringInSlice (toLower env.tables entry.name) gcpCredentialParameters with
  | none => rfl
  | some found' =>
      cases hfind : ps.find? fun entry => stringInSlice (toLower env.tables entry.name) gcpCredentialParameters with
      | none =>
          -- the names are the same, and so there is nothing to be found
          have hany := any_name_eq h fun name => stringInSlice (toLower env.tables name) gcpCredentialParameters
          have hfound := List.any_eq_true.mpr ⟨found', List.mem_of_find?_eq_some hfind', List.find?_some hfind'⟩
          rw [hany, List.any_eq_true] at hfound
          obtain ⟨p, hp, hname⟩ := hfound
          exact absurd hname (List.find?_eq_none.mp hfind p hp)
      | some found =>
          simp only [hfind, forAll_ok, require_ok] at hps
          simp only [forAll_ok, require_ok]
          intro param hparam
          rw [any_name_eq h fun name => toLower env.tables name = param]
          exact hps param hparam

theorem gcp_refilled (h : List.Forall₂ (Refilled env.tables) ps ps')
    (hps : validateBackupTargetParametersForGCPStorage env ps = .ok ()) :
    validateBackupTargetParametersForGCPStorage env ps' = .ok () := by
  simp only [validateBackupTargetParametersForGCPStorage, andThen_ok] at hps ⊢
  refine ⟨known_refilled h hps.1, gcpCredentials_refilled h hps.2.1, ?_⟩
  refine forAll_refilled (fun p p' hp hok => ?_) h hps.2.2
  rw [hp.name]
  refine hp.ite_ok (fun hclass => isSecretName_of_toLower_length hclass (by decide)) ?_ ?_ hok
  · intro hvalue hclass
    rwa [hvalue]
  · intro hrest
    refine hp.ite_ok (fun hhash => isSecretName_of_toLower_length hhash (by decide)) ?_ id hrest
    intro hvalue hhash
    rwa [hvalue]

theorem azure_refilled (h : List.Forall₂ (Refilled env.tables) ps ps')
    (hps : validateBackupTargetParametersForAzureBlob env ps = .ok ()) :
    validateBackupTargetParametersForAzureBlob env ps' = .ok () := by
  simp only [validateBackupTargetParametersForAzureBlob, andThen_ok] at hps ⊢
  refine ⟨known_refilled h hps.1, ?_, ?_⟩
  · have hrequired := hps.2.1
    simp only [validateTargetRequiredParameters, forAll_ok, require_ok] at hrequired ⊢
    intro param hparam
    rw [any_name_eq h fun name => toLower env.tables name = param]
    exact hrequired param hparam
  · refine forAll_refilled (fun p p' hp hok => ?_) h hps.2.2
    rw [hp.name]
    refine hp.ite_ok (fun hname => isSecretName_of_toLower_length hname (by decide)) ?_ id hok
    intro hvalue hurl
    rwa [hvalue]

theorem parametersForType_refilled {type : Str} (h : List.Forall₂ (Refilled env.tables) ps ps')
    (hps : validateParametersForType env ps type = .ok ()) : validateParametersForType env ps' type = .ok () := by
  unfold validateParametersForType at hps ⊢
  by_cases hnull : type = testNull
  · rw [if_pos hnull] at hps ⊢
    exact testNull_refilled h hps
  rw [if_neg hnull] at hps ⊢
  by_cases hs3 : type = awsS3
  · rw [if_pos hs3] at hps ⊢
    exact s3_refilled h hps
  rw [if_neg hs3] at hps ⊢
  by_cases hgcp : type = gcpStorage
  · rw [if_pos hgcp] at hps ⊢
    exact gcp_refilled h hps
  rw [if_neg hgcp] at hps ⊢
  by_cases hazure : type = azureBlob
  · rw [if_pos hazure] at hps ⊢
    exact azure_refilled h hps
  · rw [if_neg hazure] at hps
    cases hps

theorem parameters_refilled {type : Str} (h : List.Forall₂ (Refilled env.tables) ps ps')
    (hps : validateBackupTargetParameters env ps type = .ok ()) :
    validateBackupTargetParameters env ps' type = .ok () := by
  unfold validateBackupTargetParameters at hps ⊢
  by_cases hnil' : ps' = []
  · rw [if_pos hnil']
  · have hnil : ps ≠ [] := by
      rintro rfl
      cases h
      exact hnil' rfl
    rw [if_neg hnil, andThen_ok] at hps
    rw [if_neg hnil', andThen_ok]
    have hcount : ∀ name, ps'.countP (fun j => equalFold env.tables name j.name) =
        ps.countP (fun j => equalFold env.tables name j.name) := by
      intro name
      have := congrArg (List.countP (equalFold env.tables name)) (names_eq h)
      rwa [List.countP_map, List.countP_map] at this
    simp only [hcount]
    refine ⟨forAll_refilled (fun p p' hp hok => ?_) h hps.1, parametersForType_refilled h hps.2⟩
    rw [hp.name]
    exact require_ok.mpr (require_ok.mp hok)

end

/-! ### Sections -/

theorem copyTarget_ok {old : List ConfigBackup} {backup : ConfigBackup} {t t' : ConfigBackupTarget}
    (h : copyTarget u old backup t = .ok t') :
    ∃ ps, List.Forall₂ (Refilled u) t.parameters ps ∧ t' = { t with parameters := ps } := by
  obtain ⟨ps, hps, h⟩ := bind_ok.mp h
  exact ⟨ps, (mapAll_ok.mp hps).imp fun _ _ hp => refilled_of_copyParameter hp, (Except.ok.inj h).symm⟩

theorem validateTarget_of_copyTarget {old : List ConfigBackup} {backup : ConfigBackup} {backupName : Str}
    {t t' : ConfigBackupTarget} (hcopy : copyTarget env.tables old backup t = .ok t')
    (h : validateTarget env backupName t = .ok ()) : validateTarget env backupName t' = .ok () := by
  obtain ⟨ps, hps, rfl⟩ := copyTarget_ok hcopy
  simp only [validateTarget, andThen_ok, under_ok, require_ok] at h ⊢
  exact ⟨h.1, h.2.1, h.2.2.1, parameters_refilled hps h.2.2.2⟩

theorem copyEncryptPass_ok {old : List ConfigBackup} {b b' : ConfigBackup} (h : copyEncryptPass old b = .ok b') :
    ∃ pass, b' = { b with encryptPass := pass } ∧ (pass = b.encryptPass ∨ pass ≠ []) := by
  unfold copyEncryptPass at h
  split at h
  · split at h
    · split at h
      · rename_i hne
        exact ⟨_, (Except.ok.inj h).symm, .inr hne⟩
      · cases h
    · cases h
  · exact ⟨_, (Except.ok.inj h).symm, .inl rfl⟩

theorem copyBackup_ok {old : List ConfigBackup} {b b' : ConfigBackup} (h : copyBackup u old b = .ok b') :
    ∃ pass ts, List.Forall₂ (fun t t' => ∃ backup, copyTarget u old backup t = .ok t') b.target ts ∧
      b' = { b with encryptPass := pass, target := ts } ∧ (pass = b.encryptPass ∨ pass ≠ []) := by
  obtain ⟨b₁, hb₁, h⟩ := bind_ok.mp h
  obtain ⟨pass, rfl, hpass⟩ := copyEncryptPass_ok hb₁
  obtain ⟨ts, hts, h⟩ := bind_ok.mp h
  exact ⟨pass, ts, (mapAll_ok.mp hts).imp fun _ _ ht => ⟨_, ht⟩, (Except.ok.inj h).symm, hpass⟩

theorem name_of_copyBackup {old : List ConfigBackup} {b b' : ConfigBackup} (h : copyBackup u old b = .ok b') :
    b'.name = b.name := by
  obtain ⟨_, _, -, rfl, -⟩ := copyBackup_ok h
  rfl

theorem validateBackupEntry_of_copyBackup {old : List ConfigBackup} {b b' : ConfigBackup}
    (hcopy : copyBackup env.tables old b = .ok b') (h : validateBackupEntry env 0 b = .ok ()) :
    validateBackupEntry env 0 b' = .ok () := by
  obtain ⟨pass, ts, hts, rfl, hpass⟩ := copyBackup_ok hcopy
  simp only [validateBackupEntry, andThen_ok, require_ok] at h ⊢
  obtain ⟨hascii, hname, hencrypt, hpaths, hpre, hpost, htargets, hschedule⟩ := h
  refine ⟨hascii, hname, ?_, hpaths, hpre, hpost, ?_, hschedule⟩
  · rcases hpass with rfl | hne
    · exact hencrypt
    · simp [hne]
  · rw [validateBackupTarget_ok] at htargets ⊢
    have hnames : ts.map ConfigBackupTarget.name = b.target.map ConfigBackupTarget.name :=
      map_eq_of_forall₂ hts fun t t' hcopied => by
        obtain ⟨_, ht⟩ := hcopied
        obtain ⟨_, -, rfl⟩ := copyTarget_ok ht
        rfl
    have hvalid : ∀ t ∈ ts, validateTarget env b.name t = .ok () := by
      refine forall_of_forall₂ hts (fun t t' hcopied => ?_) htargets.2
      obtain ⟨_, ht⟩ := hcopied
      exact validateTarget_of_copyTarget ht
    rw [hnames]
    exact ⟨htargets.1, hvalid⟩

theorem validateBackup_of_copy {old bs bs' : List ConfigBackup}
    (hcopy : copyPasswordsFromOldConfigBackup env.tables bs old = .ok bs')
    (h : validateBackup env bs = .ok ()) : validateBackup env bs' = .ok () := by
  have hall := mapAll_ok.mp hcopy
  rw [validateBackup_ok] at h ⊢
  have hnames : bs'.map ConfigBackup.name = bs.map ConfigBackup.name :=
    map_eq_of_forall₂ hall fun b b' hb => name_of_copyBackup hb
  rw [hnames]
  exact ⟨h.1, forall_of_forall₂ hall (fun b b' hb => validateBackupEntry_of_copyBackup hb) h.2⟩

theorem copyUser_ok {old : List ConfigUser} {user user' : ConfigUser} (h : copyUser old user = .ok user') :
    (isStars user.pass = false ∧ user' = user) ∨ ∃ o ∈ old, user' = { user with pass := o.pass } := by
  unfold copyUser at h
  split at h
  · split at h
    · rename_i o hfind
      exact .inr ⟨o, List.mem_of_find?_eq_some hfind, (Except.ok.inj h).symm⟩
    · cases h
  · rename_i hstars
    exact .inl ⟨by simpa using hstars, (Except.ok.inj h).symm⟩

/-- A user with stars gets a password that is not made of stars. -/
theorem validateUserEntry_of_copyUser {old : List ConfigUser} (hold : validateUser env old false = .ok ())
    {user user' : ConfigUser} (hcopy : copyUser old user = .ok user') (h : validateUserEntry env true user = .ok ()) :
    validateUserEntry env false user' = .ok () := by
  simp only [validateUserEntry, andThen_ok, require_ok] at h
  rcases copyUser_ok hcopy with ⟨hstars, rfl⟩ | ⟨o, ho, rfl⟩
  · simp only [validateUserEntry, andThen_ok, require_ok]
    refine ⟨?_, h.2⟩
    simpa [hstars] using h.1
  · have hpass := (validateUser_ok.mp hold).2 o ho
    simp only [validateUserEntry, andThen_ok, require_ok] at hpass ⊢
    exact ⟨hpass.1, h.2⟩

theorem names_of_copyUsers {old users users' : List ConfigUser}
    (h : copyPasswordsFromOldConfigUser users old = .ok users') :
    users'.map ConfigUser.name = users.map ConfigUser.name :=
  map_eq_of_forall₂ (mapAll_ok.mp h) fun user user' huser => by
    rcases copyUser_ok huser with ⟨-, rfl⟩ | ⟨_, -, rfl⟩ <;> rfl

theorem validateUser_of_copy {old users users' : List ConfigUser} (hold : validateUser env old false = .ok ())
    (hcopy : copyPasswordsFromOldConfigUser users old = .ok users') (h : validateUser env users true = .ok ()) :
    validateUser env users' false = .ok () := by
  rw [validateUser_ok] at h ⊢
  rw [names_of_copyUsers hcopy]
  exact ⟨h.1, forall_of_forall₂ (mapAll_ok.mp hcopy) (fun _ _ huser => validateUserEntry_of_copyUser hold huser) h.2⟩

def isUnmatched (old : List ConfigNotificationEmail) (e : ConfigNotificationEmail) : Bool :=
  isStars e.pass && (firstEmail old e.server e.user).isNone

theorem copyEmail_ok {old : List ConfigNotificationEmail} {i : ℕ} {email email' : ConfigNotificationEmail}
    (h : copyEmail old i email = .ok email') : isUnmatched old email = false ∧
      ((isStars email.pass = false ∧ email' = email) ∨
        (isStars email.pass = true ∧ ∃ o, firstEmail old email.server email.user = some o ∧
          email' = { email with pass := o.pass })) := by
  unfold copyEmail at h
  split at h
  · rename_i hstars
    split at h
    · rename_i o hfind
      refine ⟨?_, .inr ⟨hstars, o, hfind, (Except.ok.inj h).symm⟩⟩
      rw [isUnmatched, firstEmail, hfind, Option.isNone_some, Bool.and_false]
    · split at h <;> cases h
  · rename_i hstars
    have hplain : isStars email.pass = false := Bool.eq_false_iff.mpr hstars
    refine ⟨?_, .inl ⟨hplain, (Except.ok.inj h).symm⟩⟩
    rw [isUnmatched, hplain, Bool.false_and]

/-- An email gets the password of one for the same user, and so it is not empty. -/
theorem validateEmail_of_copyEmail {old : List ConfigNotificationEmail}
    (hold : validateNotificationEmail env old = .ok ()) {i : ℕ} {email email' : ConfigNotificationEmail}
    (hcopy : copyEmail old i email = .ok email') (h : validateEmail env email = .ok ()) :
    validateEmail env email' = .ok () := by
  obtain ⟨-, ⟨-, rfl⟩ | ⟨hstars, o, hfind, rfl⟩⟩ := copyEmail_ok hcopy
  · exact h
  · obtain ⟨hmem, -, huser⟩ := firstEmail_some hfind
    have ho := pass_eq_nil_iff_of_validateEmail (validateNotificationEmail_ok.mp hold o hmem)
    have hsent := pass_eq_nil_iff_of_validateEmail h
    have hnotnil : email.user ≠ [] := fun hnil => ne_nil_of_isStars hstars (hsent.mpr hnil)
    have hpass : o.pass ≠ [] := fun hnil => hnotnil (huser ▸ ho.mp hnil)
    simp only [validateEmail, andThen_ok] at h ⊢
    exact ⟨by simp [hnotnil], by simp [hpass], by simp [hnotnil], h.2.2.2⟩

theorem validateNotificationEmail_of_copy {old emails emails' : List ConfigNotificationEmail}
    (hold : validateNotificationEmail env old = .ok ())
    (hcopy : copyPasswordsFromOldConfigNotificationsEmails emails old = .ok emails')
    (h : validateNotificationEmail env emails = .ok ()) : validateNotificationEmail env emails' = .ok () := by
  rw [validateNotificationEmail_ok] at h ⊢
  exact forall_of_forall₂ (mapAllFrom_forall₂ hcopy) (fun _ _ ⟨_, he⟩ => validateEmail_of_copyEmail hold he) h

/-- A configuration with stars that was accepted as such is accepted when it is filled in. -/
theorem validate_of_copyPasswords {old new new' : CfgTemplate} (hold : validate env old false = .ok ())
    (h : validate env new true = .ok ()) (hcopy : copyPasswordsFromOldConfig env.tables new old = .ok new') :
    validate env new' false = .ok () := by
  obtain ⟨-, -, holdUser, -, holdEmail⟩ := validate_ok.mp hold
  obtain ⟨hsystem, hbackup, huser, hscript, hemail⟩ := validate_ok.mp h
  obtain ⟨user, hu, hcopy⟩ := bind_ok.mp hcopy
  obtain ⟨backup, hb, hcopy⟩ := bind_ok.mp hcopy
  obtain ⟨email, he, hcopy⟩ := bind_ok.mp hcopy
  obtain rfl := Except.ok.inj hcopy
  exact validate_ok.mpr ⟨⟨hsystem.dataDir, hsystem.htmlDir, hsystem.restoreDir, hsystem.https⟩,
    validateBackup_of_copy hb hbackup, validateUser_of_copy holdUser hu huser, hscript,
    validateNotificationEmail_of_copy holdEmail he hemail⟩

/-! ### Where it goes wrong -/

/-- The index is out of range only in the message about an email. -/
theorem copyBackup_ne_panic (old : List ConfigBackup) (b : ConfigBackup) (p : Panic) :
    copyBackup u old b ≠ .error (.panic p) := by
  intro h
  rcases bind_error h with hpass | ⟨b₁, -, h⟩
  · unfold copyEncryptPass at hpass
    split at hpass
    · split at hpass
      · split at hpass <;> cases hpass
      · cases hpass
    · cases hpass
  · rcases bind_error h with htargets | ⟨ts, -, h⟩
    · obtain ⟨_, t, -, ht⟩ := mapAllFrom_error htargets
      rcases bind_error ht with hparams | ⟨ps, -, ht⟩
      · obtain ⟨_, param, -, hparam⟩ := mapAllFrom_error hparams
        rw [copyParameter_eq] at hparam
        split at hparam
        · unfold fillParameter at hparam
          split at hparam <;> cases hparam
        · cases hparam
      · cases ht
    · cases h

theorem copyBackups_ne_panic (new old : List ConfigBackup) (p : Panic) :
    copyPasswordsFromOldConfigBackup u new old ≠ .error (.panic p) := by
  intro h
  obtain ⟨_, b, -, hb⟩ := mapAllFrom_error h
  exact copyBackup_ne_panic old b p hb

theorem copyUsers_ne_panic (new old : List ConfigUser) (p : Panic) :
    copyPasswordsFromOldConfigUser new old ≠ .error (.panic p) := by
  intro h
  obtain ⟨_, user, -, huser⟩ := mapAllFrom_error h
  unfold copyUser at huser
  split at huser
  · split at huser <;> cases huser
  · cases huser

theorem copyEmail_panic {old : List ConfigNotificationEmail} {i : ℕ} {e : ConfigNotificationEmail} {p : Panic}
    (h : copyEmail old i e = .error (.panic p)) : isUnmatched old e = true ∧ old.length ≤ i := by
  unfold copyEmail at h
  split at h
  · rename_i hstars
    split at h
    · cases h
    · rename_i hfind
      split at h
      · cases h
      · rename_i hnone
        refine ⟨?_, List.getElem?_eq_none_iff.mp hnone⟩
        rw [isUnmatched, hstars, firstEmail, hfind]
        rfl
  · cases h

theorem copyEmails_panic {old new : List ConfigNotificationEmail} {i : ℕ} {p : Panic}
    (h : mapAllFrom (copyEmail old) i new = .error (.panic p)) :
    ∃ k, new.findIdx? (isUnmatched old) = some k ∧ old.length ≤ i + k := by
  induction new generalizing i with
  | nil => cases h
  | cons e new ih =>
      rcases bind_error h with hfirst | ⟨e', he', h⟩
      · obtain ⟨hunmatched, hle⟩ := copyEmail_panic hfirst
        refine ⟨0, ?_, hle⟩
        rw [List.findIdx?_cons, if_pos hunmatched]
      · have hmatched := (copyEmail_ok he').1
        rcases bind_error h with hrest | ⟨_, -, h⟩
        · obtain ⟨k, hk, hle⟩ := ih hrest
          refine ⟨k + 1, ?_, by omega⟩
          rw [List.findIdx?_cons, hmatched, hk]
          rfl
        · cases h

theorem copyPasswords_panic {new old : CfgTemplate} {p : Panic}
    (h : copyPasswordsFromOldConfig u new old = .error (.panic p)) :
    ∃ i, new.notifications.email.findIdx? (isUnmatched old.notifications.email) = some i ∧
      old.notifications.email.length ≤ i := by
  rcases bind_error h with huser | ⟨_, -, h⟩
  · exact absurd huser (copyUsers_ne_panic _ _ p)
  · rcases bind_error h with hbackup | ⟨_, -, h⟩
    · exact absurd hbackup (copyBackups_ne_panic _ _ p)
    · rcases bind_error h with hemail | ⟨_, -, h⟩
      · obtain ⟨k, hk, hle⟩ := copyEmails_panic hemail
        exact ⟨k, hk, by omega⟩
      · cases h

end CloudBackup.Config
