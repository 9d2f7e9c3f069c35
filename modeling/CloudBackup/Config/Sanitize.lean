import CloudBackup.Config.Template

/-!
`SanitizeCfgTemplate` puts stars for the secrets, wherever the configuration is shown or
stored. It has a list of its own of the parameters that are secret. The validators and the
object stores do not go by this list, and so there are secrets that it lets through.
-/

namespace CloudBackup.Config

open Database Casing

def secretReplace : Str := "****************".toList

/-- `ParemtersWithSecrets`. -/
def parametersWithSecrets : List Str :=
  ["aws_secret_access_key".toList, "private_key".toList, "password".toList, "pass".toList]

section

variable (u : Tables)

def isSecretName (name : Str) : Bool := parametersWithSecrets.any fun val => equalFold u name val

def starred (secret : Str) : Str := if secret = [] then [] else secretReplace

def sanitizeUser (user : ConfigUser) : ConfigUser := { user with pass := starred user.pass }

def sanitizeParameter (p : ConfigBackupTargetParams) : ConfigBackupTargetParams :=
  if isSecretName u p.name then { p with value := secretReplace } else p

def sanitizeTarget (t : ConfigBackupTarget) : ConfigBackupTarget :=
  { t with parameters := t.parameters.map (sanitizeParameter u) }

def sanitizeBackup (b : ConfigBackup) : ConfigBackup :=
  { b with encryptPass := starred b.encryptPass, target := b.target.map (sanitizeTarget u) }

def sanitizeEmail (email : ConfigNotificationEmail) : ConfigNotificationEmail :=
  { email with pass := starred email.pass }

def sanitizeCfgTemplate (config : CfgTemplate) : CfgTemplate :=
  { config with
    user := config.user.map sanitizeUser
    backup := config.backup.map (sanitizeBackup u)
    notifications := { config.notifications with email := config.notifications.email.map sanitizeEmail } }

/-! ### The secrets -/

/-- The parameter that holds the secret of a target, by the type of the target. The name
counts in whichever case it is accepted. -/
def isCredential (targetType name : Str) : Bool :=
  (targetType = awsS3 && toLower u name = "aws_secret_access_key".toList) ||
    (targetType = gcpStorage && toLower u name = "private_key".toList) ||
    (targetType = azureBlob && toLower u name = "storage_access_key".toList)

def masked (secret : Str) : Str := if secret = [] then [] else ['*']

def maskParameter (targetType : Str) (p : ConfigBackupTargetParams) : ConfigBackupTargetParams :=
  if isCredential u targetType p.name then { p with value := masked p.value } else p

def maskTarget (t : ConfigBackupTarget) : ConfigBackupTarget :=
  { t with parameters := t.parameters.map (maskParameter u t.type) }

def maskBackup (b : ConfigBackup) : ConfigBackup :=
  { b with encryptPass := masked b.encryptPass, target := b.target.map (maskTarget u) }

def maskSecrets (config : CfgTemplate) : CfgTemplate :=
  { config with
    user := config.user.map fun user => { user with pass := masked user.pass }
    backup := config.backup.map (maskBackup u)
    notifications := { config.notifications with
      email := config.notifications.email.map fun email => { email with pass := masked email.pass } } }

/-- The configurations differ only in the values of secrets that are not empty. -/
def DifferInSecrets (c c' : CfgTemplate) : Prop := maskSecrets u c = maskSecrets u c'

/-- The secrets that are not on the list: the access key of Azure, and the private key of a
service account if it is written with a dotted capital I. -/
def isMissed (targetType name : Str) : Bool :=
  (targetType = azureBlob && toLower u name = "storage_access_key".toList) ||
    (targetType = gcpStorage && toLower u name = "private_key".toList && name.any fun c => c = dottedCapitalI)

def missedOfParameter (targetType : Str) (p : ConfigBackupTargetParams) : List Str :=
  if isMissed u targetType p.name then [p.value] else []

def missedOfTarget (t : ConfigBackupTarget) : List Str := t.parameters.flatMap (missedOfParameter u t.type)

def missedSecrets (config : CfgTemplate) : List Str :=
  config.backup.flatMap fun b => b.target.flatMap (missedOfTarget u)

end

/-! ### What the list has, and what it lacks -/

variable {u : Tables}

theorem starred_eq_of_masked {s s' : Str} (h : masked s = masked s') : starred s = starred s' := by
  unfold masked at h
  unfold starred
  by_cases hs : s = [] <;> by_cases hs' : s' = [] <;> simp_all

theorem all_isAscii_of_mem_parametersWithSecrets : ∀ name ∈ parametersWithSecrets, name.all isAscii = true := by
  decide

theorem isSecretName_of_toLower {name val : Str} (hval : val ∈ parametersWithSecrets)
    (hdot : dottedCapitalI ∉ name) (h : toLower u name = val) : isSecretName u name = true :=
  List.any_eq_true.mpr
    ⟨val, hval, equalFold_of_toLower (all_isAscii_of_mem_parametersWithSecrets val hval) hdot h⟩

theorem isSecretName_of_dottedCapitalI {name : Str} (h : dottedCapitalI ∈ name) : isSecretName u name = false := by
  rw [isSecretName, List.any_eq_false]
  intro val hval
  rw [equalFold_of_dottedCapitalI (all_isAscii_of_mem_parametersWithSecrets val hval) h]
  simp

/-- A name that is as long as none on the list is not on it. -/
theorem isSecretName_of_toLower_length {name val : Str} (hname : toLower u name = val)
    (h : ∀ secret ∈ parametersWithSecrets, secret.length ≠ val.length) : isSecretName u name = false := by
  rw [isSecretName, List.any_eq_false]
  intro secret hsecret heq
  refine h secret hsecret ?_
  rw [← length_eq_of_equalFold heq, ← length_toLower (u := u) name, hname]

theorem isSecretName_of_isMissed {targetType name : Str} (h : isMissed u targetType name = true) :
    isSecretName u name = false := by
  simp only [isMissed, Bool.or_eq_true, Bool.and_eq_true, decide_eq_true_eq, List.any_eq_true] at h
  rcases h with ⟨-, hname⟩ | ⟨-, c, hc, rfl⟩
  · exact isSecretName_of_toLower_length hname (by decide)
  · exact isSecretName_of_dottedCapitalI hc

/-- A credential is on the list, or it is one of those that are missed. -/
theorem isMissed_of_isCredential {targetType name : Str} (h : isCredential u targetType name = true)
    (hlist : isSecretName u name = false) : isMissed u targetType name = true := by
  simp only [isCredential, Bool.or_eq_true, Bool.and_eq_true, decide_eq_true_eq] at h
  simp only [isMissed, Bool.or_eq_true, Bool.and_eq_true, decide_eq_true_eq, List.any_eq_true]
  rcases h with (⟨htype, hname⟩ | ⟨htype, hname⟩) | hazure
  · have hdot : dottedCapitalI ∉ name := by
      intro hmem
      have hi : 'i' ∈ toLower u name := List.mem_map_of_mem (f := lowerChar u) hmem
      rw [hname] at hi
      exact absurd hi (by decide)
    rw [isSecretName_of_toLower (by decide) hdot hname] at hlist
    cases hlist
  · by_cases hdot : dottedCapitalI ∈ name
    · exact .inr ⟨⟨htype, hname⟩, dottedCapitalI, hdot, rfl⟩
    · rw [isSecretName_of_toLower (by decide) hdot hname] at hlist
      cases hlist
  · exact .inl hazure

/-! ### Two configurations side by side -/

/-- If lists look the same through `f`, then `g` tells two elements apart just as `e` does,
and so for the lists. -/
theorem map_eq_map_iff_flatMap {α β γ δ : Type} {f : α → β} {g : α → γ} {e : α → List δ}
    (hlength : ∀ a b, f a = f b → (e a).length = (e b).length)
    (h : ∀ a b, f a = f b → (g a = g b ↔ e a = e b)) {l l' : List α} (hl : l.map f = l'.map f) :
    (l.map g = l'.map g ↔ l.flatMap e = l'.flatMap e) ∧ (l.flatMap e).length = (l'.flatMap e).length := by
  induction l generalizing l' with
  | nil =>
      rw [List.map_nil, List.nil_eq, List.map_eq_nil_iff] at hl
      simp [hl]
  | cons a l ih =>
      obtain ⟨b, l', rfl⟩ : ∃ b l₁, l' = b :: l₁ := by
        cases l' with
        | nil => cases hl
        | cons b l₁ => exact ⟨b, l₁, rfl⟩
      rw [List.map_cons, List.map_cons, List.cons.injEq] at hl
      obtain ⟨hrest, hlen⟩ := ih hl.2
      have ha := hlength a b hl.1
      rw [List.map_cons, List.map_cons, List.cons.injEq, List.flatMap_cons, List.flatMap_cons,
        List.length_append, List.length_append, ha, hlen, h a b hl.1, hrest]
      refine ⟨⟨fun heq => by rw [heq.1, heq.2], fun heq => List.append_inj heq ha⟩, rfl⟩

@[simp] theorem name_maskParameter (type : Str) (p : ConfigBackupTargetParams) :
    (maskParameter u type p).name = p.name := by
  unfold maskParameter
  split <;> rfl

section

variable {type : Str} {p p' : ConfigBackupTargetParams}

theorem missedOfParameter_length (hname : p.name = p'.name) :
    (missedOfParameter u type p).length = (missedOfParameter u type p').length := by
  simp only [missedOfParameter, hname]
  split <;> rfl

theorem sanitizeParameter_eq_iff (h : maskParameter u type p = maskParameter u type p') :
    sanitizeParameter u p = sanitizeParameter u p' ↔ missedOfParameter u type p = missedOfParameter u type p' := by
  obtain ⟨name, value⟩ := p
  obtain ⟨name', value'⟩ := p'
  obtain rfl : name = name' := by simpa using congrArg ConfigBackupTargetParams.name h
  cases hsecret : isSecretName u name with
  | true =>
      have hmissed : isMissed u type name = false := by
        by_contra hmissed
        rw [isSecretName_of_isMissed (by simpa using hmissed)] at hsecret
        cases hsecret
      simp [sanitizeParameter, missedOfParameter, hsecret, hmissed]
  | false =>
      cases hmissed : isMissed u type name with
      | true => simp [sanitizeParameter, missedOfParameter, hsecret, hmissed]
      | false =>
          have hcredential : isCredential u type name = false := by
            by_contra hcredential
            rw [isMissed_of_isCredential (by simpa using hcredential) hsecret] at hmissed
            cases hmissed
          have hvalue : value = value' := by simpa [maskParameter, hcredential] using h
          simp [sanitizeParameter, missedOfParameter, hsecret, hmissed, hvalue]

end

theorem maskTarget_eq {t t' : ConfigBackupTarget} (h : maskTarget u t = maskTarget u t') :
    t.type = t'.type ∧ { t with parameters := [] } = { t' with parameters := [] } ∧
      t.parameters.map (maskParameter u t.type) = t'.parameters.map (maskParameter u t.type) := by
  obtain ⟨name, type, keyPrefix, bucket, parameters, rateLimit⟩ := t
  obtain ⟨name', type', keyPrefix', bucket', parameters', rateLimit'⟩ := t'
  simp only [maskTarget, ConfigBackupTarget.mk.injEq] at h
  obtain ⟨rfl, rfl, rfl, rfl, hparams, rfl⟩ := h
  exact ⟨rfl, rfl, hparams⟩

theorem sanitizeTarget_eq_iff {t t' : ConfigBackupTarget} (h : maskTarget u t = maskTarget u t') :
    (sanitizeTarget u t = sanitizeTarget u t' ↔ missedOfTarget u t = missedOfTarget u t') ∧
      (missedOfTarget u t).length = (missedOfTarget u t').length := by
  obtain ⟨htype, hrest, hparams⟩ := maskTarget_eq h
  have hiff := map_eq_map_iff_flatMap (g := sanitizeParameter u) (e := missedOfParameter u t.type)
    (fun a b hab => missedOfParameter_length (by simpa using congrArg ConfigBackupTargetParams.name hab))
    (fun a b hab => sanitizeParameter_eq_iff hab) hparams
  have hsplit : sanitizeTarget u t = sanitizeTarget u t' ↔
      t.parameters.map (sanitizeParameter u) = t'.parameters.map (sanitizeParameter u) := by
    simp only [ConfigBackupTarget.mk.injEq] at hrest
    simp [sanitizeTarget, hrest]
  rw [hsplit, missedOfTarget, missedOfTarget, ← htype]
  exact hiff

theorem sanitizeBackup_eq_iff {b b' : ConfigBackup} (h : maskBackup u b = maskBackup u b') :
    (sanitizeBackup u b = sanitizeBackup u b' ↔
        b.target.flatMap (missedOfTarget u) = b'.target.flatMap (missedOfTarget u)) ∧
      (b.target.flatMap (missedOfTarget u)).length = (b'.target.flatMap (missedOfTarget u)).length := by
  simp only [maskBackup, ConfigBackup.mk.injEq] at h
  have hiff := map_eq_map_iff_flatMap (g := sanitizeTarget u) (e := missedOfTarget u)
    (fun a b hab => (sanitizeTarget_eq_iff hab).2) (fun a b hab => (sanitizeTarget_eq_iff hab).1)
    h.2.2.2.2.2.1
  have hsplit : sanitizeBackup u b = sanitizeBackup u b' ↔
      b.target.map (sanitizeTarget u) = b'.target.map (sanitizeTarget u) := by
    simp [sanitizeBackup, h, starred_eq_of_masked h.2.2.2.2.2.2.2.2.1]
  rw [hsplit]
  exact hiff

theorem map_congr_of_map_eq {α β γ : Type} {f : α → β} {g : α → γ} (h : ∀ a b, f a = f b → g a = g b)
    {l l' : List α} (hl : l.map f = l'.map f) : l.map g = l'.map g := by
  have hnil : ∀ l : List α, l.flatMap (fun _ => ([] : List Unit)) = [] :=
    fun l => List.flatMap_eq_nil_iff.mpr fun _ _ => rfl
  have hiff := map_eq_map_iff_flatMap (g := g) (e := fun _ => ([] : List Unit)) (fun _ _ _ => rfl)
    (fun a b hab => ⟨fun _ => rfl, fun _ => h a b hab⟩) hl
  exact hiff.1.mpr (by rw [hnil, hnil])

/-- Two configurations that differ in secrets look the same when they are sanitized, if
they agree on the secrets that are missed, and only then. -/
theorem sanitizeCfgTemplate_eq_iff (u : Tables) {c c' : CfgTemplate} (h : DifferInSecrets u c c') :
    sanitizeCfgTemplate u c = sanitizeCfgTemplate u c' ↔ missedSecrets u c = missedSecrets u c' := by
  simp only [DifferInSecrets, maskSecrets, CfgTemplate.mk.injEq, ConfigNotification.mk.injEq] at h
  obtain ⟨hdata, hrestore, hhtml, huser, hhttp, hhttps, hbackup, hemail, hscript⟩ := h
  have hiff := map_eq_map_iff_flatMap (g := sanitizeBackup u) (e := fun b => b.target.flatMap (missedOfTarget u))
    (fun a b hab => (sanitizeBackup_eq_iff hab).2) (fun a b hab => (sanitizeBackup_eq_iff hab).1) hbackup
  have huser' : c.user.map sanitizeUser = c'.user.map sanitizeUser := by
    refine map_congr_of_map_eq (fun a b hab => ?_) huser
    simp only [ConfigUser.mk.injEq] at hab
    simp [sanitizeUser, hab, starred_eq_of_masked hab.2.1]
  have hemail' : c.notifications.email.map sanitizeEmail = c'.notifications.email.map sanitizeEmail := by
    refine map_congr_of_map_eq (fun a b hab => ?_) hemail
    simp only [ConfigNotificationEmail.mk.injEq] at hab
    simp [sanitizeEmail, hab, starred_eq_of_masked hab.2.2.1]
  rw [missedSecrets, missedSecrets, ← hiff.1]
  simp [sanitizeCfgTemplate, hdata, hrestore, hhtml, huser', hhttp, hhttps, hemail', hscript]

def oneTarget (type : Str) (parameters : List ConfigBackupTargetParams) : CfgTemplate where
  dataDir := "/data".toList
  backup := [{ name := "docs".toList, target := [{ name := "cloud".toList, type, parameters }] }]

def azureWithKey (key : Str) : CfgTemplate :=
  oneTarget azureBlob [⟨"storage_account".toList, "acc".toList⟩, ⟨"storage_access_key".toList, key⟩]

def s3WithKey (key : Str) : CfgTemplate :=
  oneTarget awsS3 [⟨"aws_access_key_id".toList, "id".toList⟩, ⟨"AWS_Secret_Access_Key".toList, key⟩]

theorem sanitizeCfgTemplate_s3WithKey :
    DifferInSecrets .plain (s3WithKey "one".toList) (s3WithKey "two".toList) ∧
      sanitizeCfgTemplate .plain (s3WithKey "one".toList) = sanitizeCfgTemplate .plain (s3WithKey "two".toList) :=
  have h : DifferInSecrets .plain (s3WithKey "one".toList) (s3WithKey "two".toList) := by
    unfold DifferInSecrets
    decide
  ⟨h, (sanitizeCfgTemplate_eq_iff .plain h).mpr (by decide)⟩

theorem sanitizeCfgTemplate_azureWithKey :
    validate smallEnv (azureWithKey "one".toList) false = .ok () ∧
      validate smallEnv (azureWithKey "two".toList) false = .ok () ∧
      DifferInSecrets smallEnv.tables (azureWithKey "one".toList) (azureWithKey "two".toList) ∧
      sanitizeCfgTemplate smallEnv.tables (azureWithKey "one".toList) ≠
        sanitizeCfgTemplate smallEnv.tables (azureWithKey "two".toList) := by
  unfold DifferInSecrets
  decide

end CloudBackup.Config
