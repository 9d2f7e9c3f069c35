import CloudBackup.Httpd.PutConfig

/-!
Two requests of `PUT /config/backup` for different backups, and no other. Each of them saves a
configuration that is made from its second copy. If the other one is saved in between, then
this copy is out of date and the other backup is lost, though both requests are answered with
success. It is kept in every run in which a copy is still up to date when it is saved.
-/

namespace CloudBackup.Httpd

open Database Config Checks

structure Two where
  store : Store
  first : Handler
  second : Handler

section

variable (env : Env) (guard : Store → Handler → Prop)

inductive TwoStep : Two → Two → Prop
  | first {s s' t t' other} (hguard : guard s t) (h : Act env s t s' t') : TwoStep ⟨s, t, other⟩ ⟨s', t', other⟩
  | second {s s' t t' other} (hguard : guard s t) (h : Act env s t s' t') : TwoStep ⟨s, other, t⟩ ⟨s', other, t'⟩

def Leads (c₀ : CfgTemplate) (b₁ b₂ : ConfigBackup) : Two → Prop :=
  Relation.ReflTransGen (TwoStep env guard) ⟨⟨c₀, c₀, false⟩, .putBackup b₁, .putBackup b₂⟩

/-- What is saved was made from the configuration that is in memory. -/
def UpToDate (s : Store) (t : Handler) : Prop := ∀ base c, t = .saving base c → s.memory = base

/-- The backup as it was sent, with its stars filled in. -/
def Filled (b b' : ConfigBackup) : Prop := ∃ old, copyBackup env.tables old b = .ok b'

def Contains (c : CfgTemplate) (b : ConfigBackup) : Prop := ∃ b' ∈ c.backup, Filled env b b'

end

variable {env : Env}

/-- Without stars in it, the backup is there as it was sent. -/
theorem filled_of_noStars {b b' : ConfigBackup} (hpass : isStars b.encryptPass = false)
    (hparams : ∀ t ∈ b.target, ∀ p ∈ t.parameters, isStars p.value = false) (h : Filled env b b') : b' = b := by
  obtain ⟨old, hcopy⟩ := h
  obtain ⟨b₁, hb₁, hcopy⟩ := bind_ok.mp hcopy
  rw [copyEncryptPass, if_neg (by simp [hpass])] at hb₁
  obtain rfl := Except.ok.inj hb₁
  obtain ⟨ts, hts, hcopy⟩ := bind_ok.mp hcopy
  have hparam : ∀ t ∈ b.target, copyTarget env.tables old b t = .ok t := by
    intro t ht
    have hps : mapAll (copyParameter env.tables old b t) t.parameters = .ok t.parameters := by
      rw [mapAll_ok, List.forall₂_same]
      intro p hp
      rw [copyParameter_eq, hparams t ht p hp, Bool.and_false]
      rfl
    rw [copyTarget, hps]
    rfl
  have htargets : mapAll (copyTarget env.tables old b) b.target = .ok b.target := by
    rw [mapAll_ok, List.forall₂_same]
    exact hparam
  obtain rfl := Except.ok.inj (hts.symm.trans htargets)
  exact (Except.ok.inj hcopy).symm

/-! ### What one request keeps of the other -/

def KeepsOthers (name : Str) (c c' : CfgTemplate) : Prop := ∀ x ∈ c.backup, x.name ≠ name → x ∈ c'.backup

theorem KeepsOthers.refl (name : Str) (c : CfgTemplate) : KeepsOthers name c c := fun _ hx _ => hx

theorem KeepsOthers.trans {name : Str} {c c' c'' : CfgTemplate} (h : KeepsOthers name c c')
    (h' : KeepsOthers name c' c'') : KeepsOthers name c c'' :=
  fun x hx hne => h' x (h x hx hne) hne

theorem Contains.kept {b : ConfigBackup} {name : Str} {c c' : CfgTemplate} (h : Contains env c b)
    (hne : b.name ≠ name) (hkeeps : KeepsOthers name c c') : Contains env c' b := by
  obtain ⟨b', hb', old, hcopy⟩ := h
  refine ⟨b', hkeeps b' hb' ?_, old, hcopy⟩
  rwa [name_of_copyBackup hcopy]

theorem editBackup_contains {b : ConfigBackup} {old base c : CfgTemplate} (h : editBackup env b old base = .ok c) :
    Contains env c b ∧ KeepsOthers b.name base c := by
  obtain ⟨b', backup, hcopy, hedit, rfl⟩ := editBackup_ok h
  obtain ⟨hmem, -, hkept⟩ := mem_overwriteOrAppend hedit
  rw [name_of_copyBackup hcopy] at hkept
  exact ⟨⟨b', hmem, _, hcopy⟩, hkept⟩

/-! ### Runs of two requests -/

def Handler.isWritten : Handler → Bool
  | .written _ => true
  | _ => false

def Progress (env : Env) (b : ConfigBackup) (other : Str) (s : Store) : Handler → Prop
  | .putBackup x => x = b
  | .putBackupValid x => x = b
  | .putBackupOld x old => x = b ∧ KeepsOthers other old s.memory
  | .putBackupBoth x old _ => x = b ∧ KeepsOthers other old s.memory
  | .edited base old c => (Contains env c b ∧ KeepsOthers b.name base c) ∧ KeepsOthers other old s.memory
  | .saving base c => Contains env c b ∧ KeepsOthers b.name base c
  | .written c => Contains env c b ∧ KeepsOthers b.name s.memory c ∧ s.file = c
  | .notifying => Contains env s.memory b
  | .replied success => success = true → Contains env s.memory b
  | .panicked _ => True
  | _ => False

@[simp] theorem isWritten_written (c : CfgTemplate) : (Handler.written c).isWritten = true := rfl

@[simp] theorem isWritten_notifying : Handler.notifying.isWritten = false := rfl

theorem isWritten_after (e : Fault) : (Handler.after e).isWritten = false := by
  cases e <;> rfl

theorem progress_after (b : ConfigBackup) (other : Str) (s : Store) (e : Fault) :
    Progress env b other s (.after e) := by
  cases e with
  | error => exact fun h => (by cases h)
  | panic => trivial

theorem Progress.act {b : ConfigBackup} {other : Str} (hne : b.name ≠ other) {s s' : Store} {t t' : Handler}
    (hact : Act env s t s' t') (hguard : UpToDate s t) (h : Progress env b other s t) :
    Progress env b other s' t' := by
  cases hact with
  | accept => exact h.elim
  | refuse => exact h.elim
  | noDatabase => exact h.elim
  | copyOld => exact h.elim
  | fill => exact h.elim
  | noFill => exact h.elim
  | acceptBackup => exact h
  | refuseBackup => exact progress_after _ _ _ _
  | copyFirst => exact ⟨h, .refl _ _⟩
  | copySecond => exact h
  | edit hedit =>
      obtain ⟨rfl, hkept⟩ := h
      exact ⟨editBackup_contains hedit, hkept⟩
  | noEdit => exact progress_after _ _ _ _
  | same => exact fun _ => h.1.1.kept hne h.2
  | differ => exact h.1
  | write =>
      obtain rfl := hguard _ _ rfl
      exact ⟨h.1, h.2, rfl⟩
  | noWrite => exact fun hsuccess => (by cases hsuccess)
  | replace => exact h.1
  | notify => exact fun _ => h

/-- A new configuration in memory that keeps the others keeps what is known, if the lock was
not with this request. -/
theorem Progress.replaced {b : ConfigBackup} {other : Str} (hne : b.name ≠ other) {s s' : Store} {t : Handler}
    (ht : t.isWritten = false) (hkeeps : KeepsOthers other s.memory s'.memory) (h : Progress env b other s t) :
    Progress env b other s' t := by
  cases t with
  | put | putValid | putOld => exact h.elim
  | putBackup => exact h
  | putBackupValid => exact h
  | putBackupOld => exact ⟨h.1, h.2.trans hkeeps⟩
  | putBackupBoth => exact ⟨h.1, h.2.trans hkeeps⟩
  | edited => exact ⟨h.1, h.2.trans hkeeps⟩
  | saving => exact h
  | written => cases ht
  | notifying => exact h.kept hne hkeeps
  | replied success => exact fun hsuccess => (h hsuccess).kept hne hkeeps
  | panicked => trivial

theorem Act.store {s s' : Store} {t t' : Handler} (h : Act env s t s' t') :
    (s' = s ∧ t.isWritten = false ∧ t'.isWritten = false) ∨
      (∃ c, s.locked = false ∧ t.isWritten = false ∧ s' = { s with file := c, locked := true } ∧ t' = .written c) ∨
      ∃ c, t = .written c ∧ s' = { s with memory := c, locked := false } ∧ t' = .notifying := by
  cases h with
  | refuse => exact .inl ⟨rfl, rfl, isWritten_after _⟩
  | noFill => exact .inl ⟨rfl, rfl, isWritten_after _⟩
  | refuseBackup => exact .inl ⟨rfl, rfl, isWritten_after _⟩
  | noEdit => exact .inl ⟨rfl, rfl, isWritten_after _⟩
  | write hlock => exact .inr (.inl ⟨_, hlock, rfl, rfl, rfl⟩)
  | replace => exact .inr (.inr ⟨_, rfl, rfl, rfl⟩)
  | _ => exact .inl ⟨rfl, rfl, rfl⟩

structure Joint (env : Env) (b₁ b₂ : ConfigBackup) (p : Two) : Prop where
  first : Progress env b₁ b₂.name p.store p.first
  second : Progress env b₂ b₁.name p.store p.second
  lock : p.store.locked = (p.first.isWritten || p.second.isWritten)
  one : p.first.isWritten = true → p.second.isWritten = false
  file : p.store.locked = false → p.store.file = p.store.memory

theorem Joint.swap {b₁ b₂ : ConfigBackup} {s : Store} {t t' : Handler} (h : Joint env b₁ b₂ ⟨s, t, t'⟩) :
    Joint env b₂ b₁ ⟨s, t', t⟩ where
  first := h.second
  second := h.first
  lock := by rw [h.lock, Bool.or_comm]
  one ht' := by
    by_contra ht
    have hone := h.one (by simpa using ht)
    rw [ht'] at hone
    cases hone
  file := h.file

theorem Joint.step {b₁ b₂ : ConfigBackup} (hne : b₁.name ≠ b₂.name) {s s' : Store} {t t' other : Handler}
    (h : Joint env b₁ b₂ ⟨s, t, other⟩) (hguard : UpToDate s t) (hact : Act env s t s' t') :
    Joint env b₁ b₂ ⟨s', t', other⟩ := by
  have hfirst := Progress.act hne hact hguard h.first
  rcases hact.store with ⟨rfl, ht, ht'⟩ | ⟨c, hlock, ht, rfl, rfl⟩ | ⟨c, rfl, rfl, rfl⟩
  · refine ⟨hfirst, h.second, ?_, by simp [ht'], h.file⟩
    rw [h.lock]
    simp [ht, ht']
  · -- the lock was free, and so the other is not between its two writes
    have hother : other.isWritten = false := by
      have hfree := h.lock
      rw [show (Two.mk s t other).store.locked = false from hlock, eq_comm, Bool.or_eq_false_iff] at hfree
      exact hfree.2
    have hsecond : Progress env b₂ b₁.name { s with file := c, locked := true } other :=
      Progress.replaced (s := s) (Ne.symm hne) hother (.refl _ _) h.second
    exact ⟨hfirst, hsecond, by simp, fun _ => hother, by simp⟩
  · have hother : other.isWritten = false := h.one rfl
    obtain ⟨-, hkeeps, hfile⟩ := h.first
    exact ⟨hfirst, h.second.replaced (Ne.symm hne) hother hkeeps, by simp [hother], by simp, fun _ => hfile⟩

/-- If every copy is up to date when it is saved, both backups are there in the end. -/
theorem both_contained {c₀ : CfgTemplate} {b₁ b₂ : ConfigBackup} (hne : b₁.name ≠ b₂.name) {s : Store}
    (h : Leads env UpToDate c₀ b₁ b₂ ⟨s, .replied true, .replied true⟩) :
    (Contains env s.memory b₁ ∧ Contains env s.memory b₂) ∧ Contains env s.file b₁ ∧ Contains env s.file b₂ := by
  have hjoint : Joint env b₁ b₂ ⟨s, .replied true, .replied true⟩ := by
    generalize hp : (⟨s, .replied true, .replied true⟩ : Two) = p at h
    clear hp
    induction h with
    | refl => exact ⟨rfl, rfl, rfl, by simp [Handler.isWritten], fun _ => rfl⟩
    | tail _ hstep ih =>
        cases hstep with
        | first hguard hact => exact ih.step hne hguard hact
        | second hguard hact => exact (ih.swap.step (Ne.symm hne) hguard hact).swap
  have hfile : s.file = s.memory := hjoint.file hjoint.lock
  have h₁ : Contains env s.memory b₁ := hjoint.first rfl
  have h₂ : Contains env s.memory b₂ := hjoint.second rfl
  rw [hfile]
  exact ⟨⟨h₁, h₂⟩, h₁, h₂⟩

/-! ### Two runs -/

section

variable (env : Env) (guard : Store → Handler → Prop)

def Alone : Store × Handler → Store × Handler → Prop :=
  Relation.ReflTransGen fun x y => guard x.1 x.2 ∧ Act env x.1 x.2 y.1 y.2

end

section

variable {guard : Store → Handler → Prop} {c₀ : CfgTemplate} {b₁ b₂ : ConfigBackup} {s : Store} {t other : Handler}

theorem Leads.first {x : Store × Handler} (h : Leads env guard c₀ b₁ b₂ ⟨s, t, other⟩)
    (halone : Alone env guard (s, t) x) : Leads env guard c₀ b₁ b₂ ⟨x.1, x.2, other⟩ := by
  induction halone with
  | refl => exact h
  | tail _ hstep ih => exact ih.tail (.first hstep.1 hstep.2)

theorem Leads.second {x : Store × Handler} (h : Leads env guard c₀ b₁ b₂ ⟨s, other, t⟩)
    (halone : Alone env guard (s, t) x) : Leads env guard c₀ b₁ b₂ ⟨x.1, other, x.2⟩ := by
  induction halone with
  | refl => exact h
  | tail _ hstep ih => exact ih.tail (.second hstep.1 hstep.2)

theorem Alone.step {x : Store × Handler} {s s' : Store} {t t' : Handler} (h : Alone env guard x (s, t))
    (hact : Act env s t s' t') (hguard : guard s t) : Alone env guard x (s', t') :=
  h.tail ⟨hguard, hact⟩

theorem alone_edit {m f c : CfgTemplate} {b : ConfigBackup} (hb : validateBackup env [b] = .ok ())
    (hc : editBackup env b m m = .ok c)
    (hguard : ∀ t, (∀ base c, t ≠ .saving base c) → guard ⟨m, f, false⟩ t) :
    Alone env guard (⟨m, f, false⟩, .putBackup b) (⟨m, f, false⟩, .saving m c) := by
  have hvalid := Alone.step Relation.ReflTransGen.refl (.acceptBackup hb) (hguard _ (by simp))
  have hboth := (hvalid.step (.copyFirst rfl) (hguard _ (by simp))).step (.copySecond rfl) (hguard _ (by simp))
  exact (hboth.step (.edit hc) (hguard _ (by simp))).step .differ (hguard _ (by simp))

theorem alone_save {m f base c : CfgTemplate} (hguard : guard ⟨m, f, false⟩ (.saving base c))
    (hguard' : ∀ s t, (∀ base c, t ≠ .saving base c) → guard s t) :
    Alone env guard (⟨m, f, false⟩, .saving base c) (⟨c, c, false⟩, .replied true) := by
  have hstart : Alone env guard (⟨m, f, false⟩, .saving base c) (⟨m, f, false⟩, .saving base c) :=
    Relation.ReflTransGen.refl
  have hwritten := hstart.step (.write rfl) hguard
  exact (hwritten.step .replace (hguard' _ _ (by simp))).step .notify (hguard' _ _ (by simp))

end

theorem upToDate_of_ne {s : Store} {t : Handler} (h : ∀ base c, t ≠ .saving base c) : UpToDate s t :=
  fun base c heq => absurd heq (h base c)

def backupA : ConfigBackup := plainBackup "a".toList

def backupB : ConfigBackup := plainBackup "b".toList

theorem leads_inTurn : Leads smallEnv UpToDate emptyConfig backupA backupB
    ⟨⟨withBackups [backupA, backupB], withBackups [backupA, backupB], false⟩, .replied true, .replied true⟩ := by
  have hstart : Leads smallEnv UpToDate emptyConfig backupA backupB
      ⟨⟨emptyConfig, emptyConfig, false⟩, .putBackup backupA, .putBackup backupB⟩ := Relation.ReflTransGen.refl
  have hready := hstart.first (alone_edit (c := withBackups [backupA]) (by decide) (by decide) fun _ => upToDate_of_ne)
  have hsaved := hready.first (alone_save (fun base c heq => by cases heq; rfl) fun _ _ => upToDate_of_ne)
  have hready' := hsaved.second
    (alone_edit (c := withBackups [backupA, backupB]) (by decide) (by decide) fun _ => upToDate_of_ne)
  exact hready'.second (alone_save (fun base c heq => by cases heq; rfl) fun _ _ => upToDate_of_ne)

theorem both_contained_inTurn : backupA.name ≠ backupB.name ∧
    Contains smallEnv (withBackups [backupA, backupB]) backupA ∧
    Contains smallEnv (withBackups [backupA, backupB]) backupB :=
  have hne : backupA.name ≠ backupB.name := by decide
  ⟨hne, (both_contained hne leads_inTurn).2⟩

/-- Both requests take their copies before one of them is saved. -/
theorem leads_lost : Leads smallEnv (fun _ _ => True) emptyConfig backupA backupB
    ⟨⟨withBackups [backupB], withBackups [backupB], false⟩, .replied true, .replied true⟩ := by
  have hstart : Leads smallEnv (fun _ _ => True) emptyConfig backupA backupB
      ⟨⟨emptyConfig, emptyConfig, false⟩, .putBackup backupA, .putBackup backupB⟩ := Relation.ReflTransGen.refl
  have hready := hstart.first (alone_edit (c := withBackups [backupA]) (by decide) (by decide) fun _ _ => trivial)
  have hready' := hready.second (alone_edit (c := withBackups [backupB]) (by decide) (by decide) fun _ _ => trivial)
  have hsaved := hready'.first (alone_save trivial fun _ _ _ => trivial)
  exact hsaved.second (alone_save trivial fun _ _ _ => trivial)

/-- Both are answered with success, and the first backup is nowhere. -/
theorem update_lost : ∃ s, Leads smallEnv (fun _ _ => True) emptyConfig backupA backupB
    ⟨s, .replied true, .replied true⟩ ∧ backupA.name ≠ backupB.name ∧
      ¬ Contains smallEnv s.memory backupA ∧ ¬ Contains smallEnv s.file backupA := by
  have hmissing : ¬ Contains smallEnv (withBackups [backupB]) backupA := by
    rintro ⟨b', hb', old, hcopy⟩
    obtain rfl := List.mem_singleton.mp hb'
    exact absurd (name_of_copyBackup hcopy) (by decide)
  exact ⟨_, leads_lost, by decide, hmissing, hmissing⟩

end CloudBackup.Httpd
