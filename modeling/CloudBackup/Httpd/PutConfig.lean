import CloudBackup.Config.Filling
import CloudBackup.Library.Threads

/-!
The handlers of `PUT /config` and `PUT /config/backup`, any number of them at a time. A
handler takes copies of the configuration, works on them, and saves what comes out of it.
The lock is held only while a copy is taken or the configuration is saved. That of the HTTP
server is left out: it keeps a handler waiting, but no handler looks at what it guards.

What validation asks of the file system has the same answer all the time, and a write either
fails before it begins or is complete.
-/

namespace CloudBackup.Httpd

open Database Config Checks Threads

/-! ### The handlers -/

/-- The loop of `handlerPutConfigBackup` over the places of the old list, and what comes after
it. `none` if a place is not there. -/
def overwriteOrAppend (b : ConfigBackup) : ℕ → List ConfigBackup → Option (List ConfigBackup)
  | 0, rest => some (rest ++ [b])
  | _ + 1, [] => none
  | n + 1, x :: rest =>
      if x.name = b.name then some (b :: rest) else (overwriteOrAppend b n rest).map (x :: ·)

/-- The part of `handlerPutConfigBackup` that works on the two copies. -/
def editBackup (env : Env) (b : ConfigBackup) (oldConfig newConfig : CfgTemplate) : Except Fault CfgTemplate := do
  let backups ← copyPasswordsFromOldConfigBackup env.tables [b] oldConfig.backup
  match backups with
  | [] => .error (.panic .indexOutOfRange)
  | b :: _ =>
      match overwriteOrAppend b oldConfig.backup.length newConfig.backup with
      | none => .error (.panic .indexOutOfRange)
      | some backup => .ok { newConfig with backup }

/-- The configuration in memory and in the file, and the lock on them. -/
structure Store where
  memory : CfgTemplate
  file : CfgTemplate
  locked : Bool := false

inductive Handler
  /-- `PUT /config`: the new configuration is loaded, it is accepted, the old one is copied. -/
  | put (newConfig : CfgTemplate)
  | putValid (newConfig : CfgTemplate)
  | putOld (newConfig oldConfig : CfgTemplate)
  /-- `PUT /config/backup`: the backup is loaded, it is accepted, the first copy is taken, and
  the second. -/
  | putBackup (b : ConfigBackup)
  | putBackupValid (b : ConfigBackup)
  | putBackupOld (b : ConfigBackup) (oldConfig : CfgTemplate)
  | putBackupBoth (b : ConfigBackup) (oldConfig newConfig : CfgTemplate)
  /-- The new configuration is ready; `base` is the copy it was made from. -/
  | edited (base oldConfig newConfig : CfgTemplate)
  | saving (base newConfig : CfgTemplate)
  /-- The file is written, and the lock is still held. -/
  | written (newConfig : CfgTemplate)
  /-- The configuration in memory is replaced, and the daemon is not yet notified. -/
  | notifying
  | replied (success : Bool)
  | panicked (p : Panic)

/-- How a handler goes on after an error or a panic. -/
def Handler.after : Fault → Handler
  | .error _ => .replied false
  | .panic p => .panicked p

variable (env : Env)

/-- The steps of a handler. Lists do not tell `nil` from empty, and JSON does: the same
configuration may count as another one and be saved. -/
inductive Act : Store → Handler → Store → Handler → Prop
  | accept {s c} (h : validate env c true = .ok ()) : Act s (.put c) s (.putValid c)
  | refuse {s c e} (h : validate env c true = .error e) : Act s (.put c) s (.after e)
  | noDatabase {s c} : Act s (.putValid c) s (.replied false)
  | copyOld {s c} (h : s.locked = false) : Act s (.putValid c) s (.putOld c s.memory)
  | fill {s c old c'} (h : copyPasswordsFromOldConfig env.tables c old = .ok c') :
      Act s (.putOld c old) s (.edited old old c')
  | noFill {s c old e} (h : copyPasswordsFromOldConfig env.tables c old = .error e) :
      Act s (.putOld c old) s (.after e)
  | acceptBackup {s b} (h : validateBackup env [b] = .ok ()) : Act s (.putBackup b) s (.putBackupValid b)
  | refuseBackup {s b e} (h : validateBackup env [b] = .error e) : Act s (.putBackup b) s (.after e)
  | copyFirst {s b} (h : s.locked = false) : Act s (.putBackupValid b) s (.putBackupOld b s.memory)
  | copySecond {s b old} (h : s.locked = false) : Act s (.putBackupOld b old) s (.putBackupBoth b old s.memory)
  | edit {s b old base c} (h : editBackup env b old base = .ok c) :
      Act s (.putBackupBoth b old base) s (.edited base old c)
  | noEdit {s b old base e} (h : editBackup env b old base = .error e) :
      Act s (.putBackupBoth b old base) s (.after e)
  | same {s base c} : Act s (.edited base c c) s (.replied true)
  | differ {s base old c} : Act s (.edited base old c) s (.saving base c)
  | write {s base c} (h : s.locked = false) :
      Act s (.saving base c) { s with file := c, locked := true } (.written c)
  | noWrite {s base c} (h : s.locked = false) : Act s (.saving base c) s (.replied false)
  | replace {s c} : Act s (.written c) { s with memory := c, locked := false } .notifying
  | notify {s} : Act s .notifying s (.replied true)

/-- A request has just come in. -/
def IsRequest (t : Handler) : Prop := (∃ c, t = .put c) ∨ ∃ b, t = .putBackup b

/-! ### What must not happen in between -/

/-- The backup has the place of one of the old list, or there is none of its name and the
list is not shorter than it was. -/
def Fits (name : Str) (old now : List ConfigBackup) : Prop :=
  name ∈ (now.take old.length).map ConfigBackup.name ∨
    (name ∉ now.map ConfigBackup.name ∧ old.length ≤ now.length)

/-- The first email with stars that has no counterpart, if there is one, is not further back
than the old list is long. -/
def EmailsInPlace (new old : List ConfigNotificationEmail) : Prop :=
  ∀ i, new.findIdx? (isUnmatched old) = some i → i < old.length

/-- What is asked of a handler that is about to take its second copy, or to fill in the
passwords. -/
structure Orderly (p : Pool Store Handler) (t : Handler) : Prop where
  fits : ∀ b old, t = .putBackupOld b old → Fits b.name old.backup p.shared.memory.backup
  emails : ∀ c old, t = .putOld c old → EmailsInPlace c.notifications.email old.notifications.email

/-! ### The edit -/

section

variable {b : ConfigBackup} {n : ℕ} {l l' : List ConfigBackup}

theorem overwriteOrAppend_eq_none : overwriteOrAppend b n l = none ↔
    l.length < n ∧ b.name ∉ l.map ConfigBackup.name := by
  induction n, l using overwriteOrAppend.induct b with
  | case1 rest => simp [overwriteOrAppend]
  | case2 n => simp [overwriteOrAppend]
  | case3 n x rest hname => simp [overwriteOrAppend, hname]
  | case4 n x rest hname ih => simp [overwriteOrAppend, hname, ih, Ne.symm hname]

/-- The new backup has replaced one of its name, or it stands at the end. -/
theorem overwriteOrAppend_names (h : overwriteOrAppend b n l = some l') :
    l'.map ConfigBackup.name = l.map ConfigBackup.name ∨
      (l' = l ++ [b] ∧ b.name ∉ (l.take n).map ConfigBackup.name) := by
  induction n, l using overwriteOrAppend.induct b generalizing l' with
  | case1 rest => exact .inr ⟨(Option.some.inj h).symm, by simp⟩
  | case2 n => cases h
  | case3 n x rest hname =>
      rw [overwriteOrAppend, if_pos hname] at h
      obtain rfl := Option.some.inj h
      exact .inl (by simp [hname])
  | case4 n x rest hname ih =>
      rw [overwriteOrAppend, if_neg hname] at h
      obtain ⟨rest', hrest, rfl⟩ := Option.map_eq_some_iff.mp h
      rcases ih hrest with hnames | ⟨rfl, hfree⟩
      · exact .inl (by simp [hnames])
      · refine .inr ⟨rfl, ?_⟩
        rw [List.take_succ_cons, List.map_cons, List.mem_cons, not_or]
        exact ⟨Ne.symm hname, hfree⟩

theorem mem_overwriteOrAppend (h : overwriteOrAppend b n l = some l') :
    b ∈ l' ∧ (∀ x ∈ l', x = b ∨ x ∈ l) ∧ ∀ x ∈ l, x.name ≠ b.name → x ∈ l' := by
  induction n, l using overwriteOrAppend.induct b generalizing l' with
  | case1 rest =>
      obtain rfl := Option.some.inj h
      simp only [List.mem_append, List.mem_singleton]
      exact ⟨.inr trivial, fun x hx => hx.symm, fun x hx _ => .inl hx⟩
  | case2 n => cases h
  | case3 n y rest hname =>
      rw [overwriteOrAppend, if_pos hname] at h
      obtain rfl := Option.some.inj h
      simp only [List.mem_cons]
      refine ⟨.inl trivial, fun x hx => hx.imp id .inr, fun x hx hne => ?_⟩
      rcases hx with rfl | hx
      · exact absurd hname hne
      · exact .inr hx
  | case4 n y rest hname ih =>
      rw [overwriteOrAppend, if_neg hname] at h
      obtain ⟨rest', hrest, rfl⟩ := Option.map_eq_some_iff.mp h
      obtain ⟨hmem, hold, hkept⟩ := ih hrest
      simp only [List.mem_cons]
      refine ⟨.inr hmem, fun x hx => ?_, fun x hx hne => hx.imp id fun hx => hkept x hx hne⟩
      rcases hx with rfl | hx
      · exact .inr (.inl rfl)
      · exact (hold x hx).imp id .inr

end

section

variable {env : Env} {b : ConfigBackup} {old base c : CfgTemplate}

theorem editBackup_ok (h : editBackup env b old base = .ok c) : ∃ b' backup,
    copyBackup env.tables old.backup b = .ok b' ∧
      overwriteOrAppend b' old.backup.length base.backup = some backup ∧ c = { base with backup } := by
  obtain ⟨backups, hcopy, h⟩ := bind_ok.mp h
  cases mapAll_ok.mp hcopy with
  | cons hb' hnil =>
      cases hnil
      simp only at h
      split at h
      · cases h
      · rename_i backup hedit
        exact ⟨_, backup, hb', hedit, (Except.ok.inj h).symm⟩

/-- Out of range is what goes wrong if the list has become too short. -/
theorem editBackup_panic {p : Panic} (h : editBackup env b old base = .error (.panic p)) :
    base.backup.length < old.backup.length ∧ b.name ∉ base.backup.map ConfigBackup.name := by
  rcases bind_error h with hcopy | ⟨backups, hcopy, h⟩
  · exact absurd hcopy (copyBackups_ne_panic _ _ p)
  · cases mapAll_ok.mp hcopy with
    | cons hb' hnil =>
        cases hnil
        simp only at h
        split at h
        · rename_i hedit
          rw [overwriteOrAppend_eq_none, name_of_copyBackup hb'] at hedit
          exact hedit
        · cases h

/-- What comes out of an edit is accepted, if the backup fits. -/
theorem validate_of_editBackup (hb : validateBackupEntry env 0 b = .ok ())
    (hbase : validate env base false = .ok ()) (hfits : Fits b.name old.backup base.backup)
    (h : editBackup env b old base = .ok c) : validate env c false = .ok () := by
  obtain ⟨b', backup, hcopy, hedit, rfl⟩ := editBackup_ok h
  obtain ⟨hsystem, hbackup, hrest⟩ := validate_ok.mp hbase
  refine validate_ok.mpr ⟨⟨hsystem.dataDir, hsystem.htmlDir, hsystem.restoreDir, hsystem.https⟩, ?_, hrest⟩
  rw [validateBackup_ok] at hbackup ⊢
  refine ⟨?_, fun x hx => ?_⟩
  · rcases overwriteOrAppend_names hedit with hnames | ⟨rfl, hfree⟩
    · rw [hnames]
      exact hbackup.1
    · rw [name_of_copyBackup hcopy] at hfree
      rcases hfits with hplace | ⟨hnew, -⟩
      · exact absurd hplace hfree
      · rw [List.map_append, List.map_singleton, name_of_copyBackup hcopy, ← List.concat_eq_append]
        exact hbackup.1.concat hnew
  · rcases (mem_overwriteOrAppend hedit).2.1 x hx with rfl | hx
    · exact validateBackupEntry_of_copyBackup hcopy hb
    · exact hbackup.2 x hx

theorem editBackup_inRange (hfits : Fits b.name old.backup base.backup) {p : Panic} :
    editBackup env b old base ≠ .error (.panic p) := by
  intro h
  obtain ⟨hshort, hnew⟩ := editBackup_panic h
  rcases hfits with hplace | ⟨-, hlength⟩
  · exact hnew ((List.take_sublist _ _).map _ |>.subset hplace)
  · omega

end

/-! ### Runs -/

section

variable {env : Env}

def HandlerOk (env : Env) : Handler → Prop
  | .put _ => True
  | .putValid c => validate env c true = .ok ()
  | .putOld c old => validate env c true = .ok () ∧ validate env old false = .ok ()
  | .putBackup _ => True
  | .putBackupValid b => validateBackupEntry env 0 b = .ok ()
  | .putBackupOld b _ => validateBackupEntry env 0 b = .ok ()
  | .putBackupBoth b old base => validateBackupEntry env 0 b = .ok () ∧ validate env base false = .ok () ∧
      Fits b.name old.backup base.backup
  | .edited _ _ c => validate env c false = .ok ()
  | .saving _ c => validate env c false = .ok ()
  | .written c => validate env c false = .ok ()
  | .notifying => True
  | .replied _ => True
  | .panicked p => p ≠ .indexOutOfRange

theorem handlerOk_after {e : Fault} (he : e.InRange) : HandlerOk env (.after e) := by
  cases e with
  | error => trivial
  | panic p => exact fun hp => he (congrArg Fault.panic hp)

/-- The configuration in memory is accepted, and so is the one in the file. -/
structure StoreOk (env : Env) (s : Store) : Prop where
  memory : validate env s.memory false = .ok ()
  file : validate env s.file false = .ok ()

theorem Act.ok {s s' : Store} {t t' : Handler} (hact : Act env s t s' t') {rest : Multiset Handler}
    (hguard : Orderly ⟨s, t ::ₘ rest⟩ t) (hs : StoreOk env s) (ht : HandlerOk env t) :
    StoreOk env s' ∧ HandlerOk env t' := by
  cases hact with
  | accept h => exact ⟨hs, h⟩
  | refuse h => exact ⟨hs, handlerOk_after (validate_inRange _ _ _ h)⟩
  | noDatabase => exact ⟨hs, trivial⟩
  | copyOld => exact ⟨hs, ht, hs.memory⟩
  | fill h => exact ⟨hs, validate_of_copyPasswords ht.2 ht.1 h⟩
  | noFill h =>
      refine ⟨hs, handlerOk_after ?_⟩
      rintro rfl
      obtain ⟨i, hi, hle⟩ := copyPasswords_panic h
      exact absurd (hguard.emails _ _ rfl i hi) (by omega)
  | acceptBackup h => exact ⟨hs, (validateBackup_ok.mp h).2 _ List.mem_cons_self⟩
  | refuseBackup h => exact ⟨hs, handlerOk_after (validateBackup_inRange _ _ h)⟩
  | copyFirst => exact ⟨hs, ht⟩
  | copySecond => exact ⟨hs, ht, hs.memory, hguard.fits _ _ rfl⟩
  | edit h => exact ⟨hs, validate_of_editBackup ht.1 ht.2.1 ht.2.2 h⟩
  | noEdit h =>
      refine ⟨hs, handlerOk_after ?_⟩
      rintro rfl
      exact editBackup_inRange ht.2.2 h
  | same => exact ⟨hs, trivial⟩
  | differ => exact ⟨hs, ht⟩
  | write => exact ⟨⟨hs.memory, ht⟩, ht⟩
  | noWrite => exact ⟨hs, trivial⟩
  | replace => exact ⟨⟨ht, hs.file⟩, trivial⟩
  | notify => exact ⟨hs, trivial⟩

/-- In a run in which every backup still fits when the second copy is taken, and no email is
out of place, the configurations in memory and in the file are always accepted, and no index
is out of range. -/
theorem updates_valid {c₀ : CfgTemplate} (h₀ : validate env c₀ false = .ok ()) {p : Pool Store Handler}
    (h : Reachable IsRequest (Act env) Orderly ⟨c₀, c₀, false⟩ p) :
    StoreOk env p.shared ∧ ∀ t ∈ p.threads, t ≠ .panicked .indexOutOfRange := by
  have hinv := h.invariant (I := fun s ts => StoreOk env s ∧ ∀ t ∈ ts, HandlerOk env t) ⟨⟨h₀, h₀⟩, by simp⟩
    (by
      rintro s ts t (⟨c, rfl⟩ | ⟨b, rfl⟩) ⟨hs, hts⟩
      · exact ⟨hs, Multiset.forall_mem_cons.mpr ⟨trivial, hts⟩⟩
      · exact ⟨hs, Multiset.forall_mem_cons.mpr ⟨trivial, hts⟩⟩)
    (by
      rintro s t s' t' rest ⟨hs, hts⟩ hguard hact
      obtain ⟨ht, hrest⟩ := Multiset.forall_mem_cons.mp hts
      obtain ⟨hs', ht'⟩ := hact.ok hguard hs ht
      exact ⟨hs', Multiset.forall_mem_cons.mpr ⟨ht', hrest⟩⟩)
  refine ⟨hinv.1, fun t ht heq => ?_⟩
  have hok := hinv.2 t ht
  rw [heq] at hok
  exact hok rfl

theorem orderly_of_ne {p : Pool Store Handler} {t : Handler} (hbackup : ∀ b old, t ≠ .putBackupOld b old)
    (hput : ∀ c old, t ≠ .putOld c old) : Orderly p t :=
  ⟨fun b old h => absurd h (hbackup b old), fun c old h => absurd h (hput c old)⟩

theorem orderly_putBackupOld {p : Pool Store Handler} {b : ConfigBackup} {old : CfgTemplate}
    (h : Fits b.name old.backup p.shared.memory.backup) : Orderly p (.putBackupOld b old) := by
  constructor
  · intro b' old' heq
    obtain ⟨rfl, rfl⟩ := Handler.putBackupOld.inj heq
    exact h
  · intro c old' heq
    cases heq

end

def emptyConfig : CfgTemplate := { dataDir := "/data".toList }

def plainBackup (name : Str) : ConfigBackup := { name := name }

def withBackups (backup : List ConfigBackup) : CfgTemplate := { emptyConfig with backup }

section

variable {env : Env} {guard : Pool Store Handler → Handler → Prop} {s₀ : Store} {m f base old c : CfgTemplate}
  {b : ConfigBackup} {ts : Multiset Handler}
  (hguard : ∀ p t, (∀ b old, t ≠ .putBackupOld b old) → (∀ c old, t ≠ .putOld c old) → guard p t)

include hguard

theorem reachable_save (h : Reachable IsRequest (Act env) guard s₀ ⟨⟨m, f, false⟩, .edited base old c ::ₘ ts⟩) :
    Reachable IsRequest (Act env) guard s₀ ⟨⟨c, c, false⟩, .replied true ::ₘ ts⟩ := by
  have hsaving := h.next .differ (hguard _ _ nofun nofun)
  have hwritten := hsaving.next (.write rfl) (hguard _ _ nofun nofun)
  have hsaved := hwritten.next .replace (hguard _ _ nofun nofun)
  exact hsaved.next .notify (hguard _ _ nofun nofun)

theorem reachable_firstCopy (h : Reachable IsRequest (Act env) guard s₀ ⟨⟨m, f, false⟩, ts⟩)
    (hb : validateBackup env [b] = .ok ()) :
    Reachable IsRequest (Act env) guard s₀ ⟨⟨m, f, false⟩, .putBackupOld b m ::ₘ ts⟩ := by
  have hreceived := h.start (.inr ⟨b, rfl⟩)
  have hvalid := hreceived.next (.acceptBackup hb) (hguard _ _ nofun nofun)
  exact hvalid.next (.copyFirst rfl) (hguard _ _ nofun nofun)

theorem reachable_secondCopy
    (h : Reachable IsRequest (Act env) guard s₀ ⟨⟨m, f, false⟩, .putBackupOld b old ::ₘ ts⟩)
    (hcopy : guard ⟨⟨m, f, false⟩, .putBackupOld b old ::ₘ ts⟩ (.putBackupOld b old))
    (hc : editBackup env b old m = .ok c) :
    Reachable IsRequest (Act env) guard s₀ ⟨⟨m, f, false⟩, .edited m old c ::ₘ ts⟩ :=
  (h.next (.copySecond rfl) hcopy).next (.edit hc) (hguard _ _ nofun nofun)

end

/-- Two requests for two new backups. The second one is done while the first stands between
its copies; the list has become longer, and the backup still fits. -/
theorem reachable_twoBackups : Reachable IsRequest (Act smallEnv) Orderly ⟨emptyConfig, emptyConfig, false⟩
    ⟨⟨withBackups [plainBackup "b".toList, plainBackup "a".toList],
      withBackups [plainBackup "b".toList, plainBackup "a".toList], false⟩, {.replied true, .replied true}⟩ := by
  have hguard : ∀ (p : Pool Store Handler) t, (∀ b old, t ≠ .putBackupOld b old) → (∀ c old, t ≠ .putOld c old) →
      Orderly p t := fun _ _ => orderly_of_ne
  have hstart : Reachable IsRequest (Act smallEnv) Orderly ⟨emptyConfig, emptyConfig, false⟩
      ⟨⟨emptyConfig, emptyConfig, false⟩, 0⟩ := .refl
  have hlate := reachable_firstCopy hguard (b := plainBackup "a".toList) hstart (by decide)
  have hother := reachable_firstCopy hguard (b := plainBackup "b".toList) hlate (by decide)
  have hsaved := reachable_save hguard (reachable_secondCopy hguard hother
    (orderly_putBackupOld (.inr ⟨List.not_mem_nil, le_rfl⟩)) (c := withBackups [plainBackup "b".toList]) (by decide))
  rw [Multiset.cons_swap] at hsaved
  exact reachable_save hguard (reachable_secondCopy hguard hsaved
    (orderly_putBackupOld (.inr ⟨by decide, by decide⟩)) (by decide))

theorem updates_valid_twoBackups : validate smallEnv emptyConfig false = .ok () ∧
    StoreOk smallEnv ⟨withBackups [plainBackup "b".toList, plainBackup "a".toList],
      withBackups [plainBackup "b".toList, plainBackup "a".toList], false⟩ :=
  have h₀ : validate smallEnv emptyConfig false = .ok () := by decide
  ⟨h₀, (updates_valid h₀ reachable_twoBackups).1⟩

/-! ### Runs with nothing asked -/

def Reaches (env : Env) (c₀ : CfgTemplate) (p : Pool Store Handler) : Prop :=
  Reachable IsRequest (Act env) (fun _ _ => True) ⟨c₀, c₀, false⟩ p

section

variable {env : Env} {c₀ : CfgTemplate}

theorem Reaches.next {s s' : Store} {t t' : Handler} {rest : Multiset Handler}
    (h : Reaches env c₀ ⟨s, t ::ₘ rest⟩) (hact : Act env s t s' t') : Reaches env c₀ ⟨s', t' ::ₘ rest⟩ :=
  Reachable.next h hact trivial

theorem Reaches.save {m f base old c : CfgTemplate} {ts : Multiset Handler}
    (h : Reaches env c₀ ⟨⟨m, f, false⟩, .edited base old c ::ₘ ts⟩) :
    Reaches env c₀ ⟨⟨c, c, false⟩, .replied true ::ₘ ts⟩ :=
  reachable_save (fun _ _ _ _ => trivial) h

theorem Reaches.firstCopy {m f : CfgTemplate} {ts : Multiset Handler} (h : Reaches env c₀ ⟨⟨m, f, false⟩, ts⟩)
    {b : ConfigBackup} (hb : validateBackup env [b] = .ok ()) :
    Reaches env c₀ ⟨⟨m, f, false⟩, .putBackupOld b m ::ₘ ts⟩ :=
  reachable_firstCopy (fun _ _ _ _ => trivial) h hb

theorem Reaches.secondCopy {m f old c : CfgTemplate} {b : ConfigBackup} {ts : Multiset Handler}
    (h : Reaches env c₀ ⟨⟨m, f, false⟩, .putBackupOld b old ::ₘ ts⟩) (hc : editBackup env b old m = .ok c) :
    Reaches env c₀ ⟨⟨m, f, false⟩, .edited m old c ::ₘ ts⟩ :=
  reachable_secondCopy (fun _ _ _ _ => trivial) h trivial hc

theorem Reaches.putConfig {m f c c' : CfgTemplate} {ts : Multiset Handler} (h : Reaches env c₀ ⟨⟨m, f, false⟩, ts⟩)
    (hc : validate env c true = .ok ()) (hfill : copyPasswordsFromOldConfig env.tables c m = .ok c') :
    Reaches env c₀ ⟨⟨c', c', false⟩, .replied true ::ₘ ts⟩ := by
  have hreceived : Reaches env c₀ ⟨⟨m, f, false⟩, .put c ::ₘ ts⟩ := Reachable.start h (.inl ⟨c, rfl⟩)
  have hold := (hreceived.next (.accept hc)).next (.copyOld rfl)
  exact (hold.next (.fill hfill)).save

theorem Reaches.swap {s : Store} {t t' : Handler} {ts : Multiset Handler}
    (h : Reaches env c₀ ⟨s, t ::ₘ t' ::ₘ ts⟩) : Reaches env c₀ ⟨s, t' ::ₘ t ::ₘ ts⟩ := by
  rwa [Multiset.cons_swap]

end

/-- Two requests for one new backup: the second one takes its first copy before the other is
done, and its second copy after that. -/
theorem reaches_duplicate : Reaches smallEnv emptyConfig
    ⟨⟨withBackups [plainBackup "a".toList, plainBackup "a".toList],
      withBackups [plainBackup "a".toList, plainBackup "a".toList], false⟩, {.replied true, .replied true}⟩ := by
  have hstart : Reaches smallEnv emptyConfig ⟨⟨emptyConfig, emptyConfig, false⟩, 0⟩ := Relation.ReflTransGen.refl
  have hlate := hstart.firstCopy (b := plainBackup "a".toList) (by decide)
  have hother := hlate.firstCopy (b := plainBackup "a".toList) (by decide)
  have hsaved := (hother.secondCopy (c := withBackups [plainBackup "a".toList]) (by decide)).save
  exact (hsaved.swap.secondCopy (by decide)).save

/-- A backup is sent while the list is made shorter. -/
theorem reaches_outOfRange : Reaches smallEnv (withBackups [plainBackup "a".toList])
    ⟨⟨emptyConfig, emptyConfig, false⟩, {.panicked .indexOutOfRange, .replied true}⟩ := by
  have hstart : Reaches smallEnv (withBackups [plainBackup "a".toList])
      ⟨⟨withBackups [plainBackup "a".toList], withBackups [plainBackup "a".toList], false⟩, 0⟩ :=
    Relation.ReflTransGen.refl
  have hlate := hstart.firstCopy (b := plainBackup "b".toList) (by decide)
  have hfill : copyPasswordsFromOldConfig smallEnv.tables emptyConfig (withBackups [plainBackup "a".toList]) =
      .ok emptyConfig := by decide
  have hsaved := hlate.putConfig (by decide) hfill
  exact (hsaved.swap.next (.copySecond rfl)).next (.noEdit (e := .panic .indexOutOfRange) (by decide))

/-- Both can happen: a configuration in memory and in the file that is not accepted, and an
index out of range. -/
theorem updates_not_valid :
    (validate smallEnv emptyConfig false = .ok () ∧ ∃ p, Reaches smallEnv emptyConfig p ∧
      validate smallEnv p.shared.memory false = .error (.error (.duplicateBackup "a".toList)) ∧
      validate smallEnv p.shared.file false = .error (.error (.duplicateBackup "a".toList))) ∧
    validate smallEnv (withBackups [plainBackup "a".toList]) false = .ok () ∧
      ∃ p, Reaches smallEnv (withBackups [plainBackup "a".toList]) p ∧ .panicked .indexOutOfRange ∈ p.threads :=
  ⟨⟨by decide, _, reaches_duplicate, by decide, by decide⟩, by decide, _, reaches_outOfRange,
    by simp⟩

end CloudBackup.Httpd
