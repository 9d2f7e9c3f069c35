import CloudBackup.Database.Access

/-!
`CloseDb` should give the database to one caller alone, until it calls `UnlockDb`: meanwhile
the file is copied. This is so only if the entry is there when `CloseDb` looks for it, if no
first open is under way, and if no disconnect is between its two steps when the number of
clients is found to be zero.
-/

namespace CloudBackup.Database

open Threads

def Caller.isLive : Caller → Bool
  | .opening .insert => true
  | .opening (.release _ handle) => handle = .opened
  | .has handle => handle = .opened
  | .disconnecting handle _ => handle = .opened
  | _ => false

def Caller.isFirst : Caller → Bool
  | .opening .firstFile => true
  | .opening .insert => true
  | _ => false

def Caller.holdsLock : Caller → Bool
  | .opening (.add _) => true
  | .opening (.file _) => true
  | .opening (.remove _) => true
  | .opening (.release _ _) => true
  | .closing _ (.wait _) => true
  | .closing _ (.release _) => true
  | .exclusive => true
  | .unlocking _ => true
  | _ => false

def firsts (ts : Multiset Caller) : ℕ := ts.countP fun c => c.isFirst = true

def holders (ts : Multiset Caller) : ℕ := ts.countP fun c => c.holdsLock = true

/-- While a caller is between `CloseDb` and `UnlockDb`, no handle is open. -/
def Exclusive (p : DbPool) : Prop := .exclusive ∈ p.threads → ∀ c ∈ p.threads, c.isLive = false

/-- Besides the discipline of the count: a first open ends before another one begins, `CloseDb`
finds an entry, and nobody has still to close its handle when `CloseDb` has found no more
clients. -/
structure Undisturbed (p : DbPool) (c : Caller) : Prop extends Disciplined p c where
  first : c = .opening .insert → firsts p.threads ≤ 1
  present : c = .closing false .lookup → p.shared.lookup ≠ none
  settled : ∀ e, c = .closing false (.wait e) → .disconnecting .opened .close ∉ p.threads

/-! ### What one action does -/

def DbOpenAllowed.isLocked (m : DbOpenAllowed) : Bool :=
  match m.lookup with
  | some e => (m.entry e).locked
  | none => false

namespace DbOpenAllowed

variable {m : DbOpenAllowed}

theorem isLocked_of_made (h : m.made = 1) : m.isLocked = (m.entry 0).locked := by
  simp [isLocked, lookup, h]

theorem isLocked_of_empty (h : m.made = 0) : m.isLocked = false := by
  simp [isLocked, lookup, h]

theorem isLocked_setLocked (h : m.made = 1) (locked : Bool) : (m.setLocked 0 locked).isLocked = locked := by
  rw [isLocked_of_made (by exact h)]
  simp [setLocked]

theorem isLocked_addClient (h : m.made = 1) : (m.addClient 0).isLocked = m.isLocked := by
  rw [isLocked_of_made h, isLocked_of_made (by exact h)]
  simp [addClient]

theorem isLocked_removeClient (h : m.made = 1) : (m.removeClient 0).isLocked = m.isLocked := by
  rw [isLocked_of_made h, isLocked_of_made (by exact h)]
  simp [removeClient]

theorem isLocked_insert (h : m.made = 0) : m.insert.isLocked = false := by
  rw [isLocked_of_made (by simp [insert, h])]
  simp [insert, h]

end DbOpenAllowed

inductive LockChange (m m' : DbOpenAllowed) (c c' : Caller) : Prop
  | same (hlocked : m'.isLocked = m.isLocked) (hc : c'.holdsLock = c.holdsLock)
  | takes (hfree : m.isLocked = false) (hlocked : m'.isLocked = true) (hc : c.holdsLock = false)
      (hc' : c'.holdsLock = true)
  | gives (hfree : m'.isLocked = false) (hc : c.holdsLock = true) (hc' : c'.holdsLock = false)

section

variable {m m' : DbOpenAllowed} {c c' : Caller} {ts : Multiset Caller}

theorem Act.lockChange (hact : Act m c m' c') (hplaced : Placed m.made c)
    (hheld : c.holdsLock = true → m.lookup ≠ none) (hguard : Undisturbed ⟨m, ts⟩ c) : LockChange m m' c c' := by
  cases hact with
  | openLock h =>
      obtain ⟨hmade, rfl⟩ := hplaced.knows _ rfl
      rw [← DbOpenAllowed.isLocked_of_made hmade] at h
      exact .takes h (DbOpenAllowed.isLocked_setLocked hmade true) rfl rfl
  | openAdd =>
      obtain ⟨hmade, rfl⟩ := hplaced.knows _ rfl
      exact .same (DbOpenAllowed.isLocked_addClient hmade) rfl
  | openRemove =>
      obtain ⟨hmade, rfl⟩ := hplaced.knows _ rfl
      exact .same (DbOpenAllowed.isLocked_removeClient hmade) rfl
  | openRelease =>
      obtain ⟨hmade, rfl⟩ := hplaced.knows _ rfl
      exact .gives (DbOpenAllowed.isLocked_setLocked hmade false) rfl rfl
  | firstInsert =>
      have hempty : m.made = 0 := DbOpenAllowed.lookup_eq_none.mp (hguard.insert rfl)
      refine .same ?_ rfl
      rw [DbOpenAllowed.isLocked_insert hempty, DbOpenAllowed.isLocked_of_empty hempty]
  | disconnectRemove =>
      obtain ⟨hmade, rfl⟩ := hplaced.knows _ rfl
      exact .same (DbOpenAllowed.isLocked_removeClient hmade) rfl
  | @closeNone releaseLock h =>
      cases releaseLock with
      | false => exact absurd h (hguard.present rfl)
      | true => exact .same rfl rfl
  | closeLock h =>
      obtain ⟨hmade, rfl⟩ := hplaced.knows _ rfl
      rw [← DbOpenAllowed.isLocked_of_made hmade] at h
      exact .takes h (DbOpenAllowed.isLocked_setLocked hmade true) rfl rfl
  | @closeWait e releaseLock h => cases releaseLock <;> exact .same rfl rfl
  | closeRelease =>
      obtain ⟨hmade, rfl⟩ := hplaced.knows _ rfl
      exact .gives (DbOpenAllowed.isLocked_setLocked hmade false) rfl rfl
  | unlockNone h => exact absurd h (hheld rfl)
  | unlockRelease =>
      obtain ⟨hmade, rfl⟩ := hplaced.knows _ rfl
      exact .gives (DbOpenAllowed.isLocked_setLocked hmade false) rfl rfl
  | _ => exact .same rfl rfl

/-- A handle is only opened under the lock, or in a first open. -/
theorem Act.live (hact : Act m c m' c') (hlive : c'.isLive = true) :
    c.isLive = true ∨ c.holdsLock = true ∨ c.isFirst = true := by
  cases hact with
  | openFile => exact .inr (.inl rfl)
  | openRelease => exact .inr (.inl rfl)
  | firstFile => exact .inr (.inr rfl)
  | firstInsert => exact .inr (.inr rfl)
  | disconnect => exact .inl hlive
  | disconnectFound h => exact .inl hlive
  | disconnectNone h => exact .inl hlive
  | disconnectRemove => exact .inl hlive
  | @disconnectClose handle => cases handle <;> cases hlive
  | @closeNone releaseLock h => cases releaseLock <;> cases hlive
  | @closeWait e releaseLock h => cases releaseLock <;> cases hlive
  | _ => cases hlive

theorem Act.first (hact : Act m c m' c') (hfirst : c'.isFirst = true) :
    m'.made = m.made ∧ (c.isFirst = true ∨ m.made = 0) := by
  cases hact with
  | openFirst h => exact ⟨rfl, .inr (DbOpenAllowed.lookup_eq_none.mp h)⟩
  | firstFile => exact ⟨rfl, .inl rfl⟩
  | @closeNone releaseLock h => cases releaseLock <;> cases hfirst
  | @closeWait e releaseLock h => cases releaseLock <;> cases hfirst
  | _ => cases hfirst

theorem Act.made (hact : Act m c m' c') : m'.made = m.made ∨ c = .opening .insert := by
  cases hact with
  | firstInsert => exact .inr rfl
  | _ => exact .inl rfl

/-- Only `CloseDb`, when it finds no clients, makes a caller exclusive. -/
theorem Act.exclusive (hact : Act m c m' .exclusive) (hguard : Undisturbed ⟨m, ts⟩ c) :
    ∃ e, c = .closing false (.wait e) ∧ m' = m ∧ (m.entry e).numClients = 0 := by
  generalize hc' : Caller.exclusive = c' at hact
  cases hact with
  | @closeNone releaseLock h =>
      cases releaseLock with
      | false => exact absurd h (hguard.present rfl)
      | true => cases hc'
  | @closeWait e releaseLock h =>
      cases releaseLock with
      | false => exact ⟨e, rfl, rfl, h⟩
      | true => cases hc'
  | _ => cases hc'

/-! ### Runs -/

theorem firsts_cons_of_first (h : c.isFirst = true) : firsts (c ::ₘ ts) = firsts ts + 1 :=
  Multiset.countP_cons_of_pos _ h

theorem holders_cons_of_holds (h : c.holdsLock = true) : holders (c ::ₘ ts) = holders ts + 1 :=
  Multiset.countP_cons_of_pos _ h

theorem holders_cons_of_not_holds (h : c.holdsLock = false) : holders (c ::ₘ ts) = holders ts :=
  Multiset.countP_cons_of_neg _ (by rw [h]; exact Bool.false_ne_true)

theorem holders_cons_congr (h : c'.holdsLock = c.holdsLock) : holders (c' ::ₘ ts) = holders (c ::ₘ ts) := by
  rw [holders, holders, Multiset.countP_cons, Multiset.countP_cons, h]

structure Excluding (m : DbOpenAllowed) (ts : Multiset Caller) : Prop where
  counted : Counted m ts
  first : m.made = 1 → ∀ c ∈ ts, c.isFirst = false
  lock : holders ts = m.isLocked.toNat
  quiet : .exclusive ∈ ts → ∀ c ∈ ts, c.isLive = false

theorem Excluding.made (h : Excluding m ts) (hpos : 0 < holders ts) : m.made = 1 := by
  have hone := h.counted.one
  have hlock := h.lock
  by_contra hne
  rw [DbOpenAllowed.isLocked_of_empty (by omega)] at hlock
  exact absurd hlock (by simpa using hpos.ne')

theorem Excluding.alone (h : Excluding m (c ::ₘ ts)) (hc : c.holdsLock = true) : .exclusive ∉ ts := by
  intro hmem
  have hlock := h.lock
  have hpos : 0 < holders ts := Multiset.countP_pos_of_mem hmem rfl
  have hle := Bool.toNat_le m.isLocked
  rw [holders_cons_of_holds hc] at hlock
  omega

theorem Excluding.start (h : Excluding m ts) (hc : c.Fresh) : Excluding m (c ::ₘ ts) := by
  have hplain : c.isFirst = false ∧ c.holdsLock = false ∧ c.isLive = false ∧ c ≠ .exclusive := by
    cases hc with
    | openDb => exact ⟨rfl, rfl, rfl, by simp⟩
    | closeDb releaseLock => exact ⟨rfl, rfl, rfl, by simp⟩
  obtain ⟨hfirst, hholds, hlive, hne⟩ := hplain
  refine ⟨h.counted.start hc, fun hmade d hd => ?_, ?_, fun hex d hd => ?_⟩
  · rcases Multiset.mem_cons.mp hd with rfl | hd
    · exact hfirst
    · exact h.first hmade d hd
  · rw [holders_cons_of_not_holds hholds, h.lock]
  · have hex := (Multiset.mem_cons.mp hex).resolve_left (Ne.symm hne)
    rcases Multiset.mem_cons.mp hd with rfl | hd
    · exact hlive
    · exact h.quiet hex d hd

theorem Excluding.act_first (h : Excluding m (c ::ₘ ts)) (hguard : Undisturbed ⟨m, c ::ₘ ts⟩ c)
    (hact : Act m c m' c') (hmade' : m'.made = 1) : ∀ d ∈ c' ::ₘ ts, d.isFirst = false := by
  intro d hd
  by_contra hne
  have hfirst := Bool.of_not_eq_false hne
  have hself := Multiset.mem_cons_self c ts
  rcases Multiset.mem_cons.mp hd with rfl | hd
  · obtain ⟨heq, hc | hempty⟩ := hact.first hfirst
    · rw [h.first (heq ▸ hmade') c hself] at hc
      cases hc
    · omega
  · rcases hact.made with heq | rfl
    · rw [h.first (heq ▸ hmade') d (Multiset.mem_cons_of_mem hd)] at hfirst
      cases hfirst
    · -- the entry is new, and this was the only first open
      have hle : firsts (.opening .insert ::ₘ ts) ≤ 1 := hguard.first rfl
      rw [firsts_cons_of_first rfl] at hle
      have hpos : 0 < firsts ts := Multiset.countP_pos_of_mem hd hfirst
      omega

theorem Excluding.act_lock (h : Excluding m (c ::ₘ ts)) (hguard : Undisturbed ⟨m, c ::ₘ ts⟩ c)
    (hact : Act m c m' c') : holders (c' ::ₘ ts) = m'.isLocked.toNat := by
  have hself := Multiset.mem_cons_self c ts
  have hheld : c.holdsLock = true → m.lookup ≠ none := by
    intro hc hnone
    have hmade := h.made (Multiset.countP_pos_of_mem hself hc)
    rw [DbOpenAllowed.lookup_eq_none.mp hnone] at hmade
    cases hmade
  have hlock := h.lock
  cases hact.lockChange (h.counted.placed c hself) hheld hguard with
  | same hlocked hc => rw [holders_cons_congr hc, hlocked, hlock]
  | takes hfree hlocked hc hc' =>
      rw [holders_cons_of_not_holds hc, hfree] at hlock
      rw [holders_cons_of_holds hc', hlocked, hlock]
      rfl
  | gives hfree hc hc' =>
      have hle := Bool.toNat_le m.isLocked
      rw [holders_cons_of_holds hc] at hlock
      rw [holders_cons_of_not_holds hc', hfree]
      change holders ts = 0
      omega

/-- A handle that is open belongs to a client, or to a first open, or is just being closed. -/
theorem Caller.isLive_cases (h : c.isLive = true) :
    c.isClient = true ∨ c.isFirst = true ∨ c = .disconnecting .opened .close := by
  unfold Caller.isLive at h
  split at h
  · exact .inr (.inl rfl)
  · exact .inl h
  · exact .inl h
  · rename_i handle pos
    cases pos with
    | lookup => exact .inl h
    | remove e => exact .inl h
    | close =>
        obtain rfl := of_decide_eq_true h
        exact .inr (.inr rfl)
  · cases h

theorem Excluding.quiet_of_wait (h : Excluding m ts) {e : ℕ} (hc : .closing false (.wait e) ∈ ts)
    (hnum : (m.entry e).numClients = 0) (hsettled : .disconnecting .opened .close ∉ ts) :
    ∀ d ∈ ts, d.isLive = false := by
  intro d hd
  obtain ⟨hmade, rfl⟩ := (h.counted.placed _ hc).knows e rfl
  have hzero : clients ts = 0 := by
    rw [← h.counted.exact, DbOpenAllowed.numClients_of_made hmade, hnum]
  by_contra hne
  rcases Caller.isLive_cases (Bool.of_not_eq_false hne) with hclient | hfirst | rfl
  · exact Multiset.countP_eq_zero.mp hzero d hd hclient
  · rw [h.first hmade d hd] at hfirst
    cases hfirst
  · exact hsettled hd

theorem Excluding.act_quiet (h : Excluding m (c ::ₘ ts)) (hguard : Undisturbed ⟨m, c ::ₘ ts⟩ c)
    (hact : Act m c m' c') (hex : .exclusive ∈ c' ::ₘ ts) : ∀ d ∈ c' ::ₘ ts, d.isLive = false := by
  intro d hd
  have hself := Multiset.mem_cons_self c ts
  rcases Multiset.mem_cons.mp hex with rfl | hmem
  · obtain ⟨e, rfl, -, hnum⟩ := hact.exclusive hguard
    rcases Multiset.mem_cons.mp hd with rfl | hd
    · rfl
    · exact h.quiet_of_wait hself hnum (hguard.settled e rfl) d (Multiset.mem_cons_of_mem hd)
  · have hquiet := h.quiet (Multiset.mem_cons_of_mem hmem)
    rcases Multiset.mem_cons.mp hd with rfl | hd
    · -- a new handle takes the lock, which is not free, or a first open
      by_contra hne
      rcases hact.live (Bool.of_not_eq_false hne) with hlive | hholds | hfirst
      · rw [hquiet c hself] at hlive
        cases hlive
      · exact h.alone hholds hmem
      · have hpos : 0 < holders (c ::ₘ ts) := Multiset.countP_pos_of_mem (Multiset.mem_cons_of_mem hmem) rfl
        have hmade := h.made hpos
        rw [h.first hmade c hself] at hfirst
        cases hfirst
    · exact hquiet d (Multiset.mem_cons_of_mem hd)

theorem Excluding.act (h : Excluding m (c ::ₘ ts)) (hguard : Undisturbed ⟨m, c ::ₘ ts⟩ c) (hact : Act m c m' c') :
    Excluding m' (c' ::ₘ ts) where
  counted := h.counted.act hguard.toDisciplined hact
  first := h.act_first hguard hact
  lock := h.act_lock hguard hact
  quiet := h.act_quiet hguard hact

end

/-- In a run in which nothing disturbs `CloseDb`, no handle is open between its return and the
call of `UnlockDb`. -/
theorem exclusive_of_undisturbed (p : DbPool) (h : DbReachable Undisturbed p) : Exclusive p := by
  have hexcluding : Excluding p.shared p.threads := by
    refine h.invariant ?_ (fun hc hI => hI.start hc) fun hI hguard hact => hI.act hguard hact
    have hnone : ∀ c : Caller, c ∉ (0 : Multiset Caller) := Multiset.notMem_zero
    exact ⟨⟨Nat.zero_le 1, fun c hc => absurd hc (hnone c), rfl, by decide⟩,
      fun _ c hc => absurd hc (hnone c), rfl, fun hex => absurd hex (hnone _)⟩
  exact hexcluding.quiet

/-! ### A handle that is still to be closed -/

section

variable {guard : DbPool → Caller → Prop}

theorem reachable_closeDb {m : DbOpenAllowed} {ts : Multiset Caller} {e : ℕ} (h : DbReachable guard ⟨m, ts⟩)
    (hfound : m.lookup = some e) (hfree : (m.entry e).locked = false) (hnum : (m.entry e).numClients = 0)
    (hlookup : guard ⟨m, .closing false .lookup ::ₘ ts⟩ (.closing false .lookup))
    (hlock : guard ⟨m, .closing false (.lock e) ::ₘ ts⟩ (.closing false (.lock e)))
    (hwait : guard ⟨m.setLocked e true, .closing false (.wait e) ::ₘ ts⟩ (.closing false (.wait e))) :
    DbReachable guard ⟨m.setLocked e true, .exclusive ::ₘ ts⟩ := by
  have hstart := h.start (Caller.Fresh.closeDb false)
  have hfound := hstart.next (.closeFound hfound) hlookup
  have hlocked := hfound.next (.closeLock hfree) hlock
  have hzero : ((m.setLocked e true).entry e).numClients = 0 := by
    simp only [DbOpenAllowed.setLocked, Function.update_self, hnum]
  exact hlocked.next (.closeWait hzero) hwait

end

def afterFirst : DbOpenAllowed := DbOpenAllowed.empty.insert.removeClient 0

theorem exclusive_closeDb : ∃ p : DbPool, .exclusive ∈ p.threads ∧ Exclusive p := by
  have hopen : DbReachable Undisturbed ⟨DbOpenAllowed.empty.insert, {.has .opened}⟩ := by
    refine reachable_firstOpen ⟨⟨?_, ?_, ?_⟩, ?_, ?_, ?_⟩ ⟨⟨?_, ?_, ?_⟩, ?_, ?_, ?_⟩
      ⟨⟨fun _ => rfl, ?_, ?_⟩, fun _ => Nat.le_refl 1, ?_, ?_⟩ <;> simp
  have hdisconnect : DbReachable Undisturbed ⟨afterFirst, {.disconnecting .opened .close}⟩ := by
    refine reachable_disconnect hopen rfl ⟨⟨?_, ?_, ?_⟩, ?_, ?_, ?_⟩ ⟨⟨?_, ?_, ?_⟩, ?_, ?_, ?_⟩
      ⟨⟨?_, ?_, ?_⟩, ?_, ?_, ?_⟩ <;> simp
  have hclosed : DbReachable Undisturbed ⟨afterFirst, {.has .closed}⟩ :=
    hdisconnect.next .disconnectClose ⟨⟨by simp, by simp, by simp⟩, by simp, by simp, by simp⟩
  have hclose := reachable_closeDb (e := 0) hclosed rfl rfl rfl
    ⟨⟨by simp, by simp, by simp⟩, by simp, fun _ => Option.some_ne_none 0, by simp⟩
    ⟨⟨by simp, by simp, by simp⟩, by simp, by simp, by simp⟩
    ⟨⟨by simp, by simp, by simp⟩, by simp, by simp, by simp⟩
  exact ⟨_, Multiset.mem_cons_self Caller.exclusive {.has .closed}, exclusive_of_undisturbed _ hclose⟩

/-- The number of clients is zero before the last handle is closed. -/
theorem not_exclusive : ¬ ∀ p : DbPool, DbReachable (fun _ _ => True) p → Exclusive p := by
  intro hall
  have hopen : DbReachable (fun _ _ => True) ⟨DbOpenAllowed.empty.insert, {.has .opened}⟩ :=
    reachable_firstOpen trivial trivial trivial
  have hdisconnect : DbReachable (fun _ _ => True) ⟨afterFirst, {.disconnecting .opened .close}⟩ :=
    reachable_disconnect hopen rfl trivial trivial trivial
  have hclose := reachable_closeDb (e := 0) hdisconnect rfl rfl rfl trivial trivial trivial
  have hexclusive : Caller.exclusive ∈ Caller.exclusive ::ₘ {Caller.disconnecting .opened .close} :=
    Multiset.mem_cons_self _ _
  have hlast : Caller.disconnecting .opened .close ∈ Caller.exclusive ::ₘ {Caller.disconnecting .opened .close} :=
    Multiset.mem_cons_of_mem (Multiset.mem_singleton_self _)
  cases hall _ hclose hexclusive _ hlast

end CloudBackup.Database
