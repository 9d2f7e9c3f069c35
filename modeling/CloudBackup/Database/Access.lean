import CloudBackup.Library.Threads
import Mathlib.Algebra.Order.Ring.Nat
import Mathlib.Logic.Function.Basic

/-!
Who has a database open: `OpenDb`, `DisconnectFromDb`, `CloseDb` and `UnlockDb`. The map
`DbOpenAllowed` has an entry for each database that was ever opened, with a lock and with the
number of clients. The operations on one database touch only its own entry, so the model has
one database.

The first open makes the entry, after it has opened the file and without any lock. A
disconnect lowers the number, whatever handle it gets, and only then closes the handle.
-/

namespace CloudBackup.Database

open Threads

/-! ### The entry -/

structure DbAccess where
  locked : Bool
  numClients : ℕ
  deriving DecidableEq, Repr

/-- All entries that were made for the database. The last one is in the map; the others can
still be known to those who looked before. -/
structure DbOpenAllowed where
  made : ℕ
  entry : ℕ → DbAccess

namespace DbOpenAllowed

def empty : DbOpenAllowed := ⟨0, fun _ => ⟨false, 0⟩⟩

def lookup (m : DbOpenAllowed) : Option ℕ := if m.made = 0 then none else some (m.made - 1)

def insert (m : DbOpenAllowed) : DbOpenAllowed :=
  ⟨m.made + 1, Function.update m.entry m.made ⟨false, 1⟩⟩

def setLocked (m : DbOpenAllowed) (e : ℕ) (locked : Bool) : DbOpenAllowed :=
  ⟨m.made, Function.update m.entry e ⟨locked, (m.entry e).numClients⟩⟩

/-- `AddUint32(&entry.NumClients, 1)`. -/
def addClient (m : DbOpenAllowed) (e : ℕ) : DbOpenAllowed :=
  ⟨m.made, Function.update m.entry e ⟨(m.entry e).locked, ((m.entry e).numClients + 1) % 2 ^ 32⟩⟩

/-- `AddUint32(&entry.NumClients, ^uint32(0))`. -/
def removeClient (m : DbOpenAllowed) (e : ℕ) : DbOpenAllowed :=
  ⟨m.made, Function.update m.entry e ⟨(m.entry e).locked, ((m.entry e).numClients + (2 ^ 32 - 1)) % 2 ^ 32⟩⟩

def numClients (m : DbOpenAllowed) : ℕ :=
  match m.lookup with
  | some e => (m.entry e).numClients
  | none => 0

end DbOpenAllowed

/-! ### The callers -/

inductive Handle
  | unopened
  | opened
  | closed
  deriving DecidableEq, Repr

inductive OpenDb
  | lookup
  | lock (e : ℕ)
  | add (e : ℕ)
  | file (e : ℕ)
  | remove (e : ℕ)
  | release (e : ℕ) (handle : Handle)
  | firstFile
  | insert
  deriving DecidableEq, Repr

inductive DisconnectFromDb
  | lookup
  | remove (e : ℕ)
  | close
  deriving DecidableEq, Repr

inductive CloseDb
  | lookup
  | lock (e : ℕ)
  | wait (e : ℕ)
  | release (e : ℕ)
  deriving DecidableEq, Repr

inductive UnlockDb
  | lookup
  | release (e : ℕ)
  deriving DecidableEq, Repr

/-- A caller. Between its calls it has the handle that it got; `exclusive` stands between
the return of `CloseDb`, called to keep the lock, and the call of `UnlockDb`. -/
inductive Caller
  | opening (pos : OpenDb)
  | has (handle : Handle)
  | disconnecting (handle : Handle) (pos : DisconnectFromDb)
  | closing (releaseLock : Bool) (pos : CloseDb)
  | exclusive
  | unlocking (pos : UnlockDb)
  | done
  deriving DecidableEq, Repr

inductive Caller.Fresh : Caller → Prop
  | openDb : Fresh (.opening .lookup)
  | closeDb (releaseLock : Bool) : Fresh (.closing releaseLock .lookup)

/-- The action of a caller. A caller of `OpenDb` may stop to wait for the lock, and any open
of the file may fail. A caller may disconnect at any time, and more than once. -/
inductive Act : DbOpenAllowed → Caller → DbOpenAllowed → Caller → Prop
  | openFound {m : DbOpenAllowed} {e : ℕ} (h : m.lookup = some e) :
      Act m (.opening .lookup) m (.opening (.lock e))
  | openFirst {m : DbOpenAllowed} (h : m.lookup = none) :
      Act m (.opening .lookup) m (.opening .firstFile)
  | openTimeout {m : DbOpenAllowed} {e : ℕ} : Act m (.opening (.lock e)) m (.has .unopened)
  | openLock {m : DbOpenAllowed} {e : ℕ} (h : (m.entry e).locked = false) :
      Act m (.opening (.lock e)) (m.setLocked e true) (.opening (.add e))
  | openAdd {m : DbOpenAllowed} {e : ℕ} : Act m (.opening (.add e)) (m.addClient e) (.opening (.file e))
  | openFile {m : DbOpenAllowed} {e : ℕ} :
      Act m (.opening (.file e)) m (.opening (.release e .opened))
  | openFails {m : DbOpenAllowed} {e : ℕ} : Act m (.opening (.file e)) m (.opening (.remove e))
  | openRemove {m : DbOpenAllowed} {e : ℕ} :
      Act m (.opening (.remove e)) (m.removeClient e) (.opening (.release e .unopened))
  | openRelease {m : DbOpenAllowed} {e : ℕ} {handle : Handle} :
      Act m (.opening (.release e handle)) (m.setLocked e false) (.has handle)
  | firstFile {m : DbOpenAllowed} : Act m (.opening .firstFile) m (.opening .insert)
  | firstFails {m : DbOpenAllowed} : Act m (.opening .firstFile) m (.has .unopened)
  | firstInsert {m : DbOpenAllowed} : Act m (.opening .insert) m.insert (.has .opened)
  | disconnect {m : DbOpenAllowed} {handle : Handle} : Act m (.has handle) m (.disconnecting handle .lookup)
  | disconnectFound {m : DbOpenAllowed} {e : ℕ} {handle : Handle} (h : m.lookup = some e) :
      Act m (.disconnecting handle .lookup) m (.disconnecting handle (.remove e))
  | disconnectNone {m : DbOpenAllowed} {handle : Handle} (h : m.lookup = none) :
      Act m (.disconnecting handle .lookup) m (.disconnecting handle .close)
  | disconnectRemove {m : DbOpenAllowed} {e : ℕ} {handle : Handle} :
      Act m (.disconnecting handle (.remove e)) (m.removeClient e) (.disconnecting handle .close)
  | disconnectClose {m : DbOpenAllowed} {handle : Handle} :
      Act m (.disconnecting handle .close) m (.has (if handle = .opened then .closed else handle))
  | closeFound {m : DbOpenAllowed} {e : ℕ} {releaseLock : Bool} (h : m.lookup = some e) :
      Act m (.closing releaseLock .lookup) m (.closing releaseLock (.lock e))
  | closeNone {m : DbOpenAllowed} {releaseLock : Bool} (h : m.lookup = none) :
      Act m (.closing releaseLock .lookup) m (if releaseLock then .done else .exclusive)
  | closeLock {m : DbOpenAllowed} {e : ℕ} {releaseLock : Bool} (h : (m.entry e).locked = false) :
      Act m (.closing releaseLock (.lock e)) (m.setLocked e true) (.closing releaseLock (.wait e))
  | closeWait {m : DbOpenAllowed} {e : ℕ} {releaseLock : Bool} (h : (m.entry e).numClients = 0) :
      Act m (.closing releaseLock (.wait e)) m
        (if releaseLock then .closing releaseLock (.release e) else .exclusive)
  | closeRelease {m : DbOpenAllowed} {e : ℕ} {releaseLock : Bool} :
      Act m (.closing releaseLock (.release e)) (m.setLocked e false) .done
  | unlock {m : DbOpenAllowed} : Act m .exclusive m (.unlocking .lookup)
  | unlockFound {m : DbOpenAllowed} {e : ℕ} (h : m.lookup = some e) :
      Act m (.unlocking .lookup) m (.unlocking (.release e))
  | unlockNone {m : DbOpenAllowed} (h : m.lookup = none) : Act m (.unlocking .lookup) m .done
  | unlockRelease {m : DbOpenAllowed} {e : ℕ} :
      Act m (.unlocking (.release e)) (m.setLocked e false) .done

abbrev DbPool := Pool DbOpenAllowed Caller

/-- What a run leads to, where each action meets the guard. -/
abbrev DbReachable (guard : DbPool → Caller → Prop) : DbPool → Prop :=
  Reachable Caller.Fresh Act guard .empty

/-! ### The number of clients -/

/-- The caller is one of the clients: it has a handle that it has not begun to give back, or
it is opening one under the lock. -/
def Caller.isClient : Caller → Bool
  | .opening (.file _) => true
  | .opening (.remove _) => true
  | .opening (.release _ handle) => handle = .opened
  | .has handle => handle = .opened
  | .disconnecting handle .lookup => handle = .opened
  | .disconnecting handle (.remove _) => handle = .opened
  | _ => false

def clients (ts : Multiset Caller) : ℕ := ts.countP fun c => c.isClient = true

def Caller.removes : Caller → Bool
  | .opening (.remove _) => true
  | .disconnecting _ (.remove _) => true
  | _ => false

/-- The entry tells the number of clients; nobody lowers a number that is zero already; and
an action of a caller that disconnects a handle that is not open leaves the number as it is. -/
structure CountExact (p : DbPool) : Prop where
  exact : p.shared.numClients = clients p.threads
  positive : ∀ c ∈ p.threads, c.removes = true → 0 < p.shared.numClients
  kept : ∀ handle pos m' c', .disconnecting handle pos ∈ p.threads → handle ≠ .opened →
    Act p.shared (.disconnecting handle pos) m' c' → m'.numClients = p.shared.numClients

/-- An entry is made only where there is none, a handle that is not open is disconnected only
where there is none, and the clients can be counted in 32 bits. -/
structure Disciplined (p : DbPool) (c : Caller) : Prop where
  insert : c = .opening .insert → p.shared.lookup = none
  disconnect : ∀ handle, c = .disconnecting handle .lookup → handle ≠ .opened → p.shared.lookup = none
  add : ∀ e, c = .opening (.add e) → clients p.threads + 1 < 2 ^ 32

def Caller.knows : Caller → Option ℕ
  | .opening (.lock e) => some e
  | .opening (.add e) => some e
  | .opening (.file e) => some e
  | .opening (.remove e) => some e
  | .opening (.release e _) => some e
  | .disconnecting _ (.remove e) => some e
  | .closing _ (.lock e) => some e
  | .closing _ (.wait e) => some e
  | .closing _ (.release e) => some e
  | .unlocking (.release e) => some e
  | _ => none

structure Placed (made : ℕ) (c : Caller) : Prop where
  knows : ∀ e, c.knows = some e → made = 1 ∧ e = 0
  client : c.isClient = true → made = 1
  removes : c.removes = true → c.isClient = true

theorem Placed.mono {c : Caller} {made made' : ℕ} (h : Placed made c) (hle : made ≤ made') (hone : made' ≤ 1) :
    Placed made' c where
  knows := fun e he => ⟨by have := (h.knows e he).1; omega, (h.knows e he).2⟩
  client := fun hc => by have := h.client hc; omega
  removes := h.removes

namespace DbOpenAllowed

variable {m : DbOpenAllowed}

theorem lookup_eq_some {e : ℕ} (hone : m.made ≤ 1) (h : m.lookup = some e) : m.made = 1 ∧ e = 0 := by
  unfold lookup at h
  split at h
  · cases h
  · have he := Option.some.inj h
    omega

theorem lookup_eq_none : m.lookup = none ↔ m.made = 0 := by
  unfold lookup
  split <;> simp_all

theorem numClients_of_made (h : m.made = 1) : m.numClients = (m.entry 0).numClients := by
  simp [numClients, lookup, h]

theorem numClients_of_empty (h : m.made = 0) : m.numClients = 0 := by
  simp [numClients, lookup, h]

theorem numClients_setLocked (h : m.made = 1) (locked : Bool) : (m.setLocked 0 locked).numClients = m.numClients := by
  rw [numClients_of_made h, numClients_of_made (by exact h)]
  simp [setLocked]

theorem numClients_addClient (h : m.made = 1) : (m.addClient 0).numClients = (m.numClients + 1) % 2 ^ 32 := by
  rw [numClients_of_made h, numClients_of_made (by exact h)]
  simp [addClient]

theorem numClients_removeClient (h : m.made = 1) :
    (m.removeClient 0).numClients = (m.numClients + (2 ^ 32 - 1)) % 2 ^ 32 := by
  rw [numClients_of_made h, numClients_of_made (by exact h)]
  simp [removeClient]

theorem numClients_insert (h : m.made = 0) : m.insert.numClients = 1 := by
  rw [numClients_of_made (by simp [insert, h])]
  simp [insert, h]

end DbOpenAllowed

inductive CountChange (m m' : DbOpenAllowed) (c c' : Caller) : Prop
  | same (hnum : m'.numClients = m.numClients) (hc : c'.isClient = c.isClient)
  | joins (hnum : m'.numClients = (m.numClients + 1) % 2 ^ 32) (hc : c.isClient = false)
      (hc' : c'.isClient = true) (hroom : m.numClients = 0 ∨ ∃ e, c = .opening (.add e))
  | leaves (hnum : m'.numClients = (m.numClients + (2 ^ 32 - 1)) % 2 ^ 32) (hc : c.isClient = true)
      (hc' : c'.isClient = false)

structure Effect (m m' : DbOpenAllowed) (c c' : Caller) : Prop where
  grows : m.made ≤ m'.made
  one : m'.made ≤ 1
  placed : Placed m'.made c'
  change : CountChange m m' c c'

section

variable {m m' : DbOpenAllowed} {c c' : Caller}

/-- An action that leaves the entry alone, or only its lock. -/
theorem Effect.quiet (hone : m.made ≤ 1) (hmade : m'.made = m.made) (hnum : m'.numClients = m.numClients)
    (hc : c'.isClient = c.isClient) (hplaced : Placed m.made c') : Effect m m' c c' :=
  ⟨hmade.ge, hmade.trans_le hone, by rw [hmade]; exact hplaced, .same hnum hc⟩

theorem Effect.locks {locked : Bool} (hone : m.made ≤ 1) (hmade : m.made = 1) (hc : c'.isClient = c.isClient)
    (hplaced : Placed m.made c') : Effect m (m.setLocked 0 locked) c c' :=
  .quiet hone rfl (DbOpenAllowed.numClients_setLocked hmade locked) hc hplaced

theorem Placed.away {made : ℕ} (hknows : c.knows = none) (hclient : c.isClient = false) (hremoves : c.removes = false) :
    Placed made c where
  knows := fun e he => by rw [hknows] at he; cases he
  client := fun hc => by rw [hclient] at hc; cases hc
  removes := fun hr => by rw [hremoves] at hr; cases hr

theorem Placed.there {made : ℕ} (hmade : made = 1) (hknows : c.knows = some 0 ∨ c.knows = none)
    (hremoves : c.removes = false ∨ c.isClient = true) : Placed made c where
  knows := fun e he => by
    rcases hknows with hsome | hnone
    · exact ⟨hmade, (Option.some.inj (hsome.symm.trans he)).symm⟩
    · rw [hnone] at he
      cases he
  client := fun _ => hmade
  removes := fun hr => by
    rcases hremoves with hfalse | hclient
    · rw [hfalse] at hr
      cases hr
    · exact hclient

theorem Act.effect {ts : Multiset Caller} (hact : Act m c m' c') (hone : m.made ≤ 1) (hplaced : Placed m.made c)
    (hguard : Disciplined ⟨m, ts⟩ c) : Effect m m' c c' := by
  cases hact with
  | openFound h =>
      obtain ⟨hmade, rfl⟩ := DbOpenAllowed.lookup_eq_some hone h
      exact .quiet hone rfl rfl rfl (.there hmade (.inl rfl) (.inl rfl))
  | openFirst h => exact .quiet hone rfl rfl rfl (.away rfl rfl rfl)
  | openTimeout => exact .quiet hone rfl rfl rfl (.away rfl rfl rfl)
  | openLock h =>
      obtain ⟨hmade, rfl⟩ := hplaced.knows _ rfl
      exact .locks hone hmade rfl (.there hmade (.inl rfl) (.inl rfl))
  | openAdd =>
      obtain ⟨hmade, rfl⟩ := hplaced.knows _ rfl
      exact ⟨le_rfl, hone, .there hmade (.inl rfl) (.inl rfl),
        .joins (DbOpenAllowed.numClients_addClient hmade) rfl rfl (.inr ⟨0, rfl⟩)⟩
  | openFile =>
      obtain ⟨hmade, rfl⟩ := hplaced.knows _ rfl
      exact .quiet hone rfl rfl rfl (.there hmade (.inl rfl) (.inl rfl))
  | openFails =>
      obtain ⟨hmade, rfl⟩ := hplaced.knows _ rfl
      exact .quiet hone rfl rfl rfl (.there hmade (.inl rfl) (.inr rfl))
  | openRemove =>
      obtain ⟨hmade, rfl⟩ := hplaced.knows _ rfl
      exact ⟨le_rfl, hone, .there hmade (.inl rfl) (.inl rfl),
        .leaves (DbOpenAllowed.numClients_removeClient hmade) rfl rfl⟩
  | openRelease =>
      obtain ⟨hmade, rfl⟩ := hplaced.knows _ rfl
      exact .locks hone hmade rfl (.there hmade (.inr rfl) (.inl rfl))
  | firstFile => exact .quiet hone rfl rfl rfl (.away rfl rfl rfl)
  | firstFails => exact .quiet hone rfl rfl rfl (.away rfl rfl rfl)
  | firstInsert =>
      have hempty : m.made = 0 := DbOpenAllowed.lookup_eq_none.mp (hguard.insert rfl)
      have hmade : m.insert.made = 1 := by rw [DbOpenAllowed.insert, hempty]
      refine ⟨by omega, hmade.le, .there hmade (.inr rfl) (.inl rfl), .joins ?_ rfl rfl (.inl ?_)⟩
      · rw [DbOpenAllowed.numClients_insert hempty, DbOpenAllowed.numClients_of_empty hempty]
        rfl
      · exact DbOpenAllowed.numClients_of_empty hempty
  | @disconnect handle =>
      refine .quiet hone rfl rfl rfl ?_
      by_cases hopen : handle = .opened
      · exact .there (hplaced.client (decide_eq_true hopen)) (.inr rfl) (.inl rfl)
      · exact .away rfl (decide_eq_false hopen) rfl
  | @disconnectFound e handle h =>
      obtain ⟨hmade, rfl⟩ := DbOpenAllowed.lookup_eq_some hone h
      -- with an entry, only an open handle is disconnected
      have hopen : handle = .opened := by
        by_contra hne
        cases h.symm.trans (hguard.disconnect _ rfl hne)
      exact .quiet hone rfl rfl rfl (.there hmade (.inl rfl) (.inr (decide_eq_true hopen)))
  | @disconnectNone handle h =>
      have hempty : m.made = 0 := DbOpenAllowed.lookup_eq_none.mp h
      -- without an entry there are no clients
      have hopen : handle ≠ .opened := by
        intro hopen
        have hmade := hplaced.client (decide_eq_true hopen)
        omega
      exact .quiet hone rfl rfl (decide_eq_false hopen).symm (.away rfl rfl rfl)
  | disconnectRemove =>
      obtain ⟨hmade, rfl⟩ := hplaced.knows _ rfl
      exact ⟨le_rfl, hone, .away rfl rfl rfl,
        .leaves (DbOpenAllowed.numClients_removeClient hmade) (hplaced.removes rfl) rfl⟩
  | @disconnectClose handle =>
      have hclient : (Caller.has (if handle = .opened then .closed else handle)).isClient = false := by
        cases handle <;> rfl
      exact .quiet hone rfl rfl hclient (.away rfl hclient rfl)
  | closeFound h =>
      obtain ⟨hmade, rfl⟩ := DbOpenAllowed.lookup_eq_some hone h
      exact .quiet hone rfl rfl rfl (.there hmade (.inl rfl) (.inl rfl))
  | closeNone h =>
      split
      · exact .quiet hone rfl rfl rfl (.away rfl rfl rfl)
      · exact .quiet hone rfl rfl rfl (.away rfl rfl rfl)
  | closeLock h =>
      obtain ⟨hmade, rfl⟩ := hplaced.knows _ rfl
      exact .locks hone hmade rfl (.there hmade (.inl rfl) (.inl rfl))
  | closeWait h =>
      obtain ⟨hmade, rfl⟩ := hplaced.knows _ rfl
      split
      · exact .quiet hone rfl rfl rfl (.there hmade (.inl rfl) (.inl rfl))
      · exact .quiet hone rfl rfl rfl (.away rfl rfl rfl)
  | closeRelease =>
      obtain ⟨hmade, rfl⟩ := hplaced.knows _ rfl
      exact .locks hone hmade rfl (.away rfl rfl rfl)
  | unlock => exact .quiet hone rfl rfl rfl (.away rfl rfl rfl)
  | unlockFound h =>
      obtain ⟨hmade, rfl⟩ := DbOpenAllowed.lookup_eq_some hone h
      exact .quiet hone rfl rfl rfl (.there hmade (.inl rfl) (.inl rfl))
  | unlockNone h => exact .quiet hone rfl rfl rfl (.away rfl rfl rfl)
  | unlockRelease =>
      obtain ⟨hmade, rfl⟩ := hplaced.knows _ rfl
      exact .locks hone hmade rfl (.away rfl rfl rfl)

end

structure Counted (m : DbOpenAllowed) (ts : Multiset Caller) : Prop where
  one : m.made ≤ 1
  placed : ∀ c ∈ ts, Placed m.made c
  exact : m.numClients = clients ts
  room : clients ts < 2 ^ 32

section

variable {m m' : DbOpenAllowed} {c c' : Caller} {ts : Multiset Caller}

theorem clients_cons_of_client (h : c.isClient = true) : clients (c ::ₘ ts) = clients ts + 1 :=
  Multiset.countP_cons_of_pos _ h

theorem clients_cons_of_not_client (h : c.isClient = false) : clients (c ::ₘ ts) = clients ts :=
  Multiset.countP_cons_of_neg _ (by rw [h]; exact Bool.false_ne_true)

theorem clients_cons_congr (h : c'.isClient = c.isClient) : clients (c' ::ₘ ts) = clients (c ::ₘ ts) := by
  rw [clients, clients, Multiset.countP_cons, Multiset.countP_cons, h]

theorem Caller.Fresh.away (h : c.Fresh) : Placed m.made c ∧ c.isClient = false := by
  cases h with
  | openDb => exact ⟨.away rfl rfl rfl, rfl⟩
  | closeDb releaseLock => exact ⟨.away rfl rfl rfl, rfl⟩

theorem Counted.start (h : Counted m ts) (hc : c.Fresh) : Counted m (c ::ₘ ts) where
  one := h.one
  placed := by
    intro d hd
    rcases Multiset.mem_cons.mp hd with rfl | hd
    · exact hc.away.1
    · exact h.placed d hd
  exact := by rw [clients_cons_of_not_client (hc.away (m := m)).2, h.exact]
  room := by rw [clients_cons_of_not_client (hc.away (m := m)).2]; exact h.room

theorem Counted.act (h : Counted m (c ::ₘ ts)) (hguard : Disciplined ⟨m, c ::ₘ ts⟩ c) (hact : Act m c m' c') :
    Counted m' (c' ::ₘ ts) := by
  have heffect := hact.effect h.one (h.placed c (Multiset.mem_cons_self c ts)) hguard
  have hplaced : ∀ d ∈ c' ::ₘ ts, Placed m'.made d := by
    intro d hd
    rcases Multiset.mem_cons.mp hd with rfl | hd
    · exact heffect.placed
    · exact (h.placed d (Multiset.mem_cons_of_mem hd)).mono heffect.grows heffect.one
  have hexact := h.exact
  have hroom := h.room
  cases heffect.change with
  | same hnum hc =>
      exact ⟨heffect.one, hplaced, by rw [hnum, hexact, clients_cons_congr hc],
        by rw [clients_cons_congr hc]; exact hroom⟩
  | joins hnum hc hc' hadd =>
      rw [clients_cons_of_not_client hc] at hexact hroom
      have hlt : clients ts + 1 < 2 ^ 32 := by
        rcases hadd with hzero | ⟨e, rfl⟩
        · omega
        · have hlt := hguard.add e rfl
          rw [clients_cons_of_not_client hc] at hlt
          exact hlt
      rw [hexact, Nat.mod_eq_of_lt hlt] at hnum
      exact ⟨heffect.one, hplaced, by rw [hnum, clients_cons_of_client hc'],
        by rw [clients_cons_of_client hc']; exact hlt⟩
  | leaves hnum hc hc' =>
      rw [clients_cons_of_client hc] at hexact hroom
      have hnum' : m'.numClients = clients ts := by omega
      exact ⟨heffect.one, hplaced, by rw [hnum', clients_cons_of_not_client hc'],
        by rw [clients_cons_of_not_client hc']; omega⟩

theorem Counted.countExact (h : Counted m ts) : CountExact ⟨m, ts⟩ where
  exact := h.exact
  positive := by
    intro c hc hremoves
    have hclient := (h.placed c hc).removes hremoves
    exact h.exact ▸ Multiset.countP_pos_of_mem hc hclient
  kept := by
    intro handle pos m' c' hc hne hact
    cases hact with
    | disconnectFound hfound => rfl
    | disconnectNone hnone => rfl
    | disconnectRemove => exact absurd (of_decide_eq_true ((h.placed _ hc).removes rfl)) hne
    | disconnectClose => rfl

end

theorem counted_of_disciplined {p : DbPool} (h : DbReachable Disciplined p) : Counted p.shared p.threads := by
  refine h.invariant ?_ (fun hc hI => hI.start hc) fun hI hguard hact => hI.act hguard hact
  exact ⟨Nat.zero_le 1, fun c hc => absurd hc (Multiset.notMem_zero c), rfl, by decide⟩

/-- In a run whose actions are disciplined, the number of clients is exact in every state. -/
theorem countExact_of_disciplined (p : DbPool) (h : DbReachable Disciplined p) : CountExact p :=
  (counted_of_disciplined h).countExact

/-! ### Two disconnects -/

section

variable {guard : DbPool → Caller → Prop}

theorem reachable_firstOpen (hlookup : guard ⟨.empty, {.opening .lookup}⟩ (.opening .lookup))
    (hfile : guard ⟨.empty, {.opening .firstFile}⟩ (.opening .firstFile))
    (hinsert : guard ⟨.empty, {.opening .insert}⟩ (.opening .insert)) :
    DbReachable guard ⟨DbOpenAllowed.empty.insert, {.has .opened}⟩ := by
  have hstart : DbReachable guard ⟨.empty, {.opening .lookup}⟩ := .start .refl .openDb
  have hfirst : DbReachable guard ⟨.empty, {.opening .firstFile}⟩ := hstart.next (.openFirst rfl) hlookup
  have hfile : DbReachable guard ⟨.empty, {.opening .insert}⟩ := hfirst.next .firstFile hfile
  exact hfile.next .firstInsert hinsert

theorem reachable_disconnect {m : DbOpenAllowed} {ts : Multiset Caller} {handle : Handle} {e : ℕ}
    (h : DbReachable guard ⟨m, .has handle ::ₘ ts⟩) (hfound : m.lookup = some e)
    (hhas : guard ⟨m, .has handle ::ₘ ts⟩ (.has handle))
    (hlookup : guard ⟨m, .disconnecting handle .lookup ::ₘ ts⟩ (.disconnecting handle .lookup))
    (hremove : guard ⟨m, .disconnecting handle (.remove e) ::ₘ ts⟩ (.disconnecting handle (.remove e))) :
    DbReachable guard ⟨m.removeClient e, .disconnecting handle .close ::ₘ ts⟩ := by
  have hdisconnect := h.next .disconnect hhas
  have hfound := hdisconnect.next (.disconnectFound hfound) hlookup
  exact hfound.next .disconnectRemove hremove

end

theorem disciplined_of_other {p : DbPool} {c : Caller} (hinsert : c ≠ .opening .insert)
    (hlookup : ∀ handle, c ≠ .disconnecting handle .lookup) (hadd : ∀ e, c ≠ .opening (.add e)) :
    Disciplined p c :=
  ⟨fun h => absurd h hinsert, fun handle h => absurd h (hlookup handle), fun e h => absurd h (hadd e)⟩

/-- Two callers open the database, and the second disconnects. -/
theorem countExact_disconnect : ∃ p : DbPool,
    p.threads = {.disconnecting .opened .close, .has .opened} ∧ p.shared.numClients = 1 ∧ CountExact p := by
  have hfirst : DbReachable Disciplined ⟨DbOpenAllowed.empty.insert, {.has .opened}⟩ := by
    refine reachable_firstOpen ⟨?_, ?_, ?_⟩ ⟨?_, ?_, ?_⟩ ⟨fun _ => rfl, ?_, ?_⟩ <;> simp
  have hlooked := (hfirst.start .openDb).next (.openFound rfl) (disciplined_of_other nofun nofun nofun)
  have hlocked := hlooked.next (.openLock rfl) (disciplined_of_other nofun nofun nofun)
  have hadded := hlocked.next .openAdd ⟨nofun, nofun, fun _ _ => by decide⟩
  have hopened := (hadded.next .openFile (disciplined_of_other nofun nofun nofun)).next .openRelease
    (disciplined_of_other nofun nofun nofun)
  have hdisconnect := reachable_disconnect (e := 0) hopened rfl (disciplined_of_other nofun nofun nofun)
    ⟨nofun, fun handle h hne => absurd (Caller.disconnecting.inj h).1.symm hne, nofun⟩
    (disciplined_of_other nofun nofun nofun)
  exact ⟨_, rfl, rfl, countExact_of_disciplined _ hdisconnect⟩

/-- After two disconnects of one handle, the number is as large as it can be. -/
theorem not_countExact : ¬ ∀ p : DbPool, DbReachable (fun _ _ => True) p → CountExact p := by
  intro hall
  have hopen : DbReachable (fun _ _ => True) ⟨DbOpenAllowed.empty.insert, {.has .opened}⟩ :=
    reachable_firstOpen trivial trivial trivial
  have hfirst := reachable_disconnect (e := 0) hopen rfl trivial trivial trivial
  have hclosed := hfirst.next .disconnectClose trivial
  have hsecond := reachable_disconnect (e := 0) hclosed rfl trivial trivial trivial
  have hexact := (hall _ hsecond).exact
  exact absurd hexact (by decide)

end CloudBackup.Database
