import CloudBackup.Library.Iteration
import CloudBackup.Database.Exclusive

/-!
`MutexWithTimeout`, the lock of a database. It is a channel with one place, and the lock is
free as long as the element is there. The channel does not know who took the element: a
release puts it back for anybody. So a client that releases the lock once more gives away the
lock of another one, unless nobody has it.
-/

namespace CloudBackup.Database

open Iteration

/-! ### The lock -/

structure MutexWithTimeout where
  lock : Bool
  deriving DecidableEq, Repr

def newMutexWithTimeout : MutexWithTimeout := ⟨true⟩

namespace MutexWithTimeout

/-- `GetLock`. There is no result while the caller has to wait. -/
def getLock (mu : MutexWithTimeout) : Option MutexWithTimeout := if mu.lock then some ⟨false⟩ else none

/-- `GetLockWithTimeout`. When the time is over, the caller may get the lock or not, whether it
is free or not. -/
def getLockWithTimeout (mu : MutexWithTimeout) (timedOut : Bool) : Option (Bool × MutexWithTimeout) :=
  if timedOut then some (false, mu) else mu.getLock.map fun mu' => (true, mu')

/-- `ReleaseLock`. It never waits: nothing is put into a full channel. -/
def releaseLock (mu : MutexWithTimeout) : MutexWithTimeout := if mu.lock then mu else ⟨true⟩

theorem lock_of_getLock {mu mu' : MutexWithTimeout} (h : mu.getLock = some mu') :
    mu.lock = true ∧ mu'.lock = false := by
  rw [getLock] at h
  split at h
  · obtain rfl := Option.some.inj h
    exact ⟨‹_›, rfl⟩
  · cases h

theorem getLock_of_lock {mu : MutexWithTimeout} (h : mu.lock = true) : mu.getLock = some ⟨false⟩ := if_pos h

@[simp] theorem releaseLock_lock (mu : MutexWithTimeout) : mu.releaseLock.lock = true := by
  rw [releaseLock]
  split
  · assumption
  · rfl

end MutexWithTimeout

/-! ### The clients -/

variable {Client : Type}

/-- The lock and its clients: who has acquired it at some time, and who holds it. A client
holds the lock from when it acquired it until its next release. -/
structure Gate (Client : Type) where
  mu : MutexWithTimeout
  acquired : Client → Bool
  holds : Client → Bool

def Gate.new : Gate Client := ⟨newMutexWithTimeout, fun _ => false, fun _ => false⟩

inductive GateCall (Client : Type)
  | getLock (c : Client)
  | getLockWithTimeout (c : Client) (timedOut : Bool)
  | releaseLock (c : Client)
  deriving DecidableEq, Repr

def Gate.acquire [DecidableEq Client] (g : Gate Client) (c : Client) (mu : MutexWithTimeout) : Gate Client :=
  ⟨mu, Function.update g.acquired c true, Function.update g.holds c true⟩

@[simp] theorem Gate.acquire_holds [DecidableEq Client] (g : Gate Client) (c : Client) (mu : MutexWithTimeout) :
    (g.acquire c mu).holds = Function.update g.holds c true := rfl

def GateCall.apply [DecidableEq Client] : GateCall Client → Gate Client → Gate Client
  | .getLock c, g =>
      match g.mu.getLock with
      | some mu => g.acquire c mu
      | none => g
  | .getLockWithTimeout c timedOut, g =>
      match g.mu.getLockWithTimeout timedOut with
      | some (true, mu) => g.acquire c mu
      | some (false, mu) => { g with mu := mu }
      | none => g
  | .releaseLock c, g => { g with mu := g.mu.releaseLock, holds := Function.update g.holds c false }

/-- A client releases the lock only after it acquired it, but perhaps more than once. -/
def GateCall.Permitted : GateCall Client → Gate Client → Prop
  | .releaseLock c, g => g.acquired c = true
  | _, _ => True

/-- A release by a client that does not hold the lock comes while nobody holds it. -/
def GateCall.Harmless : GateCall Client → Gate Client → Prop
  | .releaseLock c, g => g.holds c = true ∨ ∀ d, g.holds d = false
  | _, _ => True

/-- No two clients hold the lock. -/
def Gate.Exclusive (g : Gate Client) : Prop := ∀ c d, g.holds c = true → g.holds d = true → c = d

structure Gate.Sound (g : Gate Client) : Prop where
  exclusive : g.Exclusive
  free : g.mu.lock = true → ∀ c, g.holds c = false

theorem Gate.Sound.new : (Gate.new : Gate Client).Sound where
  exclusive := fun _ _ hc => by cases hc
  free := fun _ _ => rfl

section

variable [DecidableEq Client]

theorem Gate.Sound.taken {g : Gate Client} (h : g.Sound) {mu : MutexWithTimeout} (hget : g.mu.getLock = some mu)
    (c : Client) : (g.acquire c mu).Sound := by
  obtain ⟨hfree, htaken⟩ := MutexWithTimeout.lock_of_getLock hget
  -- nobody held the lock, so now only `c` does
  have honly : ∀ d, (g.acquire c mu).holds d = true → d = c := by
    intro d hd
    by_contra hne
    rw [Gate.acquire_holds, Function.update_of_ne hne, h.free hfree d] at hd
    cases hd
  constructor
  · intro d e hd he
    rw [honly d hd, honly e he]
  · intro hlock
    rw [Gate.acquire, htaken] at hlock
    cases hlock

theorem Gate.Sound.release {g : Gate Client} (h : g.Sound) {c : Client}
    (hc : g.holds c = true ∨ ∀ d, g.holds d = false) : (GateCall.apply (.releaseLock c) g).Sound := by
  -- whoever held the lock was `c`
  have hnone : ∀ d, Function.update g.holds c false d = false := by
    intro d
    by_cases hd : d = c
    · rw [hd, Function.update_self]
    · rw [Function.update_of_ne hd]
      rcases hc with hholds | hnone
      · by_contra htrue
        exact hd (h.exclusive d c (Bool.eq_true_of_not_eq_false htrue) hholds)
      · exact hnone d
  constructor
  · intro d e hd
    have hd' : Function.update g.holds c false d = true := hd
    rw [hnone d] at hd'
    cases hd'
  · exact fun _ => hnone

theorem Gate.Sound.apply {g : Gate Client} (h : g.Sound) {call : GateCall Client} (hcall : call.Harmless g) :
    (call.apply g).Sound := by
  cases call with
  | getLock c =>
      cases hget : g.mu.getLock with
      | none => simpa only [GateCall.apply, hget] using h
      | some mu => simpa only [GateCall.apply, hget] using h.taken hget c
  | getLockWithTimeout c timedOut =>
      cases timedOut with
      | true => exact h
      | false =>
          cases hget : g.mu.getLock with
          | none => simpa [GateCall.apply, MutexWithTimeout.getLockWithTimeout, hget] using h
          | some mu =>
              simpa [GateCall.apply, MutexWithTimeout.getLockWithTimeout, hget] using h.taken hget c
  | releaseLock c => exact h.release hcall

theorem not_exclusive_of_surplus {g : Gate Client} {c d e : Client} (hc : g.holds c = false)
    (hd : g.holds d = true) (he : e ≠ d) :
    ¬ (GateCall.apply (.getLock e) (GateCall.apply (.releaseLock c) g)).Exclusive := by
  have hcd : d ≠ c := by
    rintro rfl
    rw [hc] at hd
    cases hd
  have hget := MutexWithTimeout.getLock_of_lock (MutexWithTimeout.releaseLock_lock g.mu)
  intro hexclusive
  refine he (hexclusive e d ?_ ?_)
  · simp [GateCall.apply, hget, Gate.acquire]
  · simp [GateCall.apply, hget, Gate.acquire, Function.update_of_ne he.symm, Function.update_of_ne hcd, hd]

/-- As long as each release by a client that does not hold the lock comes while nobody does, no
two clients hold it. Once one comes while a client holds the lock, a second one can get it. -/
theorem gate_exclusive {g : Gate Client}
    (hrun : Reaches (fun call g => GateCall.Permitted call g ∧ GateCall.Harmless call g) GateCall.apply
      Gate.new g) :
    g.Exclusive ∧ ∀ c d e, g.holds c = false → g.holds d = true → e ≠ d →
      ¬ (GateCall.apply (.getLock e) (GateCall.apply (.releaseLock c) g)).Exclusive := by
  have hsound : g.Sound := hrun.invariant Gate.Sound.new fun call g h hcall => h.apply hcall.2
  exact ⟨hsound.exclusive, fun c d e => not_exclusive_of_surplus⟩

/-- The first of three clients releases the lock twice, and then the second one gets it. -/
theorem gate_exclusive_twice :
    (GateCall.apply (.getLock 1) (GateCall.apply (.releaseLock 0) (GateCall.apply (.releaseLock 0)
      (GateCall.apply (.getLockWithTimeout 0 false) (Gate.new : Gate (Fin 3)))))).Exclusive := by
  refine (gate_exclusive ?_).1
  refine .step _ (.step _ (.step _ (.step _ .refl ?_) ?_) ?_) ?_
  · exact ⟨trivial, trivial⟩
  · exact ⟨rfl, .inl rfl⟩
  · exact ⟨rfl, .inr (by decide)⟩
  · exact ⟨trivial, trivial⟩

/-- The second release comes after another client got the lock, and so a third one gets it too. -/
theorem gate_releasedTwice : ¬ ∀ g : Gate (Fin 3), Reaches GateCall.Permitted GateCall.apply Gate.new g →
    g.Exclusive := by
  intro h
  have hrun : Reaches GateCall.Permitted GateCall.apply (Gate.new : Gate (Fin 3))
      (GateCall.apply (.getLock 2) (GateCall.apply (.releaseLock 0) (GateCall.apply (.getLock 1)
        (GateCall.apply (.releaseLock 0) (GateCall.apply (.getLock 0) Gate.new))))) :=
    .step _ (.step _ (.step _ (.step _ (.step _ .refl trivial) rfl) trivial) rfl) trivial
  exact absurd (h _ hrun 1 2 (by decide) (by decide)) (by decide)

end

/-! ### The lock of the entry -/

def DbAccess.mutex (entry : DbAccess) : MutexWithTimeout := ⟨!entry.locked⟩

/-- What an action of a caller is for the lock of an entry: `GetLock` that did not have to wait,
`ReleaseLock` by a caller that holds the lock, a new lock, or nothing at all. -/
inductive OnMutex (m m' : DbOpenAllowed) (c : Caller) (e : ℕ) : Prop
  | getLock (h : (m.entry e).mutex.getLock = some (m'.entry e).mutex)
  | releaseLock (hc : c.holdsLock = true) (h : (m.entry e).mutex.releaseLock = (m'.entry e).mutex)
  | made (he : e = m.made) (h : (m'.entry e).mutex = newMutexWithTimeout)
  | same (h : (m'.entry e).mutex = (m.entry e).mutex)

theorem mutex_setLocked_of_ne (m : DbOpenAllowed) {e e' : ℕ} (locked : Bool) (he : e ≠ e') :
    ((m.setLocked e' locked).entry e).mutex = (m.entry e).mutex := by
  simp only [DbOpenAllowed.setLocked, Function.update_of_ne he]

theorem mutex_setLocked (m : DbOpenAllowed) (e : ℕ) (locked : Bool) :
    ((m.setLocked e locked).entry e).mutex = ⟨!locked⟩ := by
  simp only [DbOpenAllowed.setLocked, Function.update_self, DbAccess.mutex]

/-- A change of the number of clients leaves the locks alone. -/
theorem mutex_update (f : ℕ → DbAccess) (e' numClients e : ℕ) :
    (Function.update f e' ⟨(f e').locked, numClients⟩ e).mutex = (f e).mutex := by
  by_cases he : e = e'
  · rw [he, Function.update_self, DbAccess.mutex, DbAccess.mutex]
  · rw [Function.update_of_ne he]

section

variable {m : DbOpenAllowed} {c : Caller}

theorem OnMutex.get {e' : ℕ} (hfree : (m.entry e').locked = false) (e : ℕ) : OnMutex m (m.setLocked e' true) c e := by
  by_cases he : e = e'
  · subst he
    refine .getLock ?_
    rw [mutex_setLocked, MutexWithTimeout.getLock, DbAccess.mutex, hfree]
    rfl
  · exact .same (mutex_setLocked_of_ne m true he)

theorem OnMutex.release {e' : ℕ} (hc : c.holdsLock = true) (e : ℕ) : OnMutex m (m.setLocked e' false) c e := by
  by_cases he : e = e'
  · subst he
    refine .releaseLock hc ?_
    rw [mutex_setLocked, MutexWithTimeout.releaseLock, DbAccess.mutex]
    cases (m.entry e).locked <;> rfl
  · exact .same (mutex_setLocked_of_ne m false he)

end

/-- `OpenDb`, `CloseDb` and `UnlockDb` use the lock of an entry only through its functions, and
only a caller that holds it releases it. -/
theorem Act.onMutex {m m' : DbOpenAllowed} {c c' : Caller} (hact : Act m c m' c') (e : ℕ) : OnMutex m m' c e := by
  cases hact with
  | openLock h => exact .get h e
  | closeLock h => exact .get h e
  | openRelease => exact .release rfl e
  | closeRelease => exact .release rfl e
  | unlockRelease => exact .release rfl e
  | openAdd => exact .same (mutex_update _ _ _ _)
  | openRemove => exact .same (mutex_update _ _ _ _)
  | disconnectRemove => exact .same (mutex_update _ _ _ _)
  | firstInsert =>
      by_cases he : e = m.made
      · refine .made he ?_
        simp only [DbOpenAllowed.insert, he, Function.update_self]
        rfl
      · refine .same ?_
        simp only [DbOpenAllowed.insert, Function.update_of_ne he]
  | _ => exact .same rfl

end CloudBackup.Database
