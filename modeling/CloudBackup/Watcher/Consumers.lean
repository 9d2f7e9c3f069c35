import CloudBackup.Watcher.Multiplexer

/-!
The list of consumers in every run. A handler is in the list from `AddConsumer` until it
removes itself, and it closes its channel only after that. So the multiplexer, which holds the
lock while it goes through the list, never comes upon a closed channel.
-/

namespace CloudBackup.Watcher

open Slices

/-- The handler has added itself to the list, and has not yet removed itself. -/
def Phase.isRegistered : Phase → Bool
  | .watching => true
  | .leaving => true
  | _ => false

def hasUuid (u : Str) (entry : Option WatchConsumer) : Bool := entry.any (·.uuid = u)

namespace System

/-- The list holds each registered client once, and nothing else. -/
structure Exact (s : System) : Prop where
  noNil : none ∉ s.consumers
  once : ∀ u, s.consumers.countP (hasUuid u) = if (s.clients u).phase.isRegistered then 1 else 0

/-! ### What a step leaves as it is -/

section Frame

variable {s s' : System} {u v : Str}

theorem setClient_of_ne (c : Client) (h : v ≠ u) : (s.setClient u c).clients v = s.clients v := if_neg h

theorem setClient_self (c : Client) : (s.setClient u c).clients u = c := if_pos rfl

@[simp] theorem phase_setPhase_self (phase : Phase) : ((s.setPhase u phase).clients u).phase = phase := by
  rw [setPhase, setClient_self]

/-- A change of the client that does not show in `f`. -/
theorem setClient_congr {β : Type} (f : Client → β) {c : Client} (h : f c = f (s.clients u)) :
    f ((s.setClient u c).clients v) = f (s.clients v) := by
  by_cases hv : v = u
  · rw [hv, setClient_self, h]
  · rw [setClient_of_ne c hv]

theorem phase_setChan (commChan : List WatchMessage) :
    ((s.setChan u commChan).clients v).phase = (s.clients v).phase :=
  setClient_congr Client.phase rfl

theorem sendMsgToWatcher_frame (msg : WatchMessage) : (s.sendMsgToWatcher msg).consumers = s.consumers ∧
    (s.sendMsgToWatcher msg).clients = s.clients ∧ (s.sendMsgToWatcher msg).loop = s.loop := by
  rw [sendMsgToWatcher]
  split
  · exact ⟨rfl, rfl, rfl⟩
  · exact ⟨rfl, rfl, rfl⟩

theorem produce_frame (h : Produce s s') :
    s'.consumers = s.consumers ∧ s'.clients = s.clients ∧ s'.loop = s.loop := by
  cases h with
  | progress h => exact sendMsgToWatcher_frame _
  | finished job jobCancelled jobFailed => exact sendMsgToWatcher_frame _
  | stop => exact ⟨rfl, rfl, rfl⟩

def key (c : WatchConsumer) : Str × Job := (c.uuid, c.job)

theorem key_clientSendAllowed (limiter : Limiter) (c : WatchConsumer) (msg : WatchMessage) :
    key (clientSendAllowed limiter c msg).2 = key c := by
  unfold clientSendAllowed
  split_ifs
  · rfl
  · rfl
  · cases limiter <;> rfl
  · rfl

def keys (s : System) : List (Option (Str × Job)) := s.consumers.map (Option.map key)

theorem keys_setEntry {k : ℕ} {c c' : WatchConsumer} (hk : s.At k c) (h : key c' = key c) :
    (s.setEntry k c').keys = s.keys := by
  have hmap : s.keys[k]? = some (some (key c)) := by rw [keys, List.getElem?_map, hk]; rfl
  obtain ⟨hlt, heq⟩ := List.getElem?_eq_some_iff.mp hmap
  rw [keys, setEntry, List.map_set, Option.map_some, h, ← heq]
  exact List.set_getElem_self hlt

/-- The multiplexer changes neither who is in the list nor where a handler is. -/
theorem multiplex_frame (h : Multiplex s s') : s'.keys = s.keys ∧
    ∀ v, (s'.clients v).phase = (s.clients v).phase ∧ (s'.clients v).job = (s.clients v).job := by
  have hchan : ∀ (t : System) u commChan v, ((t.setChan u commChan).clients v).phase = (t.clients v).phase ∧
      ((t.setChan u commChan).clients v).job = (t.clients v).job :=
    fun t u commChan v => ⟨phase_setChan _, setClient_congr Client.job rfl⟩
  cases h with
  | forbidden h hk hjob hsend => exact ⟨keys_setEntry hk (key_clientSendAllowed _ _ _), fun _ => ⟨rfl, rfl⟩⟩
  | send h hk hjob hsend hopen hroom =>
      exact ⟨keys_setEntry hk (key_clientSendAllowed _ _ _), hchan (s.setEntry _ _) _ _⟩
  | sendFull h hk hjob hsend hopen hfull =>
      exact ⟨keys_setEntry hk (key_clientSendAllowed _ _ _), fun _ => ⟨rfl, rfl⟩⟩
  | makeRoom h hk hold => exact ⟨rfl, hchan s _ _⟩
  | resend h hk hopen hroom => exact ⟨rfl, hchan s _ _⟩
  | tell h hk => exact ⟨rfl, fun _ => ⟨setClient_congr Client.phase rfl, setClient_congr Client.job rfl⟩⟩
  | _ => exact ⟨rfl, fun _ => ⟨rfl, rfl⟩⟩

/-- What the list says of a client is said by its keys. -/
theorem countP_consumers (u : Str) : s.consumers.countP (hasUuid u) = s.keys.countP (·.any (·.1 = u)) := by
  rw [keys, List.countP_map]
  refine List.countP_congr fun entry _ => ?_
  cases entry <;> simp [hasUuid, key]

theorem none_mem_consumers : none ∈ s.consumers ↔ none ∈ s.keys := by
  simp [keys]

theorem Exact.congr (hs : s.Exact) (hlist : s'.keys = s.keys)
    (hphase : ∀ v, (s'.clients v).phase.isRegistered = (s.clients v).phase.isRegistered) : s'.Exact := by
  constructor
  · rw [none_mem_consumers, hlist, ← none_mem_consumers]
    exact hs.noNil
  · intro v
    rw [countP_consumers, hlist, ← countP_consumers, hphase]
    exact hs.once v

end Frame

/-! ### Registration -/

section Exact

variable {s s' : System} {u v : Str}

theorem Exact.registered (hs : s.Exact) {k : ℕ} {c : WatchConsumer} (hk : s.At k c) :
    (s.clients c.uuid).phase.isRegistered = true := by
  by_contra hnot
  have hzero := hs.once c.uuid
  rw [if_neg hnot, List.countP_eq_zero] at hzero
  exact hzero _ (List.mem_of_getElem? hk) (by simp [hasUuid])

theorem Exact.not_closed (hs : s.Exact) {k : ℕ} {c : WatchConsumer} (hk : s.At k c) : ¬ s.IsClosed c := by
  intro hclosed
  have hreg := hs.registered hk
  rw [IsClosed] at hclosed
  rw [hclosed] at hreg
  cases hreg

theorem Exact.exists_entry (hs : s.Exact) (h : (s.clients u).phase.isRegistered = true) :
    ∃ c, some c ∈ s.consumers ∧ c.uuid = u := by
  have hone := hs.once u
  rw [if_pos h] at hone
  obtain ⟨entry, hmem, hentry⟩ := List.countP_pos_iff.mp (hone ▸ Nat.one_pos)
  cases entry with
  | none => cases hentry
  | some c => exact ⟨c, hmem, of_decide_eq_true hentry⟩

theorem Exact.removeConsumer (hs : s.Exact) (h : (s.clients u).phase.isRegistered = true) :
    ∃ c, c.uuid = u ∧ (some c :: (s.removeConsumer u).consumers).Perm s.consumers ∧
      (s.removeConsumer u).clients = (s.setPhase u .removed).clients := by
  obtain ⟨c, hmem, rfl⟩ := hs.exists_entry h
  rw [System.removeConsumer]
  split
  · rename_i hnone
    have hall := List.findIdx?_eq_none_iff.mp hnone _ hmem
    simp at hall
  · rename_i k hfind
    obtain ⟨hk, huuid, -⟩ := List.findIdx?_eq_some_iff_getElem.mp hfind
    rcases hentry : s.consumers[k] with _ | found
    · exact absurd (hentry ▸ List.getElem_mem hk) hs.noNil
    · have hget : s.consumers[k]? = some (some found) := by rw [List.getElem?_eq_getElem hk, hentry]
      rw [hentry] at huuid
      simp only [hget]
      exact ⟨found, of_decide_eq_true huuid, cons_swapRemove_perm none hget, trivial⟩

theorem Exact.setPhase (hs : s.Exact) {phase : Phase} (h : phase.isRegistered = (s.clients u).phase.isRegistered) :
    (s.setPhase u phase).Exact := by
  refine hs.congr rfl fun v => ?_
  by_cases hv : v = u
  · rw [hv, phase_setPhase_self, h]
  · rw [System.setPhase, setClient_of_ne _ hv]

theorem Exact.add (hs : s.Exact) (h : (s.clients u).phase = .created) : (s.addConsumer u).Exact := by
  rw [addConsumer]
  split
  · constructor
    · rw [List.mem_append, not_or]
      exact ⟨hs.noNil, by simp⟩
    · intro v
      rw [List.countP_append, hs.once v]
      by_cases hv : v = u
      · subst hv
        simp [hasUuid, h, Phase.isRegistered]
      · have hother : ((s.setPhase u .watching).clients v).phase = (s.clients v).phase := by
          rw [System.setPhase, setClient_of_ne _ hv]
        simp only [hother]
        simp [hasUuid, Ne.symm hv]
  · exact hs.setPhase (by rw [h]; rfl)

theorem Exact.remove (hs : s.Exact) (h : (s.clients u).phase = .leaving) : (s.removeConsumer u).Exact := by
  obtain ⟨c, rfl, hperm, hclients⟩ := hs.removeConsumer (u := u) (by rw [h]; rfl)
  constructor
  · intro hnil
    exact hs.noNil (hperm.subset (List.mem_cons_of_mem _ hnil))
  · intro v
    have hcount := hperm.countP_eq (hasUuid v)
    rw [List.countP_cons, hs.once v] at hcount
    rw [hclients]
    by_cases hv : v = c.uuid
    · subst hv
      rw [phase_setPhase_self]
      simpa [hasUuid, h, Phase.isRegistered] using hcount
    · rw [System.setPhase, setClient_of_ne _ hv]
      simpa [hasUuid, Ne.symm hv] using hcount

theorem Exact.handle (hs : s.Exact) (h : Handle u s s') : s'.Exact := by
  cases h with
  | add h hfree => exact hs.add h
  | shutdown h hdone => exact hs.setPhase (by rw [h]; rfl)
  | disconnect h => exact hs.setPhase (by rw [h]; rfl)
  | receive h hchan hlast => exact hs.congr rfl fun v => by rw [phase_setChan]
  | @receiveLast _ rest h hchan hlast =>
      have hrest : (s.setChan u rest).Exact := hs.congr rfl fun v => by rw [phase_setChan]
      refine hrest.setPhase ?_
      rw [phase_setChan, h]
      rfl
  | remove h hfree => exact hs.remove h
  | close h =>
      refine hs.setPhase ?_
      obtain h | h := h
      · rw [h]
        rfl
      · rw [h]
        rfl

theorem Exact.produce (hs : s.Exact) (h : Produce s s') : s'.Exact := by
  obtain ⟨hconsumers, hclients, -⟩ := produce_frame h
  exact hs.congr (by rw [keys, keys, hconsumers]) fun v => by rw [hclients]

theorem Exact.multiplex (hs : s.Exact) (h : Multiplex s s') : s'.Exact := by
  obtain ⟨hkeys, hclients⟩ := multiplex_frame h
  exact hs.congr hkeys fun v => by rw [(hclients v).1]

theorem Exact.step {guard : System → Prop} (hs : s.Exact) (h : Step guard s s') : s'.Exact := by
  cases h with
  | produce h => exact hs.produce h
  | handle u h => exact hs.handle h
  | multiplex _ h => exact hs.multiplex h

/-! ### Panics -/

/-- Neither the multiplexer nor a handler has panicked. -/
structure Alive (s : System) : Prop where
  loop : s.loop ≠ .panicked
  handlers : ∀ u, (s.clients u).phase ≠ .panicked

theorem multiplex_not_panicked (hs : s.Exact) (h : Multiplex s s') : s'.loop ≠ .panicked := by
  cases h with
  | sendClosed h hk hjob hsend hclosed => exact absurd hclosed (hs.not_closed hk)
  | sendNil h hk => exact absurd (List.mem_of_getElem? hk) hs.noNil
  | resendClosed h hk hclosed => exact absurd hclosed (hs.not_closed hk)
  | tellNil h hk => exact absurd (List.mem_of_getElem? hk) hs.noNil
  | _ => exact Loop.noConfusion

theorem removeConsumer_frame (u : Str) : ∃ phase consumers,
    s.removeConsumer u = { s.setPhase u phase with consumers } := by
  rw [System.removeConsumer]
  split
  · exact ⟨_, _, rfl⟩
  · split
    · exact ⟨_, _, rfl⟩
    · exact ⟨_, _, rfl⟩

/-- A handler does not touch the loop, and other handlers neither. -/
theorem handle_frame (h : Handle u s s') : s'.loop = s.loop ∧ s'.msgs = s.msgs ∧
    (∀ v, v ≠ u → s'.clients v = s.clients v) ∧ (s'.clients u).job = (s.clients u).job := by
  cases h with
  | add h hfree =>
      rw [addConsumer]
      split
      · exact ⟨rfl, rfl, fun v hv => setClient_of_ne _ hv, setClient_congr Client.job rfl⟩
      · exact ⟨rfl, rfl, fun v hv => setClient_of_ne _ hv, setClient_congr Client.job rfl⟩
  | receiveLast h hchan hlast =>
      refine ⟨rfl, rfl, fun v hv => ?_, ?_⟩
      · rw [setPhase, setClient_of_ne _ hv, setChan, setClient_of_ne _ hv]
      · rw [setPhase, setClient_self, setChan, setClient_self]
  | remove h hfree =>
      obtain ⟨phase, consumers, heq⟩ := removeConsumer_frame (s := s) u
      rw [heq]
      exact ⟨rfl, rfl, fun v hv => setClient_of_ne _ hv, setClient_congr Client.job rfl⟩
  | _ => exact ⟨rfl, rfl, fun v hv => setClient_of_ne _ hv, setClient_congr Client.job rfl⟩

theorem handle_not_panicked (hs : s.Exact) (h : Handle u s s') : (s'.clients u).phase ≠ .panicked := by
  cases h with
  | add h hfree =>
      rw [addConsumer]
      split
      · simp
      · simp
  | receive h hchan hlast =>
      rw [phase_setChan, h]
      exact Phase.noConfusion
  | remove h hfree =>
      obtain ⟨c, -, -, hclients⟩ := hs.removeConsumer (u := u) (by rw [h]; rfl)
      rw [hclients]
      simp
  | _ => simp

theorem Alive.step {guard : System → Prop} (ha : s.Alive) (hs : s.Exact) (h : Step guard s s') : s'.Alive := by
  cases h with
  | produce h =>
      obtain ⟨-, hclients, hloop⟩ := produce_frame h
      exact ⟨hloop ▸ ha.loop, fun v => by rw [hclients]; exact ha.handlers v⟩
  | handle u h =>
      obtain ⟨hloop, -, hothers, -⟩ := handle_frame h
      refine ⟨hloop ▸ ha.loop, fun v => ?_⟩
      by_cases hv : v = u
      · exact hv ▸ handle_not_panicked hs h
      · rw [hothers v hv]
        exact ha.handlers v
  | multiplex _ h =>
      refine ⟨multiplex_not_panicked hs h, fun v => ?_⟩
      rw [((multiplex_frame h).2 v).1]
      exact ha.handlers v

theorem reachable_exact {jobs : Str → Job} (h : Reachable jobs s) : s.Exact ∧ s.Alive := by
  induction h with
  | refl => exact ⟨⟨List.not_mem_nil, fun _ => rfl⟩, ⟨Loop.noConfusion, fun _ => Phase.noConfusion⟩⟩
  | tail _ hstep ih => exact ⟨ih.1.step hstep, ih.2.step ih.1 hstep⟩

theorem Exact.removeConsumer_perm (hs : s.Exact) (h : (s.clients u).phase.isRegistered = true) :
    (s.removeConsumer u).consumers.Perm (s.consumers.filter fun entry => !hasUuid u entry) := by
  obtain ⟨c, rfl, hperm, -⟩ := hs.removeConsumer h
  have hcount := hperm.countP_eq (hasUuid c.uuid)
  rw [List.countP_cons, hs.once, if_pos h] at hcount
  have hgone : ∀ entry ∈ (s.removeConsumer c.uuid).consumers, ¬ hasUuid c.uuid entry = true :=
    List.countP_eq_zero.mp (by simpa [hasUuid] using hcount)
  have hfilter := hperm.filter fun entry => !hasUuid c.uuid entry
  rw [List.filter_cons_of_neg (by simp [hasUuid])] at hfilter
  rwa [List.filter_eq_self.mpr fun entry hentry => by simpa using hgone entry hentry] at hfilter

/-- In every run, the list is exact, nobody panics, whoever removes himself leaves the others in
the list, and every channel in the list is open. -/
theorem consumers_exact {jobs : Str → Job} (h : Reachable jobs s) : s.Exact ∧ s.Alive ∧
    (∀ u, (s.clients u).phase.isRegistered = true →
      (s.removeConsumer u).consumers.Perm (s.consumers.filter fun entry => !hasUuid u entry)) ∧
    ∀ k c, s.At k c → ¬ s.IsClosed c := by
  obtain ⟨hexact, halive⟩ := reachable_exact h
  exact ⟨hexact, halive, fun u hu => hexact.removeConsumer_perm hu, fun k c hk => hexact.not_closed hk⟩

end Exact

/-! ### Three clients -/

def someJob : Job := ⟨"backup".toList, "home".toList, "1".toList⟩

def started : System := { start fun _ => someJob with running := true, loop := .waiting }

theorem reachable_started : Reachable (fun _ => someJob) started := .tail .refl (.multiplex trivial (.start rfl))

def threeClients : System :=
  (((started.addConsumer ['a']).addConsumer ['b']).addConsumer ['c']).setPhase ['a'] .leaving

theorem reachable_threeClients : Reachable (fun _ => someJob) threeClients := by
  have ha := reachable_started.tail (.handle ['a'] (.add rfl rfl))
  have hb := ha.tail (.handle ['b'] (.add rfl rfl))
  have hc := hb.tail (.handle ['c'] (.add rfl rfl))
  exact hc.tail (.handle ['a'] (.disconnect rfl))

/-- The last entry has taken the place of the first. -/
theorem consumers_exact_threeClients :
    (threeClients.removeConsumer ['a']).consumers = [some ⟨someJob, ['c'], []⟩, some ⟨someJob, ['b'], []⟩] ∧
      (threeClients.removeConsumer ['a']).consumers.Perm
        (threeClients.consumers.filter fun entry => !hasUuid ['a'] entry) :=
  ⟨by decide, (consumers_exact reachable_threeClients).2.2.1 ['a'] (by decide)⟩

end System

end CloudBackup.Watcher
