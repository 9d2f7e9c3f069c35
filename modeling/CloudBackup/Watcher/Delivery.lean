import CloudBackup.Watcher.Consumers

/-!
The last message of a job, which tells its clients that there is nothing more to come. It can
get lost in three places. The channel of the multiplexer may be full when it is sent. The
channel of a client may be full when it is offered, and be emptied before the multiplexer tries
to take the oldest message out of it. And once it is in the channel of a client, it may itself be
the oldest one there when another message of the job needs room.

Where none of this happens, the message is on its way to every client that was in the list, or
in its channel, until the client leaves.
-/

namespace CloudBackup.Watcher

def IsLastOf (job : Job) (m : WatchMessage) : Prop := ∃ jobCancelled jobFailed, m = jobFinished job jobCancelled jobFailed

theorem IsLastOf.isLast {job : Job} {m : WatchMessage} (h : IsLastOf job m) : m.isLast = true := by
  obtain ⟨jobCancelled, jobFailed, rfl⟩ := h
  cases jobCancelled <;> cases jobFailed <;> rfl

theorem IsLastOf.job_eq {job : Job} {m : WatchMessage} (h : IsLastOf job m) : m.job = job := by
  obtain ⟨jobCancelled, jobFailed, rfl⟩ := h
  rfl

/-- The rate limiter does not hold back the last message: it is about no path. -/
theorem IsLastOf.allowed {job : Job} {m : WatchMessage} (h : IsLastOf job m) (limiter : Limiter) (c : WatchConsumer) :
    (clientSendAllowed limiter c m).1 = true := by
  obtain ⟨jobCancelled, jobFailed, rfl⟩ := h
  unfold clientSendAllowed
  split_ifs with hpath hcurrent hsame
  · rfl
  · rfl
  · rw [hsame] at hpath
    exact absurd rfl hpath
  · rfl

def Phase.hasLeft : Phase → Bool
  | .leaving => true
  | .removed => true
  | .closed => true
  | _ => false

namespace System

/-- The message is in the channel of the client. -/
def Arrived (u : Str) (job : Job) (s : System) : Prop := ∃ m ∈ (s.clients u).commChan, IsLastOf job m

def InHand (u : Str) (job : Job) (s : System) : Prop :=
  ∃ m, IsLastOf job m ∧ (s.loop = .received m ∨
    ∃ k i c, (s.loop = .sending m k ∨ s.loop = .full m k ∨ s.loop = .retry m k) ∧ k ≤ i ∧ s.At i c ∧ c.uuid = u)

def Underway (u : Str) (job : Job) (s : System) : Prop := (∃ m ∈ s.msgs, IsLastOf job m) ∨ s.InHand u job

/-- The client has left, or the message is not lost to it. -/
def Kept (u : Str) (job : Job) (s : System) : Prop :=
  (s.clients u).phase.hasLeft = true ∨ ((s.clients u).phase = .watching ∧ (s.Underway u job ∨ s.Arrived u job))

/-- What is asked of the client when the multiplexer has found its channel full: that it has not
emptied it since, if the last message is to be sent, and that the oldest message in it is not the
last one, if another is to be sent. -/
structure Orderly (u : Str) (job : Job) (s : System) : Prop where
  notDrained : ∀ m k c, s.loop = .full m k → s.At k c → c.uuid = u → IsLastOf job m → (s.clients u).commChan ≠ []
  notPushedOut : ∀ m k c old rest, s.loop = .full m k → s.At k c → c.uuid = u →
    (s.clients u).commChan = old :: rest → IsLastOf job old → IsLastOf job m

/-! ### What else is known -/

/-- The consumers know their jobs, no channel has more messages than it can hold, and where the
multiplexer has made room there is room. -/
structure Steady (s : System) : Prop where
  exact : s.Exact
  jobs : ∀ c, some c ∈ s.consumers → c.job = (s.clients c.uuid).job
  chan : ∀ u, (s.clients u).commChan.length ≤ commChanSize
  placed : ∀ m k, s.loop = .full m k ∨ s.loop = .retry m k → ∃ c, s.At k c
  room : ∀ m k c, s.loop = .retry m k → s.At k c → (s.clients c.uuid).commChan.length < commChanSize

section Steady

variable {s s' : System} {u v : Str}

theorem at_of_keys (h : s'.keys = s.keys) {k : ℕ} {c' : WatchConsumer} (hk : s'.At k c') :
    ∃ c, s.At k c ∧ c.uuid = c'.uuid ∧ c.job = c'.job := by
  have hget : s.keys[k]? = some (some (key c')) := by rw [← h, keys, List.getElem?_map, hk]; rfl
  rw [keys, List.getElem?_map] at hget
  obtain ⟨entry, hentry, hmap⟩ := Option.map_eq_some_iff.mp hget
  obtain ⟨c, rfl, hkey⟩ := Option.map_eq_some_iff.mp hmap
  exact ⟨c, hentry, congrArg Prod.fst hkey, congrArg Prod.snd hkey⟩

theorem at_unique {k : ℕ} {c c' : WatchConsumer} (hc : s.At k c) (hc' : s.At k c') : c = c' :=
  Option.some.inj (Option.some.inj (hc.symm.trans hc'))

theorem commChan_setChan (u v : Str) (commChan : List WatchMessage) :
    (v = u ∧ ((s.setChan u commChan).clients v).commChan = commChan) ∨
      ((s.setChan u commChan).clients v).commChan = (s.clients v).commChan := by
  by_cases hv : v = u
  · refine .inl ⟨hv, ?_⟩
    rw [hv, setChan, setClient_self]
  · exact .inr (congrArg Client.commChan (setClient_of_ne _ hv))

/-- What the multiplexer does to a channel: nothing, it puts a message in, or it takes the
oldest one out to make room. -/
theorem multiplex_chan (h : Multiplex s s') (v : Str) : (s'.clients v).commChan = (s.clients v).commChan ∨
    ((s.clients v).commChan.length < commChanSize ∧
      ∃ m, (s'.clients v).commChan = (s.clients v).commChan ++ [m]) ∨
    ∃ m k c old, s.loop = .full m k ∧ s'.loop = .retry m k ∧ s.At k c ∧ c.uuid = v ∧
      (s.clients v).commChan = old :: (s'.clients v).commChan := by
  cases h with
  | @send m k c limiter h hk hjob hsend hopen hroom =>
      obtain ⟨rfl, heq⟩ | heq := commChan_setChan c.uuid v ((s.clients c.uuid).commChan ++ [m])
      · exact .inr (.inl ⟨hroom, m, heq⟩)
      · exact .inl heq
  | @resend m k c h hk hopen hroom =>
      obtain ⟨rfl, heq⟩ | heq := commChan_setChan c.uuid v ((s.clients c.uuid).commChan ++ [m])
      · exact .inr (.inl ⟨hroom, m, heq⟩)
      · exact .inl heq
  | @makeRoom m k c old rest h hk hchan =>
      obtain ⟨rfl, heq⟩ | heq := commChan_setChan c.uuid v rest
      · exact .inr (.inr ⟨m, k, c, old, h, rfl, hk, rfl, hchan.trans (congrArg _ heq.symm)⟩)
      · exact .inl heq
  | tell h hk => exact .inl (setClient_congr Client.commChan rfl)
  | _ => exact .inl rfl

/-- What a handler does to a channel: nothing, or it takes a message out of its own. With the
last message it leaves. -/
theorem handle_chan (h : Handle u s s') (v : Str) : (s'.clients v).commChan = (s.clients v).commChan ∨
    ∃ m, (s.clients v).commChan = m :: (s'.clients v).commChan ∧
      (m.isLast = true → (s'.clients v).phase = .leaving) := by
  by_cases hv : v = u
  · subst hv
    cases h with
    | add h hfree =>
        rw [addConsumer]
        split
        · exact .inl (setClient_congr Client.commChan rfl)
        · exact .inl (setClient_congr Client.commChan rfl)
    | @receive m rest h hchan hlast =>
        refine .inr ⟨m, ?_, fun h => by simp [hlast] at h⟩
        rw [hchan, setChan, setClient_self]
    | @receiveLast m rest h hchan hlast =>
        refine .inr ⟨m, ?_, fun _ => phase_setPhase_self _⟩
        rw [hchan, setPhase, setClient_self, setChan, setClient_self]
    | remove h hfree =>
        obtain ⟨phase, consumers, heq⟩ := removeConsumer_frame (s := s) v
        rw [heq]
        exact .inl (setClient_congr Client.commChan rfl)
    | _ => exact .inl (setClient_congr Client.commChan rfl)
  · rw [(handle_frame h).2.2.1 v hv]
    exact .inl rfl

/-- The list is changed only while nobody holds the lock, and what is new in it is the handler
itself. -/
theorem handle_consumers (hs : s.Exact) (h : Handle u s s') : s'.consumers = s.consumers ∨
    (s.loop.holdsLock = false ∧ ∀ c, some c ∈ s'.consumers → some c ∈ s.consumers ∨ c = ⟨(s.clients u).job, u, []⟩) := by
  cases h with
  | add h hfree =>
      rw [addConsumer]
      split
      · refine .inr ⟨hfree, fun c hc => ?_⟩
        obtain hc | hc := List.mem_append.mp hc
        · exact .inl hc
        · exact .inr (Option.some.inj (List.mem_singleton.mp hc))
      · exact .inl rfl
  | remove h hfree =>
      obtain ⟨c', -, hperm, -⟩ := hs.removeConsumer (u := u) (by rw [h]; rfl)
      exact .inr ⟨hfree, fun c hc => .inl (hperm.subset (List.mem_cons_of_mem _ hc))⟩
  | _ => exact .inl rfl

theorem Steady.handle (hs : s.Steady) (h : Handle u s s') : s'.Steady := by
  obtain ⟨hloop, -, hothers, hjob⟩ := handle_frame h
  have hjobs : ∀ v, (s'.clients v).job = (s.clients v).job := by
    intro v
    by_cases hv : v = u
    · rw [hv, hjob]
    · rw [hothers v hv]
  have hchan : ∀ v, (s'.clients v).commChan.length ≤ (s.clients v).commChan.length := by
    intro v
    obtain heq | ⟨m, heq, -⟩ := handle_chan h v
    · rw [heq]
    · rw [heq, List.length_cons]
      omega
  have hat : ∀ m k, s.loop = .full m k ∨ s.loop = .retry m k → s'.consumers = s.consumers := by
    intro m k hl
    obtain heq | ⟨hfree, -⟩ := handle_consumers hs.exact h
    · exact heq
    · obtain hl | hl := hl <;> simp [hl, Loop.holdsLock] at hfree
  refine ⟨hs.exact.handle h, ?_, fun v => (hchan v).trans (hs.chan v), ?_, ?_⟩
  · intro c hc
    rw [hjobs]
    obtain heq | ⟨-, hnew⟩ := handle_consumers hs.exact h
    · exact hs.jobs c (heq ▸ hc)
    · obtain hold | rfl := hnew c hc
      · exact hs.jobs c hold
      · rfl
  · intro m k hl
    rw [hloop] at hl
    obtain ⟨c, hc⟩ := hs.placed m k hl
    exact ⟨c, by rwa [At, hat m k hl]⟩
  · intro m k c hl hc
    rw [hloop] at hl
    rw [At, hat m k (.inr hl)] at hc
    exact (hchan _).trans_lt (hs.room m k c hl hc)

theorem at_setEntry {k : ℕ} {c : WatchConsumer} (hk : s.At k c) (c' : WatchConsumer) : (s.setEntry k c').At k c' := by
  rw [At, setEntry, List.getElem?_set_self (List.getElem?_eq_some_iff.mp hk).1]

theorem multiplex_placed (hs : s.Steady) (h : Multiplex s s') {m : WatchMessage} {k : ℕ}
    (hl : s'.loop = .full m k ∨ s'.loop = .retry m k) : ∃ c, s'.At k c := by
  cases h with
  | sendFull h hk hjob hsend hopen hfull =>
      obtain ⟨rfl, rfl⟩ : _ = m ∧ _ = k := by simpa [goTo] using hl
      exact ⟨_, at_setEntry hk _⟩
  | makeRoom h hk hchan =>
      obtain ⟨rfl, rfl⟩ : _ = m ∧ _ = k := by simpa [goTo] using hl
      exact ⟨_, hk⟩
  | drainedClosed h hk hchan hclosed => exact absurd hclosed (hs.exact.not_closed hk)
  | _ => simp [goTo] at hl

theorem multiplex_room (hs : s.Steady) (h : Multiplex s s') {m : WatchMessage} {k : ℕ} {c : WatchConsumer}
    (hl : s'.loop = .retry m k) (hc : s'.At k c) : (s'.clients c.uuid).commChan.length < commChanSize := by
  cases h with
  | makeRoom h hk hchan =>
      obtain ⟨rfl, rfl⟩ : _ = m ∧ _ = k := by simpa [goTo] using hl
      obtain rfl := at_unique hc hk
      have hle := hs.chan c.uuid
      rw [hchan, List.length_cons] at hle
      rw [goTo, setChan, setClient_self]
      exact hle
  | drainedClosed h hk hchan hclosed => exact absurd hclosed (hs.exact.not_closed hk)
  | _ => simp [goTo] at hl

theorem Steady.multiplex (hs : s.Steady) (h : Multiplex s s') : s'.Steady := by
  obtain ⟨hkeys, hclients⟩ := multiplex_frame h
  refine ⟨hs.exact.multiplex h, ?_, ?_, fun m k hl => multiplex_placed hs h hl,
    fun m k c hl hc => multiplex_room hs h hl hc⟩
  · intro c' hc'
    obtain ⟨k, hk⟩ := List.mem_iff_getElem?.mp hc'
    obtain ⟨c, hc, huuid, hjob⟩ := at_of_keys hkeys hk
    rw [← hjob, ← huuid, (hclients c.uuid).2]
    exact hs.jobs c (List.mem_of_getElem? hc)
  · intro v
    have hle := hs.chan v
    obtain heq | ⟨hroom, m, heq⟩ | ⟨m, k, c, old, -, -, -, -, heq⟩ := multiplex_chan h v
    · rwa [heq]
    · rw [heq, List.length_append]
      exact hroom
    · rw [heq, List.length_cons] at hle
      omega

theorem Steady.produce (hs : s.Steady) (h : Produce s s') : s'.Steady := by
  obtain ⟨hconsumers, hclients, hloop⟩ := produce_frame h
  obtain ⟨hexact, hjobs, hchan, hplaced, hroom⟩ := hs
  refine ⟨hexact.produce h, ?_, ?_, ?_, ?_⟩
  · rwa [hconsumers, hclients]
  · rwa [hclients]
  · simpa only [At, hloop, hconsumers] using hplaced
  · simpa only [At, hloop, hconsumers, hclients] using hroom

theorem Steady.step {guard : System → Prop} (hs : s.Steady) (h : Step guard s s') : s'.Steady := by
  cases h with
  | produce h => exact hs.produce h
  | handle u h => exact hs.handle h
  | multiplex _ h => exact hs.multiplex h

theorem reachable_steady {jobs : Str → Job} (h : Reachable jobs s) : s.Steady := by
  induction h with
  | refl =>
      refine ⟨⟨List.not_mem_nil, fun _ => rfl⟩, ?_, fun _ => Nat.zero_le _, ?_, ?_⟩
      · exact fun c hc => absurd hc List.not_mem_nil
      · intro m k hl
        simp [start] at hl
      · intro m k c hl
        simp [start] at hl
  | tail _ hstep ih => exact ih.step hstep

end Steady

/-! ### One step -/

section Kept

variable {s s' : System} {u v : Str} {job : Job}

theorem kept_produce (hkept : s.Kept u job) (h : Produce s s') (hmsgs : ∀ m ∈ s.msgs, m ∈ s'.msgs) : s'.Kept u job := by
  obtain ⟨hconsumers, hclients, hloop⟩ := produce_frame h
  rw [Kept, Arrived, Underway, InHand, hclients, hloop]
  simp only [At, hconsumers]
  refine hkept.imp id (And.imp id (Or.imp (Or.imp ?_ id) id))
  rintro ⟨m, hm, hlast⟩
  exact ⟨m, hmsgs m hm, hlast⟩

theorem produce_msgs (h : Produce s s') : ∀ m ∈ s.msgs, m ∈ s'.msgs := by
  have hsend : ∀ msg, ∀ m ∈ s.msgs, m ∈ (s.sendMsgToWatcher msg).msgs := by
    intro msg m hm
    rw [sendMsgToWatcher]
    split
    · exact List.mem_append_left _ hm
    · exact hm
  cases h with
  | progress h => exact hsend _
  | finished job jobCancelled jobFailed => exact hsend _
  | stop => exact fun m hm => hm

/-- The multiplexer has the message, and the client is not behind it in the list. -/
theorem inHand_of_at {m : WatchMessage} (hm : IsLastOf job m) {k i : ℕ} {c : WatchConsumer} (hki : k ≤ i)
    (hi : s.At i c) (hu : c.uuid = u) (hkeys : s'.keys = s.keys)
    (hl : s'.loop = .sending m k ∨ s'.loop = .full m k ∨ s'.loop = .retry m k) : s'.InHand u job := by
  obtain ⟨c', hc', huuid, -⟩ := at_of_keys hkeys.symm hi
  exact ⟨m, hm, .inr ⟨k, i, c', hl, hki, hc', huuid.trans hu⟩⟩

theorem arrived_of_append {m : WatchMessage} (hm : IsLastOf job m) (commChan : List WatchMessage) (loop : Loop) :
    ((s.setChan u (commChan ++ [m])).goTo loop).Arrived u job := by
  refine ⟨m, ?_, hm⟩
  rw [goTo, setChan, setClient_self]
  exact List.mem_append_right _ (List.mem_singleton.mpr rfl)

theorem inHand_received (hs : s.Steady) (hphase : (s.clients u).phase = .watching) {m : WatchMessage}
    (hm : IsLastOf job m) (hl : s.loop = .received m) (h : Multiplex s s') : s'.InHand u job := by
  cases h with
  | lock h =>
      obtain rfl := Loop.received.inj (hl.symm.trans h)
      obtain ⟨c, hmem, hu⟩ := hs.exact.exists_entry (u := u) (by rw [hphase]; rfl)
      obtain ⟨i, hi⟩ := List.mem_iff_getElem?.mp hmem
      exact ⟨m, hm, .inr ⟨0, i, c, .inl rfl, Nat.zero_le i, hi, hu⟩⟩
  | _ => simp_all

section

variable {m : WatchMessage} {k i : ℕ} {c : WatchConsumer}

theorem inHand_sending (hs : s.Steady) (hjob : (s.clients u).job = job) (hm : IsLastOf job m)
    (hl : s.loop = .sending m k) (hki : k ≤ i) (hi : s.At i c) (hu : c.uuid = u) (h : Multiplex s s') :
    s'.InHand u job ∨ s'.Arrived u job := by
  have hkeys := (multiplex_frame h).1
  have hcjob : m.job = c.job := by
    rw [hm.job_eq, hs.jobs c (List.mem_of_getElem? hi), hu, hjob]
  -- the client is the next one, or further back
  have hnext : s'.loop = .sending m (k + 1) → i ≠ k → s'.InHand u job := by
    intro hl' hne
    exact inHand_of_at hm (by omega) hi hu hkeys (.inl hl')
  have hsame : ∀ {c'}, s.At k c' → i = k → c' = c := by
    rintro c' hk rfl
    exact at_unique hk hi
  cases h with
  | unlock h hk =>
      obtain ⟨rfl, rfl⟩ := Loop.sending.inj (hl.symm.trans h)
      have hlt := (List.getElem?_eq_some_iff.mp hi).1
      omega
  | skip h hk hne =>
      obtain ⟨rfl, rfl⟩ := Loop.sending.inj (hl.symm.trans h)
      refine .inl (hnext rfl fun hik => hne ?_)
      rw [hsame hk hik, hcjob]
  | forbidden h hk _ hsend =>
      obtain ⟨rfl, rfl⟩ := Loop.sending.inj (hl.symm.trans h)
      rw [hm.allowed] at hsend
      cases hsend
  | send h hk _ hsend hopen hroom =>
      obtain ⟨rfl, rfl⟩ := Loop.sending.inj (hl.symm.trans h)
      by_cases hik : i = k
      · obtain rfl := hsame hk hik
        exact .inr (hu ▸ arrived_of_append hm _ _)
      · exact .inl (hnext rfl hik)
  | sendFull h hk _ hsend hopen hfull =>
      obtain ⟨rfl, rfl⟩ := Loop.sending.inj (hl.symm.trans h)
      exact .inl (inHand_of_at hm hki hi hu hkeys (.inr (.inl rfl)))
  | sendClosed h hk _ hsend hclosed => exact absurd hclosed (hs.exact.not_closed hk)
  | sendNil h hk => exact absurd (List.mem_of_getElem? hk) hs.exact.noNil
  | _ => simp_all

theorem inHand_full (hs : s.Steady) (hm : IsLastOf job m) (hguard : s.Orderly u job)
    (hl : s.loop = .full m k) (hki : k ≤ i) (hi : s.At i c) (hu : c.uuid = u) (h : Multiplex s s') :
    s'.InHand u job := by
  have hkeys := (multiplex_frame h).1
  cases h with
  | makeRoom h hk hchan =>
      obtain ⟨rfl, rfl⟩ := Loop.full.inj (hl.symm.trans h)
      exact inHand_of_at hm hki hi hu hkeys (.inr (.inr rfl))
  | drained h hk hchan hopen =>
      obtain ⟨rfl, rfl⟩ := Loop.full.inj (hl.symm.trans h)
      by_cases hik : i = k
      · subst hik
        obtain rfl := at_unique hk hi
        exact absurd (hu ▸ hchan) (hguard.notDrained m i _ hl hi hu hm)
      · exact inHand_of_at hm (by omega) hi hu hkeys (.inl rfl)
  | drainedClosed h hk hchan hclosed => exact absurd hclosed (hs.exact.not_closed hk)
  | _ => simp_all

theorem inHand_retry (hs : s.Steady) (hm : IsLastOf job m) (hl : s.loop = .retry m k) (hki : k ≤ i) (hi : s.At i c)
    (hu : c.uuid = u) (h : Multiplex s s') : s'.InHand u job ∨ s'.Arrived u job := by
  have hkeys := (multiplex_frame h).1
  cases h with
  | resend h hk hopen hroom =>
      obtain ⟨rfl, rfl⟩ := Loop.retry.inj (hl.symm.trans h)
      by_cases hik : i = k
      · subst hik
        obtain rfl := at_unique hk hi
        exact .inr (hu ▸ arrived_of_append hm _ _)
      · exact .inl (inHand_of_at hm (by omega) hi hu hkeys (.inl rfl))
  | discard h hk hopen hfull => exact absurd (hs.room _ _ _ h hk) hfull
  | resendClosed h hk hclosed => exact absurd hclosed (hs.exact.not_closed hk)
  | _ => simp_all

end

theorem inHand_multiplex (hs : s.Steady) (hphase : (s.clients u).phase = .watching) (hjob : (s.clients u).job = job)
    (hin : s.InHand u job) (hguard : s.Orderly u job) (h : Multiplex s s') : s'.InHand u job ∨ s'.Arrived u job := by
  obtain ⟨m, hm, hl | ⟨k, i, c, hl | hl | hl, hki, hi, hu⟩⟩ := hin
  · exact .inl (inHand_received hs hphase hm hl h)
  · exact inHand_sending hs hjob hm hl hki hi hu h
  · exact .inl (inHand_full hs hm hguard hl hki hi hu h)
  · exact inHand_retry hs hm hl hki hi hu h

theorem multiplex_msgs (h : Multiplex s s') :
    s'.msgs = s.msgs ∨ ∃ m, s.msgs = m :: s'.msgs ∧ s'.loop = .received m := by
  cases h with
  | receive h hmsgs => exact .inr ⟨_, hmsgs, rfl⟩
  | _ => exact .inl rfl

theorem kept_multiplex (hs : s.Steady) (hjob : (s.clients u).job = job) (hkept : s.Kept u job)
    (hguard : s.Orderly u job) (h : Multiplex s s') : s'.Kept u job := by
  have hsame := ((multiplex_frame h).2 u).1
  obtain hleft | ⟨hphase, (⟨m, hmem, hm⟩ | hin) | ⟨m, hmem, hm⟩⟩ := hkept
  · exact .inl (hsame ▸ hleft)
  · refine .inr ⟨hsame.trans hphase, .inl ?_⟩
    obtain heq | ⟨m', heq, hl⟩ := multiplex_msgs h
    · exact .inl ⟨m, heq ▸ hmem, hm⟩
    · rw [heq] at hmem
      obtain rfl | hmem := List.mem_cons.mp hmem
      · exact .inr ⟨m, hm, .inl hl⟩
      · exact .inl ⟨m, hmem, hm⟩
  · refine .inr ⟨hsame.trans hphase, ?_⟩
    exact (inHand_multiplex hs hphase hjob hin hguard h).imp .inr id
  · refine .inr ⟨hsame.trans hphase, ?_⟩
    obtain heq | ⟨-, m', heq⟩ | ⟨m', k, c, old, hl, hl', hk, hu, heq⟩ := multiplex_chan h u
    · exact .inr ⟨m, heq ▸ hmem, hm⟩
    · exact .inr ⟨m, heq ▸ List.mem_append_left _ hmem, hm⟩
    · rw [heq] at hmem
      obtain rfl | hmem := List.mem_cons.mp hmem
      -- one last message makes room for another
      · have hm' := hguard.notPushedOut m' k c m _ hl hk hu heq hm
        exact .inl (.inr (inHand_of_at hm' le_rfl hk hu (multiplex_frame h).1 (.inr (.inr hl'))))
      · exact .inr ⟨m, hmem, hm⟩

theorem handle_phase (hs : s.Exact) (h : Handle u s s') :
    ((s.clients u).phase.hasLeft = true → (s'.clients u).phase.hasLeft = true) ∧
      ((s.clients u).phase = .watching → (s'.clients u).phase = .watching ∨ (s'.clients u).phase.hasLeft = true) := by
  cases h with
  | add h hfree => simp [h, Phase.hasLeft]
  | shutdown h hdone => simp [h, Phase.hasLeft]
  | disconnect h => simp [h, Phase.hasLeft]
  | receive h hchan hlast => simp [phase_setChan, h, Phase.hasLeft]
  | receiveLast h hchan hlast => simp [h, Phase.hasLeft]
  | remove h hfree =>
      obtain ⟨c, -, -, hclients⟩ := hs.removeConsumer (u := u) (by rw [h]; rfl)
      simp [h, hclients, Phase.hasLeft]
  | close h => obtain h | h := h <;> simp [h, Phase.hasLeft]

theorem inHand_handle (hs : s.Exact) (hin : s.InHand u job) (h : Handle v s s') : s'.InHand u job := by
  obtain ⟨hloop, -⟩ := handle_frame h
  obtain ⟨m, hm, hl | ⟨k, i, c, hl, hki, hi, hu⟩⟩ := hin
  · exact ⟨m, hm, .inl (hloop.trans hl)⟩
  · refine ⟨m, hm, .inr ⟨k, i, c, by rwa [hloop], hki, ?_, hu⟩⟩
    obtain heq | ⟨hfree, -⟩ := handle_consumers hs h
    · rwa [At, heq]
    -- the multiplexer holds the lock
    · obtain hl | hl | hl := hl <;> simp [hl, Loop.holdsLock] at hfree

theorem kept_handle (hs : s.Exact) (hkept : s.Kept u job) (h : Handle v s s') : s'.Kept u job := by
  obtain ⟨-, hmsgs, hothers, -⟩ := handle_frame h
  have hphase : ((s.clients u).phase.hasLeft = true → (s'.clients u).phase.hasLeft = true) ∧
      ((s.clients u).phase = .watching → (s'.clients u).phase = .watching ∨ (s'.clients u).phase.hasLeft = true) := by
    by_cases hv : u = v
    · subst hv
      exact handle_phase hs h
    · rw [hothers u hv]
      exact ⟨id, .inl⟩
  obtain hleft | ⟨hwatching, hkept⟩ := hkept
  · exact .inl (hphase.1 hleft)
  obtain hwatching' | hleft := hphase.2 hwatching
  · refine .inr ⟨hwatching', ?_⟩
    obtain (hqueued | hin) | ⟨m, hmem, hm⟩ := hkept
    · exact .inl (.inl (hmsgs ▸ hqueued))
    · exact .inl (.inr (inHand_handle hs hin h))
    · obtain heq | ⟨m', heq, hlast⟩ := handle_chan h u
      · exact .inr ⟨m, heq ▸ hmem, hm⟩
      · rw [heq] at hmem
        obtain rfl | hmem := List.mem_cons.mp hmem
        · rw [hlast hm.isLast] at hwatching'
          cases hwatching'
        · exact .inr ⟨m, hmem, hm⟩
  · exact .inl hleft

theorem kept_step (hs : s.Steady) (hjob : (s.clients u).job = job) (hkept : s.Kept u job)
    (h : Step (Orderly u job) s s') : s'.Kept u job := by
  cases h with
  | produce h => exact kept_produce hkept h (produce_msgs h)
  | handle v h => exact kept_handle hs.exact hkept h
  | multiplex hguard h => exact kept_multiplex hs hjob hkept hguard h

end Kept

end System

end CloudBackup.Watcher
