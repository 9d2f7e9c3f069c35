import CloudBackup.Watcher.Delivery

/-!
A client learns that its job has ended. `Delivery` says that the last message of the job is not
lost; here the multiplexer, left to itself, brings it to the channel of the client. It waits for
no client: a full channel costs a message, not time.
-/

namespace CloudBackup.Watcher

namespace System

/-- The multiplexer takes messages and sends them. -/
def isServing (s : System) : Prop :=
  s.loop = .starting ∨ s.loop = .waiting ∨ (∃ m, s.loop = .received m) ∨
    ∃ m k, s.loop = .sending m k ∨ s.loop = .full m k ∨ s.loop = .retry m k

/-! ### The multiplexer on its own -/

/-- The multiplexer alone leads from one state to the other. -/
structure Leads (s s' : System) : Prop where
  run : Relation.ReflTransGen Multiplex s s'
  steady : s'.Steady
  keys : s'.keys = s.keys
  clients : ∀ v, (s'.clients v).phase = (s.clients v).phase ∧ (s'.clients v).job = (s.clients v).job

section Leads

variable {s s' s'' : System} {u : Str} {job : Job} {m : WatchMessage} {k i : ℕ} {c : WatchConsumer}

theorem Leads.refl (hs : s.Steady) : s.Leads s := ⟨.refl, hs, rfl, fun _ => ⟨rfl, rfl⟩⟩

theorem Leads.single (hs : s.Steady) (h : Multiplex s s') : s.Leads s' :=
  ⟨.single h, hs.multiplex h, (multiplex_frame h).1, (multiplex_frame h).2⟩

theorem Leads.trans (h : s.Leads s') (h' : s'.Leads s'') : s.Leads s'' :=
  ⟨h.run.trans h'.run, h'.steady, h'.keys.trans h.keys,
    fun v => ⟨(h'.clients v).1.trans (h.clients v).1, (h'.clients v).2.trans (h.clients v).2⟩⟩

theorem Leads.at (h : s.Leads s') (hk : s.At k c) : ∃ c', s'.At k c' ∧ c'.uuid = c.uuid ∧ c'.job = c.job :=
  at_of_keys h.keys.symm hk

theorem Leads.length (h : s.Leads s') : s'.consumers.length = s.consumers.length := by
  simpa [System.keys] using congrArg List.length h.keys

theorem clientSendAllowed_passes (c : WatchConsumer) (m : WatchMessage) :
    (clientSendAllowed .passes c m).1 = true := by
  unfold clientSendAllowed
  split_ifs <;> rfl

theorem mem_setChan_append (commChan : List WatchMessage) :
    m ∈ ((s.setChan u (commChan ++ [m])).clients u).commChan := by
  rw [setChan, setClient_self]
  exact List.mem_append_right _ (List.mem_singleton.mpr rfl)

theorem leads_retry (hs : s.Steady) (hl : s.loop = .retry m k) (hk : s.At k c) : ∃ s', s.Leads s' ∧
    s'.loop = .sending m (k + 1) ∧ s'.msgs = s.msgs ∧ m ∈ (s'.clients c.uuid).commChan :=
  ⟨_, .single hs (.resend hl hk (hs.exact.not_closed hk) (hs.room m k c hl hk)), rfl, rfl, mem_setChan_append _⟩

theorem leads_full (hs : s.Steady) (hl : s.loop = .full m k) (hk : s.At k c) : ∃ s', s.Leads s' ∧
    s'.loop = .sending m (k + 1) ∧ s'.msgs = s.msgs ∧
      ((s.clients c.uuid).commChan ≠ [] → m ∈ (s'.clients c.uuid).commChan) := by
  cases hchan : (s.clients c.uuid).commChan with
  | nil =>
      exact ⟨_, .single hs (.drained hl hk hchan (hs.exact.not_closed hk)), rfl, rfl, fun h => absurd rfl h⟩
  | cons old rest =>
      have hroom := Leads.single hs (.makeRoom hl hk hchan)
      obtain ⟨s', hleads, hl', hmsgs, hmem⟩ := leads_retry hroom.steady rfl hk
      exact ⟨s', hroom.trans hleads, hl', hmsgs, fun _ => hmem⟩

theorem leads_sending (hs : s.Steady) (hl : s.loop = .sending m k) (hk : s.At k c) : ∃ s', s.Leads s' ∧
    s'.loop = .sending m (k + 1) ∧ s'.msgs = s.msgs ∧ (m.job = c.job → m ∈ (s'.clients c.uuid).commChan) := by
  by_cases hjob : m.job = c.job
  · have hallowed := clientSendAllowed_passes c m
    have hopen := hs.exact.not_closed hk
    by_cases hroom : (s.clients c.uuid).commChan.length < commChanSize
    · exact ⟨_, .single hs (.send hl hk hjob hallowed hopen hroom), rfl, rfl, fun _ => mem_setChan_append _⟩
    · have hfull := Leads.single hs (.sendFull hl hk hjob hallowed hopen hroom)
      obtain ⟨c', hc', huuid, -⟩ := hfull.at hk
      obtain ⟨s', hleads, hl', hmsgs, hmem⟩ := leads_full hfull.steady rfl hc'
      refine ⟨s', hfull.trans hleads, hl', hmsgs, fun _ => ?_⟩
      rw [← huuid]
      refine hmem fun hnil => hroom ?_
      rw [huuid] at hnil
      have hnil' : (s.clients c.uuid).commChan = [] := hnil
      rw [hnil']
      decide
  · exact ⟨_, .single hs (.skip hl hk hjob), rfl, rfl, fun h => absurd h hjob⟩

theorem exists_at (hs : s.Steady) (hlt : k < s.consumers.length) : ∃ c, s.At k c := by
  rcases hentry : s.consumers[k] with _ | c
  · exact absurd (hentry ▸ List.getElem_mem hlt) hs.exact.noNil
  · exact ⟨c, by rw [At, List.getElem?_eq_getElem hlt, hentry]⟩

theorem leads_waiting (hs : s.Steady) (hl : s.loop = .sending m k) :
    ∃ s', s.Leads s' ∧ s'.loop = .waiting ∧ s'.msgs = s.msgs := by
  obtain ⟨n, hn⟩ : ∃ n, n = s.consumers.length - k := ⟨_, rfl⟩
  induction n generalizing s k with
  | zero => exact ⟨_, .single hs (.unlock hl (by omega)), rfl, rfl⟩
  | succ n ih =>
      obtain ⟨c, hk⟩ := exists_at hs (by omega : k < s.consumers.length)
      obtain ⟨s₁, h₁, hl₁, hmsgs₁, -⟩ := leads_sending hs hl hk
      obtain ⟨s₂, h₂, hl₂, hmsgs₂⟩ := ih h₁.steady hl₁ (by rw [h₁.length]; omega)
      exact ⟨s₂, h₁.trans h₂, hl₂, hmsgs₂.trans hmsgs₁⟩

theorem leads_arrived (hs : s.Steady) (hm : IsLastOf job m) (hl : s.loop = .sending m k) (hki : k ≤ i)
    (hi : s.At i c) (hu : c.uuid = u) (hjob : (s.clients u).job = job) : ∃ s', s.Leads s' ∧ s'.Arrived u job := by
  obtain ⟨n, hn⟩ : ∃ n, n = i - k := ⟨_, rfl⟩
  induction n generalizing s k c with
  | zero =>
      obtain rfl : i = k := by omega
      obtain ⟨s', hleads, -, -, hmem⟩ := leads_sending hs hl hi
      have hcjob : m.job = c.job := by rw [hm.job_eq, hs.jobs c (List.mem_of_getElem? hi), hu, hjob]
      exact ⟨s', hleads, m, hu ▸ hmem hcjob, hm⟩
  | succ n ih =>
      have hlt := (List.getElem?_eq_some_iff.mp hi).1
      obtain ⟨c', hk⟩ := exists_at hs (by omega : k < s.consumers.length)
      obtain ⟨s₁, h₁, hl₁, -, -⟩ := leads_sending hs hl hk
      obtain ⟨c₁, hi₁, hu₁, -⟩ := h₁.at hi
      obtain ⟨s₂, h₂, harrived⟩ := ih h₁.steady hl₁ (by omega) hi₁ (hu₁.trans hu)
        ((h₁.clients u).2.trans hjob) (by omega)
      exact ⟨s₂, h₁.trans h₂, harrived⟩

theorem leads_arrived_of_received (hs : s.Steady) (hm : IsLastOf job m) (hl : s.loop = .received m)
    (hphase : (s.clients u).phase = .watching) (hjob : (s.clients u).job = job) :
    ∃ s', s.Leads s' ∧ s'.Arrived u job := by
  have hlock := Leads.single hs (.lock hl)
  obtain ⟨c, hmem, hu⟩ := hs.exact.exists_entry (u := u) (by rw [hphase]; rfl)
  obtain ⟨i, hi⟩ := List.mem_iff_getElem?.mp hmem
  obtain ⟨s', h, harrived⟩ := leads_arrived hlock.steady hm rfl (Nat.zero_le i) hi hu hjob
  exact ⟨s', hlock.trans h, harrived⟩

theorem leads_arrived_of_mem (hs : s.Steady) (hm : IsLastOf job m) (hl : s.loop = .waiting) (hmem : m ∈ s.msgs)
    (hphase : (s.clients u).phase = .watching) (hjob : (s.clients u).job = job) :
    ∃ s', s.Leads s' ∧ s'.Arrived u job := by
  obtain ⟨before, after, hmsgs⟩ := List.append_of_mem hmem
  clear hmem
  induction before generalizing s with
  | nil =>
      have hreceive := Leads.single hs (.receive hl hmsgs)
      obtain ⟨s', h, harrived⟩ := leads_arrived_of_received hreceive.steady hm rfl hphase hjob
      exact ⟨s', hreceive.trans h, harrived⟩
  | cons m' before ih =>
      have hreceive := Leads.single hs (.receive hl hmsgs)
      have hlock := Leads.single hreceive.steady (.lock rfl)
      obtain ⟨s₁, h₁, hl₁, hmsgs₁⟩ := leads_waiting hlock.steady rfl
      have h := (hreceive.trans hlock).trans h₁
      obtain ⟨s₂, h₂, harrived⟩ := ih h.steady hl₁ ((h.clients u).1.trans hphase) ((h.clients u).2.trans hjob) hmsgs₁
      exact ⟨s₂, h.trans h₂, harrived⟩

/-- Whatever the multiplexer is about, it can wait for the next message. -/
theorem leads_waiting_of_serving (hs : s.Steady) (h : s.isServing) :
    ∃ s', s.Leads s' ∧ s'.loop = .waiting ∧ s'.msgs = s.msgs := by
  obtain hl | hl | ⟨m, hl⟩ | ⟨m, k, hl | hl | hl⟩ := h
  · exact ⟨_, .single hs (.start hl), rfl, rfl⟩
  · exact ⟨s, .refl hs, hl, rfl⟩
  · have hlock := Leads.single hs (.lock hl)
    obtain ⟨s', h', hl', hmsgs⟩ := leads_waiting hlock.steady rfl
    exact ⟨s', hlock.trans h', hl', hmsgs⟩
  · exact leads_waiting hs hl
  · obtain ⟨c, hk⟩ := hs.placed m k (.inl hl)
    obtain ⟨s₁, h₁, hl₁, hmsgs₁, -⟩ := leads_full hs hl hk
    obtain ⟨s₂, h₂, hl₂, hmsgs₂⟩ := leads_waiting h₁.steady hl₁
    exact ⟨s₂, h₁.trans h₂, hl₂, hmsgs₂.trans hmsgs₁⟩
  · obtain ⟨c, hk⟩ := hs.placed m k (.inr hl)
    obtain ⟨s₁, h₁, hl₁, hmsgs₁, -⟩ := leads_retry hs hl hk
    obtain ⟨s₂, h₂, hl₂, hmsgs₂⟩ := leads_waiting h₁.steady hl₁
    exact ⟨s₂, h₁.trans h₂, hl₂, hmsgs₂.trans hmsgs₁⟩

theorem leads_arrived_of_inHand (hs : s.Steady) (hphase : (s.clients u).phase = .watching)
    (hjob : (s.clients u).job = job) (hguard : s.Orderly u job) (hin : s.InHand u job) :
    ∃ s', s.Leads s' ∧ s'.Arrived u job := by
  obtain ⟨m, hm, hl | ⟨k, i, c, hl, hki, hi, hu⟩⟩ := hin
  · exact leads_arrived_of_received hs hm hl hphase hjob
  -- past the place `k`, where it was stopped, the list is as it was
  have hlater : ∀ {s₁ : System}, s.Leads s₁ → s₁.loop = .sending m (k + 1) → i ≠ k →
      ∃ s', s.Leads s' ∧ s'.Arrived u job := by
    intro s₁ h₁ hl₁ hne
    obtain ⟨c₁, hi₁, hu₁, -⟩ := h₁.at hi
    obtain ⟨s₂, h₂, harrived⟩ := leads_arrived h₁.steady hm hl₁ (by omega) hi₁ (hu₁.trans hu)
      ((h₁.clients u).2.trans hjob)
    exact ⟨s₂, h₁.trans h₂, harrived⟩
  obtain hl | hl | hl := hl
  · exact leads_arrived hs hm hl hki hi hu hjob
  · by_cases hik : i = k
    · subst hik
      obtain ⟨s₁, h₁, -, -, hmem⟩ := leads_full hs hl hi
      have hchan := hguard.notDrained m i c hl hi hu hm
      exact ⟨s₁, h₁, m, hu ▸ hmem (hu ▸ hchan), hm⟩
    · obtain ⟨c', hk⟩ := hs.placed m k (.inl hl)
      obtain ⟨s₁, h₁, hl₁, -, -⟩ := leads_full hs hl hk
      exact hlater h₁ hl₁ hik
  · by_cases hik : i = k
    · subst hik
      obtain ⟨s₁, h₁, -, -, hmem⟩ := leads_retry hs hl hi
      exact ⟨s₁, h₁, m, hu ▸ hmem, hm⟩
    · obtain ⟨c', hk⟩ := hs.placed m k (.inr hl)
      obtain ⟨s₁, h₁, hl₁, -, -⟩ := leads_retry hs hl hk
      exact hlater h₁ hl₁ hik

theorem arrives_of_underway (hs : s.Steady) (hphase : (s.clients u).phase = .watching)
    (hjob : (s.clients u).job = job) (hguard : s.Orderly u job) (hserving : s.isServing) (h : s.Underway u job) :
    ∃ s', Relation.ReflTransGen Multiplex s s' ∧ s'.Arrived u job := by
  obtain ⟨m, hmem, hm⟩ | hin := h
  · obtain ⟨s₁, h₁, hl₁, hmsgs⟩ := leads_waiting_of_serving hs hserving
    obtain ⟨s₂, h₂, harrived⟩ := leads_arrived_of_mem h₁.steady hm hl₁ (hmsgs ▸ hmem)
      ((h₁.clients u).1.trans hphase) ((h₁.clients u).2.trans hjob)
    exact ⟨s₂, h₁.run.trans h₂.run, harrived⟩
  · obtain ⟨s', h', harrived⟩ := leads_arrived_of_inHand hs hphase hjob hguard hin
    exact ⟨s', h'.run, harrived⟩

end Leads

/-! ### Runs -/

section Run

variable {s s' : System} {u : Str} {jobs : Str → Job}

theorem step_job {guard : System → Prop} (h : Step guard s s') : (s'.clients u).job = (s.clients u).job := by
  cases h with
  | produce h => rw [(produce_frame h).2.1]
  | handle v h =>
      obtain ⟨-, -, hothers, hjob⟩ := handle_frame h
      by_cases hv : u = v
      · rw [hv, hjob]
      · rw [hothers u hv]
  | multiplex _ h => exact ((multiplex_frame h).2 u).2

theorem reachable_job (h : Reachable jobs s) : (s.clients u).job = jobs u := by
  induction h with
  | refl => rfl
  | tail _ hstep ih => rw [step_job hstep, ih]

theorem kept_of_sent (hreg : (s.clients u).phase.isRegistered = true) (hroom : s.msgs.length < watcherChanSize)
    (job : Job) (jobCancelled jobFailed : Bool) :
    (s.sendMsgToWatcher (jobFinished job jobCancelled jobFailed)).Kept u job := by
  rw [sendMsgToWatcher, if_pos hroom]
  cases hphase : (s.clients u).phase with
  | watching =>
      refine .inr ⟨hphase, .inl (.inl ⟨_, ?_, jobCancelled, jobFailed, rfl⟩)⟩
      exact List.mem_append_right _ (List.mem_singleton.mpr rfl)
  | leaving => exact .inl (congrArg Phase.hasLeft hphase)
  | _ =>
      rw [hphase] at hreg
      cases hreg

/-- A client that is in the list when its job ends either leaves, or the last message of the job is
on its way to it or in its channel; and the multiplexer does bring it there. -/
theorem lastMessage_kept {s₁ : System} {jobCancelled jobFailed : Bool} (h₁ : Reachable jobs s₁)
    (hreg : (s₁.clients u).phase.isRegistered = true) (hroom : s₁.msgs.length < watcherChanSize)
    (hrun : Relation.ReflTransGen (Step (Orderly u (jobs u)))
      (s₁.sendMsgToWatcher (jobFinished (jobs u) jobCancelled jobFailed)) s) :
    s.Kept u (jobs u) ∧ ((s.clients u).phase = .watching → s.Orderly u (jobs u) → s.isServing →
      ∃ s', Relation.ReflTransGen Multiplex s s' ∧ s'.Arrived u (jobs u)) := by
  have hall : s.Steady ∧ (s.clients u).job = jobs u ∧ s.Kept u (jobs u) := by
    induction hrun with
    | refl =>
        have hsent : Produce s₁ (s₁.sendMsgToWatcher (jobFinished (jobs u) jobCancelled jobFailed)) := .finished _ _ _
        refine ⟨(reachable_steady h₁).produce hsent, ?_, kept_of_sent hreg hroom _ _ _⟩
        rw [(produce_frame hsent).2.1, reachable_job h₁]
    | tail _ hstep ih =>
        obtain ⟨hs, hjob, hkept⟩ := ih
        exact ⟨hs.step hstep, (step_job hstep).trans hjob, kept_step hs hjob hkept hstep⟩
  obtain ⟨hs, hjob, hkept⟩ := hall
  refine ⟨hkept, fun hphase hguard hserving => ?_⟩
  obtain hleft | ⟨-, hunderway | harrived⟩ := hkept
  · rw [hphase] at hleft
    cases hleft
  · exact arrives_of_underway hs hphase hjob hguard hserving hunderway
  · exact ⟨s, .refl, harrived⟩

end Run

/-! ### One client -/

def oneClient : System := started.addConsumer ['a']

theorem reachable_oneClient : Reachable (fun _ => someJob) oneClient :=
  reachable_started.tail (.handle ['a'] (.add rfl rfl))

def lastReceived : System := { oneClient with msgs := [], loop := .received (jobFinished someJob false false) }

theorem lastMessage_kept_oneClient : ∃ s, Relation.ReflTransGen Multiplex lastReceived s ∧ s.Arrived ['a'] someJob := by
  have hguard : ∀ t : System, t.loop = .waiting ∨ t.loop = .received (jobFinished someJob false false) →
      t.Orderly ['a'] someJob := by
    intro t ht
    constructor
    · intro m k c hl
      simp [hl] at ht
    · intro m k c old rest hl
      simp [hl] at ht
  have hrun : Relation.ReflTransGen (Step (Orderly ['a'] someJob))
      (oneClient.sendMsgToWatcher (jobFinished someJob false false)) lastReceived :=
    .single (.multiplex (hguard _ (.inl rfl)) (.receive rfl rfl))
  have hkept := lastMessage_kept (u := ['a']) reachable_oneClient rfl (by decide) hrun
  exact hkept.2 rfl (hguard _ (.inr rfl)) (.inr (.inr (.inl ⟨_, rfl⟩)))

def progressMsg : WatchMessage := ⟨someJob, "/d/a".toList, 0, [], false, false, false⟩

def flooded (n : ℕ) : System := { oneClient with msgs := List.replicate n progressMsg }

theorem reachable_flooded {n : ℕ} (h : n ≤ watcherChanSize) : Reachable (fun _ => someJob) (flooded n) := by
  induction n with
  | zero => exact reachable_oneClient
  | succ n ih =>
      have hsend : Produce (flooded n) ((flooded n).sendMsgToWatcher progressMsg) := .progress rfl
      have hnext : (flooded n).sendMsgToWatcher progressMsg = flooded (n + 1) := by
        have hroom : (flooded n).msgs.length < watcherChanSize := by
          rw [flooded, List.length_replicate]
          exact h
        rw [sendMsgToWatcher, if_pos hroom]
        simp only [flooded, ← List.replicate_succ']
      exact (ih (by omega)).tail (.produce (hnext ▸ hsend))

/-- The last message is dropped where the channel of the multiplexer is full. -/
theorem lastMessage_lost : ¬ ∀ (jobs : Str → Job) (u : Str) (s₁ s : System) (jobCancelled jobFailed : Bool),
    Reachable jobs s₁ → (s₁.clients u).phase.isRegistered = true →
      Relation.ReflTransGen (Step fun _ => True)
        (s₁.sendMsgToWatcher (jobFinished (jobs u) jobCancelled jobFailed)) s → s.Kept u (jobs u) := by
  intro hall
  have hfull : (flooded watcherChanSize).sendMsgToWatcher (jobFinished someJob false false) =
      flooded watcherChanSize := by
    rw [sendMsgToWatcher, if_neg (by simp [flooded])]
  have hrun : Relation.ReflTransGen (Step fun _ => True)
      ((flooded watcherChanSize).sendMsgToWatcher (jobFinished someJob false false)) (flooded watcherChanSize) := by
    rw [hfull]
  have hkept := hall (fun _ => someJob) ['a'] _ _ false false (reachable_flooded le_rfl) rfl hrun
  obtain hleft | ⟨-, (⟨m, hmem, hm⟩ | ⟨m, hm, hl | ⟨k, i, c, hl, -⟩⟩) | ⟨m, hmem, hm⟩⟩ := hkept
  · cases hleft
  · obtain rfl := List.eq_of_mem_replicate hmem
    cases hm.isLast
  · cases hl
  · obtain hl | hl | hl := hl <;> cases hl
  · cases hmem

end System

end CloudBackup.Watcher
