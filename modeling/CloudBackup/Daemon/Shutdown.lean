import CloudBackup.Shared.JobsState
import Mathlib.Logic.Relation

/-!
How the daemon stops. `ProcessSignal` and `eventProcessor` have one channel without a buffer
for it, and use it in both directions: the signal handler sends, the event processor stops
the jobs and sends back when `Running` is empty. The jobs themselves are goroutines of their
own. At its end a job calls its cancel function and leaves `Running`; a backup still updates
its record and closes its database after that.

Only SIGINT waits for the reply. `Step` takes a condition on the states in which the message
is taken and in which the reply is received; `Unhurried` is the one under which the process
exits cleanly.
-/

namespace CloudBackup.Daemon

open Shared

inductive Signal
  | sigint
  | sigterm
  deriving DecidableEq, Repr

/-- Where the goroutine with `WaitForEvent` and `ProcessSignal` is: in `sending` it is at
`shutdownScheduler <- true`, in `sent` behind it, and in `received` behind the reply. -/
inductive Handler
  | waiting
  | sending (signal : Signal)
  | sent (signal : Signal)
  | received
  | exited
  deriving DecidableEq, Repr

/-- Where `eventProcessor` is. It has copied the names of the backup definitions before it
begins to stop the jobs. -/
inductive EventProcessor
  | selecting
  | stopping (definitions : List Str)
  | waitingForAll
  | replying
  | exited
  deriving DecidableEq, Repr

/-- Where a job is. Its cleanup has called the cancel function in `removing`, and has marked
the job as stopped in `closing`. -/
inductive JobPoint
  | working
  | removing
  | closing
  | finished
  deriving DecidableEq, Repr

structure Job where
  jobType : JobType
  name : Str
  jobId : Str
  point : JobPoint
  deriving DecidableEq, Repr

def Job.key (job : Job) : Str × Str := (job.name, job.jobId)

def Job.listed (job : Job) : Bool := job.point = .working || job.point = .removing

def Job.moveTo (job : Job) (point : JobPoint) : Job := { job with point := point }

/-- The process. `removed` keeps the entries that have left `Running`, as they were then. -/
structure Process where
  handler : Handler
  scheduler : EventProcessor
  config : List Str
  running : List JobStatus
  removed : List JobStatus
  jobs : List Job

/-- The loop of `stopAllBackups`, which holds the lock of `Running`: a job is only told to
stop if the configuration has a definition with its name. -/
def stopAllBackups (definitions : List Str) (running : List JobStatus) : List JobStatus :=
  running.map fun job =>
    if definitions.any fun name => name = job.name then { job with ctxCancelled := true } else job

def quiet : Op → Bool
  | .markRunning _ _ _ => false
  | .markRestoreRunning _ _ _ => false
  | .markStopped _ _ stopped => !stopped
  | _ => true

/-- Where a job goes once it has left `Running`: a restore is done by then. -/
def afterRemoval : JobType → JobPoint
  | .backup => .closing
  | .restore => .finished

inductive Meeting
  | take (signal : Signal)
  | reply

inductive Move (guard : Meeting → Process → Prop) : Process → Process → Prop
  | signal {s : Process} (signal : Signal) (h : s.handler = .waiting) :
      Move guard s { s with handler := .sending signal }
  | take {s : Process} {signal : Signal} (hhandler : s.handler = .sending signal)
      (hscheduler : s.scheduler = .selecting) (hguard : guard (.take signal) s) :
      Move guard s { s with handler := .sent signal, scheduler := .stopping s.config }
  | stopAll {s : Process} (definitions : List Str) (h : s.scheduler = .stopping definitions) :
      Move guard s { s with
        scheduler := .waitingForAll
        running := stopAllBackups definitions s.running }
  | allStopped {s : Process} (h : s.scheduler = .waitingForAll) (hrunning : s.running = []) :
      Move guard s { s with scheduler := .replying }
  | reply {s : Process} (hhandler : s.handler = .sent .sigint) (hscheduler : s.scheduler = .replying)
      (hguard : guard .reply s) : Move guard s { s with handler := .received, scheduler := .exited }
  | exit {s : Process} (h : s.handler = .received ∨ s.handler = .sent .sigterm) :
      Move guard s { s with handler := .exited }
  /-- The definitions are changed over the API. -/
  | configure {s : Process} (config : List Str) : Move guard s { s with config := config }
  | startBackup {s : Process} {name jobId : Str} {startTime : ℤ} {running : List JobStatus}
      (hscheduler : s.scheduler = .selecting)
      (hrun : markRunning name jobId startTime s.running = .ok running) :
      Move guard s { s with running := running, jobs := s.jobs ++ [⟨.backup, name, jobId, .working⟩] }
  | startRestore {s : Process} {name jobId : Str} {startTime : ℤ} {running : List JobStatus}
      (hscheduler : s.scheduler = .selecting)
      (hrun : markRestoreRunning name jobId startTime s.running = .ok running) :
      Move guard s { s with running := running, jobs := s.jobs ++ [⟨.restore, name, jobId, .working⟩] }
  /-- Counters, texts, and requests to stop a job. -/
  | operation {s : Process} {op : Op} (hquiet : quiet op = true) :
      Move guard s { s with running := op.apply s.running }
  | cancel {s : Process} {l r : List Job} {job : Job} (hjobs : s.jobs = l ++ job :: r)
      (hpoint : job.point = .working) :
      Move guard s { s with
        running := (Op.cancelJob job.name job.jobId).apply s.running
        jobs := l ++ job.moveTo .removing :: r }
  | remove {s : Process} {l r : List Job} {job : Job} (hjobs : s.jobs = l ++ job :: r)
      (hpoint : job.point = .removing) :
      Move guard s { s with
        running := (Op.markStopped job.name job.jobId true).apply s.running
        removed := s.removed ++ s.running.filter (JobStatus.hasId job.name job.jobId)
        jobs := l ++ job.moveTo (afterRemoval job.jobType) :: r }
  | close {s : Process} {l r : List Job} {job : Job} (hjobs : s.jobs = l ++ job :: r)
      (hpoint : job.point = .closing) :
      Move guard s { s with jobs := l ++ job.moveTo .finished :: r }

def Step (guard : Meeting → Process → Prop) (s s' : Process) : Prop :=
  s.handler ≠ .exited ∧ Move guard s s'

def start (config : List Str) : Process := ⟨.waiting, .selecting, config, [], [], []⟩

/-- `Running` is empty, every entry that was in it had its cancel function called, and every
job has finished its cleanup. -/
structure Process.Clean (s : Process) : Prop where
  running : s.running = []
  cancelled : ∀ entry ∈ s.removed, entry.ctxCancelled = true
  finished : ∀ job ∈ s.jobs, job.point = .finished

/-- The process exits cleanly, if it does. -/
def Process.ExitsClean (s : Process) : Prop := s.handler = .exited → s.Clean

/-- No job is behind its last `MarkStopped` and not done. -/
def Process.NoneClosing (s : Process) : Prop := ∀ job ∈ s.jobs, job.point ≠ .closing

/-- SIGTERM finds no job, and the reply to SIGINT finds none that is about to close its
database. -/
def Unhurried : Meeting → Process → Prop
  | .take .sigterm, s => s.running = [] ∧ s.NoneClosing
  | .take .sigint, _ => True
  | .reply, s => s.NoneClosing

/-! ### Jobs and their entries -/

/-- Each job that has not left `Running` has an entry of its own there, and no entry leaves
before its cancel function was called. -/
structure Listed (s : Process) : Prop where
  nodup : (s.running.map JobStatus.name).Nodup
  distinct : ((s.jobs.filter Job.listed).map Job.name).Nodup
  entry : ∀ job ∈ s.jobs, job.listed = true →
    ∃ e ∈ s.running, e.key = job.key ∧ (job.point = .removing → e.ctxCancelled = true)
  cancelled : ∀ e ∈ s.removed, e.ctxCancelled = true

/-- An operation leaves the entry of a job that it does not end. -/
theorem entry_apply {op : Op} {running : List JobStatus} (hnodup : (running.map JobStatus.name).Nodup)
    {key : Str × Str} (hop : ¬ op.ends key.1 key.2) {P : Prop}
    (h : ∃ e ∈ running, e.key = key ∧ (P → e.ctxCancelled = true)) :
    ∃ e ∈ op.apply running, e.key = key ∧ (P → e.ctxCancelled = true) := by
  obtain ⟨e, he, rfl, hctx⟩ := h
  obtain ⟨e', he', hcont⟩ := continues_apply hnodup he hop
  exact ⟨e', he', hcont.key, fun hP => hcont.ctx (hctx hP)⟩

theorem not_ends_of_quiet {op : Op} (h : quiet op = true) (name jobId : Str) : ¬ op.ends name jobId := by
  rintro (rfl | rfl) <;> cases h

theorem Listed.eq_of_name {s : Process} (h : Listed s) {e e' : JobStatus} (he : e ∈ s.running)
    (he' : e' ∈ s.running) (hname : e.name = e'.name) : e = e' :=
  List.inj_on_of_nodup_map h.nodup he he' hname

theorem hasId_of_key {e : JobStatus} {job : Job} (h : e.key = job.key) :
    e.hasId job.name job.jobId = true := by
  obtain ⟨hname, hid⟩ := Prod.mk.inj h
  simp [JobStatus.hasId, hname, hid]

theorem name_of_hasId {e : JobStatus} {name jobId : Str} (h : e.hasId name jobId = true) : e.name = name := by
  simp only [JobStatus.hasId, Bool.and_eq_true, decide_eq_true_eq] at h
  exact h.1.symm

theorem Listed.start {s : Process} (h : Listed s) {new : JobStatus} {running : List JobStatus}
    (hadd : addJob new s.running = .ok running) {job : Job} (hkey : new.key = job.key)
    (hpoint : job.point = .working) : Listed { s with running := running, jobs := s.jobs ++ [job] } := by
  have hname : new.name = job.name := congrArg Prod.fst hkey
  rcases addJob_cases new s.running with ⟨herr, -⟩ | ⟨hok, hfree⟩
  · cases herr.symm.trans hadd
  cases hok.symm.trans hadd
  have hlisted : job.listed = true := by simp [Job.listed, hpoint]
  refine ⟨?_, ?_, ?_, h.cancelled⟩
  · rw [List.map_append, List.map_singleton, ← List.concat_eq_append]
    exact h.nodup.concat hfree
  · rw [List.filter_append, List.filter_cons_of_pos hlisted, List.filter_nil, List.map_append,
      List.map_singleton, ← List.concat_eq_append]
    refine h.distinct.concat fun hmem => ?_
    obtain ⟨other, hother, hsame⟩ := List.mem_map.mp hmem
    obtain ⟨hother, holisted⟩ := List.mem_filter.mp hother
    obtain ⟨e, he, hekey, -⟩ := h.entry other hother holisted
    refine hfree (List.mem_map.mpr ⟨e, he, ?_⟩)
    rw [hname, ← hsame]
    exact congrArg Prod.fst hekey
  · intro other hother holisted
    rcases List.mem_append.mp hother with hother | hother
    · obtain ⟨e, he, hrest⟩ := h.entry other hother holisted
      exact ⟨e, List.mem_append_left _ he, hrest⟩
    · rw [List.mem_singleton.mp hother]
      refine ⟨new, by simp, hkey, ?_⟩
      rw [hpoint]
      simp

theorem Listed.operation {s : Process} (h : Listed s) {op : Op} (hquiet : quiet op = true) :
    Listed { s with running := op.apply s.running } where
  nodup := nodup_apply op h.nodup
  distinct := h.distinct
  entry := fun job hjob hlisted =>
    entry_apply h.nodup (not_ends_of_quiet hquiet _ _) (h.entry job hjob hlisted)
  cancelled := h.cancelled

theorem Listed.stopAll {s : Process} (h : Listed s) (definitions : List Str) :
    Listed { s with running := stopAllBackups definitions s.running } := by
  have hkey : ∀ e : JobStatus, (if definitions.any fun name => name = e.name then
      { e with ctxCancelled := true } else e).Continues e := by
    intro e
    split
    · exact ⟨rfl, fun _ => rfl⟩
    · exact .refl e
  refine ⟨?_, h.distinct, ?_, h.cancelled⟩
  · have hnames : (stopAllBackups definitions s.running).map JobStatus.name =
        s.running.map JobStatus.name := by
      rw [stopAllBackups, List.map_map]
      exact List.map_congr_left fun e _ => congrArg Prod.fst (hkey e).key
    rw [hnames]
    exact h.nodup
  · intro job hjob hlisted
    obtain ⟨e, he, hekey, hctx⟩ := h.entry job hjob hlisted
    exact ⟨_, List.mem_map_of_mem he, (hkey e).key.trans hekey, fun hp => (hkey e).ctx (hctx hp)⟩

theorem names_moveTo {l r : List Job} {job : Job} {point : JobPoint} (h : job.listed = true)
    (h' : (job.moveTo point).listed = true) :
    ((l ++ job.moveTo point :: r).filter Job.listed).map Job.name =
      ((l ++ job :: r).filter Job.listed).map Job.name := by
  rw [List.filter_append, List.filter_append, List.filter_cons_of_pos h, List.filter_cons_of_pos h']
  simp [Job.moveTo]

theorem names_removed {l r : List Job} {job : Job} {point : JobPoint} (h : job.listed = true)
    (h' : (job.moveTo point).listed = false) (hnodup : (((l ++ job :: r).filter Job.listed).map Job.name).Nodup) :
    (((l ++ job.moveTo point :: r).filter Job.listed).map Job.name).Nodup ∧
      ∀ other ∈ l ++ r, other.listed = true → other.name ≠ job.name := by
  have hnot : ¬ (job.moveTo point).listed = true := by simp [h']
  rw [List.filter_append, List.filter_cons_of_pos h, List.map_append, List.map_cons] at hnodup
  rw [List.filter_append, List.filter_cons_of_neg hnot, List.map_append]
  obtain ⟨hfree, hrest⟩ := List.nodup_middle.mp hnodup |> List.nodup_cons.mp
  refine ⟨hrest, fun other hother hlisted hname => hfree ?_⟩
  rw [← List.map_append, ← List.filter_append, ← hname]
  exact List.mem_map_of_mem (List.mem_filter.mpr ⟨hother, hlisted⟩)

theorem mem_moveTo {l r : List Job} {job job' other : Job} (h : other ∈ l ++ job' :: r) :
    other = job' ∨ other ∈ l ++ r ∧ other ∈ l ++ job :: r := by
  rcases List.mem_append.mp h with h | h
  · exact .inr ⟨List.mem_append_left _ h, List.mem_append_left _ h⟩
  · rcases List.mem_cons.mp h with h | h
    · exact .inl h
    · exact .inr ⟨List.mem_append_right _ h, List.mem_append_right _ (List.mem_cons_of_mem _ h)⟩

theorem Listed.cancel {s : Process} (h : Listed s) {l r : List Job} {job : Job}
    (hjobs : s.jobs = l ++ job :: r) (hpoint : job.point = .working) :
    Listed { s with
      running := (Op.cancelJob job.name job.jobId).apply s.running
      jobs := l ++ job.moveTo .removing :: r } := by
  have hlisted : job.listed = true := by simp [Job.listed, hpoint]
  refine ⟨nodup_apply (.cancelJob job.name job.jobId) h.nodup, ?_, fun other hother holisted => ?_,
    h.cancelled⟩
  · have hdistinct := h.distinct
    rw [hjobs] at hdistinct
    rw [names_moveTo hlisted rfl]
    exact hdistinct
  · rcases mem_moveTo hother with rfl | ⟨-, hother⟩
    · -- its own entry is the one that is cancelled
      obtain ⟨e, he, hkey, -⟩ := h.entry job (by rw [hjobs]; simp) hlisted
      obtain ⟨first, hfirst, hid, hmem⟩ := exists_updated he (hasId_of_key hkey)
      have hsame : first = e := by
        refine h.eq_of_name hfirst he ?_
        rw [name_of_hasId hid]
        exact (congrArg Prod.fst hkey).symm
      subst hsame
      exact ⟨_, hmem, hkey, fun _ => rfl⟩
    · refine entry_apply h.nodup (@not_ends_of_quiet (.cancelJob job.name job.jobId) rfl _ _)
        (h.entry other ?_ holisted)
      rwa [hjobs]

theorem Listed.remove {s : Process} (h : Listed s) {l r : List Job} {job : Job}
    (hjobs : s.jobs = l ++ job :: r) (hpoint : job.point = .removing) :
    Listed { s with
      running := (Op.markStopped job.name job.jobId true).apply s.running
      removed := s.removed ++ s.running.filter (JobStatus.hasId job.name job.jobId)
      jobs := l ++ job.moveTo (afterRemoval job.jobType) :: r } := by
  have hlisted : job.listed = true := by simp [Job.listed, hpoint]
  have hunlisted : (job.moveTo (afterRemoval job.jobType)).listed = false := by
    cases job.jobType <;> rfl
  have hnames := h.distinct
  rw [hjobs] at hnames
  obtain ⟨hdistinct, hother⟩ := names_removed hlisted hunlisted hnames
  refine ⟨nodup_apply (.markStopped job.name job.jobId true) h.nodup, hdistinct, fun other hmem holisted => ?_, fun e he => ?_⟩
  · rcases mem_moveTo hmem with rfl | ⟨hmem', hmem⟩
    · rw [hunlisted] at holisted
      cases holisted
    · refine entry_apply h.nodup ?_ (h.entry other (by rwa [hjobs]) holisted)
      have hne := hother other hmem' holisted
      rintro (hends | hends) <;> exact hne (Op.markStopped.inj hends).1.symm
  · rcases List.mem_append.mp he with he | he
    · exact h.cancelled e he
    · obtain ⟨he, hid⟩ := List.mem_filter.mp he
      obtain ⟨own, hown, hkey, hctx⟩ := h.entry job (by rw [hjobs]; simp) hlisted
      have hsame : e = own := by
        refine h.eq_of_name he hown ?_
        rw [name_of_hasId hid]
        exact (congrArg Prod.fst hkey).symm
      rw [hsame]
      exact hctx hpoint

theorem Listed.close {s : Process} (h : Listed s) {l r : List Job} {job : Job}
    (hjobs : s.jobs = l ++ job :: r) (hpoint : job.point = .closing) :
    Listed { s with jobs := l ++ job.moveTo .finished :: r } := by
  have hunlisted : ¬ job.listed = true := by simp [Job.listed, hpoint]
  refine ⟨h.nodup, ?_, fun other hmem holisted => ?_, h.cancelled⟩
  · have hdistinct := h.distinct
    rw [hjobs, List.filter_append, List.filter_cons_of_neg hunlisted] at hdistinct
    rw [List.filter_append, List.filter_cons_of_neg (by simp [Job.listed, Job.moveTo])]
    exact hdistinct
  · rcases mem_moveTo hmem with rfl | ⟨-, hmem⟩
    · cases holisted
    · exact h.entry other (by rwa [hjobs]) holisted

theorem Listed.move {guard : Meeting → Process → Prop} {s s' : Process} (h : Listed s)
    (hmove : Move guard s s') : Listed s' := by
  cases hmove with
  | signal | take | allStopped | reply | exit | configure =>
      exact ⟨h.nodup, h.distinct, h.entry, h.cancelled⟩
  | stopAll definitions hscheduler =>
      obtain ⟨hnodup, hdistinct, hentry, hcancelled⟩ := h.stopAll definitions
      exact ⟨hnodup, hdistinct, hentry, hcancelled⟩
  | startBackup hscheduler hrun => exact h.start hrun rfl rfl
  | startRestore hscheduler hrun => exact h.start hrun rfl rfl
  | operation hquiet => exact h.operation hquiet
  | cancel hjobs hpoint => exact h.cancel hjobs hpoint
  | remove hjobs hpoint => exact h.remove hjobs hpoint
  | close hjobs hpoint => exact h.close hjobs hpoint

/-! ### The two ends of the channel -/

/-- No job can be started any more, and `Running` is empty. -/
def Process.Emptied (s : Process) : Prop := s.scheduler ≠ .selecting ∧ s.running = []

theorem apply_nil {op : Op} (h : quiet op = true) : op.apply [] = [] := by
  cases op with
  | markRunning | markRestoreRunning => cases h
  | updateStatsText name statName => simp [Op.apply, Op.run, updateStatsText, updateFirst]
  | addBytesRead name bytesRead => simp [Op.apply, Op.run, addBytesRead, updateFirst]
  | _ => rfl

theorem Listed.eq_false {s : Process} (h : Listed s) (hrunning : s.running = []) {job : Job}
    (hjob : job ∈ s.jobs) : job.listed = false := by
  by_contra hlisted
  obtain ⟨e, he, -⟩ := h.entry job hjob (by simpa using hlisted)
  rw [hrunning] at he
  cases he

/-- It stays empty, and the jobs that have left it can only finish. -/
theorem Process.Emptied.move {guard : Meeting → Process → Prop} {s s' : Process} (hlisted : Listed s)
    (h : s.Emptied) (hmove : Move guard s s') :
    s'.Emptied ∧ (s.NoneClosing → s'.NoneClosing) := by
  obtain ⟨hselecting, hrunning⟩ := h
  have hnone : ∀ {l r : List Job} {job : Job}, s.jobs = l ++ job :: r → job.listed ≠ true := by
    intro l r job hjobs
    rw [hlisted.eq_false hrunning (by rw [hjobs]; simp)]
    exact Bool.false_ne_true
  cases hmove with
  | signal | exit | configure => exact ⟨⟨hselecting, hrunning⟩, id⟩
  | take hhandler hscheduler => exact absurd hscheduler hselecting
  | stopAll definitions hscheduler => exact ⟨⟨by simp, by simp [hrunning, stopAllBackups]⟩, id⟩
  | allStopped | reply => exact ⟨⟨by simp, hrunning⟩, id⟩
  | startBackup hscheduler | startRestore hscheduler => exact absurd hscheduler hselecting
  | operation hquiet =>
      refine ⟨⟨hselecting, ?_⟩, id⟩
      dsimp only
      rw [hrunning, apply_nil hquiet]
  | cancel hjobs hpoint => exact absurd (by simp [Job.listed, hpoint]) (hnone hjobs)
  | remove hjobs hpoint => exact absurd (by simp [Job.listed, hpoint]) (hnone hjobs)
  | close hjobs hpoint =>
      refine ⟨⟨hselecting, hrunning⟩, fun hclosing job hjob => ?_⟩
      rcases mem_moveTo hjob with rfl | ⟨-, hjob⟩
      · simp [Job.moveTo]
      · exact hclosing job (by rwa [hjobs])

structure Inv (s : Process) : Prop where
  listed : Listed s
  replying : s.scheduler = .replying → s.running = []
  settled : s.handler = .sent .sigterm ∨ s.handler = .received ∨ s.handler = .exited →
    s.Emptied ∧ s.NoneClosing

theorem Inv.start (config : List Str) : Inv (start config) := by
  refine ⟨⟨List.nodup_nil, List.nodup_nil, by simp [Daemon.start], by simp [Daemon.start]⟩,
    by simp [Daemon.start], by simp [Daemon.start]⟩

/-- The reply is not offered before `Running` is empty, and it stays so. -/
theorem Inv.replying_move {guard : Meeting → Process → Prop} {s s' : Process} (h : Inv s)
    (hmove : Move guard s s') (hreplying : s'.scheduler = .replying) : s'.running = [] := by
  by_cases hbefore : s.scheduler = .replying
  · have hemptied : s.Emptied := ⟨by simp [hbefore], h.replying hbefore⟩
    exact (hemptied.move h.listed hmove).1.2
  · cases hmove with
    | allStopped hscheduler hrunning => exact hrunning
    | take | stopAll | reply => cases hreplying
    | _ => exact absurd hreplying hbefore

theorem Inv.step {s s' : Process} (h : Inv s) (hstep : Step Unhurried s s') : Inv s' := by
  obtain ⟨-, hmove⟩ := hstep
  refine ⟨h.listed.move hmove, h.replying_move hmove, fun hend => ?_⟩
  by_cases hbefore : s.handler = .sent .sigterm ∨ s.handler = .received ∨ s.handler = .exited
  · obtain ⟨hemptied, hclosing⟩ := h.settled hbefore
    obtain ⟨hemptied', hclosing'⟩ := hemptied.move h.listed hmove
    exact ⟨hemptied', hclosing' hclosing⟩
  · cases hmove with
    | @take signal hhandler hscheduler hguard =>
        cases signal with
        | sigterm => exact ⟨⟨by simp, hguard.1⟩, hguard.2⟩
        | sigint => simp at hend
    | reply hhandler hscheduler hguard => exact ⟨⟨by simp, h.replying hscheduler⟩, hguard⟩
    | exit hhandler =>
        rcases hhandler with hhandler | hhandler
        · exact absurd (.inr (.inl hhandler)) hbefore
        · exact absurd (.inl hhandler) hbefore
    | signal => simp at hend
    | _ => exact absurd hend hbefore

theorem Inv.clean {s : Process} (h : Inv s) (hend : s.handler = .exited) : s.Clean := by
  obtain ⟨⟨-, hrunning⟩, hclosing⟩ := h.settled (.inr (.inr hend))
  refine ⟨hrunning, h.listed.cancelled, fun job hjob => ?_⟩
  have hlisted := h.listed.eq_false hrunning hjob
  have hclosing := hclosing job hjob
  cases hpoint : job.point with
  | working | removing => simp [Job.listed, hpoint] at hlisted
  | closing => exact absurd hpoint hclosing
  | finished => rfl

/-- For any configuration, any jobs and any order of steps the process exits cleanly, if
SIGTERM finds no job and the reply to SIGINT none that is still closing its database. -/
theorem exitsClean_of_unhurried {config : List Str} {s : Process}
    (hrun : Relation.ReflTransGen (Step Unhurried) (start config) s) : s.ExitsClean := by
  have hinv : Inv s := by
    induction hrun with
    | refl => exact Inv.start config
    | tail _ hstep ih => exact ih.step hstep
  intro hend
  exact hinv.clean hend

/-! ### One job -/

def loneEntry : JobType → Bool → JobStatus
  | .backup, cancelled => { newJob .backup backupCounters backupTexts "home".toList "1".toList 0 with
      ctxCancelled := cancelled }
  | .restore, cancelled => { newJob .restore restoreCounters restoreTexts "home".toList "1".toList 0 with
      ctxCancelled := cancelled }

def loneJob (jobType : JobType) (point : JobPoint) : Job := ⟨jobType, "home".toList, "1".toList, point⟩

def loneRunning (jobType : JobType) (handler : Handler) (scheduler : EventProcessor) (cancelled : Bool)
    (point : JobPoint) : Process :=
  ⟨handler, scheduler, [], [loneEntry jobType cancelled], [], [loneJob jobType point]⟩

def loneRemoved (jobType : JobType) (handler : Handler) (scheduler : EventProcessor) : Process :=
  ⟨handler, scheduler, [], [], [loneEntry jobType true], [loneJob jobType (afterRemoval jobType)]⟩

section

variable {guard : Meeting → Process → Prop} (jobType : JobType)

theorem loneRunning_reached (signal : Signal) : Relation.ReflTransGen (Step guard) (start [])
    (loneRunning jobType (.sending signal) .selecting false .working) := by
  have hstart : Step guard (start []) (loneRunning jobType .waiting .selecting false .working) := by
    cases jobType with
    | backup => exact ⟨by decide, .startBackup rfl rfl⟩
    | restore => exact ⟨by decide, .startRestore rfl rfl⟩
  exact .tail (.single hstart) ⟨by simp [loneRunning], .signal signal rfl⟩

/-- After SIGINT the event processor does not tell the job to stop, but waits until it has
left `Running`. -/
theorem loneRemoved_reached
    (htake : guard (.take .sigint) (loneRunning jobType (.sending .sigint) .selecting false .working))
    (hreply : guard .reply (loneRemoved jobType (.sent .sigint) .replying)) :
    Relation.ReflTransGen (Step guard) (start []) (loneRemoved jobType .exited .exited) := by
  have htake : Step guard (loneRunning jobType (.sending .sigint) .selecting false .working)
      (loneRunning jobType (.sent .sigint) (.stopping []) false .working) :=
    ⟨by simp [loneRunning], .take rfl rfl htake⟩
  have hstopAll : Step guard (loneRunning jobType (.sent .sigint) (.stopping []) false .working)
      (loneRunning jobType (.sent .sigint) .waitingForAll false .working) :=
    ⟨by simp [loneRunning], .stopAll [] rfl⟩
  have hcancel : Step guard (loneRunning jobType (.sent .sigint) .waitingForAll false .working)
      (loneRunning jobType (.sent .sigint) .waitingForAll true .removing) := by
    cases jobType <;> exact ⟨by simp [loneRunning], @Move.cancel _ _ [] [] (loneJob _ .working) rfl rfl⟩
  have hremove : Step guard (loneRunning jobType (.sent .sigint) .waitingForAll true .removing)
      (loneRemoved jobType (.sent .sigint) .waitingForAll) := by
    cases jobType <;> exact ⟨by simp [loneRunning], @Move.remove _ _ [] [] (loneJob _ .removing) rfl rfl⟩
  have hall : Step guard (loneRemoved jobType (.sent .sigint) .waitingForAll)
      (loneRemoved jobType (.sent .sigint) .replying) :=
    ⟨by simp [loneRemoved], .allStopped rfl rfl⟩
  have hreply : Step guard (loneRemoved jobType (.sent .sigint) .replying)
      (loneRemoved jobType .received .exited) :=
    ⟨by simp [loneRemoved], .reply rfl rfl hreply⟩
  have hexit : Step guard (loneRemoved jobType .received .exited) (loneRemoved jobType .exited .exited) :=
    ⟨by simp [loneRemoved], .exit (.inl rfl)⟩
  exact ((((((loneRunning_reached jobType .sigint).tail htake).tail hstopAll).tail hcancel).tail
    hremove).tail hall).tail hreply |>.tail hexit

end

theorem exitsClean_of_unhurried_restore : (loneRemoved .restore .exited .exited).Clean := by
  refine exitsClean_of_unhurried (loneRemoved_reached .restore trivial ?_) rfl
  intro job hjob
  rw [List.mem_singleton.mp hjob]
  decide

/-- SIGTERM exits as soon as its message is taken, while the job is still running. And the
reply to SIGINT can come before a backup has closed its database. -/
theorem not_exitsClean_hurried :
    (∃ s, Relation.ReflTransGen (Step fun _ _ => True) (start []) s ∧ s.handler = .exited ∧
      s.running ≠ []) ∧
    ∃ s, Relation.ReflTransGen (Step fun _ _ => True) (start []) s ∧ ¬ s.ExitsClean ∧
      s.running = [] := by
  refine ⟨⟨loneRunning .restore .exited (.stopping []) false .working, ?_, rfl, by simp [loneRunning]⟩,
    ⟨loneRemoved .backup .exited .exited, loneRemoved_reached .backup trivial trivial, ?_, rfl⟩⟩
  · have htake : Step (fun _ _ => True) (loneRunning .restore (.sending .sigterm) .selecting false .working)
        (loneRunning .restore (.sent .sigterm) (.stopping []) false .working) :=
      ⟨by decide, .take rfl rfl trivial⟩
    have hexit : Step (fun _ _ => True) (loneRunning .restore (.sent .sigterm) (.stopping []) false .working)
        (loneRunning .restore .exited (.stopping []) false .working) :=
      ⟨by decide, .exit (.inr rfl)⟩
    exact ((loneRunning_reached .restore .sigterm).tail htake).tail hexit
  · intro hclean
    have hfinished := (hclean rfl).finished (loneJob .backup .closing) (List.mem_singleton_self _)
    cases hfinished

end CloudBackup.Daemon
