import CloudBackup.Library.Resumption
import CloudBackup.Shared.JobsState

/-!
The event loop of the scheduler and the clients that send it commands: the handlers of
http requests and the triggers of cron. All of them share one channel for the commands and
one for the responses, and neither has a buffer.

The loop takes a command, processes it, and offers the response for five seconds to
whoever receives. A client that could send its command receives for twenty seconds, and
takes any response. So the scheduler must not give up on a response whose client is still
to come: the next response would find two receivers.
-/

namespace CloudBackup.Scheduler

open Shared Resumption

/-! ### Commands -/

inductive CommandName
  | start
  | stop
  | other
  deriving DecidableEq, Repr

structure ReceiveBackupCommand where
  id : Str
  command : CommandName
  backupJobId : Str
  name : Str
  deriving DecidableEq, Repr

structure ResponseBackupCommand where
  id : Str
  backupJobId : Str
  name : Str
  err : Bool
  message : Str
  deriving DecidableEq, Repr

def errJobAlreadyStopping : Str := "job already stopping".toList

def errText : StateErr → Str
  | .jobAlreadyRunning => "job already running".toList
  | .jobAlreadyStopped => "job already stopped".toList
  | .jobNotFoundInRunningState => "no running job with given name and uuid was found".toList

/-- What the scheduler asks of the jobs table. Each request holds its lock on its own. -/
inductive Request
  | generateJobUuid (name : Str)
  | markRunning (name jobId : Str)
  | isRunning (name jobId : Str)
  | isStopping (name jobId : Str)
  | getCancelFunctionForJob (name jobId : Str)
  | markStopped (name jobId : Str) (stopped : Bool)
  | cancel (name jobId : Str)

def Request.Answer : Request → Type
  | .generateJobUuid _ => Except Str Str
  | .markRunning _ _ => Except StateErr Unit
  | .isRunning _ _ => Bool
  | .isStopping _ _ => Bool
  | .getCancelFunctionForJob _ _ => Except StateErr Str
  | .markStopped _ _ _ => Except StateErr Unit
  | .cancel _ _ => Unit

def OpAnswers (op : Op) (running : List JobStatus) (answer : Except StateErr Unit)
    (running' : List JobStatus) : Prop :=
  answer = (op.run running).map (fun _ => ()) ∧ running' = op.apply running

/-- The answers that the table can give. An id comes from a random source and is looked up
in the database. -/
def Answers (running : List JobStatus) :
    (q : Request) → q.Answer → List JobStatus → Prop
  | .generateJobUuid _, _, running' => running' = running
  | .markRunning name jobId, answer, running' =>
      ∃ startTime, OpAnswers (.markRunning name jobId startTime) running answer running'
  | .isRunning name jobId, answer, running' => answer = isRunning name jobId running ∧ running' = running
  | .isStopping name jobId, answer, running' => answer = isStopping name jobId running ∧ running' = running
  | .getCancelFunctionForJob name jobId, answer, running' =>
      answer = (findJob name jobId running).map JobStatus.backupJobId ∧ running' = running
  | .markStopped name jobId stopped, answer, running' =>
      OpAnswers (.markStopped name jobId stopped) running answer running'
  | .cancel name jobId, _, running' => running' = cancelJob name jobId running

def failure (cmd : ReceiveBackupCommand) (message : Str) : ResponseBackupCommand :=
  ⟨cmd.id, [], cmd.name, true, message⟩

def success (cmd : ReceiveBackupCommand) (backupJobId : Str) : ResponseBackupCommand :=
  ⟨cmd.id, backupJobId, cmd.name, false, []⟩

abbrev CommandProg := Prog Request Request.Answer ResponseBackupCommand

def startBackup (cmd : ReceiveBackupCommand) : CommandProg :=
  .call (.generateJobUuid cmd.name) fun
    | .error message => .done (failure cmd message)
    | .ok startJobUuid =>
        .call (.markRunning cmd.name startJobUuid) fun
          | .error err => .done (failure cmd (errText err))
          | .ok _ => .done (success cmd startJobUuid)

def stopRunning (cmd : ReceiveBackupCommand) : CommandProg :=
  .call (.getCancelFunctionForJob cmd.name cmd.backupJobId) fun
    | .error _ => .done (failure cmd (errText .jobNotFoundInRunningState))
    | .ok jobId =>
        .call (.markStopped cmd.name cmd.backupJobId false) fun
          | .error err => .done (failure cmd (errText err))
          | .ok _ =>
              .call (.cancel cmd.name jobId) fun _ => .done (success cmd cmd.backupJobId)

def stopBackup (cmd : ReceiveBackupCommand) : CommandProg :=
  .call (.isRunning cmd.name cmd.backupJobId) fun
    | false => .done (failure cmd (errText .jobAlreadyStopped))
    | true =>
        .call (.isStopping cmd.name cmd.backupJobId) fun
          | true => .done (failure cmd errJobAlreadyStopping)
          | false => stopRunning cmd

def unknownCommand (cmd : ReceiveBackupCommand) : Str :=
  "Scheduler received command ".toList ++ cmd.name ++
    " which is not one of 'start' or 'stop'. This is a bug".toList

def processBackupCommand (cmd : ReceiveBackupCommand) : CommandProg :=
  match cmd.command with
  | .start => startBackup cmd
  | .stop => stopBackup cmd
  | .other => .done (failure cmd (unknownCommand cmd))

theorem startBackup_returns (cmd : ReceiveBackupCommand) : (startBackup cmd).Returns fun resp => resp.id = cmd.id := by
  rintro (message | startJobUuid)
  · exact rfl
  · rintro (err | done)
    · exact rfl
    · exact rfl

theorem stopBackup_returns (cmd : ReceiveBackupCommand) : (stopBackup cmd).Returns fun resp => resp.id = cmd.id := by
  rintro (_ | _)
  · exact rfl
  · rintro (_ | _)
    · rintro (err | jobId)
      · exact rfl
      · rintro (err | done)
        · exact rfl
        · exact fun _ => rfl
    · exact rfl

theorem processBackupCommand_returns (cmd : ReceiveBackupCommand) :
    (processBackupCommand cmd).Returns fun resp => resp.id = cmd.id := by
  unfold processBackupCommand
  split
  · exact startBackup_returns cmd
  · exact stopBackup_returns cmd
  · exact rfl

/-! ### The loop and its clients -/

/-- A client, from its command on. Between the send and the receive it only logs. -/
inductive Client
  | idle
  | sending (cmd : ReceiveBackupCommand)
  | sent (cmd : ReceiveBackupCommand)
  | receiving (cmd : ReceiveBackupCommand)
  | received (cmd : ReceiveBackupCommand) (resp : ResponseBackupCommand)
  | gaveUp (cmd : ReceiveBackupCommand)

def Client.awaits : Client → Option ReceiveBackupCommand
  | .sent cmd => some cmd
  | .receiving cmd => some cmd
  | _ => none

inductive EventProcessor
  | selecting
  | processing (cmd : ReceiveBackupCommand) (rest : CommandProg)
  | offering (cmd : ReceiveBackupCommand) (resp : ResponseBackupCommand)
  | exited

def EventProcessor.current : EventProcessor → Option ReceiveBackupCommand
  | .processing cmd _ => some cmd
  | .offering cmd _ => some cmd
  | _ => none

/-- The clients, the event loop and the jobs table. -/
structure System (ι : Type) where
  clients : ι → Client
  scheduler : EventProcessor
  running : List JobStatus

namespace System

variable {ι : Type}

def setClient [DecidableEq ι] (s : System ι) (i : ι) (c : Client) : System ι :=
  { s with clients := Function.update s.clients i c }

theorem setClient_setClient [DecidableEq ι] (s : System ι) (i : ι) (c c' : Client) :
    (s.setClient i c).setClient i c' = s.setClient i c' := by
  simp only [setClient, Function.update_idem]

theorem setClient_clients [DecidableEq ι] (s : System ι) (i j : ι) (c : Client) :
    (s.setClient i c).clients j = if j = i then c else s.clients j := Function.update_apply ..

def initial (running : List JobStatus) : System ι := ⟨fun _ => .idle, .selecting, running⟩

/-- A step. `timer` tells where the five seconds of the scheduler can be over. The other
timers can run out at any time, and so can the context of cron. A change of the
configuration or a command for a restore keeps the loop busy, which is only a delay. -/
inductive Step [DecidableEq ι] (timer : System ι → Prop) : System ι → System ι → Prop
  | request {s : System ι} (i : ι) (cmd : ReceiveBackupCommand) (h : s.clients i = .idle) :
      Step timer s (s.setClient i (.sending cmd))
  | send {s : System ι} (i : ι) (cmd : ReceiveBackupCommand) (h : s.clients i = .sending cmd)
      (hsel : s.scheduler = .selecting) :
      Step timer s { s.setClient i (.sent cmd) with scheduler := .processing cmd (processBackupCommand cmd) }
  | sendTimeout {s : System ι} (i : ι) (cmd : ReceiveBackupCommand) (h : s.clients i = .sending cmd) :
      Step timer s (s.setClient i (.gaveUp cmd))
  | receive {s : System ι} (i : ι) (cmd : ReceiveBackupCommand) (h : s.clients i = .sent cmd) :
      Step timer s (s.setClient i (.receiving cmd))
  | receiveTimeout {s : System ι} (i : ι) (cmd : ReceiveBackupCommand) (h : s.clients i = .receiving cmd) :
      Step timer s (s.setClient i (.gaveUp cmd))
  | process {s : System ι} (cmd : ReceiveBackupCommand) (q : Request) (k : q.Answer → CommandProg)
      (answer : q.Answer) (running' : List JobStatus) (h : s.scheduler = .processing cmd (.call q k))
      (hanswer : Answers s.running q answer running') :
      Step timer s { s with scheduler := .processing cmd (k answer), running := running' }
  | offer {s : System ι} (cmd : ReceiveBackupCommand) (resp : ResponseBackupCommand)
      (h : s.scheduler = .processing cmd (.done resp)) :
      Step timer s { s with scheduler := .offering cmd resp }
  | respond {s : System ι} (i : ι) (cmd cmd' : ReceiveBackupCommand) (resp : ResponseBackupCommand)
      (h : s.scheduler = .offering cmd resp) (hi : s.clients i = .receiving cmd') :
      Step timer s { s.setClient i (.received cmd' resp) with scheduler := .selecting }
  | responseTimeout {s : System ι} (cmd : ReceiveBackupCommand) (resp : ResponseBackupCommand)
      (h : s.scheduler = .offering cmd resp) (htimer : timer s) :
      Step timer s { s with scheduler := .selecting }
  | shutdown {s : System ι} (h : s.scheduler = .selecting) : Step timer s { s with scheduler := .exited }
  | operation {s : System ι} (op : Op) : Step timer s { s with running := op.apply s.running }

def Reachable [DecidableEq ι] (timer : System ι → Prop) (running : List JobStatus) : System ι → Prop :=
  Relation.ReflTransGen (Step timer) (initial running)

/-- Each client that took a response took the one to its own command. -/
def OwnResponses (s : System ι) : Prop :=
  ∀ i cmd resp, s.clients i = .received cmd resp → resp.id = cmd.id

/-- No client waits on the command that the loop works on. -/
def Unawaited (s : System ι) : Prop :=
  ∀ i cmd, (s.clients i).awaits = some cmd → s.scheduler.current ≠ some cmd

def Answering : EventProcessor → Prop
  | .processing cmd rest => rest.Returns fun resp => resp.id = cmd.id
  | .offering cmd resp => resp.id = cmd.id
  | _ => True

/-- Only one client waits, and it waits on the command in hand. -/
structure Orderly (s : System ι) : Prop where
  awaits : ∀ i cmd, (s.clients i).awaits = some cmd → s.scheduler.current = some cmd
  alone : ∀ i j, (s.clients i).awaits.isSome → (s.clients j).awaits.isSome → i = j
  answering : Answering s.scheduler
  own : OwnResponses s

theorem orderly_initial (running : List JobStatus) : Orderly (initial running : System ι) where
  awaits := fun _ _ h => by cases h
  alone := fun _ _ h => by cases h
  answering := trivial
  own := fun _ _ _ h => by cases h

variable {s : System ι} {i : ι} {c : Client}

theorem Orderly.setScheduler (h : Orderly s) {p : EventProcessor}
    (hnobody : ∀ i, (s.clients i).awaits = none) (hp : Answering p) : Orderly { s with scheduler := p } where
  awaits := fun i cmd hi => by rw [hnobody i] at hi; cases hi
  alone := h.alone
  answering := hp
  own := h.own

theorem Orderly.nobody (h : Orderly s) (hcurrent : s.scheduler.current = none) (i : ι) :
    (s.clients i).awaits = none := by
  rw [Option.eq_none_iff_forall_ne_some]
  intro cmd hi
  rw [h.awaits i cmd hi] at hcurrent
  cases hcurrent

variable [DecidableEq ι]

theorem Orderly.setClient (h : Orderly s) (hawaits : c.awaits = none ∨ c.awaits = (s.clients i).awaits)
    (hc : ∀ cmd resp, c ≠ .received cmd resp) : Orderly (s.setClient i c) := by
  have hle : ∀ j cmd, ((s.setClient i c).clients j).awaits = some cmd → (s.clients j).awaits = some cmd := by
    intro j cmd hj
    rw [setClient_clients] at hj
    split at hj
    · rename_i hji
      rcases hawaits with hnone | heq
      · rw [hnone] at hj
        cases hj
      · rw [hji, ← heq, hj]
    · exact hj
  refine ⟨fun j cmd hj => h.awaits j cmd (hle j cmd hj), fun j k hj hk => ?_, h.answering, ?_⟩
  · obtain ⟨cmd, hcmd⟩ := Option.isSome_iff_exists.mp hj
    obtain ⟨cmd', hcmd'⟩ := Option.isSome_iff_exists.mp hk
    exact h.alone j k (by rw [hle j cmd hcmd]; rfl) (by rw [hle k cmd' hcmd']; rfl)
  · intro j cmd resp hj
    rw [setClient_clients] at hj
    split at hj
    · exact absurd hj (hc cmd resp)
    · exact h.own j cmd resp hj

/-- A client sends its command: nobody waited before, and now it waits alone. -/
theorem Orderly.send (h : Orderly s) {cmd : ReceiveBackupCommand} (hsel : s.scheduler = .selecting) :
    Orderly { s.setClient i (.sent cmd) with scheduler := .processing cmd (processBackupCommand cmd) } := by
  have hnobody := h.nobody (by rw [hsel]; rfl)
  have honly : ∀ j cmd', ((s.setClient i (.sent cmd)).clients j).awaits = some cmd' → j = i ∧ cmd' = cmd := by
    intro j cmd' hj
    rw [setClient_clients] at hj
    split at hj
    · rename_i hji
      exact ⟨hji, (Option.some.inj hj).symm⟩
    · rw [hnobody j] at hj
      cases hj
  refine ⟨fun j cmd' hj => ?_, fun j k hj hk => ?_, processBackupCommand_returns cmd, fun j cmd' resp hj => ?_⟩
  · rw [(honly j cmd' hj).2]
    rfl
  · obtain ⟨cmd', hcmd'⟩ := Option.isSome_iff_exists.mp hj
    obtain ⟨cmd'', hcmd''⟩ := Option.isSome_iff_exists.mp hk
    rw [(honly j cmd' hcmd').1, (honly k cmd'' hcmd'').1]
  · change (s.setClient i (.sent cmd)).clients j = _ at hj
    rw [setClient_clients] at hj
    split at hj
    · cases hj
    · exact h.own j cmd' resp hj

/-- A client takes the response: it is the one that waits on this command. -/
theorem Orderly.respond (h : Orderly s) {cmd cmd' : ReceiveBackupCommand} {resp : ResponseBackupCommand}
    (hoffer : s.scheduler = .offering cmd resp) (hi : s.clients i = .receiving cmd') :
    Orderly { s.setClient i (.received cmd' resp) with scheduler := .selecting } := by
  have hcmd : cmd = cmd' := by
    have hcurrent := h.awaits i cmd' (by rw [hi]; rfl)
    rw [hoffer] at hcurrent
    exact Option.some.inj hcurrent
  have hid : resp.id = cmd.id := by
    have hanswering := h.answering
    rw [hoffer] at hanswering
    exact hanswering
  have hnobody : ∀ j, ((s.setClient i (.received cmd' resp)).clients j).awaits = none := by
    intro j
    rw [setClient_clients]
    split
    · rfl
    · rename_i hji
      rw [Option.eq_none_iff_forall_ne_some]
      intro cmd'' hj
      exact hji (h.alone j i (by rw [hj]; rfl) (by rw [hi]; rfl))
  refine ⟨fun j cmd'' hj => ?_, fun j k hj => ?_, trivial, fun j cmd'' resp' hj => ?_⟩
  · change ((s.setClient i (.received cmd' resp)).clients j).awaits = _ at hj
    rw [hnobody j] at hj
    cases hj
  · change ((s.setClient i (.received cmd' resp)).clients j).awaits.isSome at hj
    rw [hnobody j] at hj
    cases hj
  · change (s.setClient i (.received cmd' resp)).clients j = _ at hj
    rw [setClient_clients] at hj
    split at hj
    · cases hj
      rw [hid, hcmd]
    · exact h.own j cmd'' resp' hj

/-- One step, where the scheduler does not give up on a client. -/
theorem Orderly.step {s' : System ι} (h : Orderly s) (hstep : Step Unawaited s s') : Orderly s' := by
  cases hstep with
  | request i cmd hi => exact h.setClient (Or.inl rfl) fun _ _ heq => by cases heq
  | send i cmd hi hsel => exact h.send hsel
  | sendTimeout i cmd hi => exact h.setClient (Or.inl rfl) fun _ _ heq => by cases heq
  | receive i cmd hi => exact h.setClient (Or.inr (by rw [hi]; rfl)) fun _ _ heq => by cases heq
  | receiveTimeout i cmd hi => exact h.setClient (Or.inl rfl) fun _ _ heq => by cases heq
  | process cmd q k answer running' hp hanswer =>
      have hreturns := h.answering
      rw [hp] at hreturns
      refine ⟨fun i cmd' hi => ?_, h.alone, hreturns answer, h.own⟩
      rw [← h.awaits i cmd' hi, hp]
      rfl
  | offer cmd resp hp =>
      have hreturns := h.answering
      rw [hp] at hreturns
      refine ⟨fun i cmd' hi => ?_, h.alone, hreturns, h.own⟩
      rw [← h.awaits i cmd' hi, hp]
      rfl
  | respond i cmd cmd' resp hoffer hi => exact h.respond hoffer hi
  | responseTimeout cmd resp hoffer htimer =>
      refine h.setScheduler (fun i => ?_) trivial
      rw [Option.eq_none_iff_forall_ne_some]
      intro cmd' hi
      exact htimer i cmd' hi (h.awaits i cmd' hi)
  | shutdown hsel => exact h.setScheduler (h.nobody (by rw [hsel]; rfl)) trivial
  | operation op => exact ⟨h.awaits, h.alone, h.answering, h.own⟩

theorem orderly_of_reachable {running : List JobStatus} (h : Reachable Unawaited running s) : Orderly s := by
  induction h with
  | refl => exact orderly_initial running
  | tail _ hstep ih => exact ih.step hstep

/-- In a run in which the scheduler gives up on a response only where no client waits on its
command any more, each client takes the response to its own command. -/
theorem ownResponses_of_unawaited (running : List JobStatus) (s : System ι) (h : Reachable Unawaited running s) :
    OwnResponses s :=
  (orderly_of_reachable h).own

/-! ### A scheduler that gives up too early -/

/-- The start of a backup, up to where the response is offered. -/
theorem start_offered {timer : System ι → Prop} (i : ι) (cmd : ReceiveBackupCommand) (jobId : Str)
    (startTime : ℤ) {running' : List JobStatus} (hi : s.clients i = .idle) (hsel : s.scheduler = .selecting)
    (hcmd : cmd.command = .start) (hrun : markRunning cmd.name jobId startTime s.running = .ok running') :
    Relation.ReflTransGen (Step timer) s
      { s.setClient i (.sent cmd) with scheduler := .offering cmd (success cmd jobId), running := running' } := by
  have hprog : processBackupCommand cmd = startBackup cmd := by rw [processBackupCommand, hcmd]
  have hmark : Answers s.running (.markRunning cmd.name jobId) (.ok ()) running' := by
    refine ⟨startTime, ?_, ?_⟩
    · rw [Op.run, hrun]
      rfl
    · rw [Op.apply, Op.run, hrun]
  have hsend : Step timer (s.setClient i (.sending cmd)) _ :=
    .send i cmd (by rw [setClient_clients, if_pos rfl]) hsel
  rw [setClient_setClient, hprog] at hsend
  refine .head (.request i cmd hi) (.head hsend ?_)
  refine .head (.process cmd (.generateJobUuid cmd.name) _ (.ok jobId) s.running rfl rfl) ?_
  refine .head (.process cmd (.markRunning cmd.name jobId) _ (.ok ()) running' rfl hmark) ?_
  exact .single (.offer cmd (success cmd jobId) rfl)

def startCommand (id name : Str) : ReceiveBackupCommand := ⟨id, .start, [], name⟩

/-- Two starts. The first client has left when the scheduler gives up on its response; the
second takes the response to its own command. -/
theorem ownResponses_start : ∃ s : System Bool, s.clients false = .gaveUp (startCommand ['1'] ['a']) ∧
    s.clients true = .received (startCommand ['2'] ['b']) (success (startCommand ['2'] ['b']) ['y']) ∧
    OwnResponses s := by
  let first := startCommand ['1'] ['a']
  let second := startCommand ['2'] ['b']
  have hoffer : Reachable Unawaited [] _ := start_offered (s := initial []) false first ['x'] 0 rfl rfl rfl rfl
  have hleft := (hoffer.tail (.receive false first rfl)).tail (.receiveTimeout false first rfl)
  have htimeout := hleft.tail (.responseTimeout first (success first ['x']) rfl ?_)
  · have hoffer' := htimeout.trans (start_offered true second ['y'] 0 rfl rfl rfl rfl)
    have hreceive := hoffer'.tail (.receive true second rfl)
    have hrespond := hreceive.tail (.respond true second second (success second ['y']) rfl rfl)
    exact ⟨_, rfl, rfl, ownResponses_of_unawaited [] _ hrespond⟩
  · -- nobody waits any more
    rintro (_ | _) cmd ⟨⟩

/-- Two starts. The scheduler gives up on the first response before its client receives;
then that client takes the response to the second. -/
theorem not_ownResponses : ¬ ∀ s : System Bool, Reachable (fun _ => True) [] s → OwnResponses s := by
  intro hall
  let first := startCommand ['1'] ['a']
  let second := startCommand ['2'] ['b']
  have hoffer : Reachable (fun _ => True) [] _ :=
    start_offered (s := initial []) false first ['x'] 0 rfl rfl rfl rfl
  have htimeout := hoffer.tail (.responseTimeout first (success first ['x']) rfl trivial)
  have hoffer' := htimeout.trans (start_offered true second ['y'] 0 rfl rfl rfl rfl)
  have hreceive := hoffer'.tail (.receive false first rfl)
  have hrespond := hreceive.tail (.respond false second first (success second ['y']) rfl rfl)
  have hid := hall _ hrespond false first (success second ['y']) rfl
  exact absurd hid (by decide)

end System

end CloudBackup.Scheduler
