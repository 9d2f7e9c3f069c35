import CloudBackup.Library.Iteration
import CloudBackup.Shared.JobsState

/-!
How a run of `runBackup` is recorded. Every way out of it calls `cleanupAfterBackup`, which
runs the script after the run, stores the state of the job, sends the notifications and
removes the job from the table.

Meanwhile others use the table, and any of them may cancel the context of the job; none of
them ends the job. What the stages of a run do is told by their results: a scan, or the marking
of deleted items, can only notice a cancelled context where it is cancelled.
-/

namespace CloudBackup.Scheduler

open Shared Iteration

/-! ### The run -/

/-- What others do to the table in the meantime. -/
structure Meanwhile (jobName jobUuid : Str) where
  ops : List Op
  keeps : ∀ op ∈ ops, ¬ op.ends jobName jobUuid

inductive EndState
  | failed
  | cancelled
  | finished
  deriving DecidableEq, Repr

/-- A call of `cleanupAfterBackup`, and if the context is cancelled when it looks at it. -/
structure CleanupCall where
  cancelled : Bool
  backupError : Option Str
  ctxCancelled : Bool
  deriving DecidableEq, Repr

structure DbData where
  connected : Bool
  isOpen : Bool
  deriving DecidableEq, Repr

/-- A run. `dbData` is the variable of `runBackup` and `reopened` the one of the cleanup;
`ownClients` is how many of the clients of the database the run stands for. -/
structure Run (jobName jobUuid : Str) where
  running : List JobStatus
  others : List (Meanwhile jobName jobUuid)
  ctxCancelled : Bool
  dbData : DbData
  reopened : DbData
  ownClients : ℤ
  hasRow : Bool
  cleanups : List CleanupCall
  postRunScripts : ℕ
  stored : List EndState
  notified : List EndState

/-- `PrepareDb`. -/
inductive Prepared
  | failed (connected : Bool) (err : Str)
  | ready
  deriving DecidableEq, Repr

structure StoreStage where
  name : Str
  type : Str
  validate : Option Str
  initEncryption : Option Str

inductive ScanResult
  | cancelled
  | failed (err : Str)
  | done
  deriving DecidableEq, Repr

structure PathStage where
  whenCancelled : ScanResult
  otherwise : Option Str

/-- The results of the stages of `runBackup`. `noticed` tells if `FindAndMarkDeleted` notices
that the context is cancelled. -/
structure Stages where
  prepareDb : Prepared
  objectStores : Except Str (List StoreStage)
  hasAnyEncryptedFiles : Option Str
  preRunScript : Option Str
  paths : List PathStage
  noticed : Bool

/-- The results of the stages of `cleanupAfterBackup`. All other clients of the database
disconnect in the end. -/
structure CleanupStages where
  postRunScript : Option Str
  updateOk : Bool
  updateAgainOk : Bool
  otherClients : ℕ
  reopen : Prepared

structure Scripts where
  preRunScript : Str
  postRunScript : Str

def isSpace (c : Char) : Bool :=
  [0x09, 0x0a, 0x0b, 0x0c, 0x0d, 0x20, 0x85, 0xa0, 0x1680, 0x2028, 0x2029, 0x202f, 0x205f, 0x3000].contains c.toNat ||
    (0x2000 ≤ c.toNat && c.toNat ≤ 0x200a)

/-- `strings.TrimSpace` leaves nothing. -/
def isBlank (s : Str) : Bool := s.all isSpace

def currentOperation : Str := "current_operation".toList

section

variable {jobName jobUuid : Str}

def pause (r : Run jobName jobUuid) : Run jobName jobUuid :=
  match r.others with
  | [] => r
  | meanwhile :: others =>
      let running := afterOps meanwhile.ops r.running
      { r with
        running := running
        others := others
        ctxCancelled := r.ctxCancelled || isCancelled jobName jobUuid running }

def Run.apply (op : Op) (r : Run jobName jobUuid) : Run jobName jobUuid :=
  { r with running := op.apply r.running }

def Run.setOperation (text : Str) (r : Run jobName jobUuid) : Run jobName jobUuid :=
  r.apply (.updateStatsText jobName currentOperation text [] [])

def Run.count (counter : String) (r : Run jobName jobUuid) : Run jobName jobUuid :=
  r.apply (.incrementCounter jobName counter.toList)

/-- A way out of `runBackup`: the arguments `cancelled` and `backupError` of the cleanup. -/
abbrev Exit := Bool × Option Str

def stage (err : Option Str) (r : Run jobName jobUuid) : Flow (Run jobName jobUuid) Exit :=
  match err with
  | some err => .stop (false, some err) (pause r)
  | none => .next (pause r)

def prepareDb (prepared : Prepared) (r : Run jobName jobUuid) : Flow (Run jobName jobUuid) Exit :=
  match prepared with
  | .failed connected err =>
      .stop (false, some err) { r with dbData := ⟨connected, connected⟩, ownClients := connected.toNat }
  | .ready => .next { r with dbData := ⟨true, true⟩, ownClients := 1, hasRow := true }

def validateStore (store : StoreStage) : Run jobName jobUuid → Flow (Run jobName jobUuid) Exit :=
  stage (store.validate.map fun err => "while validating that backup target '".toList ++ store.name ++
    "' of type '".toList ++ store.type ++ "' has the required privileges, encountered error: ".toList ++ err)

def initEncryptionOf (store : StoreStage) : Run jobName jobUuid → Flow (Run jobName jobUuid) Exit :=
  stage (store.initEncryption.map fun err =>
    "while initialising client-side encryption for backup target '".toList ++ store.name ++
    "' of type '".toList ++ store.type ++ "': ".toList ++ err)

def checkEncryptedFiles (err : Option Str) : Run jobName jobUuid → Flow (Run jobName jobUuid) Exit :=
  stage (err.map fun err => "checking local DB for previously-encrypted files: ".toList ++ err)

def runPreRunScript (cfg : Scripts) (err : Option Str) (r : Run jobName jobUuid) :
    Flow (Run jobName jobUuid) Exit :=
  let r := if isBlank cfg.postRunScript then r else r.count "scripts_num"
  if isBlank cfg.preRunScript then .next r
  else
    let r := (r.count "scripts_num").setOperation ("Running pre_run_script ".toList ++ cfg.preRunScript)
    let r := ((pause r).setOperation []).count "scripts_ran"
    match err with
    | some err => .stop (false, some err) (r.count "scripts_failed")
    | none => .next r

def scanOne (path : PathStage) (r : Run jobName jobUuid) : Flow (Run jobName jobUuid) Exit :=
  let r := pause r
  if r.ctxCancelled then .stop (true, none) r
  else
    let r := pause r
    if r.ctxCancelled then
      match path.whenCancelled with
      | .cancelled => .stop (true, none) r
      | .failed err => .stop (false, some err) r
      | .done => .next r
    else
      match path.otherwise with
      | some err => .stop (false, some err) r
      | none => .next r

/-- `runBackup` up to `FindAndMarkDeleted`. -/
def upToDeletion (cfg : Scripts) (s : Stages) (r : Run jobName jobUuid) : Flow (Run jobName jobUuid) Exit :=
  (prepareDb s.prepareDb (pause r)).andThen fun r =>
    match s.objectStores with
    | .error err => .stop (false, some err) (pause r)
    | .ok stores =>
        (forEach validateStore stores (pause r)).andThen fun r =>
        (checkEncryptedFiles s.hasAnyEncryptedFiles r).andThen fun r =>
        (forEach initEncryptionOf stores r).andThen fun r =>
        (runPreRunScript cfg s.preRunScript r).andThen fun r =>
        forEach scanOne s.paths (r.setOperation "Examining and backing up".toList)

/-- `FindAndMarkDeleted` is called and returns that the run is cancelled. -/
def deletionCancelled (cfg : Scripts) (s : Stages) (r : Run jobName jobUuid) : Bool :=
  match upToDeletion cfg s r with
  | .next r => (pause r).ctxCancelled && s.noticed
  | .stop _ _ => false

/-! ### The cleanup -/

def endState (cancelled : Bool) (backupError : Option Str) : EndState :=
  if backupError.isSome then .failed else if cancelled then .cancelled else .finished

def runPostRunScript (cfg : Scripts) (err : Option Str) (r : Run jobName jobUuid) : Run jobName jobUuid :=
  if isBlank cfg.postRunScript then r
  else
    let r := (r.setOperation ("Running post_run_script ".toList ++ cfg.postRunScript)).count "scripts_ran"
    let r := pause { r with postRunScripts := r.postRunScripts + 1 }
    let r := if err.isSome then r.count "scripts_failed" else r
    r.setOperation []

def updateJobDetails (db : DbData) (ok : Bool) (state : EndState) (r : Run jobName jobUuid) :
    Run jobName jobUuid :=
  if db.connected && db.isOpen && ok && r.hasRow then { r with stored := r.stored ++ [state] } else r

/-- `CloseStatementsAndDisconnectFromDb`: how many clients there are less. -/
def disconnects (db : DbData) : ℤ := if db.connected then 1 else 0

/-- The database is opened once more. If this fails after the connect, it is closed again,
but the flag stays. -/
def reopenDb (prepared : Prepared) (r : Run jobName jobUuid) : Run jobName jobUuid :=
  match prepared with
  | .failed connected _ => { r with reopened := ⟨connected, false⟩ }
  | .ready => { r with reopened := ⟨true, true⟩, ownClients := r.ownClients + 1 }

/-- The database is closed, copied and opened again. `CloseDb` waits until there are no more
clients: without the others, it must be for the run to bring the number to zero. -/
def uploadCopies (c : CleanupStages) (r : Run jobName jobUuid) : Flow (Run jobName jobUuid) Unit :=
  let r := { r with ownClients := r.ownClients - disconnects r.dbData, dbData := ⟨r.dbData.connected, false⟩ }
  if 0 < r.ownClients ∨ r.ownClients + (c.otherClients : ℤ) < 0 then .stop () r
  else .next (reopenDb c.reopen (pause r))

def cancelContext (r : Run jobName jobUuid) : Run jobName jobUuid :=
  match findJob jobName jobUuid r.running with
  | .ok _ => { r.apply (.cancelJob jobName jobUuid) with ctxCancelled := true }
  | .error _ => r

def finishCleanup (c : CleanupStages) (state : EndState) (r : Run jobName jobUuid) : Run jobName jobUuid :=
  let r := cancelContext r
  let r := pause { r with notified := r.notified ++ [state] }
  let r := r.apply (.markStopped jobName jobUuid true)
  let r := updateJobDetails r.reopened c.updateAgainOk state r
  { r with ownClients := r.ownClients - disconnects r.reopened, dbData := ⟨r.dbData.connected, false⟩ }

def beginCleanup (cfg : Scripts) (c : CleanupStages) (state : EndState) (r : Run jobName jobUuid) :
    Run jobName jobUuid :=
  let r := ((runPostRunScript cfg c.postRunScript r).setOperation []).apply (.markStopped jobName jobUuid false)
  let r := pause r
  updateJobDetails r.dbData c.updateOk state r

def cleanupAfterBackup (cfg : Scripts) (c : CleanupStages) (cancelled : Bool) (backupError : Option Str)
    (r : Run jobName jobUuid) : Flow (Run jobName jobUuid) Unit :=
  let r := pause r
  let r := { r with cleanups := r.cleanups ++ [⟨cancelled, backupError, r.ctxCancelled⟩] }
  let cancelled := cancelled || isCancelled jobName jobUuid r.running
  let state := endState cancelled backupError
  let r := beginCleanup cfg c state r
  let uploaded := if !cancelled && backupError.isNone then uploadCopies c r else .next { r with reopened := r.dbData }
  uploaded.andThen fun r => .next (finishCleanup c state r)

/-- `runBackup`, past `GetContextForJob`. After a cancelled `FindAndMarkDeleted` it goes on. -/
def runBackup (cfg : Scripts) (s : Stages) (c c' : CleanupStages) (r : Run jobName jobUuid) :
    Flow (Run jobName jobUuid) Unit :=
  match upToDeletion cfg s r with
  | .stop exit r => cleanupAfterBackup cfg c exit.1 exit.2 r
  | .next r =>
      let r := pause r
      if r.ctxCancelled && s.noticed then
        (cleanupAfterBackup cfg c true none r).andThen (cleanupAfterBackup cfg c' false none)
      else cleanupAfterBackup cfg c false none r

def Run.start (running : List JobStatus) (others : List (Meanwhile jobName jobUuid)) : Run jobName jobUuid where
  running := running
  others := others
  ctxCancelled := isCancelled jobName jobUuid running
  dbData := ⟨false, false⟩
  reopened := ⟨false, false⟩
  ownClients := 0
  hasRow := false
  cleanups := []
  postRunScripts := 0
  stored := []
  notified := []

/-- The state that a run should get: `failed` with an error, else `cancelled` if the context
was cancelled before the cleanup looked at it, else `finished`. -/
def CleanupCall.endState (call : CleanupCall) : EndState := Scheduler.endState call.ctxCancelled call.backupError

/-- The run ended with one cleanup, one script and one notification, and with the right state:
no other is stored in the end, and it is stored if the job has its row and the statement
succeeds. -/
structure RecordedOnce (cfg : Scripts) (c : CleanupStages) (r : Run jobName jobUuid) (call : CleanupCall) : Prop where
  cleanups : r.cleanups = [call]
  scripts : r.postRunScripts = if isBlank cfg.postRunScript then 0 else 1
  notified : r.notified = [call.endState]
  stored : ∀ state, r.stored.getLast? = some state → state = call.endState
  row : r.hasRow = true → c.updateOk = true → r.stored.getLast? = some call.endState

/-! ### What others leave alone -/

section

variable {r : Run jobName jobUuid}

@[simp] theorem pause_dbData : (pause r).dbData = r.dbData := by
  unfold pause
  split <;> rfl

@[simp] theorem pause_reopened : (pause r).reopened = r.reopened := by
  unfold pause
  split <;> rfl

@[simp] theorem pause_ownClients : (pause r).ownClients = r.ownClients := by
  unfold pause
  split <;> rfl

@[simp] theorem pause_hasRow : (pause r).hasRow = r.hasRow := by
  unfold pause
  split <;> rfl

@[simp] theorem pause_cleanups : (pause r).cleanups = r.cleanups := by
  unfold pause
  split <;> rfl

@[simp] theorem pause_postRunScripts : (pause r).postRunScripts = r.postRunScripts := by
  unfold pause
  split <;> rfl

@[simp] theorem pause_stored : (pause r).stored = r.stored := by
  unfold pause
  split <;> rfl

@[simp] theorem pause_notified : (pause r).notified = r.notified := by
  unfold pause
  split <;> rfl

end

/-! ### Until the cleanup -/

/-- With the names unique, a job is found by its name and id. -/
theorem isCancelled_eq_true {running : List JobStatus} (h : (running.map JobStatus.name).Nodup) {job : JobStatus}
    (hjob : job ∈ running) (hkey : job.key = (jobName, jobUuid)) :
    isCancelled jobName jobUuid running = job.ctxCancelled := by
  obtain ⟨hname, hid⟩ := Prod.mk.inj hkey
  have hfits : job.hasId jobName jobUuid = true := by
    simp [JobStatus.hasId, hname, hid]
  obtain ⟨found, hfound⟩ := Option.isSome_iff_exists.mp (List.find?_isSome.mpr ⟨job, hjob, hfits⟩)
  have hfoundName : jobName = found.name := by
    have hfoundFits := List.find?_some hfound
    rw [JobStatus.hasId, Bool.and_eq_true, decide_eq_true_eq] at hfoundFits
    exact hfoundFits.1
  have heq : found = job :=
    List.inj_on_of_nodup_map h (List.mem_of_find?_eq_some hfound) hjob (hfoundName.symm.trans hname.symm)
  rw [isCancelled, hfound, heq]

/-- The job is in the table, with the context of the run. -/
structure Underway (r : Run jobName jobUuid) : Prop where
  nodup : (r.running.map JobStatus.name).Nodup
  job : ∃ job ∈ r.running, job.key = (jobName, jobUuid)
  ctx : r.ctxCancelled = isCancelled jobName jobUuid r.running

section

variable {r : Run jobName jobUuid}

theorem Underway.afterOps (h : Underway r) {ops : List Op} (hops : ∀ op ∈ ops, ¬ op.ends jobName jobUuid) :
    ((Shared.afterOps ops r.running).map JobStatus.name).Nodup ∧
    (∃ job ∈ Shared.afterOps ops r.running, job.key = (jobName, jobUuid)) ∧
    (r.ctxCancelled = true → isCancelled jobName jobUuid (Shared.afterOps ops r.running) = true) := by
  obtain ⟨job, hjob, hkey⟩ := h.job
  obtain ⟨hname, hid⟩ := Prod.mk.inj hkey
  have hnodup := nodup_afterOps ops h.nodup
  obtain ⟨job', hjob', hcont⟩ := continues_afterOps h.nodup hjob (by rw [hname, hid]; exact hops)
  refine ⟨hnodup, ⟨job', hjob', hcont.key.trans hkey⟩, fun hctx => ?_⟩
  rw [isCancelled_eq_true hnodup hjob' (hcont.key.trans hkey)]
  refine hcont.ctx ?_
  rw [← isCancelled_eq_true h.nodup hjob hkey, ← h.ctx, hctx]

theorem Underway.pause (h : Underway r) : Underway (Scheduler.pause r) := by
  unfold Scheduler.pause
  split
  · exact h
  · rename_i meanwhile others _
    obtain ⟨hnodup, hjob, hctx⟩ := h.afterOps meanwhile.keeps
    refine ⟨hnodup, hjob, ?_⟩
    cases hc : r.ctxCancelled with
    | true => exact (hctx hc).symm
    | false => rfl

theorem ctxCancelled_pause (h : r.ctxCancelled = true) : (pause r).ctxCancelled = true := by
  unfold pause
  split
  · exact h
  · simp [h]

theorem isCancelled_updateFirst {fits : JobStatus → Bool} {f : JobStatus → JobStatus}
    (hkey : ∀ job, (f job).key = job.key) (hctx : ∀ job, (f job).ctxCancelled = job.ctxCancelled)
    (running : List JobStatus) :
    isCancelled jobName jobUuid (updateFirst fits f running) = isCancelled jobName jobUuid running := by
  induction running with
  | nil => rfl
  | cons job running ih =>
      have hid := hasId_congr (hkey job) jobName jobUuid
      rw [updateFirst]
      split
      · cases hfits : job.hasId jobName jobUuid with
        | true => simp [isCancelled, hid, hfits, hctx]
        | false => simp [isCancelled, hid, hfits]
      · cases hfits : job.hasId jobName jobUuid with
        | true => simp [isCancelled, hfits]
        | false =>
            simp only [isCancelled, List.find?_cons, hfits] at ih ⊢
            exact ih

/-- The run uses the table, without a change to any context. -/
theorem Underway.apply (h : Underway r) {op : Op} (hop : ¬ op.ends jobName jobUuid)
    (hctx : isCancelled jobName jobUuid (op.apply r.running) = isCancelled jobName jobUuid r.running) :
    Underway (r.apply op) := by
  have hops : ∀ op' ∈ [op], ¬ op'.ends jobName jobUuid := by
    intro op' hop'
    rwa [List.mem_singleton.mp hop']
  obtain ⟨hnodup, hjob, -⟩ := h.afterOps hops
  exact ⟨hnodup, hjob, h.ctx.trans hctx.symm⟩

theorem Underway.count (h : Underway r) (counter : String) : Underway (r.count counter) := by
  refine h.apply (by simp [Op.ends]) ?_
  change isCancelled jobName jobUuid (incrementCounter jobName counter.toList r.running) = _
  rw [incrementCounter]
  refine isCancelled_updateFirst ?_ ?_ r.running <;> exact fun _ => rfl

theorem Underway.setOperation (h : Underway r) (text : Str) : Underway (r.setOperation text) := by
  refine h.apply (by simp [Op.ends]) ?_
  change isCancelled jobName jobUuid (updateStatsText jobName currentOperation text [] [] r.running) = _
  rw [updateStatsText]
  split
  · rfl
  · refine isCancelled_updateFirst ?_ ?_ r.running <;> exact fun _ => rfl

structure Unrecorded (r : Run jobName jobUuid) : Prop where
  underway : Underway r
  cleanups : r.cleanups = []
  scripts : r.postRunScripts = 0
  stored : r.stored = []
  notified : r.notified = []
  handle : r.dbData.isOpen = r.dbData.connected
  clients : r.ownClients = disconnects r.dbData
  row : r.hasRow = true → r.dbData.connected = true

theorem Unrecorded.pause (h : Unrecorded r) : Unrecorded (Scheduler.pause r) where
  underway := h.underway.pause
  cleanups := by rw [pause_cleanups, h.cleanups]
  scripts := by rw [pause_postRunScripts, h.scripts]
  stored := by rw [pause_stored, h.stored]
  notified := by rw [pause_notified, h.notified]
  handle := by rw [pause_dbData, h.handle]
  clients := by rw [pause_ownClients, pause_dbData, h.clients]
  row := by rw [pause_hasRow, pause_dbData]; exact h.row

theorem Unrecorded.count (h : Unrecorded r) (counter : String) : Unrecorded (r.count counter) :=
  { h with underway := h.underway.count counter }

theorem Unrecorded.setOperation (h : Unrecorded r) (text : Str) : Unrecorded (r.setOperation text) :=
  { h with underway := h.underway.setOperation text }

structure Exits (exit : Exit) (r : Run jobName jobUuid) : Prop where
  unrecorded : Unrecorded r
  cancelled : exit.1 = true → r.ctxCancelled = true
  reason : exit.1 = false → exit.2 ≠ none

theorem Unrecorded.error (h : Unrecorded r) (err : Str) : Exits (false, some err) r :=
  ⟨h, fun hfalse => absurd hfalse Bool.false_ne_true, fun _ => Option.some_ne_none err⟩

theorem Unrecorded.exitCancelled (h : Unrecorded r) (hctx : r.ctxCancelled = true) : Exits (true, none) r :=
  ⟨h, fun _ => hctx, fun hfalse => absurd hfalse.symm Bool.false_ne_true⟩

theorem stage_ensures (err : Option Str) (h : Unrecorded r) : (stage err r).Ensures Unrecorded Exits := by
  unfold stage
  split
  · exact h.pause.error _
  · exact h.pause

theorem prepareDb_ensures (prepared : Prepared) (h : Unrecorded r) (hrow : r.hasRow = false) :
    (prepareDb prepared r).Ensures Unrecorded Exits := by
  have hunder : ∀ db n row, Underway { r with dbData := db, ownClients := n, hasRow := row } := fun _ _ _ =>
    ⟨h.underway.nodup, h.underway.job, h.underway.ctx⟩
  unfold prepareDb
  split
  · rename_i connected err
    have hun : Unrecorded { r with dbData := ⟨connected, connected⟩, ownClients := connected.toNat } := by
      refine ⟨hunder _ _ _, h.cleanups, h.scripts, h.stored, h.notified, rfl, ?_, fun hfalse => ?_⟩
      · cases connected <;> rfl
      · rw [hrow] at hfalse
        cases hfalse
    exact hun.error err
  · exact ⟨hunder _ _ _, h.cleanups, h.scripts, h.stored, h.notified, rfl, rfl, fun _ => rfl⟩

theorem runPreRunScript_ensures (cfg : Scripts) (err : Option Str) (h : Unrecorded r) :
    (runPreRunScript cfg err r).Ensures Unrecorded Exits := by
  have hnum : Unrecorded (if isBlank cfg.postRunScript then r else r.count "scripts_num") := by
    split
    · exact h
    · exact h.count _
  unfold runPreRunScript
  dsimp only
  generalize (if isBlank cfg.postRunScript then r else r.count "scripts_num") = r₁ at hnum ⊢
  split
  · exact hnum
  · have hran := (((hnum.count "scripts_num").setOperation
      ("Running pre_run_script ".toList ++ cfg.preRunScript)).pause.setOperation []).count "scripts_ran"
    split
    · exact (hran.count _).error _
    · exact hran

theorem scanOne_ensures (path : PathStage) (h : Unrecorded r) : (scanOne path r).Ensures Unrecorded Exits := by
  have h₁ := h.pause
  have h₂ := h₁.pause
  unfold scanOne
  dsimp only
  split
  · rename_i hctx
    exact h₁.exitCancelled hctx
  · split
    · rename_i hctx
      split
      · exact h₂.exitCancelled hctx
      · exact h₂.error _
      · exact h₂
    · split
      · exact h₂.error _
      · exact h₂

/-- Until the cleanup nothing is recorded, and each way out has its reason. -/
theorem upToDeletion_ensures (cfg : Scripts) (s : Stages) (h : Unrecorded r) (hrow : r.hasRow = false) :
    (upToDeletion cfg s r).Ensures Unrecorded Exits := by
  unfold upToDeletion
  refine (prepareDb_ensures s.prepareDb h.pause (by rw [pause_hasRow, hrow])).andThen fun r₁ h₁ => ?_
  split
  · exact h₁.pause.error _
  · rename_i stores _
    refine (forEach_ensures (fun store r h => stage_ensures _ h) stores h₁.pause).andThen fun r₂ h₂ => ?_
    refine (stage_ensures _ h₂).andThen fun r₃ h₃ => ?_
    refine (forEach_ensures (fun store r h => stage_ensures _ h) stores h₃).andThen fun r₄ h₄ => ?_
    refine (runPreRunScript_ensures cfg s.preRunScript h₄).andThen fun r₅ h₅ => ?_
    exact forEach_ensures (fun path r h => scanOne_ensures path h) s.paths (h₅.setOperation _)

/-! ### The cleanup -/

structure SameRecord (r' r : Run jobName jobUuid) : Prop where
  cleanups : r'.cleanups = r.cleanups
  scripts : r'.postRunScripts = r.postRunScripts
  stored : r'.stored = r.stored
  notified : r'.notified = r.notified
  hasRow : r'.hasRow = r.hasRow

theorem SameRecord.trans {r r' r'' : Run jobName jobUuid} (h' : SameRecord r'' r') (h : SameRecord r' r) :
    SameRecord r'' r :=
  ⟨h'.cleanups.trans h.cleanups, h'.scripts.trans h.scripts, h'.stored.trans h.stored,
    h'.notified.trans h.notified, h'.hasRow.trans h.hasRow⟩

theorem sameRecord_pause : SameRecord (pause r) r :=
  ⟨pause_cleanups, pause_postRunScripts, pause_stored, pause_notified, pause_hasRow⟩

theorem sameRecord_cancelContext (r : Run jobName jobUuid) : SameRecord (cancelContext r) r := by
  unfold cancelContext
  split <;> exact ⟨rfl, rfl, rfl, rfl, rfl⟩

theorem sameRecord_reopenDb (prepared : Prepared) : SameRecord (reopenDb prepared r) r := by
  unfold reopenDb
  split <;> exact ⟨rfl, rfl, rfl, rfl, rfl⟩

theorem runPostRunScript_spec (cfg : Scripts) (err : Option Str) :
    SameRecord (runPostRunScript cfg err r)
        { r with postRunScripts := r.postRunScripts + if isBlank cfg.postRunScript then 0 else 1 } ∧
      (runPostRunScript cfg err r).dbData = r.dbData ∧ (runPostRunScript cfg err r).ownClients = r.ownClients := by
  unfold runPostRunScript
  split
  · exact ⟨⟨rfl, rfl, rfl, rfl, rfl⟩, rfl, rfl⟩
  · dsimp only
    cases err with
    | none =>
        refine ⟨⟨?_, ?_, ?_, ?_, ?_⟩, ?_, ?_⟩ <;> simp [Run.setOperation, Run.count, Run.apply]
    | some err =>
        refine ⟨⟨?_, ?_, ?_, ?_, ?_⟩, ?_, ?_⟩ <;> simp [Run.setOperation, Run.count, Run.apply]

theorem updateJobDetails_spec (db : DbData) (ok : Bool) (state : EndState) (r : Run jobName jobUuid) :
    SameRecord (updateJobDetails db ok state r)
        { r with stored := r.stored ++ if db.connected && db.isOpen && ok && r.hasRow then [state] else [] } ∧
      (updateJobDetails db ok state r).dbData = r.dbData ∧
      (updateJobDetails db ok state r).ownClients = r.ownClients := by
  unfold updateJobDetails
  split
  · exact ⟨⟨rfl, rfl, rfl, rfl, rfl⟩, rfl, rfl⟩
  · exact ⟨⟨rfl, rfl, (List.append_nil _).symm, rfl, rfl⟩, rfl, rfl⟩

theorem sameRecord_uploadCopies {c : CleanupStages} {r' : Run jobName jobUuid} (h : uploadCopies c r = .next r') :
    SameRecord r' r := by
  unfold uploadCopies at h
  dsimp only at h
  split at h
  · cases h
  · cases h
    exact (sameRecord_reopenDb c.reopen).trans (sameRecord_pause.trans ⟨rfl, rfl, rfl, rfl, rfl⟩)

/-- `CloseDb` ends, if the run is counted as one client before it disconnects. -/
theorem uploadCopies_ends (c : CleanupStages) (h : r.ownClients = disconnects r.dbData) :
    ∃ r', uploadCopies c r = .next r' := by
  unfold uploadCopies
  dsimp only
  rw [h, Int.sub_self, if_neg (by omega)]
  exact ⟨_, rfl⟩

theorem finishCleanup_spec (c : CleanupStages) (state : EndState) (r : Run jobName jobUuid) :
    ∃ more : List EndState, (∀ st ∈ more, st = state) ∧ SameRecord (finishCleanup c state r)
      { r with stored := r.stored ++ more, notified := r.notified ++ [state] } := by
  have hcancel := sameRecord_cancelContext r
  unfold finishCleanup
  dsimp only
  generalize cancelContext r = r₁ at hcancel ⊢
  have hpause : SameRecord (pause { r₁ with notified := r₁.notified ++ [state] })
      { r₁ with notified := r₁.notified ++ [state] } := sameRecord_pause
  generalize pause { r₁ with notified := r₁.notified ++ [state] } = r₂ at hpause ⊢
  have hupdate := (updateJobDetails_spec r₂.reopened c.updateAgainOk state
    (r₂.apply (.markStopped jobName jobUuid true))).1
  refine ⟨if r₂.reopened.connected && r₂.reopened.isOpen && c.updateAgainOk && r₂.hasRow then [state] else [],
    fun st hst => ?_, ?_, ?_, ?_, ?_, ?_⟩
  · split at hst
    · exact List.mem_singleton.mp hst
    · cases hst
  · exact hupdate.cleanups.trans (hpause.cleanups.trans hcancel.cleanups)
  · exact hupdate.scripts.trans (hpause.scripts.trans hcancel.scripts)
  · refine hupdate.stored.trans ?_
    have hstored : r₂.stored = r.stored := hpause.stored.trans hcancel.stored
    change r₂.stored ++ _ = r.stored ++ _
    rw [hstored]
    rfl
  · refine hupdate.notified.trans (hpause.notified.trans ?_)
    change r₁.notified ++ [state] = _
    rw [hcancel.notified]
  · exact hupdate.hasRow.trans (hpause.hasRow.trans hcancel.hasRow)

theorem beginCleanup_spec (cfg : Scripts) (c : CleanupStages) (state : EndState) (r : Run jobName jobUuid) :
    SameRecord (beginCleanup cfg c state r)
        { r with
          postRunScripts := r.postRunScripts + if isBlank cfg.postRunScript then 0 else 1
          stored := r.stored ++
            if r.dbData.connected && r.dbData.isOpen && c.updateOk && r.hasRow then [state] else [] } ∧
      (beginCleanup cfg c state r).dbData = r.dbData ∧ (beginCleanup cfg c state r).ownClients = r.ownClients := by
  obtain ⟨hscript, hdb, hown⟩ := runPostRunScript_spec (r := r) cfg c.postRunScript
  unfold beginCleanup
  dsimp only
  generalize runPostRunScript cfg c.postRunScript r = r₁ at hscript hdb hown ⊢
  have hpause : SameRecord (pause ((r₁.setOperation []).apply (.markStopped jobName jobUuid false))) r₁ :=
    sameRecord_pause.trans ⟨rfl, rfl, rfl, rfl, rfl⟩
  have hdb' : (pause ((r₁.setOperation []).apply (.markStopped jobName jobUuid false))).dbData = r.dbData :=
    pause_dbData.trans hdb
  have hown' : (pause ((r₁.setOperation []).apply (.markStopped jobName jobUuid false))).ownClients = r.ownClients :=
    pause_ownClients.trans hown
  generalize pause ((r₁.setOperation []).apply (.markStopped jobName jobUuid false)) = r₂ at hpause hdb' hown' ⊢
  obtain ⟨hupdate, hdb₂, hown₂⟩ := updateJobDetails_spec r₂.dbData c.updateOk state r₂
  have hrow : r₂.hasRow = r.hasRow := hpause.hasRow.trans hscript.hasRow
  refine ⟨⟨?_, ?_, ?_, ?_, ?_⟩, hdb₂.trans hdb', hown₂.trans hown'⟩
  · exact hupdate.cleanups.trans (hpause.cleanups.trans hscript.cleanups)
  · exact hupdate.scripts.trans (hpause.scripts.trans hscript.scripts)
  · refine hupdate.stored.trans ?_
    change r₂.stored ++ _ = r.stored ++ _
    rw [hpause.stored.trans hscript.stored, hdb', hrow]
  · exact hupdate.notified.trans (hpause.notified.trans hscript.notified)
  · exact hupdate.hasRow.trans hrow

theorem cleanupAfterBackup_record {cfg : Scripts} {c : CleanupStages} {cancelled : Bool} {backupError : Option Str}
    {r' : Run jobName jobUuid} (hend : cleanupAfterBackup cfg c cancelled backupError r = .next r') :
    ∃ state more, state = endState (cancelled || isCancelled jobName jobUuid (pause r).running) backupError ∧
      (∀ st ∈ more, st = state) ∧ SameRecord r'
        { r with
          cleanups := r.cleanups ++ [⟨cancelled, backupError, (pause r).ctxCancelled⟩]
          postRunScripts := r.postRunScripts + if isBlank cfg.postRunScript then 0 else 1
          stored := r.stored ++
            (if r.dbData.connected && r.dbData.isOpen && c.updateOk && r.hasRow then [state] else []) ++ more
          notified := r.notified ++ [state] } := by
  unfold cleanupAfterBackup at hend
  dsimp only at hend
  have hpause : SameRecord (pause r) r := sameRecord_pause
  have hdb : (pause r).dbData = r.dbData := pause_dbData
  generalize pause r = r₁ at hend hpause hdb ⊢
  generalize (cancelled || isCancelled jobName jobUuid r₁.running) = cancelled' at hend ⊢
  have hbegin := (beginCleanup_spec cfg c (endState cancelled' backupError)
    { r₁ with cleanups := r₁.cleanups ++ [⟨cancelled, backupError, r₁.ctxCancelled⟩] }).1
  generalize beginCleanup cfg c (endState cancelled' backupError)
    { r₁ with cleanups := r₁.cleanups ++ [⟨cancelled, backupError, r₁.ctxCancelled⟩] } = r₂ at hend hbegin
  have huploaded : ∀ r₃, (if !cancelled' && backupError.isNone then uploadCopies c r₂
      else .next { r₂ with reopened := r₂.dbData }) = .next r₃ → SameRecord r₃ r₂ := by
    intro r₃ hnext
    split at hnext
    · exact sameRecord_uploadCopies hnext
    · cases hnext
      exact ⟨rfl, rfl, rfl, rfl, rfl⟩
  generalize (if !cancelled' && backupError.isNone then uploadCopies c r₂
    else .next { r₂ with reopened := r₂.dbData }) = uploaded at hend huploaded
  cases uploaded with
  | stop e r₃ => cases hend
  | next r₃ =>
      cases hend
      have hsame := huploaded r₃ rfl
      obtain ⟨more, hmore, hfinish⟩ := finishCleanup_spec c (endState cancelled' backupError) r₃
      refine ⟨_, more, rfl, hmore, ?_, ?_, ?_, ?_, ?_⟩
      · refine hfinish.cleanups.trans (hsame.cleanups.trans (hbegin.cleanups.trans ?_))
        change r₁.cleanups ++ _ = _
        rw [hpause.cleanups]
      · refine hfinish.scripts.trans (hsame.scripts.trans (hbegin.scripts.trans ?_))
        change r₁.postRunScripts + _ = _
        rw [hpause.scripts]
      · refine hfinish.stored.trans ?_
        change r₃.stored ++ more = _
        rw [hsame.stored, hbegin.stored]
        change r₁.stored ++ _ ++ more = _
        rw [hpause.stored, hdb, hpause.hasRow]
      · refine hfinish.notified.trans ?_
        change r₃.notified ++ _ = _
        rw [hsame.notified, hbegin.notified]
        change r₁.notified ++ _ = _
        rw [hpause.notified]
      · exact hfinish.hasRow.trans (hsame.hasRow.trans (hbegin.hasRow.trans hpause.hasRow))

theorem cleanupAfterBackup_ends (cfg : Scripts) (c : CleanupStages) (cancelled : Bool) (backupError : Option Str)
    (h : r.ownClients = disconnects r.dbData) : ∃ r', cleanupAfterBackup cfg c cancelled backupError r = .next r' := by
  unfold cleanupAfterBackup
  dsimp only
  have hpause : (pause r).ownClients = disconnects (pause r).dbData := by
    rw [pause_ownClients, pause_dbData, h]
  generalize pause r = r₁ at hpause ⊢
  generalize endState (cancelled || isCancelled jobName jobUuid r₁.running) backupError = state
  have hbegin := (beginCleanup_spec cfg c state
    { r₁ with cleanups := r₁.cleanups ++ [⟨cancelled, backupError, r₁.ctxCancelled⟩] }).2
  generalize beginCleanup cfg c state
    { r₁ with cleanups := r₁.cleanups ++ [⟨cancelled, backupError, r₁.ctxCancelled⟩] } = r₂ at hbegin ⊢
  split
  · obtain ⟨r₃, hnext⟩ := uploadCopies_ends c (r := r₂) (by rw [hbegin.1, hbegin.2]; exact hpause)
    exact ⟨_, by rw [hnext]; rfl⟩
  · exact ⟨_, rfl⟩

theorem recordedOnce_of_unrecorded (h : Unrecorded r) (cfg : Scripts) (c : CleanupStages) {cancelled : Bool}
    (backupError : Option Str) (hctx : cancelled = true → r.ctxCancelled = true) :
    ∃ r' call, cleanupAfterBackup cfg c cancelled backupError r = .next r' ∧ RecordedOnce cfg c r' call := by
  obtain ⟨r', hend⟩ := cleanupAfterBackup_ends cfg c cancelled backupError h.clients
  obtain ⟨state, more, hstate, hmore, hrecord⟩ := cleanupAfterBackup_record hend
  have hsample : state = endState (pause r).ctxCancelled backupError := by
    rw [hstate, ← h.pause.underway.ctx]
    cases cancelled with
    | true => rw [ctxCancelled_pause (hctx rfl), Bool.or_true]
    | false => rw [Bool.false_or]
  have hstored := hrecord.stored
  dsimp only at hstored
  rw [h.stored, List.nil_append] at hstored
  have hall : ∀ st ∈ r'.stored, st = state := by
    intro st hst
    rw [hstored] at hst
    rcases List.mem_append.mp hst with hst | hst
    · split at hst
      · exact List.mem_singleton.mp hst
      · cases hst
    · exact hmore st hst
  refine ⟨r', ⟨cancelled, backupError, (pause r).ctxCancelled⟩, hend, ?_, ?_, ?_, ?_, ?_⟩
  · rw [hrecord.cleanups, h.cleanups]
    rfl
  · rw [hrecord.scripts, h.scripts, Nat.zero_add]
  · rw [hrecord.notified, h.notified, CleanupCall.endState, ← hsample]
    rfl
  · intro st hst
    rw [CleanupCall.endState, ← hsample]
    exact hall st (List.mem_of_getLast? hst)
  · intro hrow hok
    have hrow' : r.hasRow = true := hrecord.hasRow.symm.trans hrow
    rw [if_pos (by simp [h.row hrow', h.handle, hok, hrow'])] at hstored
    have hne : r'.stored ≠ [] := by
      rw [hstored]
      simp
    rw [List.getLast?_eq_getLast_of_ne_nil hne, CleanupCall.endState, ← hsample]
    exact congrArg some (hall _ (List.getLast_mem hne))

theorem unrecorded_start {ops : List Op} {startTime : ℤ} {running : List JobStatus}
    (hstart : markRunning jobName jobUuid startTime (afterOps ops []) = .ok running)
    (others : List (Meanwhile jobName jobUuid)) : Unrecorded (Run.start running others) := by
  have hnodup : ((afterOps ops []).map JobStatus.name).Nodup := nodup_afterOps ops List.nodup_nil
  have happly : running = (Op.markRunning jobName jobUuid startTime).apply (afterOps ops []) := by
    rw [Op.apply, Op.run, hstart]
  rcases addJob_cases (newJob .backup backupCounters backupTexts jobName jobUuid startTime) (afterOps ops [])
    with ⟨herr, -⟩ | ⟨hok, -⟩
  · cases herr.symm.trans hstart
  · cases hok.symm.trans hstart
    refine ⟨⟨?_, ⟨_, List.mem_append_right _ List.mem_cons_self, rfl⟩, rfl⟩, rfl, rfl, rfl, rfl, rfl, rfl, ?_⟩
    · rw [Run.start, happly]
      exact nodup_apply _ hnodup
    · intro hfalse
      cases hfalse

end

end

/-! ### A cancelled run -/

def smoothStages (noticed : Bool) : Stages := ⟨.ready, .ok [], none, none, [⟨.done, none⟩], noticed⟩

def smoothCleanup : CleanupStages := ⟨none, true, true, 0, .ready⟩

def cancelLate : List (Meanwhile ['a'] ['x']) :=
  List.replicate 5 ⟨[], fun _ h => absurd h List.not_mem_nil⟩ ++
    [⟨[.cancelJob ['a'] ['x']], fun op h => by simp [List.mem_singleton.mp h, Op.ends]⟩]

end CloudBackup.Scheduler
