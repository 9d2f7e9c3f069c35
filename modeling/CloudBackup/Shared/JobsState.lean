import CloudBackup.Database.Tables
import Mathlib.Data.List.Nodup
import Mathlib.Logic.Function.Basic

/-!
`BackupJobsState`, the table of the jobs that are running. Backups and restores share it,
and there is one job for a name at most. Each operation holds the lock of the table, so
the operations of all callers come one after the other.

Some operations find their job by its name alone, others by the name and the id; an id
that is empty fits every job. The messages to watching clients are left out, and the
rates are what the rate counters say at the time.
-/

namespace CloudBackup.Shared

inductive JobType
  | backup
  | restore
  deriving DecidableEq, Repr

inductive JobState
  | running
  | stopping
  deriving DecidableEq, Repr

structure Rates where
  rate1Min : ℤ
  rate5Min : ℤ
  rate15Min : ℤ
  deriving DecidableEq, Repr

structure ObjectStoreRate where
  name : Str
  type : Str
  rates : Rates
  deriving DecidableEq, Repr

/-- `BackupJobStatus`. A map is a function to what it holds; `ctxCancelled` tells if the
context of the job is cancelled. -/
structure JobStatus where
  jobType : JobType
  name : Str
  state : JobState
  backupJobId : Str
  startTime : ℤ
  rates : Rates
  fileContentBytesRead : ℕ
  objectStoreRates : List ObjectStoreRate
  statsCounters : Str → Option ℕ
  statsText : Str → Option Str
  sequence : ℕ
  ctxCancelled : Bool

inductive StateErr
  | jobAlreadyRunning
  | jobAlreadyStopped
  | jobNotFoundInRunningState
  deriving DecidableEq, Repr

/-! ### Queries -/

def JobStatus.hasId (name jobId : Str) (job : JobStatus) : Bool :=
  name = job.name && (jobId = [] || job.backupJobId = jobId)

section Queries

variable (name jobId : Str) (running : List JobStatus)

def isRunning : Bool := running.any (JobStatus.hasId name jobId)

def isStopping : Bool :=
  running.any fun job => name = job.name &&
    ((jobId = [] && job.state = .stopping) || (job.backupJobId = jobId && job.state = .stopping))

/-- `GetContextForJob`, `GetCancelFunctionForJob` and `GetStartTime` look for a job in the
same way. -/
def findJob : Except StateErr JobStatus :=
  match running.find? (JobStatus.hasId name jobId) with
  | some job => .ok job
  | none => .error .jobNotFoundInRunningState

def isCancelled : Bool :=
  match running.find? (JobStatus.hasId name jobId) with
  | some job => job.ctxCancelled
  | none => false

end Queries

/-! ### Starting and stopping -/

def backupCounters : List String :=
  ["examined_files", "examined_directories", "examined_symlinks", "examined_unknown",
    "failed_to_examine", "failed_to_enumerate", "excluded", "up_to_date_files",
    "up_to_date_directories", "up_to_date_symlinks", "uploaded_files", "uploaded_directories",
    "uploaded_symlinks", "failed_to_upload_files", "failed_to_upload_directories",
    "failed_to_upload_symlinks", "failed_to_upload_unknown", "updated_metadata_for_files",
    "updated_metadata_for_directories", "updated_metadata_for_symlinks", "marked_deleted_files",
    "marked_deleted_directories", "marked_deleted_symlinks", "failed_to_mark_deleted_files",
    "failed_to_mark_deleted_directories", "failed_to_mark_deleted_symlinks",
    "failed_to_find_deleted", "failed_to_update_metadata_for_files",
    "failed_to_update_metadata_for_directories", "failed_to_update_metadata_for_symlinks",
    "database_copy_errors", "scripts_failed", "scripts_ran", "scripts_num",
    "skipped_reserved_path", "skipped_too_large_for_target", "keystore_inconsistent"]

def restoreCounters : List String :=
  ["restored_files", "restored_directories", "restored_symlinks", "failed_to_restore_files",
    "skipped_delete_markers", "decrypt_keystore_mismatch"]

def backupTexts : List String := ["current_directory", "current_file", "current_operation"]

def restoreTexts : List String := ["current_file", "current_operation"]

def initMap {β : Type} (keys : List String) (value : β) (key : Str) : Option β :=
  if keys.any fun k => k.toList = key then some value else none

def newJob (jobType : JobType) (counters texts : List String) (name jobId : Str) (startTime : ℤ) :
    JobStatus :=
  { jobType := jobType
    name := name
    state := .running
    backupJobId := jobId
    startTime := startTime
    rates := ⟨0, 0, 0⟩
    fileContentBytesRead := 0
    objectStoreRates := []
    statsCounters := initMap counters 0
    statsText := initMap texts []
    sequence := 0
    ctxCancelled := false }

def addJob (job : JobStatus) (running : List JobStatus) : Except StateErr (List JobStatus) :=
  if running.any fun other => job.name = other.name then .error .jobAlreadyRunning
  else .ok (running ++ [job])

def markRunning (name jobId : Str) (startTime : ℤ) : List JobStatus → Except StateErr (List JobStatus) :=
  addJob (newJob .backup backupCounters backupTexts name jobId startTime)

def markRestoreRunning (name jobId : Str) (startTime : ℤ) :
    List JobStatus → Except StateErr (List JobStatus) :=
  addJob (newJob .restore restoreCounters restoreTexts name jobId startTime)

/-- A pass of the loop of `MarkStopped`. A job with the name but another id is not taken
over. -/
def stopOne (name jobId : Str) (stopped : Bool) (acc : Bool × List JobStatus) (job : JobStatus) :
    Bool × List JobStatus :=
  if name = job.name then
    if jobId = [] ∨ job.backupJobId = jobId then
      (true, if stopped then acc.2 else acc.2 ++ [{ job with state := .stopping }])
    else acc
  else (acc.1, acc.2 ++ [job])

def markStopped (name jobId : Str) (stopped : Bool) (running : List JobStatus) :
    Except StateErr (List JobStatus) :=
  let updated := running.foldl (stopOne name jobId stopped) (false, [])
  if updated.1 then .ok updated.2 else .error .jobAlreadyStopped

/-! ### Counters and texts -/

def updateFirst (fits : JobStatus → Bool) (f : JobStatus → JobStatus) : List JobStatus → List JobStatus
  | [] => []
  | job :: jobs => if fits job then f job :: jobs else job :: updateFirst fits f jobs

def incrementCounter (name counter : Str) : List JobStatus → List JobStatus :=
  updateFirst (fun job => name = job.name) fun job => { job with
    statsCounters := Function.update job.statsCounters counter
      (some (((job.statsCounters counter).getD 0 + 1) % 2 ^ 64)) }

def seedCounter (name jobId counter : Str) (value : ℕ) : List JobStatus → List JobStatus :=
  updateFirst (JobStatus.hasId name jobId) fun job => { job with
    statsCounters :=
      if (job.statsCounters counter).isSome then Function.update job.statsCounters counter (some value)
      else job.statsCounters }

def unknownStat : Str := "unknown".toList

def updateStatsText (name statName statValue exclusionExpr fileError : Str) (running : List JobStatus) :
    List JobStatus :=
  if statName = unknownStat then running
  else
    updateFirst (fun job => name = job.name) (fun job => { job with
      statsText := Function.update job.statsText statName
        (some (if exclusionExpr ≠ [] ∨ fileError ≠ [] then [] else statValue)) }) running

def Rates.ofCounts (counts : Rates) : Rates :=
  ⟨counts.rate1Min.tdiv 60, counts.rate5Min.tdiv 300, counts.rate15Min.tdiv 900⟩

/-- `IncrementRateCounter`, given what the rate counters of the job and of each of its
object stores have counted by then. -/
def incrementRateCounter (name storeName storeType : Str) (counts : Rates) (storeCounts : Str → Rates) :
    List JobStatus → List JobStatus :=
  updateFirst (fun job => name = job.name) fun job =>
    let stores :=
      if job.objectStoreRates.any fun store => storeName = store.name then job.objectStoreRates
      else job.objectStoreRates ++ [⟨storeName, storeType, ⟨0, 0, 0⟩⟩]
    { job with
      rates := counts.ofCounts
      objectStoreRates := stores.map fun store => { store with rates := (storeCounts store.name).ofCounts } }

def addBytesRead (name : Str) (bytesRead : ℕ) (running : List JobStatus) : List JobStatus :=
  if bytesRead = 0 then running
  else
    updateFirst (fun job => name = job.name) (fun job => { job with
      fileContentBytesRead := (job.fileContentBytesRead + bytesRead) % 2 ^ 64 }) running

def incrementSequence (name : Str) : List JobStatus → List JobStatus :=
  updateFirst (fun job => name = job.name) fun job => { job with sequence := (job.sequence + 1) % 2 ^ 64 }

def cancelJob (name jobId : Str) : List JobStatus → List JobStatus :=
  updateFirst (JobStatus.hasId name jobId) fun job => { job with ctxCancelled := true }

/-! ### Operations -/

inductive Op
  | markRunning (name jobId : Str) (startTime : ℤ)
  | markRestoreRunning (name jobId : Str) (startTime : ℤ)
  | markStopped (name jobId : Str) (stopped : Bool)
  | incrementCounter (name counter : Str)
  | seedCounter (name jobId counter : Str) (value : ℕ)
  | updateStatsText (name statName statValue exclusionExpr fileError : Str)
  | incrementRateCounter (name storeName storeType : Str) (counts : Rates) (storeCounts : Str → Rates)
  | addBytesRead (name : Str) (bytesRead : ℕ)
  | incrementSequence (name : Str)
  | cancelJob (name jobId : Str)

namespace Op

def run : Op → List JobStatus → Except StateErr (List JobStatus)
  | .markRunning name jobId startTime, running => Shared.markRunning name jobId startTime running
  | .markRestoreRunning name jobId startTime, running => Shared.markRestoreRunning name jobId startTime running
  | .markStopped name jobId stopped, running => Shared.markStopped name jobId stopped running
  | .incrementCounter name counter, running => .ok (Shared.incrementCounter name counter running)
  | .seedCounter name jobId counter value, running => .ok (Shared.seedCounter name jobId counter value running)
  | .updateStatsText name statName statValue exclusionExpr fileError, running =>
      .ok (Shared.updateStatsText name statName statValue exclusionExpr fileError running)
  | .incrementRateCounter name storeName storeType counts storeCounts, running =>
      .ok (Shared.incrementRateCounter name storeName storeType counts storeCounts running)
  | .addBytesRead name bytesRead, running => .ok (Shared.addBytesRead name bytesRead running)
  | .incrementSequence name, running => .ok (Shared.incrementSequence name running)
  | .cancelJob name jobId, running => .ok (Shared.cancelJob name jobId running)

/-- The table after an operation. An error leaves it as it was. -/
def apply (op : Op) (running : List JobStatus) : List JobStatus :=
  match op.run running with
  | .ok updated => updated
  | .error _ => running

/-- The name of the job that an operation is for. -/
def name : Op → Str
  | .markRunning name _ _ => name
  | .markRestoreRunning name _ _ => name
  | .markStopped name _ _ => name
  | .incrementCounter name _ => name
  | .seedCounter name _ _ _ => name
  | .updateStatsText name _ _ _ _ => name
  | .incrementRateCounter name _ _ _ _ => name
  | .addBytesRead name _ => name
  | .incrementSequence name => name
  | .cancelJob name _ => name

/-- The id of that job. Some operations have only the name. -/
def jobId : Op → Str
  | .markRunning _ jobId _ => jobId
  | .markRestoreRunning _ jobId _ => jobId
  | .markStopped _ jobId _ => jobId
  | .seedCounter _ jobId _ _ => jobId
  | .cancelJob _ jobId => jobId
  | _ => []

def isFor (op : Op) (job : JobStatus) : Bool := job.hasId op.name op.jobId

end Op

/-- The table after some operations, one after the other. -/
def afterOps (ops : List Op) (running : List JobStatus) : List JobStatus :=
  ops.foldl (fun running op => op.apply running) running

def JobStatus.key (job : JobStatus) : Str × Str := (job.name, job.backupJobId)

structure JobStatus.Continues (job' job : JobStatus) : Prop where
  key : job'.key = job.key
  ctx : job.ctxCancelled = true → job'.ctxCancelled = true

theorem JobStatus.Continues.refl (job : JobStatus) : job.Continues job := ⟨rfl, id⟩

theorem JobStatus.Continues.trans {job job' job'' : JobStatus} (h' : job''.Continues job') (h : job'.Continues job) :
    job''.Continues job :=
  ⟨h'.key.trans h.key, fun hctx => h'.ctx (h.ctx hctx)⟩

/-! ### Changing one job -/

section

variable {fits : JobStatus → Bool} {f : JobStatus → JobStatus}

theorem filter_updateFirst {q : JobStatus → Bool} (h : ∀ job, fits job = true → q job = false ∧ q (f job) = false)
    (running : List JobStatus) : (updateFirst fits f running).filter q = running.filter q := by
  induction running with
  | nil => rfl
  | cons job running ih =>
      rw [updateFirst]
      split
      · rename_i hfits
        obtain ⟨hjob, hf⟩ := h job hfits
        rw [List.filter_cons_of_neg (by simp [hf]), List.filter_cons_of_neg (by simp [hjob])]
      · by_cases hq : q job = true
        · rw [List.filter_cons_of_pos hq, List.filter_cons_of_pos hq, ih]
        · rw [List.filter_cons_of_neg hq, List.filter_cons_of_neg hq, ih]

theorem map_key_updateFirst (h : ∀ job, (f job).key = job.key) (running : List JobStatus) :
    (updateFirst fits f running).map JobStatus.key = running.map JobStatus.key := by
  induction running with
  | nil => rfl
  | cons job running ih =>
      rw [updateFirst]
      split
      · rw [List.map_cons, List.map_cons, h]
      · rw [List.map_cons, List.map_cons, ih]

theorem exists_mem_updateFirst {job : JobStatus} {running : List JobStatus} (hjob : job ∈ running) :
    ∃ job' ∈ updateFirst fits f running, job' = job ∨ job' = f job := by
  induction running with
  | nil => cases hjob
  | cons other running ih =>
      rw [updateFirst]
      split
      · rcases List.mem_cons.mp hjob with rfl | hjob
        · exact ⟨f job, by simp, .inr rfl⟩
        · exact ⟨job, by simp [hjob], .inl rfl⟩
      · rcases List.mem_cons.mp hjob with rfl | hjob
        · exact ⟨job, by simp, .inl rfl⟩
        · obtain ⟨job', hjob', heq⟩ := ih hjob
          exact ⟨job', List.mem_cons_of_mem other hjob', heq⟩

/-- The job that is changed is one that fits, if there is one. -/
theorem exists_updated {job : JobStatus} {running : List JobStatus} (hjob : job ∈ running)
    (hfits : fits job = true) : ∃ first ∈ running, fits first = true ∧ f first ∈ updateFirst fits f running := by
  induction running with
  | nil => cases hjob
  | cons other running ih =>
      rw [updateFirst]
      split
      · rename_i hother
        exact ⟨other, List.mem_cons_self, hother, List.mem_cons_self⟩
      · rename_i hother
        rcases List.mem_cons.mp hjob with rfl | hjob
        · exact absurd hfits hother
        · obtain ⟨first, hfirst, hfits', hmem⟩ := ih hjob
          exact ⟨first, List.mem_cons_of_mem other hfirst, hfits', List.mem_cons_of_mem other hmem⟩

end

/-! ### Stopping a job -/

section

variable {name jobId : Str} {stopped : Bool}

def stopResult (name jobId : Str) (stopped : Bool) (job : JobStatus) : List JobStatus :=
  if name = job.name then
    if jobId = [] ∨ job.backupJobId = jobId then if stopped then [] else [{ job with state := .stopping }]
    else []
  else [job]

theorem foldl_stopOne (running : List JobStatus) (acc : Bool × List JobStatus) :
    running.foldl (stopOne name jobId stopped) acc =
      (acc.1 || running.any (JobStatus.hasId name jobId),
        acc.2 ++ running.flatMap (stopResult name jobId stopped)) := by
  induction running generalizing acc with
  | nil => simp
  | cons job running ih =>
      rw [List.foldl_cons, ih, List.any_cons, List.flatMap_cons]
      by_cases hname : name = job.name
      · by_cases hid : jobId = [] ∨ job.backupJobId = jobId
        · cases stopped <;> simp [stopOne, stopResult, JobStatus.hasId, hname, hid]
        · have hnot := not_or.mp hid
          simp [stopOne, stopResult, JobStatus.hasId, hname, hnot.1, hnot.2]
      · simp [stopOne, stopResult, JobStatus.hasId, hname]

theorem markStopped_eq (running : List JobStatus) : markStopped name jobId stopped running =
    if running.any (JobStatus.hasId name jobId) then .ok (running.flatMap (stopResult name jobId stopped))
    else .error .jobAlreadyStopped := by
  rw [markStopped, foldl_stopOne]
  simp

theorem map_name_stopResult (job : JobStatus) :
    ((stopResult name jobId stopped job).map JobStatus.name).Sublist [job.name] := by
  unfold stopResult
  split
  · split
    · split
      · exact List.nil_sublist _
      · exact List.Sublist.refl _
    · exact List.nil_sublist _
  · exact List.Sublist.refl _

theorem map_name_flatMap_stopResult (running : List JobStatus) :
    ((running.flatMap (stopResult name jobId stopped)).map JobStatus.name).Sublist
      (running.map JobStatus.name) := by
  induction running with
  | nil => exact List.Sublist.refl _
  | cons job running ih =>
      rw [List.flatMap_cons, List.map_append, List.map_cons]
      exact (map_name_stopResult job).append ih

/-- Where names are unique, the job that is found is the one with the name. -/
theorem hasId_of_found {running : List JobStatus} (hnodup : (running.map JobStatus.name).Nodup)
    (hfound : running.any (JobStatus.hasId name jobId) = true) {job : JobStatus} (hjob : job ∈ running)
    (hname : name = job.name) : job.hasId name jobId = true := by
  obtain ⟨other, hother, hid⟩ := List.any_eq_true.mp hfound
  have hsame : other.name = job.name := by
    have hother := hid
    rw [JobStatus.hasId, Bool.and_eq_true, decide_eq_true_eq] at hother
    rw [← hother.1, hname]
  rwa [← List.inj_on_of_nodup_map hnodup hother hjob hsame]

theorem filter_stopResult (job : JobStatus) (h : name = job.name → job.hasId name jobId = true) :
    (stopResult name jobId stopped job).filter (fun job => !job.hasId name jobId) =
      [job].filter fun job => !job.hasId name jobId := by
  by_cases hname : name = job.name
  · have hid := h hname
    have hfits : jobId = [] ∨ job.backupJobId = jobId := by
      simpa [JobStatus.hasId, hname] using hid
    have hstopping : JobStatus.hasId name jobId { job with state := .stopping } = true := hid
    rw [stopResult, if_pos hname, if_pos hfits]
    cases stopped with
    | true => simp [hid]
    | false => simp [hid, hstopping]
  · rw [stopResult, if_neg hname]

/-- The job that is stopped is the only one that changes. -/
theorem filter_flatMap_stopResult {running : List JobStatus}
    (h : ∀ job ∈ running, name = job.name → job.hasId name jobId = true) :
    (running.flatMap (stopResult name jobId stopped)).filter (fun job => !job.hasId name jobId) =
      running.filter fun job => !job.hasId name jobId := by
  induction running with
  | nil => rfl
  | cons job running ih =>
      rw [List.flatMap_cons, List.filter_append, filter_stopResult job (h job (by simp)),
        ih fun other hother => h other (List.mem_cons_of_mem job hother), ← List.filter_append,
        List.singleton_append]

end

/-! ### One operation -/

section

variable {running : List JobStatus}

theorem addJob_cases (job : JobStatus) (running : List JobStatus) :
    (addJob job running = .error .jobAlreadyRunning ∧ ∃ other ∈ running, other.name = job.name) ∨
    (addJob job running = .ok (running ++ [job]) ∧ job.name ∉ running.map JobStatus.name) := by
  unfold addJob
  split
  · rename_i hany
    obtain ⟨other, hother, hname⟩ := List.any_eq_true.mp hany
    exact .inl ⟨rfl, other, hother, (of_decide_eq_true hname).symm⟩
  · rename_i hany
    refine .inr ⟨rfl, fun hmem => hany ?_⟩
    obtain ⟨other, hother, hname⟩ := List.mem_map.mp hmem
    exact List.any_eq_true.mpr ⟨other, hother, decide_eq_true hname.symm⟩

/-- What an operation can do to the table: add a job under a new name, stop a job, or
change one job without a change to its name and id. -/
inductive Effect (op : Op) (running : List JobStatus) : List JobStatus → Prop
  | none : Effect op running running
  | add (job : JobStatus) (hkey : job.hasId op.name op.jobId = true)
      (hnew : job.name ∉ running.map JobStatus.name) : Effect op running (running ++ [job])
  | stop (jobId : Str) (stopped : Bool) (name : Str) (hop : op = .markStopped name jobId stopped)
      (hfound : running.any (JobStatus.hasId name jobId) = true) :
      Effect op running (running.flatMap (stopResult name jobId stopped))
  | update (fits : JobStatus → Bool) (f : JobStatus → JobStatus)
      (hfits : ∀ job, fits job = true → job.hasId op.name op.jobId = true)
      (hf : ∀ job, (f job).Continues job) : Effect op running (updateFirst fits f running)

theorem newJob_hasId (jobType : JobType) (counters texts : List String) (name jobId : Str) (startTime : ℤ) :
    (newJob jobType counters texts name jobId startTime).hasId name jobId = true := by
  simp [JobStatus.hasId, newJob]

theorem apply_effect (op : Op) (running : List JobStatus) : Effect op running (op.apply running) := by
  have hname : ∀ (name : Str) (job : JobStatus), decide (name = job.name) = true →
      job.hasId name [] = true := by
    intro name job h
    simpa [JobStatus.hasId] using h
  have hadd : ∀ job : JobStatus, job.hasId op.name op.jobId = true → op.run running = addJob job running →
      Effect op running (op.apply running) := by
    intro job hid hrun
    rw [Op.apply, hrun]
    rcases addJob_cases job running with ⟨herr, -⟩ | ⟨hok, hnew⟩
    · rw [herr]
      exact .none
    · rw [hok]
      exact .add job hid hnew
  cases op with
  | markRunning name jobId startTime => exact hadd _ (newJob_hasId _ _ _ _ _ _) rfl
  | markRestoreRunning name jobId startTime => exact hadd _ (newJob_hasId _ _ _ _ _ _) rfl
  | markStopped name jobId stopped =>
      rw [Op.apply, Op.run, markStopped_eq]
      split
      · rename_i updated heq
        split at heq
        · rename_i hfound
          cases heq
          exact .stop jobId stopped name rfl hfound
        · cases heq
      · exact .none
  | incrementCounter name counter => exact .update _ _ (hname name) fun _ => ⟨rfl, id⟩
  | seedCounter name jobId counter value => exact .update _ _ (fun _ h => h) fun _ => ⟨rfl, id⟩
  | updateStatsText name statName statValue exclusionExpr fileError =>
      rw [Op.apply, Op.run]
      dsimp only
      rw [updateStatsText]
      split
      · exact .none
      · exact .update _ _ (hname name) fun _ => ⟨rfl, id⟩
  | incrementRateCounter name storeName storeType counts storeCounts =>
      exact .update _ _ (hname name) fun _ => ⟨rfl, id⟩
  | addBytesRead name bytesRead =>
      rw [Op.apply, Op.run]
      dsimp only
      rw [addBytesRead]
      split
      · exact .none
      · exact .update _ _ (hname name) fun _ => ⟨rfl, id⟩
  | incrementSequence name => exact .update _ _ (hname name) fun _ => ⟨rfl, id⟩
  | cancelJob name jobId => exact .update _ _ (fun _ h => h) fun _ => ⟨rfl, fun _ => rfl⟩

theorem hasId_congr {job job' : JobStatus} (h : job'.key = job.key) (name jobId : Str) :
    job'.hasId name jobId = job.hasId name jobId := by
  obtain ⟨hname, hid⟩ := Prod.mk.inj h
  rw [JobStatus.hasId, JobStatus.hasId, hname, hid]

theorem map_name_of_map_key {running running' : List JobStatus}
    (h : running'.map JobStatus.key = running.map JobStatus.key) :
    running'.map JobStatus.name = running.map JobStatus.name := by
  have hfst := congrArg (List.map Prod.fst) h
  rwa [List.map_map, List.map_map] at hfst

theorem nodup_apply (op : Op) (h : (running.map JobStatus.name).Nodup) :
    ((op.apply running).map JobStatus.name).Nodup := by
  have heffect := apply_effect op running
  generalize op.apply running = running' at heffect ⊢
  cases heffect with
  | none => exact h
  | add job hkey hnew =>
      rw [List.map_append, List.map_singleton, ← List.concat_eq_append]
      exact h.concat hnew
  | stop jobId stopped name hop hfound => exact h.sublist (map_name_flatMap_stopResult running)
  | update fits f hfits hf =>
      rw [map_name_of_map_key (map_key_updateFirst (fun job => (hf job).key) running)]
      exact h

/-- The jobs that an operation is not for stay as they are, in the same order. -/
theorem filter_apply (op : Op) (h : (running.map JobStatus.name).Nodup) :
    (op.apply running).filter (fun job => !op.isFor job) = running.filter fun job => !op.isFor job := by
  have heffect := apply_effect op running
  generalize op.apply running = running' at heffect ⊢
  cases heffect with
  | none => rfl
  | add job hkey hnew =>
      rw [List.filter_append]
      simp [Op.isFor, hkey]
  | stop jobId stopped name hop hfound =>
      subst hop
      exact filter_flatMap_stopResult fun job hjob hname => hasId_of_found h hfound hjob hname
  | update fits f hfits hf =>
      refine filter_updateFirst (fun job hjob => ?_) running
      have hid := hfits job hjob
      exact ⟨by simp [Op.isFor, hid], by simp [Op.isFor, hasId_congr (hf job).key, hid]⟩

def Op.ends (op : Op) (name jobId : Str) : Prop := op = .markStopped name [] true ∨ op = .markStopped name jobId true

theorem continues_apply {op : Op} (h : (running.map JobStatus.name).Nodup) {job : JobStatus} (hjob : job ∈ running)
    (hop : ¬ op.ends job.name job.backupJobId) : ∃ job' ∈ op.apply running, job'.Continues job := by
  have heffect := apply_effect op running
  generalize op.apply running = running' at heffect ⊢
  cases heffect with
  | none => exact ⟨job, hjob, .refl job⟩
  | add new _ _ => exact ⟨job, List.mem_append_left _ hjob, .refl job⟩
  | stop jobId stopped name heq hfound =>
      by_cases hname : name = job.name
      · have hid := hasId_of_found h hfound hjob hname
        have hfits : jobId = [] ∨ job.backupJobId = jobId := by
          simpa [JobStatus.hasId, hname] using hid
        -- the job is only marked as stopping, or this is the end of it
        cases stopped with
        | true =>
            refine absurd ?_ hop
            rw [Op.ends, heq, hname]
            rcases hfits with rfl | rfl
            · exact .inl rfl
            · exact .inr rfl
        | false =>
            refine ⟨{ job with state := .stopping }, List.mem_flatMap.mpr ⟨job, hjob, ?_⟩, ⟨rfl, id⟩⟩
            rw [stopResult, if_pos hname, if_pos hfits]
            exact List.mem_singleton.mpr rfl
      · refine ⟨job, List.mem_flatMap.mpr ⟨job, hjob, ?_⟩, .refl job⟩
        rw [stopResult, if_neg hname]
        exact List.mem_singleton.mpr rfl
  | update fits f hfits hf =>
      obtain ⟨job', hjob', heq⟩ := exists_mem_updateFirst hjob
      refine ⟨job', hjob', ?_⟩
      rcases heq with rfl | rfl
      · exact .refl job'
      · exact hf job

end

/-! ### Runs -/

theorem nodup_afterOps (ops : List Op) {running : List JobStatus} (h : (running.map JobStatus.name).Nodup) :
    ((afterOps ops running).map JobStatus.name).Nodup := by
  induction ops generalizing running with
  | nil => exact h
  | cons op ops ih => exact ih (nodup_apply op h)

theorem continues_afterOps {ops : List Op} {running : List JobStatus} (h : (running.map JobStatus.name).Nodup)
    {job : JobStatus} (hjob : job ∈ running) (hops : ∀ op ∈ ops, ¬ op.ends job.name job.backupJobId) :
    ∃ job' ∈ afterOps ops running, job'.Continues job := by
  induction ops generalizing running job with
  | nil => exact ⟨job, hjob, .refl job⟩
  | cons op ops ih =>
      obtain ⟨job', hjob', hcont⟩ := continues_apply h hjob (hops op List.mem_cons_self)
      have hkey := Prod.mk.inj hcont.key
      obtain ⟨job'', hjob'', hcont'⟩ := ih (nodup_apply op h) hjob' fun op' hop' => by
        rw [hkey.1, hkey.2]
        exact hops op' (List.mem_cons_of_mem op hop')
      exact ⟨job'', hjob'', hcont'.trans hcont⟩

/-- In every state of the table no name is there twice; an operation changes no job but
the one that it is for; an id that does not fit stops nothing; and a name can only be
started again after its own job was stopped. -/
theorem runningJobs (ops : List Op) :
    ((afterOps ops []).map JobStatus.name).Nodup ∧
    (∀ op : Op, (op.apply (afterOps ops [])).filter (fun job => !op.isFor job) =
      (afterOps ops []).filter fun job => !op.isFor job) ∧
    (∀ name jobId stopped, jobId ≠ [] →
      (∀ job ∈ afterOps ops [], job.name = name → job.backupJobId ≠ jobId) →
      markStopped name jobId stopped (afterOps ops []) = .error .jobAlreadyStopped ∧
        (Op.markStopped name jobId stopped).apply (afterOps ops []) = afterOps ops []) ∧
    ∀ job ∈ afterOps ops [], ∀ (more : List Op) (jobId : Str) (startTime : ℤ) (running : List JobStatus),
      markRunning job.name jobId startTime (afterOps (ops ++ more) []) = .ok running ∨
        markRestoreRunning job.name jobId startTime (afterOps (ops ++ more) []) = .ok running →
      .markStopped job.name [] true ∈ more ∨ .markStopped job.name job.backupJobId true ∈ more := by
  have hnodup : ((afterOps ops []).map JobStatus.name).Nodup := nodup_afterOps ops List.nodup_nil
  refine ⟨hnodup, fun op => filter_apply op hnodup, ?_, ?_⟩
  · intro name jobId stopped hne hother
    have hnone : (afterOps ops []).any (JobStatus.hasId name jobId) = false := by
      rw [List.any_eq_false]
      intro job hjob hid
      simp only [JobStatus.hasId, Bool.and_eq_true, decide_eq_true_eq, Bool.or_eq_true, hne, false_or] at hid
      exact hother job hjob hid.1.symm hid.2
    have herr : markStopped name jobId stopped (afterOps ops []) = .error .jobAlreadyStopped := by
      rw [markStopped_eq, hnone, if_neg Bool.false_ne_true]
    exact ⟨herr, by rw [Op.apply, Op.run, herr]⟩
  · intro job hjob more jobId startTime running hstart
    by_contra hnot
    obtain ⟨hany, hown⟩ := not_or.mp hnot
    have hends : ∀ op ∈ more, ¬ op.ends job.name job.backupJobId := by
      rintro op hop (rfl | rfl)
      · exact hany hop
      · exact hown hop
    obtain ⟨job', hjob', hcont⟩ := continues_afterOps hnodup hjob hends
    have hname : job.name ∈ (afterOps (ops ++ more) []).map JobStatus.name := by
      rw [afterOps, List.foldl_append]
      exact List.mem_map.mpr ⟨job', hjob', congrArg Prod.fst hcont.key⟩
    -- so the name is taken
    have htaken : ∀ new : JobStatus, new.name = job.name →
        addJob new (afterOps (ops ++ more) []) = .error .jobAlreadyRunning := by
      intro new hnew
      rcases addJob_cases new (afterOps (ops ++ more) []) with ⟨herr, -⟩ | ⟨-, hfree⟩
      · exact herr
      · exact absurd (hnew ▸ hname) hfree
    rcases hstart with hstart | hstart
    · cases (htaken (newJob .backup backupCounters backupTexts job.name jobId startTime) rfl).symm.trans hstart
    · cases (htaken (newJob .restore restoreCounters restoreTexts job.name jobId startTime) rfl).symm.trans hstart

end CloudBackup.Shared
