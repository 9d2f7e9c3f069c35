import CloudBackup.Library.Checks
import CloudBackup.Restore.RestoreJob
import CloudBackup.Shared.JobsState

/-!
A resume that ends before it has processed an item, with all that is stored of the
job: `Resume`, `Do` up to its loop, and `cleanupAfterRestore`.

There are three ways out. `Resume` refuses the request, and `PreserveRecord` keeps
the record as it is; `Do` does not find the target, and then there is no database to
write to; every other exit comes to `FinalizeJobRecord`, which overwrites the report.
The rows of `restore_files` and `restore_counters` are only read.

How the calls to the outside end is given by an `Env`. The texts of errors are not
needed here, and the report is what the running entry is encoded to. The last section
says that such a resume is one of the steps that `RestoreJob` makes up the life of a job
from.
-/

namespace CloudBackup.Restore.Resuming

open Checks

/-! ### The restore database -/

/-- A row of `jobs` of a restore database, with the columns that a resume reads or
writes. -/
structure JobRecord where
  id : Str
  targetName : Str
  endTime : ℤ
  state : Str
  report : Str
  requestFiles : Str
  exclusions : Str
  deriving DecidableEq, Repr

/-- The restore database of a target. `InsertRestoreJob` writes the name of the target
into every row. -/
structure RestoreDb (target : Str) where
  jobs : List JobRecord
  restoreFiles : Str → List RestoreFile
  restoreCounters : Str → Option Counters
  target_eq : ∀ row ∈ jobs, row.targetName = target

section Db

variable {target : Str} (db : RestoreDb target) (id : Str)

def RestoreDb.fetchRestoreJob : Option JobRecord := db.jobs.find? (·.id = id)

/-- An `UPDATE jobs` that leaves the name of the target alone. -/
def RestoreDb.update (f : JobRecord → JobRecord) (hf : ∀ row, (f row).targetName = row.targetName) :
    RestoreDb target :=
  { db with
    jobs := db.jobs.map fun row => if row.id = id then f row else row
    target_eq := by
      intro row hrow
      obtain ⟨old, hold, rfl⟩ := List.mem_map.mp hrow
      split
      · rw [hf, db.target_eq old hold]
      · exact db.target_eq old hold }

def RestoreDb.updateRestoreJobState (state : Str) : RestoreDb target :=
  db.update id (fun row => { row with state := state }) fun _ => rfl

def RestoreDb.updateRestoreJobFinal (endTime : ℤ) (state report : Str) : RestoreDb target :=
  db.update id (fun row => { row with endTime := endTime, state := state, report := report })
    fun _ => rfl

def RestoreDb.restoreJobExists : Bool := db.jobs.any (·.id = id)

end Db

/-! ### A resume -/

/-- A backup of the configuration: its name and the names of its targets. -/
structure ConfigBackup where
  name : Str
  targets : List Str
  deriving DecidableEq, Repr

inductive ResumeErr
  | openRestoreDb
  | fetchRestoreJob
  | noRows
  | notResumable (state : Str)
  | requestFiles
  | exclusions
  | notRunning
  | noDefinition
  | noTarget
  | getObjectStores
  | notOneObjectStore
  | restoreDir
  | backupDb
  | sourceJobId
  | hasAnyEncryptedFiles
  | initEncryption
  | restoreDb
  | restoreJobExists
  | readCounters
  | updateState
  | loadPendingManifest
  deriving DecidableEq, Repr

structure Result where
  state : Str
  err : Option ResumeErr
  preserveRecord : Bool
  targetName : Str
  deriving DecidableEq, Repr

/-- How the calls of one resume end. `unmarshal` decodes a list of strings; `ctxDone` is
what the loop finds before its first item; `jobReport` is the encoded entry of `Running`.
`PrepareRestore` cannot fail, and `resolveRestoreDir` neither. -/
structure Env where
  openRestoreDbOk : Bool
  fetchOk : Bool
  unmarshal : Str → Option (List Str)
  getObjectStores : Option ℕ
  mkdirAllOk : Bool
  backupDbOk : Bool
  sourceJobIdOk : Bool
  hasAnyEncryptedFilesOk : Bool
  initEncryptionOk : Bool
  restoreDbOk : Bool
  existsOk : Bool
  readCountersOk : Bool
  updateStateOk : Bool
  loadOk : Bool
  ctxDone : Bool
  jobReport : Str
  endTime : ℤ
  finalizeOk : Bool

def stateFailed : Str := "failed".toList

def stateCancelled : Str := "cancelled".toList

def stateFinished : Str := "finished".toList

def stateStarted : Str := "started".toList

def resumableStates : List Str :=
  ["cancelled".toList, "failed".toList, "crashed".toList, "stopped".toList]

def isResumableState (state : Str) : Bool := resumableStates.contains state

def pickTarget (backup : ConfigBackup) (targetName : Str) : Option Str :=
  if targetName = [] then backup.targets.head? else backup.targets.find? (· = targetName)

def failure (err : ResumeErr) (targetName : Str) : Result := ⟨stateFailed, some err, false, targetName⟩

/-- `Do` between the choice of the target and the look at the job. -/
def bringUp (env : Env) : Check ResumeErr :=
  (require env.getObjectStores.isSome .getObjectStores).andThen <|
  (require (env.getObjectStores = some 1) .notOneObjectStore).andThen <|
  (require env.mkdirAllOk .restoreDir).andThen <|
  (require env.backupDbOk .backupDb).andThen <|
  (require env.sourceJobIdOk .sourceJobId).andThen <|
  (require env.hasAnyEncryptedFilesOk .hasAnyEncryptedFiles).andThen <|
  (require env.initEncryptionOk .initEncryption).andThen <|
  (require env.restoreDbOk .restoreDb).andThen <|
  require env.existsOk .restoreJobExists

/-- Where a resume stands when it is over, or comes to its first item. `elsewhere` is for
a job that is not in this database. -/
inductive Exit (target : Str)
  | returned (result : Result) (db : RestoreDb target)
  | looping (db : RestoreDb target)
  | elsewhere

section

variable {target : Str}

/-- `Do` for a job that is there, from `resumeRestoreJob` to the loop. -/
def resumeRestoreJob (env : Env) (id targetName : Str) (db : RestoreDb target) : Exit target :=
  if !env.readCountersOk then .returned (failure .readCounters targetName) db
  else if !env.updateStateOk then .returned (failure .updateState targetName) db
  else
    let db := db.updateRestoreJobState id stateStarted
    if !env.loadOk then .returned (failure .loadPendingManifest targetName) db
    else if loadPendingManifest (db.restoreFiles id) = [] then
      .returned ⟨stateFinished, none, false, targetName⟩ db
    else if env.ctxDone then .returned ⟨stateCancelled, none, false, targetName⟩ db
    else .looping db

/-- The target that `Do` works on: the job is in `Running`, its definition in the
configuration, and the target in the definition. -/
def findTarget (cfg : List ConfigBackup) (running : List Shared.JobStatus) (jobName id targetName : Str) :
    Except ResumeErr Str :=
  match Shared.findJob jobName id running with
  | .error _ => .error .notRunning
  | .ok _ =>
      match cfg.find? (·.name = jobName) with
      | none => .error .noDefinition
      | some backup =>
          match pickTarget backup targetName with
          | none => .error .noTarget
          | some name => .ok name

/-- `Do`, called from `Resume`. -/
def doUpToLoop (cfg : List ConfigBackup) (running : List Shared.JobStatus) (env : Env)
    (jobName id targetName : Str) (db : RestoreDb target) : Exit target :=
  match findTarget cfg running jobName id targetName with
  | .error e => .returned (failure e []) db
  | .ok name =>
      match bringUp env with
      | .error e => .returned (failure e name) db
      | .ok () =>
          if name = target ∧ db.restoreJobExists id = true then resumeRestoreJob env id name db
          else .elsewhere

def decodes (env : Env) (stored : Str) : Bool :=
  stored = [] || stored = "null".toList || (env.unmarshal stored).isSome

def resume (cfg : List ConfigBackup) (running : List Shared.JobStatus) (env : Env) (jobName id : Str)
    (db : RestoreDb target) : Exit target :=
  if !env.openRestoreDbOk then .returned (failure .openRestoreDb target) db
  else if !env.fetchOk then .returned { failure .fetchRestoreJob target with preserveRecord := true } db
  else
    match db.fetchRestoreJob id with
    | none => .returned { failure .noRows target with preserveRecord := true } db
    | some rec =>
        if !isResumableState rec.state then
          .returned { failure (.notResumable rec.state) target with preserveRecord := true } db
        else if !decodes env rec.requestFiles then .returned (failure .requestFiles target) db
        else if !decodes env rec.exclusions then .returned (failure .exclusions target) db
        else doUpToLoop cfg running env jobName id rec.targetName db

def cleanupAfterRestore (env : Env) (id : Str) (result : Result) (db : RestoreDb target) :
    RestoreDb target :=
  if result.preserveRecord then db
  else if result.targetName = [] then db
  -- the record of another target is in another database
  else if result.targetName ≠ target then db
  else if !env.finalizeOk then db
  else db.updateRestoreJobFinal id env.endTime result.state env.jobReport

end

/-! ### What an update leaves -/

section

variable {target : Str} {db : RestoreDb target} {id : Str}

theorem fetchRestoreJob_update (f : JobRecord → JobRecord)
    (hf : ∀ row, (f row).targetName = row.targetName) (hid : ∀ row, (f row).id = row.id) :
    (db.update id f hf).fetchRestoreJob id = (db.fetchRestoreJob id).map f := by
  simp only [RestoreDb.fetchRestoreJob, RestoreDb.update]
  induction db.jobs with
  | nil => rfl
  | cons row rows ih =>
      by_cases h : row.id = id
      · simp [h, hid]
      · simp [h, ih]

@[simp] theorem fetchRestoreJob_updateRestoreJobState (state : Str) :
    (db.updateRestoreJobState id state).fetchRestoreJob id =
      (db.fetchRestoreJob id).map fun row => { row with state := state } :=
  fetchRestoreJob_update _ _ fun _ => rfl

@[simp] theorem fetchRestoreJob_updateRestoreJobFinal (endTime : ℤ) (state report : Str) :
    (db.updateRestoreJobFinal id endTime state report).fetchRestoreJob id =
      (db.fetchRestoreJob id).map fun row =>
        { row with endTime := endTime, state := state, report := report } :=
  fetchRestoreJob_update _ _ fun _ => rfl

theorem fetchRestoreJob_mem {rec : JobRecord} (h : db.fetchRestoreJob id = some rec) :
    rec ∈ db.jobs ∧ rec.id = id := by
  exact ⟨List.mem_of_find?_eq_some h, by simpa using List.find?_some h⟩

end

/-! ### The three ways out -/

section

variable {target : Str} (cfg : List ConfigBackup) (running : List Shared.JobStatus) (env : Env)
  (jobName id : Str) (rec : JobRecord)

/-- `Resume` itself turns the request down. -/
def Refused : Prop :=
  env.openRestoreDbOk = true ∧ (env.fetchOk = false ∨ isResumableState rec.state = false)

/-- `Do` has no target to work on: the job is not in `Running`, or its definition or its
target are not in the configuration. -/
def NoTarget : Prop :=
  env.openRestoreDbOk = true ∧ env.fetchOk = true ∧ decodes env rec.requestFiles = true ∧
    decodes env rec.exclusions = true ∧
    ∃ e, findTarget cfg running jobName id rec.targetName = .error e

variable {cfg running env jobName id rec} {db db' : RestoreDb target} {result : Result}

/-- The target of a stored job is the one of its database. -/
theorem findTarget_eq (htarget : target ≠ []) (hrec : db.fetchRestoreJob id = some rec) {name : Str}
    (h : findTarget cfg running jobName id rec.targetName = .ok name) : name = target := by
  rw [db.target_eq rec (fetchRestoreJob_mem hrec).1] at h
  unfold findTarget at h
  split at h
  · cases h
  · split at h
    · cases h
    · split at h
      · cases h
      · rename_i name' hpick
        cases h
        rw [pickTarget, if_neg htarget] at hpick
        simpa using List.find?_some hpick

theorem restoreJobExists_of_fetch (hrec : db.fetchRestoreJob id = some rec) :
    db.restoreJobExists id = true := by
  obtain ⟨hmem, hid⟩ := fetchRestoreJob_mem hrec
  exact List.any_eq_true.mpr ⟨rec, hmem, by simpa using hid⟩

/-- A job that is there is resumed, up to its last state. -/
theorem resumeRestoreJob_returned {targetName : Str}
    (h : resumeRestoreJob env id targetName db = .returned result db') :
    result.preserveRecord = false ∧ result.targetName = targetName ∧
      (db' = db ∨ db' = db.updateRestoreJobState id stateStarted) := by
  unfold resumeRestoreJob at h
  split at h
  · cases h
    exact ⟨rfl, rfl, .inl rfl⟩
  · split at h
    · cases h
      exact ⟨rfl, rfl, .inl rfl⟩
    · dsimp only at h
      split at h
      · cases h
        exact ⟨rfl, rfl, .inr rfl⟩
      · split at h
        · cases h
          exact ⟨rfl, rfl, .inr rfl⟩
        · split at h
          · cases h
            exact ⟨rfl, rfl, .inr rfl⟩
          · cases h

/-- `Do` has no target, or it hands the name of its target on. -/
theorem doUpToLoop_returned (htarget : target ≠ []) (hrec : db.fetchRestoreJob id = some rec)
    (h : doUpToLoop cfg running env jobName id rec.targetName db = .returned result db') :
    result.preserveRecord = false ∧
      (((∃ e, findTarget cfg running jobName id rec.targetName = .error e) ∧
          result.targetName = [] ∧ db' = db) ∨
        ((∃ name, findTarget cfg running jobName id rec.targetName = .ok name) ∧
          result.targetName = target ∧
          (db' = db ∨ db' = db.updateRestoreJobState id stateStarted))) := by
  unfold doUpToLoop at h
  split at h
  · rename_i e hfind
    cases h
    exact ⟨rfl, .inl ⟨⟨e, hfind⟩, rfl, rfl⟩⟩
  · rename_i name hfind
    obtain rfl := findTarget_eq htarget hrec hfind
    split at h
    · cases h
      exact ⟨rfl, .inr ⟨⟨_, hfind⟩, rfl, .inl rfl⟩⟩
    · split at h
      · obtain ⟨hpres, hname, hdb⟩ := resumeRestoreJob_returned h
        exact ⟨hpres, .inr ⟨⟨_, hfind⟩, hname, hdb⟩⟩
      · cases h

/-- What becomes of a stored job before `Do`: the request is turned down, the job cannot
be read, or `Do` is called. -/
theorem resume_cases (hrec : db.fetchRestoreJob id = some rec) :
    (∃ result, resume cfg running env jobName id db = .returned result db ∧
      ((Refused env rec ∧ result.preserveRecord = true) ∨
        (¬ Refused env rec ∧ ¬ NoTarget cfg running env jobName id rec ∧
          result.preserveRecord = false ∧ result.targetName = target))) ∨
    (¬ Refused env rec ∧
      (NoTarget cfg running env jobName id rec ↔
        ∃ e, findTarget cfg running jobName id rec.targetName = .error e) ∧
      resume cfg running env jobName id db =
        doUpToLoop cfg running env jobName id rec.targetName db) := by
  simp only [resume, hrec, Refused, NoTarget]
  cases env.openRestoreDbOk with
  | false => exact .inl ⟨_, rfl, .inr (by simp [failure])⟩
  | true =>
      cases env.fetchOk with
      | false => exact .inl ⟨_, rfl, .inl (by simp)⟩
      | true =>
          cases isResumableState rec.state with
          | false => exact .inl ⟨_, rfl, .inl (by simp)⟩
          | true =>
              cases decodes env rec.requestFiles with
              | false => exact .inl ⟨_, rfl, .inr (by simp [failure])⟩
              | true =>
                  cases decodes env rec.exclusions with
                  | false => exact .inl ⟨_, rfl, .inr (by simp [failure])⟩
                  | true => exact .inr ⟨by simp, by simp, rfl⟩

/-- A job that is not there is not looked at any further. -/
theorem resume_noRow (hrec : db.fetchRestoreJob id = none) :
    ∃ result, resume cfg running env jobName id db = .returned result db := by
  unfold resume
  rw [hrec]
  split
  · exact ⟨_, rfl⟩
  · split
    · exact ⟨_, rfl⟩
    · exact ⟨_, rfl⟩

theorem resume_returned (htarget : target ≠ []) (hrec : db.fetchRestoreJob id = some rec)
    (h : resume cfg running env jobName id db = .returned result db') :
    (Refused env rec ∧ result.preserveRecord = true ∧ db' = db) ∨
      (NoTarget cfg running env jobName id rec ∧ result.preserveRecord = false ∧
        result.targetName = [] ∧ db' = db) ∨
      (¬ Refused env rec ∧ ¬ NoTarget cfg running env jobName id rec ∧
        result.preserveRecord = false ∧ result.targetName = target ∧
        (db' = db ∨ db' = db.updateRestoreJobState id stateStarted)) := by
  rcases resume_cases hrec with ⟨result', hres, hout⟩ | ⟨hnot, hiff, hres⟩
  · rw [hres] at h
    cases h
    rcases hout with ⟨href, hpres⟩ | ⟨href, hno, hpres, hname⟩
    · exact .inl ⟨href, hpres, rfl⟩
    · exact .inr (.inr ⟨href, hno, hpres, hname, .inl rfl⟩)
  · rw [hres] at h
    obtain ⟨hpres, ⟨he, hname, hdb⟩ | ⟨⟨name, hn⟩, hname, hdb⟩⟩ := doUpToLoop_returned htarget hrec h
    · exact .inr (.inl ⟨hiff.mpr he, hpres, hname, hdb⟩)
    · refine .inr (.inr ⟨hnot, fun hno => ?_, hpres, hname, hdb⟩)
      obtain ⟨e, he⟩ := hiff.mp hno
      simp [hn] at he

/-- A job that is not there is not touched before the cleanup. -/
theorem resume_returned_noRow (hrec : db.fetchRestoreJob id = none)
    (h : resume cfg running env jobName id db = .returned result db') : db' = db := by
  obtain ⟨result', hres⟩ := resume_noRow hrec
  rw [hres] at h
  cases h
  rfl

theorem resumeRestoreJob_ne_elsewhere {targetName : Str} :
    resumeRestoreJob env id targetName db ≠ .elsewhere := by
  unfold resumeRestoreJob
  dsimp only
  split
  · simp
  · split
    · simp
    · split
      · simp
      · split
        · simp
        · split
          · simp
          · simp

theorem doUpToLoop_ne_elsewhere (htarget : target ≠ []) (hrec : db.fetchRestoreJob id = some rec) :
    doUpToLoop cfg running env jobName id rec.targetName db ≠ .elsewhere := by
  unfold doUpToLoop
  split
  · simp
  · rename_i name hfind
    split
    · simp
    · rw [if_pos ⟨findTarget_eq htarget hrec hfind, restoreJobExists_of_fetch hrec⟩]
      exact resumeRestoreJob_ne_elsewhere

theorem resume_ne_elsewhere (htarget : target ≠ []) :
    resume cfg running env jobName id db ≠ .elsewhere := by
  intro h
  cases hrec : db.fetchRestoreJob id with
  | none =>
      obtain ⟨result, hres⟩ := resume_noRow hrec
      rw [hres] at h
      cases h
  | some rec =>
      rcases resume_cases hrec with ⟨result, hres, -⟩ | ⟨-, -, hres⟩
      · rw [hres] at h
        cases h
      · exact doUpToLoop_ne_elsewhere htarget hrec (hres.symm.trans h)

end

/-! ### What is left of the record -/

/-- What is stored of a job is as it was, apart from the times; the state too, if the
request was refused. -/
structure Untouched {target : Str} (id : Str) (refused : Bool) (db db' : RestoreDb target) : Prop where
  restoreFiles : db'.restoreFiles id = db.restoreFiles id
  restoreCounters : db'.restoreCounters id = db.restoreCounters id
  report : (db'.fetchRestoreJob id).map JobRecord.report = (db.fetchRestoreJob id).map JobRecord.report
  state : refused = true →
    (db'.fetchRestoreJob id).map JobRecord.state = (db.fetchRestoreJob id).map JobRecord.state

theorem Untouched.refl {target : Str} (id : Str) (refused : Bool) (db : RestoreDb target) :
    Untouched id refused db db := ⟨rfl, rfl, rfl, fun _ => rfl⟩

section

variable {target : Str} {env : Env} {id : Str} {db db' : RestoreDb target} {result : Result}

theorem cleanupAfterRestore_of_preserve (h : result.preserveRecord = true) :
    cleanupAfterRestore env id result db = db := if_pos h

theorem cleanupAfterRestore_of_noTarget (hpres : result.preserveRecord = false)
    (h : result.targetName = []) : cleanupAfterRestore env id result db = db := by
  simp [cleanupAfterRestore, hpres, h]

theorem cleanupAfterRestore_of_target (htarget : target ≠ []) (hpres : result.preserveRecord = false)
    (h : result.targetName = target) :
    cleanupAfterRestore env id result db =
      if env.finalizeOk then db.updateRestoreJobFinal id env.endTime result.state env.jobReport
      else db := by
  cases hf : env.finalizeOk <;> simp [cleanupAfterRestore, hpres, h, htarget, hf]

/-- There is nothing to finalize of a job that is not there. -/
theorem cleanupAfterRestore_noRow (refused : Bool) (h : db.fetchRestoreJob id = none) :
    Untouched id refused db (cleanupAfterRestore env id result db) := by
  unfold cleanupAfterRestore
  split
  · exact .refl id refused db
  · split
    · exact .refl id refused db
    · split
      · exact .refl id refused db
      · split
        · exact .refl id refused db
        · exact ⟨rfl, rfl, by simp [h], fun _ => by simp [h]⟩

theorem Untouched.started (hdb : db' = db ∨ db' = db.updateRestoreJobState id stateStarted) :
    Untouched id false db db' := by
  rcases hdb with rfl | rfl
  · exact .refl id false _
  · refine ⟨rfl, rfl, ?_, by simp⟩
    rw [fetchRestoreJob_updateRestoreJobState, Option.map_map]
    rfl

/-- Once the job is finalized, its report is the one that was encoded. -/
theorem Untouched.final_iff {rec : JobRecord} (hrec : db.fetchRestoreJob id = some rec)
    (h : Untouched id false db db') (endTime : ℤ) (state report : Str) :
    Untouched id false db (db'.updateRestoreJobFinal id endTime state report) ↔
      report = rec.report := by
  have hreport : ((db'.updateRestoreJobFinal id endTime state report).fetchRestoreJob id).map
      JobRecord.report = some report := by
    have hstored := h.report
    rw [hrec, Option.map_some, Option.map_eq_some_iff] at hstored
    obtain ⟨row, hrow, -⟩ := hstored
    simp [hrow]
  constructor
  · intro hfinal
    have heq := hfinal.report
    rw [hreport, hrec] at heq
    exact Option.some.inj heq
  · rintro rfl
    refine ⟨h.restoreFiles, h.restoreCounters, ?_, by simp⟩
    rw [hreport, hrec]
    rfl

end

/-- A resume that ends before it has processed an item leaves what is stored of the job
exactly if it was refused, has no target, or cannot write the final record, or if the
report happens to be the same. -/
theorem untouched_iff {target : Str} (htarget : target ≠ []) (cfg : List ConfigBackup)
    (running : List Shared.JobStatus) (env : Env) (jobName id : Str) (db db' : RestoreDb target)
    (result : Result) (hret : resume cfg running env jobName id db = .returned result db') :
    Untouched id result.preserveRecord db (cleanupAfterRestore env id result db') ↔
      ∀ rec, db.fetchRestoreJob id = some rec →
        Refused env rec ∨ NoTarget cfg running env jobName id rec ∨ env.finalizeOk = false ∨
          env.jobReport = rec.report := by
  cases hrec : db.fetchRestoreJob id with
  | none =>
      obtain rfl := resume_returned_noRow hrec hret
      exact iff_of_true (cleanupAfterRestore_noRow _ hrec) (fun _ h => by cases h)
  | some rec =>
      have hone : ∀ P : JobRecord → Prop, (∀ rec', some rec = some rec' → P rec') ↔ P rec :=
        fun P => ⟨fun h => h rec rfl, fun h rec' heq => Option.some.inj heq ▸ h⟩
      rw [hone]
      rcases resume_returned htarget hrec hret with
        ⟨href, hpres, rfl⟩ | ⟨hno, hpres, hname, rfl⟩ | ⟨href, hno, hpres, hname, hdb⟩
      · rw [cleanupAfterRestore_of_preserve hpres]
        exact iff_of_true (.refl _ _ _) (.inl href)
      · rw [cleanupAfterRestore_of_noTarget hpres hname]
        exact iff_of_true (.refl _ _ _) (.inr (.inl hno))
      · have hstarted := Untouched.started hdb
        rw [cleanupAfterRestore_of_target htarget hpres hname, hpres]
        cases hfin : env.finalizeOk with
        | false => exact iff_of_true hstarted (.inr (.inr (.inl rfl)))
        | true =>
            rw [if_pos rfl, hstarted.final_iff hrec]
            simp [href, hno]

def oneJob (state : String) : RestoreDb "bucket".toList :=
  ⟨[⟨"job".toList, "bucket".toList, 1, state.toList, "twenty files".toList, [], []⟩], fun _ => [],
    fun _ => none, by simp⟩

def smoothEnv : Env :=
  ⟨true, true, fun _ => some [], some 1, true, true, true, true, true, true, true, true, true, true,
    false, "no files".toList, 2, true⟩

def homeConfig : List ConfigBackup := [⟨"home".toList, ["bucket".toList]⟩]

def homeRunning : List Shared.JobStatus :=
  [Shared.newJob .restore Shared.restoreCounters Shared.restoreTexts "home".toList "job".toList 1]

/-- A job that has finished is not resumed, and keeps its record. -/
theorem untouched_finished :
    Untouched "job".toList true (oneJob "finished")
      (cleanupAfterRestore smoothEnv "job".toList
        ⟨stateFailed, some (.notResumable "finished".toList), true, "bucket".toList⟩
        (oneJob "finished")) := by
  refine (untouched_iff (by decide) homeConfig homeRunning smoothEnv "home".toList "job".toList
    (oneJob "finished") (oneJob "finished")
    ⟨stateFailed, some (.notResumable "finished".toList), true, "bucket".toList⟩ rfl).mpr ?_
  intro rec hrec
  obtain rfl := Option.some.inj hrec
  exact .inl ⟨rfl, .inr (by decide)⟩

/-- A cancelled job is resumed, but the object store cannot be initialised. No item was
looked at, and the report is gone. -/
theorem not_untouched_objectStore :
    resume homeConfig homeRunning { smoothEnv with getObjectStores := none } "home".toList
        "job".toList (oneJob "cancelled") =
      .returned (failure .getObjectStores "bucket".toList) (oneJob "cancelled") ∧
    ¬ Untouched "job".toList false (oneJob "cancelled")
      (cleanupAfterRestore { smoothEnv with getObjectStores := none } "job".toList
        (failure .getObjectStores "bucket".toList) (oneJob "cancelled")) := by
  refine ⟨rfl, fun h => ?_⟩
  have hreport := h.report
  revert hreport
  decide

/-! ### The same resume in the life of a job -/

def stateText : JobState → Str
  | .started => stateStarted
  | .finished => stateFinished
  | .cancelled => stateCancelled
  | .failed => stateFailed
  | .crashed => "crashed".toList

theorem isResumableState_stateText (state : JobState) :
    isResumableState (stateText state) = state.isResumable := by
  cases state <;> decide

structure Represents {target : Str} (id : Str) (db : RestoreDb target) (s : Stored) : Prop where
  jobs : (db.fetchRestoreJob id).map JobRecord.state = s.jobs.map stateText
  restoreCounters : db.restoreCounters id = s.restoreCounters
  restoreFiles : db.restoreFiles id = s.restoreFiles

def lifeEnv (cfg : List ConfigBackup) (running : List Shared.JobStatus) (env : Env) (jobName id : Str)
    (stored : Option JobRecord) : Restore.Env where
  opening := if !env.openRestoreDbOk then .failed else if !env.fetchOk then .fetchFailed else .ok
  bringUp :=
    match stored with
    | none => .ok
    | some rec =>
        if !decodes env rec.requestFiles then .failed true
        else if !decodes env rec.exclusions then .failed true
        else
          match findTarget cfg running jobName id rec.targetName, bringUp env with
          | .error _, _ => .failed false
          | .ok _, .error _ => .failed true
          | .ok _, .ok () => .ok
  insertJobOk := true
  initCounterRowOk := true
  fetchOk := true
  manifestOk := true
  readCountersOk := env.readCountersOk
  updateStateOk := env.updateStateOk
  loadOk := env.loadOk
  ctxDone := fun _ => env.ctxDone
  outcome := fun _ => .failed
  stmtOk := fun _ _ => true
  ctxCanceled := false
  finalizeOk := env.finalizeOk
  crashAfter := none

section

variable {target : Str} {id : Str} {db db' : RestoreDb target} {s : Stored} {env : Env} {result : Result}

theorem Represents.markRestoreRunning (h : Represents id db s) : Represents id db (markRestoreRunning s) :=
  ⟨h.jobs, h.restoreCounters, h.restoreFiles⟩

theorem Represents.seedCounters (h : Represents id db s) (counters : Option Counters) :
    Represents id db ((Effect.seedCounters counters).apply s) :=
  ⟨h.jobs, h.restoreCounters, h.restoreFiles⟩

theorem Represents.updateJobState (h : Represents id db s) (state : JobState) :
    Represents id (db.updateRestoreJobState id (stateText state)) ((Effect.updateJobState state).apply s) := by
  refine ⟨?_, h.restoreCounters, h.restoreFiles⟩
  have hjobs := congrArg (Option.map fun _ => stateText state) h.jobs
  simpa [Effect.apply, Option.map_map, Function.comp_def] using hjobs

theorem Represents.finalize (h : Represents id db s) {life : Restore.Env}
    (hlife : life.finalizeOk = env.finalizeOk) (state : JobState) :
    Represents id
      (if env.finalizeOk then db.updateRestoreJobFinal id env.endTime (stateText state) env.jobReport else db)
      (applyAll (finalize life state).flatten s) := by
  rw [Restore.finalize, hlife]
  cases env.finalizeOk with
  | false => exact h
  | true =>
      refine ⟨?_, h.restoreCounters, h.restoreFiles⟩
      have hjobs := congrArg (Option.map fun _ => stateText state) h.jobs
      simpa [Effect.apply, Option.map_map, Function.comp_def] using hjobs

end

section

variable {s : Stored} {selected : List Database.RemoteFile}

theorem doRestore_resumed (hjobs : s.jobs ≠ none) (life : Restore.Env) :
    doRestore selected life s =
      let init : List (List Effect) := [[.seedCounters s.restoreCounters], [.updateJobState .started]]
      if !life.readCountersOk then ([], .failed)
      else if !life.updateStateOk then ([[.seedCounters s.restoreCounters]], .failed)
      else if !life.loadOk then (init, .failed)
      else if loadPendingManifest s.restoreFiles = [] then (init, .finished)
      else
        (init ++ (processItems life (loadPendingManifest s.restoreFiles) false).1,
          (processItems life (loadPendingManifest s.restoreFiles) false).2) := by
  simp only [doRestore, initRestoreJob, if_neg hjobs]
  by_cases hread : life.readCountersOk = true
  · by_cases hupdate : life.updateStateOk = true
    · simp only [hread, hupdate, Bool.not_true, Bool.false_eq_true, if_false, Bool.false_or]
      rfl
    · simp [hread, hupdate]
  · simp [hread]

theorem step_resume_opened {life : Restore.Env} (hopening : life.opening = .ok)
    (hcrash : life.crashAfter = none) :
    step selected (.resume life) s =
      if s.jobs.any JobState.isResumable then
        applyAll (jobScript selected life (markRestoreRunning s)).flatten (markRestoreRunning s)
      else markRestoreRunning s := by
  rw [step, hopening]
  dsimp only [runScript]
  rw [hcrash]
  rfl

/-- A loop that finds the job cancelled at its first item. -/
theorem processItems_of_ctxDone {life : Restore.Env} (hctx : ∀ item, life.ctxDone item = true)
    {items : List Database.RemoteFile} (hitems : items ≠ []) (restoredAny : Bool) :
    processItems life items restoredAny = ([], .cancelled) := by
  cases items with
  | nil => exact absurd rfl hitems
  | cons item items => rw [processItems, if_pos (hctx item)]

end

section

variable {target : Str} {id : Str} {db db' : RestoreDb target} {s : Stored} {env : Env} {result : Result}
  {cfg : List ConfigBackup} {running : List Shared.JobStatus} {jobName : Str}
  {selected : List Database.RemoteFile}

/-- A job that is there is resumed in the same way, up to the loop. -/
theorem resumeRestoreJob_represents (h : Represents id db s) (hjobs : s.jobs ≠ none) {life : Restore.Env}
    (hread : life.readCountersOk = env.readCountersOk) (hupdate : life.updateStateOk = env.updateStateOk)
    (hload : life.loadOk = env.loadOk) (hctx : ∀ item, life.ctxDone item = env.ctxDone) {targetName : Str}
    (hret : resumeRestoreJob env id targetName db = .returned result db') :
    result.state = stateText (doRestore selected life s).2 ∧
      Represents id db' (applyAll (doRestore selected life s).1.flatten s) := by
  have hseed := h.seedCounters s.restoreCounters
  have hstarted := hseed.updateJobState .started
  rw [doRestore_resumed hjobs, hread, hupdate, hload]
  unfold resumeRestoreJob at hret
  split at hret
  · rename_i hread'
    cases hret
    rw [if_pos hread']
    exact ⟨rfl, h⟩
  · rename_i hread'
    rw [if_neg hread']
    split at hret
    · rename_i hupdate'
      cases hret
      rw [if_pos hupdate']
      exact ⟨rfl, hseed⟩
    · rename_i hupdate'
      rw [if_neg hupdate']
      dsimp only at hret
      split at hret
      · rename_i hload'
        cases hret
        rw [if_pos hload']
        exact ⟨rfl, hstarted⟩
      · rename_i hload'
        have hfiles : (db.updateRestoreJobState id stateStarted).restoreFiles id = s.restoreFiles :=
          h.restoreFiles
        rw [if_neg hload']
        rw [hfiles] at hret
        split at hret
        · rename_i hitems
          cases hret
          rw [if_pos hitems]
          exact ⟨rfl, hstarted⟩
        · rename_i hitems
          rw [if_neg hitems]
          split at hret
          · rename_i hctx'
            cases hret
            rw [processItems_of_ctxDone (fun item => (hctx item).trans hctx') hitems, List.append_nil]
            exact ⟨rfl, hstarted⟩
          · cases hret

theorem Represents.failed (htarget : target ≠ []) (h : Represents id db s) {life : Restore.Env}
    (hup : life.bringUp = .failed true) (hlife : life.finalizeOk = env.finalizeOk) (e : ResumeErr) :
    Represents id (cleanupAfterRestore env id (failure e target) db)
      (applyAll (jobScript selected life s).flatten s) := by
  rw [cleanupAfterRestore_of_target htarget rfl rfl, jobScript, hup]
  exact h.finalize hlife .failed

theorem doUpToLoop_represents (htarget : target ≠ []) {rec : JobRecord}
    (hrec : db.fetchRestoreJob id = some rec) (hfiles : decodes env rec.requestFiles = true)
    (hexclusions : decodes env rec.exclusions = true) (h : Represents id db s)
    (hret : doUpToLoop cfg running env jobName id rec.targetName db = .returned result db') :
    Represents id (cleanupAfterRestore env id result db')
      (applyAll (jobScript selected (lifeEnv cfg running env jobName id (some rec)) s).flatten s) := by
  unfold doUpToLoop at hret
  cases hfind : findTarget cfg running jobName id rec.targetName with
  | error e =>
      have hup : (lifeEnv cfg running env jobName id (some rec)).bringUp = .failed false := by
        simp [lifeEnv, hfiles, hexclusions, hfind]
      rw [hfind] at hret
      cases hret
      rw [cleanupAfterRestore_of_noTarget rfl rfl, jobScript, hup]
      exact h
  | ok name =>
      obtain rfl := findTarget_eq htarget hrec hfind
      simp only [hfind] at hret
      cases hbring : bringUp env with
      | error e =>
          have hup : (lifeEnv cfg running env jobName id (some rec)).bringUp = .failed true := by
            simp [lifeEnv, hfiles, hexclusions, hfind, hbring]
          rw [hbring] at hret
          cases hret
          exact h.failed htarget hup rfl e
      | ok _ =>
          have hup : (lifeEnv cfg running env jobName id (some rec)).bringUp = .ok := by
            simp [lifeEnv, hfiles, hexclusions, hfind, hbring]
          have hjobs : s.jobs ≠ none := by
            intro hnone
            have hstored := h.jobs
            rw [hrec, hnone] at hstored
            cases hstored
          simp only [hbring, restoreJobExists_of_fetch hrec, and_self, if_true] at hret
          obtain ⟨hpres, hname, -⟩ := resumeRestoreJob_returned hret
          obtain ⟨hstate, hdb⟩ := @resumeRestoreJob_represents _ _ _ _ _ _ _ selected h hjobs
            (lifeEnv cfg running env jobName id (some rec)) rfl rfl rfl (fun _ => rfl) _ hret
          rw [cleanupAfterRestore_of_target htarget hpres hname, hstate, jobScript, hup]
          simp only [List.flatten_append, applyAll_append]
          exact hdb.finalize rfl _

theorem resumable_represents (htarget : target ≠ []) {rec : JobRecord}
    (hrec : db.fetchRestoreJob id = some rec) (hopen : env.openRestoreDbOk = true)
    (hfetch : env.fetchOk = true) (hresumable : isResumableState rec.state = true) (h : Represents id db s)
    (hret : resume cfg running env jobName id db = .returned result db') :
    Represents id (cleanupAfterRestore env id result db')
      (applyAll (jobScript selected (lifeEnv cfg running env jobName id (some rec)) s).flatten s) := by
  simp only [resume, hopen, hfetch, hrec, hresumable, Bool.not_true, Bool.false_eq_true, if_false] at hret
  cases hfiles : decodes env rec.requestFiles with
  | false =>
      simp only [hfiles, Bool.not_false, if_true] at hret
      cases hret
      exact h.failed htarget (by simp [lifeEnv, hfiles]) rfl _
  | true =>
      cases hexclusions : decodes env rec.exclusions with
      | false =>
          simp only [hfiles, hexclusions, Bool.not_true, Bool.not_false, Bool.false_eq_true, if_true,
            if_false] at hret
          cases hret
          exact h.failed htarget (by simp [lifeEnv, hfiles, hexclusions]) rfl _
      | true =>
          simp only [hfiles, hexclusions, Bool.not_true, Bool.false_eq_true, if_false] at hret
          exact doUpToLoop_represents htarget hrec hfiles hexclusions h hret

/-- A resume that ends before it has processed an item is a step in the life of its job. -/
theorem resume_represents (htarget : target ≠ []) (h : Represents id db s)
    (hret : resume cfg running env jobName id db = .returned result db') :
    Represents id (cleanupAfterRestore env id result db')
      (step selected (.resume (lifeEnv cfg running env jobName id (db.fetchRestoreJob id))) s) := by
  have hrunning := h.markRestoreRunning
  cases hopen : env.openRestoreDbOk with
  | false =>
      simp only [resume, hopen, Bool.not_false, if_true] at hret
      cases hret
      rw [cleanupAfterRestore_of_target htarget rfl rfl, step]
      simp only [lifeEnv, hopen, runScript]
      exact hrunning.finalize rfl .failed
  | true =>
      cases hfetch : env.fetchOk with
      | false =>
          simp only [resume, hopen, hfetch, Bool.not_true, Bool.not_false, Bool.false_eq_true, if_true,
            if_false] at hret
          cases hret
          rw [cleanupAfterRestore_of_preserve rfl, step]
          simp only [lifeEnv, hopen, hfetch]
          exact hrunning
      | true =>
          rw [step_resume_opened (by simp [lifeEnv, hopen, hfetch]) rfl]
          have hstored := h.jobs
          cases hrec : db.fetchRestoreJob id with
          | none =>
              simp only [resume, hopen, hfetch, hrec, Bool.not_true, Bool.false_eq_true, if_false] at hret
              cases hret
              rw [hrec] at hstored
              rw [cleanupAfterRestore_of_preserve rfl, Option.map_eq_none_iff.mp hstored.symm]
              exact hrunning
          | some rec =>
              rw [hrec, Option.map_some] at hstored
              obtain ⟨state, hstate, htext⟩ := Option.map_eq_some_iff.mp hstored.symm
              rw [hstate, Option.any_some, ← isResumableState_stateText, htext]
              cases hresumable : isResumableState rec.state with
              | false =>
                  simp only [resume, hopen, hfetch, hrec, hresumable, Bool.not_true, Bool.not_false,
                    Bool.false_eq_true, if_true, if_false] at hret
                  cases hret
                  rw [cleanupAfterRestore_of_preserve rfl]
                  exact hrunning
              | true => exact resumable_represents htarget hrec hopen hfetch hresumable hrunning hret

end

end CloudBackup.Restore.Resuming
