import CloudBackup.Restore.Selection

/-!
A restore job over its whole life: it is started, it can be cancelled or crash, and
it can be resumed, any number of times. What is known of it is in the tables of the
restore database; `Do` decides by them what is left to do.

A run of `Do` is the list of the things that it does, one after the other, given how
everything outside of the program turns out. A crash cuts the list off anywhere.

`finished_attempted` and `counters_agree` are about all sequences of runs. The first
fails for a job that crashed before it had its manifest, the second for one that is
resumed with items which have failed or were skipped.
-/

namespace CloudBackup.Restore

open Database ObjectStore Backup Iteration

/-! ### The restore database -/

inductive JobState
  | started
  | finished
  | cancelled
  | failed
  | crashed
  deriving DecidableEq, Repr

/-- `IsResumableState`. -/
def JobState.isResumable : JobState → Bool
  | .cancelled => true
  | .failed => true
  | .crashed => true
  | .started => false
  | .finished => false

inductive FileState
  | pending
  | inProgress
  | done
  | failed
  | skipped
  deriving DecidableEq, Repr

inductive CounterName
  | restoredFiles
  | restoredDirectories
  | restoredSymlinks
  | failedToRestoreFiles
  | skippedDeleteMarkers
  | bytesRestored
  deriving DecidableEq, Repr

abbrev Counters := CounterName → ℤ

/-- A row of `restore_files`. It takes over the columns of `remote_files`; the target
and the job of these are not used. -/
structure RestoreFile where
  row : RemoteFile
  state : FileState
  deriving DecidableEq, Repr

/-- The tables, as far as one job goes, and `StatsCounters` of its run. Nothing is
counted there under the name of `bytes_restored`. -/
@[ext]
structure Stored where
  jobs : Option JobState
  restoreCounters : Option Counters
  restoreFiles : List RestoreFile
  statsCounters : Option Counters

def Stored.empty : Stored := ⟨none, none, [], none⟩

inductive Effect
  | insertJob
  | initCounterRow
  | insertManifest (rows : List RemoteFile)
  | updateJobState (state : JobState)
  | setFileState (uuid : Str) (state : FileState)
  | bumpCounter (name : CounterName) (n : ℤ)
  | updateJobFinal (state : JobState)
  | incrementCounter (name : CounterName)
  | seedCounters (counters : Option Counters)

def Counters.bump (c : Counters) (name : CounterName) (n : ℤ) : Counters :=
  fun m => if m = name then c m + n else c m

/-- `INSERT OR IGNORE` for a row of the manifest. -/
def insertManifestRow (files : List RestoreFile) (row : RemoteFile) : List RestoreFile :=
  if (files.map (·.row.uuid)).contains row.uuid then files else files ++ [⟨row, .pending⟩]

def setState (uuid : Str) (state : FileState) (files : List RestoreFile) : List RestoreFile :=
  files.map fun f => if f.row.uuid = uuid then { f with state := state } else f

/-- `SeedCounter` for what `ReadCounters` has read: nothing is seeded without a row,
and nothing under a name that is not there. -/
def seed (counters : Option Counters) (stats : Counters) : Counters :=
  match counters with
  | none => stats
  | some c => fun m => if m = .bytesRestored then stats m else c m

def Effect.apply : Effect → Stored → Stored
  | .insertJob, s => { s with jobs := some .started }
  | .initCounterRow, s => { s with restoreCounters := some (s.restoreCounters.getD fun _ => 0) }
  | .insertManifest rows, s =>
      { s with restoreFiles := rows.foldl insertManifestRow s.restoreFiles }
  | .updateJobState state, s => { s with jobs := s.jobs.map fun _ => state }
  | .setFileState uuid state, s => { s with restoreFiles := setState uuid state s.restoreFiles }
  | .bumpCounter name n, s => { s with restoreCounters := s.restoreCounters.map (·.bump name n) }
  | .updateJobFinal state, s => { s with jobs := s.jobs.map fun _ => state }
  | .incrementCounter name, s => { s with statsCounters := s.statsCounters.map (·.bump name 1) }
  | .seedCounters counters, s => { s with statsCounters := s.statsCounters.map (seed counters) }

def applyAll (effects : List Effect) (s : Stored) : Stored := effects.foldl (fun s e => e.apply s) s

/-- The rows that a request selects: what `fetchItems` finds and then `applyExclusions`. A
statement that SQLite does not take and a bad pattern are errors there. -/
def selectedItems (pathMatch : Str → Str → Option Bool) (db : Db) (req : Request) (exclusions : List Str) :
    List RemoteFile :=
  (foundItems db req).filter (!isPathExcluded pathMatch exclusions ·.localPath)

/-! ### A run -/

inductive BringUp
  | ok
  | failed (targetKnown : Bool)
  deriving DecidableEq, Repr

inductive Opening
  | ok
  | failed
  | fetchFailed
  deriving DecidableEq, Repr

/-- What happens outside of the program during one run: which statements succeed,
when it is cancelled, how `restoreOne` ends, and after how many effects the process
dies. -/
structure Env where
  opening : Opening
  bringUp : BringUp
  insertJobOk : Bool
  initCounterRowOk : Bool
  fetchOk : Bool
  manifestOk : Bool
  readCountersOk : Bool
  updateStateOk : Bool
  loadOk : Bool
  ctxDone : RemoteFile → Bool
  outcome : RemoteFile → Outcome
  stmtOk : RemoteFile → Effect → Bool
  ctxCanceled : Bool
  finalizeOk : Bool
  crashAfter : Option ℕ

def Env.attempt (env : Env) (item : RemoteFile) (e : Effect) : List Effect :=
  if env.stmtOk item e then [e] else []

def restoredCounter : FileType → Option CounterName
  | .dir => some .restoredDirectories
  | .symlink => some .restoredSymlinks
  | .file => some .restoredFiles
  | .unknown => none

/-- What is counted for an item that was restored: by `restoreOne` in memory, and
then in the database. -/
def countDone (item : RemoteFile) : List Effect :=
  ((restoredCounter item.props.type).map Effect.incrementCounter).toList

def bumpDone (env : Env) (item : RemoteFile) : List Effect :=
  match restoredCounter item.props.type with
  | none => []
  | some name => env.attempt item (.bumpCounter name 1) ++
      if item.props.type = .file ∧ 0 < item.props.size then
        env.attempt item (.bumpCounter .bytesRestored item.props.size)
      else []

def processItem (env : Env) (item : RemoteFile) : List Effect :=
  if item.deleteMarker then
    [.incrementCounter .skippedDeleteMarkers] ++
      env.attempt item (.bumpCounter .skippedDeleteMarkers 1) ++
      env.attempt item (.setFileState item.uuid .skipped)
  else
    env.attempt item (.setFileState item.uuid .inProgress) ++
      match env.outcome item with
      | .done _ => countDone item ++ env.attempt item (.setFileState item.uuid .done) ++ bumpDone env item
      | .failed => [.incrementCounter .failedToRestoreFiles] ++
          env.attempt item (.setFileState item.uuid .failed) ++
          env.attempt item (.bumpCounter .failedToRestoreFiles 1)
      | .cancelled => []

def cancelledAt (env : Env) (item : RemoteFile) : Bool :=
  !item.deleteMarker && decide (env.outcome item = .cancelled)

def restoredAt (env : Env) (item : RemoteFile) : Bool :=
  !item.deleteMarker && match env.outcome item with
    | .done _ => true
    | _ => false

def reachedItems (env : Env) : List RemoteFile → List RemoteFile
  | [] => []
  | item :: items =>
      if env.ctxDone item then []
      else item :: if cancelledAt env item then [] else reachedItems env items

def processItems (env : Env) : List RemoteFile → Bool → List (List Effect) × JobState
  | [], restoredAny =>
      ([], if env.ctxCanceled then .cancelled else if restoredAny then .finished else .failed)
  | item :: items, restoredAny =>
      if env.ctxDone item then ([], .cancelled)
      else if cancelledAt env item then ([processItem env item], .cancelled)
      else
        let rest := processItems env items (restoredAny || restoredAt env item)
        (processItem env item :: rest.1, rest.2)

def loadPendingManifest (files : List RestoreFile) : List RemoteFile :=
  ((files.filter (·.state ≠ .done)).map RestoreFile.row).insertionSort fun r r' =>
    rowLe r.props.type r.localPath r'.props.type r'.localPath

section

variable (selected : List RemoteFile)

/-- `initFreshRestoreJob` or `resumeRestoreJob`; `true` if it returns no error. The
rows that the request selects are `selected`. -/
def initRestoreJob (env : Env) (s : Stored) : List (List Effect) × Bool :=
  if s.jobs = none then
    if !env.insertJobOk then ([], false)
    else if !env.initCounterRowOk then ([[.insertJob]], false)
    else if !env.fetchOk || decide (selected = []) || !env.manifestOk then
      ([[.insertJob], [.initCounterRow]], false)
    else ([[.insertJob], [.initCounterRow], [.insertManifest selected]], true)
  else if !env.readCountersOk then ([], false)
  else if !env.updateStateOk then ([[.seedCounters s.restoreCounters]], false)
  else ([[.seedCounters s.restoreCounters], [.updateJobState .started]], true)

/-- `Do`, from where it looks into the restore database. -/
def doRestore (env : Env) (s : Stored) : List (List Effect) × JobState :=
  let init := initRestoreJob selected env s
  if !init.2 || !env.loadOk then (init.1, .failed)
  else
    let items := loadPendingManifest (applyAll init.1.flatten s).restoreFiles
    if items = [] then (init.1, .finished)
    else
      let loop := processItems env items false
      (init.1 ++ loop.1, loop.2)

/-- `FinalizeJobRecord`. -/
def finalize (env : Env) (state : JobState) : List (List Effect) :=
  if env.finalizeOk then [[.updateJobFinal state]] else []

/-- `Do` and `cleanupAfterRestore`. -/
def jobScript (env : Env) (s : Stored) : List (List Effect) :=
  match env.bringUp with
  | .failed targetKnown => if targetKnown then finalize env .failed else []
  | .ok =>
      let result := doRestore selected env s
      result.1 ++ finalize env result.2

/-- What comes of a list of effects: all of it, or what there was time for. What is
in memory is lost with the process. -/
def runScript (env : Env) (script : List (List Effect)) (s : Stored) : Stored :=
  match env.crashAfter with
  | none => applyAll script.flatten s
  | some n => { applyAll (script.flatten.take n) s with statsCounters := none }

inductive Event
  | start (env : Env)
  | resume (env : Env)
  | restart (queryOk : Bool)

def markRestoreRunning (s : Stored) : Stored := { s with statsCounters := some fun _ => 0 }

def step : Event → Stored → Stored
  -- `runRestore`
  | .start env, s => runScript env (jobScript selected env (markRestoreRunning s)) (markRestoreRunning s)
  -- `runResume`; a refusal leaves the record as it is
  | .resume env, s =>
      let s := markRestoreRunning s
      match env.opening with
      | .failed => runScript env (finalize env .failed) s
      | .fetchFailed => s
      | .ok =>
          if s.jobs.any JobState.isResumable then runScript env (jobScript selected env s) s else s
  -- `CheckForCrashedRestoreJobs`
  | .restart queryOk, s =>
      { s with
        jobs := if queryOk then s.jobs.map fun j => if j = .started then .crashed else j else s.jobs
        statsCounters := none }

end

/-! ### What effects leave alone -/

@[simp] theorem applyAll_nil (s : Stored) : applyAll [] s = s := rfl

@[simp] theorem applyAll_cons (e : Effect) (effects : List Effect) (s : Stored) :
    applyAll (e :: effects) s = applyAll effects (e.apply s) := rfl

@[simp] theorem applyAll_append (effects effects' : List Effect) (s : Stored) :
    applyAll (effects ++ effects') s = applyAll effects' (applyAll effects s) :=
  List.foldl_append

def manifest (s : Stored) : List RemoteFile := s.restoreFiles.map RestoreFile.row

theorem setState_twice (uuid : Str) (state state' : FileState) (files : List RestoreFile) :
    setState uuid state (setState uuid state' files) = setState uuid state files := by
  rw [setState, setState, List.map_map]
  apply List.map_congr_left
  intro f _
  rw [Function.comp_apply]
  by_cases huuid : f.row.uuid = uuid <;> simp [huuid]

@[simp] theorem map_row_setState (uuid : Str) (state : FileState) (files : List RestoreFile) :
    (setState uuid state files).map RestoreFile.row = files.map RestoreFile.row := by
  rw [setState, List.map_map]
  apply List.map_congr_left
  intro f _
  rw [Function.comp_apply]
  split <;> rfl

def Effect.inProcess : Effect → Bool
  | .updateJobState state => state = .started
  | .setFileState _ _ => true
  | .bumpCounter _ _ => true
  | .incrementCounter _ => true
  | .seedCounters _ => true
  | _ => false

/-- They keep the manifest, and the job is at most started by them. -/
theorem applyAll_inProcess {effects : List Effect} (h : ∀ e ∈ effects, e.inProcess = true) (s : Stored) :
    manifest (applyAll effects s) = manifest s ∧
      ((applyAll effects s).jobs = s.jobs ∨ (applyAll effects s).jobs = s.jobs.map fun _ => .started) := by
  induction effects generalizing s with
  | nil => exact ⟨rfl, .inl rfl⟩
  | cons e effects ih =>
      obtain ⟨hmanifest, hjobs⟩ := ih (fun e' he' => h e' (List.mem_cons_of_mem e he')) (e.apply s)
      have he := h e (by simp)
      rw [applyAll_cons, hmanifest]
      cases e with
      | updateJobState state =>
          obtain rfl : state = .started := by simpa [Effect.inProcess] using he
          refine ⟨rfl, .inr ?_⟩
          rcases hjobs with hjobs | hjobs
          · rw [hjobs]
            rfl
          · rw [hjobs, Effect.apply, Option.map_map]
            rfl
      | setFileState uuid state => exact ⟨map_row_setState uuid state s.restoreFiles, hjobs⟩
      | bumpCounter name n => exact ⟨rfl, hjobs⟩
      | incrementCounter name => exact ⟨rfl, hjobs⟩
      | seedCounters counters => exact ⟨rfl, hjobs⟩
      | insertJob => cases he
      | initCounterRow => cases he
      | insertManifest rows => cases he
      | updateJobFinal state => cases he

theorem mem_attempt {env : Env} {item : RemoteFile} {e e' : Effect} (h : e' ∈ env.attempt item e) :
    e' = e := by
  unfold Env.attempt at h
  split at h
  · exact List.mem_singleton.mp h
  · cases h

theorem processItem_inProcess (env : Env) (item : RemoteFile) :
    ∀ e ∈ processItem env item, e.inProcess = true := by
  have hattempt : ∀ e₀ : Effect, e₀.inProcess = true → ∀ e ∈ env.attempt item e₀, e.inProcess = true := by
    intro e₀ he₀ e he
    rw [mem_attempt he]
    exact he₀
  have hcount : ∀ e ∈ countDone item, e.inProcess = true := by
    intro e he
    unfold countDone at he
    cases hname : restoredCounter item.props.type with
    | none => simp [hname] at he
    | some name =>
        obtain rfl : e = .incrementCounter name := by simpa [hname] using he
        rfl
  have hbump : ∀ e ∈ bumpDone env item, e.inProcess = true := by
    intro e he
    unfold bumpDone at he
    split at he
    · cases he
    · rcases List.mem_append.mp he with he | he
      · exact hattempt _ rfl e he
      · split at he
        · exact hattempt _ rfl e he
        · cases he
  intro e he
  unfold processItem at he
  split at he
  · simp only [List.mem_append, List.mem_singleton] at he
    rcases he with (rfl | he) | he
    · rfl
    · exact hattempt _ rfl e he
    · exact hattempt _ rfl e he
  · rcases List.mem_append.mp he with he | he
    · exact hattempt _ rfl e he
    · split at he
      · simp only [List.mem_append] at he
        rcases he with (he | he) | he
        · exact hcount e he
        · exact hattempt _ rfl e he
        · exact hbump e he
      · simp only [List.mem_append, List.mem_singleton] at he
        rcases he with (rfl | he) | he
        · rfl
        · exact hattempt _ rfl e he
        · exact hattempt _ rfl e he
      · cases he

/-- The groups of effects that the loop puts out are those of the items it gets to. -/
theorem processItems_fst (env : Env) (items : List RemoteFile) (restoredAny : Bool) :
    (processItems env items restoredAny).1 = (reachedItems env items).map (processItem env) := by
  induction items generalizing restoredAny with
  | nil => rfl
  | cons item items ih =>
      unfold processItems reachedItems
      split
      · rfl
      · split
        · rfl
        · rw [List.map_cons, ← ih]

theorem processItems_inProcess (env : Env) (items : List RemoteFile) (restoredAny : Bool) :
    ∀ e ∈ (processItems env items restoredAny).1.flatten, e.inProcess = true := by
  intro e he
  rw [processItems_fst] at he
  obtain ⟨group, hgroup, he⟩ := List.mem_flatten.mp he
  obtain ⟨item, -, rfl⟩ := List.mem_map.mp hgroup
  exact processItem_inProcess env item e he

/-! ### A job that is finished -/

def FileState.attempted : FileState → Bool
  | .done => true
  | .failed => true
  | .skipped => true
  | .pending => false
  | .inProgress => false

/-- A job that is finished has tried every row that its request selects. -/
def AllAttempted (selected : List RemoteFile) (s : Stored) : Prop :=
  s.jobs = some .finished →
    ∀ r ∈ selected, ∃ f ∈ s.restoreFiles, f.row.uuid = r.uuid ∧ f.state.attempted = true

/-- A run that adds the row of the job goes on until it has its manifest, or there is
nothing to select. -/
def WritesManifest (selected : List RemoteFile) (env : Env) (s : Stored) : Prop :=
  s.jobs = none → env.bringUp = .ok → env.insertJobOk = true → selected = [] ∨
    env.initCounterRowOk = true ∧ env.fetchOk = true ∧ env.manifestOk = true ∧
      ∀ n, env.crashAfter = some n → n = 0 ∨ 3 ≤ n

def SetsStates (env : Env) : Prop :=
  ∀ item state, env.stmtOk item (.setFileState item.uuid state) = true

/-- A job is started once; and a run does what is said above. -/
def Event.uninterrupted (selected : List RemoteFile) (ev : Event) (s : Stored) : Prop :=
  match ev with
  | .start env => s.jobs = none ∧ WritesManifest selected env s ∧ SetsStates env
  | .resume env => SetsStates env
  | .restart _ => True

section

variable {selected : List RemoteFile} {env : Env}

/-- An item that the loop goes through is in a final state. -/
theorem processItem_restoreFiles (hstates : SetsStates env) {item : RemoteFile}
    (hcancel : cancelledAt env item = false) (s : Stored) : ∃ state : FileState, state.attempted = true ∧
      (applyAll (processItem env item) s).restoreFiles = setState item.uuid state s.restoreFiles := by
  have hattempt : ∀ state s, applyAll (env.attempt item (.setFileState item.uuid state)) s =
      { s with restoreFiles := setState item.uuid state s.restoreFiles } := by
    intro state s
    rw [Env.attempt, if_pos (hstates item state)]
    rfl
  have hbump : ∀ name n s, (applyAll (env.attempt item (.bumpCounter name n)) s).restoreFiles =
      s.restoreFiles := by
    intro name n s
    unfold Env.attempt
    split <;> rfl
  unfold processItem
  cases hmarker : item.deleteMarker with
  | true =>
      refine ⟨.skipped, rfl, ?_⟩
      simp only [if_true, applyAll_append, hattempt, hbump, applyAll_cons, applyAll_nil, Effect.apply]
  | false =>
      simp only [Bool.false_eq_true, if_false, applyAll_append, hattempt]
      cases houtcome : env.outcome item with
      | done written =>
          refine ⟨.done, rfl, ?_⟩
          have hcount : ∀ s, (applyAll (countDone item) s).restoreFiles = s.restoreFiles := by
            intro s
            unfold countDone
            cases restoredCounter item.props.type <;> rfl
          have hdone : ∀ s, (applyAll (bumpDone env item) s).restoreFiles = s.restoreFiles := by
            intro s
            unfold bumpDone
            split
            · rfl
            · rw [applyAll_append]
              split
              · rw [hbump, hbump]
              · rw [applyAll_nil, hbump]
          simp only [applyAll_append, hattempt, hdone, hcount, setState_twice]
      | failed =>
          refine ⟨.failed, rfl, ?_⟩
          simp only [applyAll_append, hattempt, hbump, applyAll_cons, applyAll_nil, Effect.apply, setState_twice]
      | cancelled =>
          simp [cancelledAt, hmarker, houtcome] at hcancel

/-- If the loop goes through, all its items are in a final state, and nothing else
has changed. -/
theorem processItems_finished (hstates : SetsStates env) {items : List RemoteFile} {restoredAny : Bool}
    (hend : (processItems env items restoredAny).2 = .finished) (s : Stored) :
    ∀ f ∈ (applyAll (processItems env items restoredAny).1.flatten s).restoreFiles,
      f.state.attempted = true ∨ (f ∈ s.restoreFiles ∧ f.row.uuid ∉ items.map RemoteFile.uuid) := by
  induction items generalizing restoredAny s with
  | nil => exact fun f hf => .inr ⟨hf, by simp⟩
  | cons item items ih =>
      unfold processItems at hend ⊢
      split at hend
      · cases hend
      · rename_i hctx
        split at hend
        · cases hend
        · rename_i hcancel
          rw [Bool.not_eq_true] at hcancel
          rw [if_neg hctx, hcancel]
          simp only [Bool.false_eq_true, if_false, List.flatten_cons, applyAll_append]
          intro f hf
          obtain ⟨state, hattempted, hset⟩ := processItem_restoreFiles hstates hcancel s
          rcases ih hend (applyAll (processItem env item) s) f hf with hdone | ⟨hmem, hnot⟩
          · exact .inl hdone
          · rw [hset] at hmem
            obtain ⟨f', hf', rfl⟩ := List.mem_map.mp hmem
            by_cases huuid : f'.row.uuid = item.uuid
            · left
              rw [if_pos huuid]
              exact hattempted
            · right
              rw [if_neg huuid] at hnot ⊢
              simp [hf', huuid, hnot]

theorem mem_loadPendingManifest {files : List RestoreFile} {f : RestoreFile} (hf : f ∈ files)
    (hstate : f.state ≠ .done) : f.row ∈ loadPendingManifest files := by
  rw [loadPendingManifest, List.mem_insertionSort]
  exact List.mem_map_of_mem (List.mem_filter.mpr ⟨hf, by simpa using hstate⟩)

/-- The manifest of a job that exists is complete, and all of it was tried if the job
is finished. -/
structure Sound (selected : List RemoteFile) (s : Stored) : Prop where
  complete : s.jobs ≠ none → ∀ r ∈ selected, r.uuid ∈ (manifest s).map RemoteFile.uuid
  tried : s.jobs = some .finished → ∀ f ∈ s.restoreFiles, f.state.attempted = true

theorem Sound.allAttempted {s : Stored} (h : Sound selected s) : AllAttempted selected s := by
  intro hfinished r hr
  have hmem := h.complete (by simp [hfinished]) r hr
  rw [manifest, List.map_map] at hmem
  obtain ⟨f, hf, huuid⟩ := List.mem_map.mp hmem
  exact ⟨f, hf, huuid, h.tried hfinished f hf⟩

def UnderWay (selected : List RemoteFile) (s : Stored) : Prop :=
  (s.jobs ≠ none → ∀ r ∈ selected, r.uuid ∈ (manifest s).map RemoteFile.uuid) ∧ s.jobs ≠ some .finished

theorem UnderWay.sound {s : Stored} (h : UnderWay selected s) : Sound selected s :=
  ⟨h.1, fun hfinished => absurd hfinished h.2⟩

theorem UnderWay.inProcess {s : Stored} (h : UnderWay selected s) {effects : List Effect}
    (heffects : ∀ e ∈ effects, e.inProcess = true) : UnderWay selected (applyAll effects s) := by
  obtain ⟨hmanifest, hjobs⟩ := applyAll_inProcess heffects s
  unfold UnderWay
  rw [hmanifest]
  rcases hjobs with hjobs | hjobs
  · rw [hjobs]
    exact h
  · rw [hjobs]
    refine ⟨fun hne => h.1 (by simpa using hne), ?_⟩
    cases s.jobs <;> simp

/-- What the end of a run, or a crash before it, leaves behind. -/
theorem runScript_sound {script : List (List Effect)} {state : JobState} {s : Stored}
    (hcut : ∀ n, env.crashAfter = some n → UnderWay selected (applyAll (script.flatten.take n) s))
    (hfull : UnderWay selected (applyAll script.flatten s))
    (htried : state = .finished →
      ∀ f ∈ (applyAll script.flatten s).restoreFiles, f.state.attempted = true) :
    Sound selected (runScript env (script ++ finalize env state) s) := by
  have hend : Sound selected (applyAll (finalize env state).flatten (applyAll script.flatten s)) := by
    unfold finalize
    split
    · simp only [List.flatten_cons, List.flatten_nil, List.append_nil, applyAll_cons, applyAll_nil]
      constructor
      · intro hne
        exact hfull.1 fun hnone => hne (by simp [Effect.apply, hnone])
      · intro hfinished
        have hstate : state = .finished := by
          simp only [Effect.apply, Option.map_eq_some_iff] at hfinished
          obtain ⟨_, -, hstate⟩ := hfinished
          exact hstate
        exact htried hstate
    · exact hfull.sound
  unfold runScript
  rw [List.flatten_append]
  cases hcrash : env.crashAfter with
  | none =>
      rw [applyAll_append]
      exact hend
  | some n =>
      -- what is in memory plays no part
      suffices hsound : Sound selected
          (applyAll ((script.flatten ++ (finalize env state).flatten).take n) s) from ⟨hsound.1, hsound.2⟩
      rw [List.take_append]
      by_cases hn : n ≤ script.flatten.length
      · rw [Nat.sub_eq_zero_of_le hn, List.take_zero, List.append_nil]
        exact (hcut n hcrash).sound
      · have hle : (finalize env state).flatten.length ≤ n - script.flatten.length := by
          unfold finalize
          split
          · simp only [List.flatten_cons, List.flatten_nil, List.length_append, List.length_cons,
              List.length_nil]
            omega
          · simp
        rw [List.take_of_length_le (by omega), List.take_of_length_le hle, applyAll_append]
        exact hend

theorem mem_manifest_insert (rows : List RemoteFile) (files : List RestoreFile) :
    ∀ r ∈ rows, r.uuid ∈ (rows.foldl insertManifestRow files).map (·.row.uuid) := by
  have hgrows : ∀ (row : RemoteFile) (files : List RestoreFile),
      (files.map (·.row.uuid)) ⊆ (insertManifestRow files row).map (·.row.uuid) := by
    intro row files uuid huuid
    unfold insertManifestRow
    split
    · exact huuid
    · rw [List.map_append]
      exact List.mem_append_left _ huuid
  have hkept : ∀ (rows : List RemoteFile) (files : List RestoreFile),
      (files.map (·.row.uuid)) ⊆ (rows.foldl insertManifestRow files).map (·.row.uuid) := by
    intro rows
    induction rows with
    | nil => exact fun files => List.Subset.refl _
    | cons row rows ih => exact fun files => List.Subset.trans (hgrows row files) (ih _)
  induction rows generalizing files with
  | nil => simp
  | cons row rows ih =>
      intro r hr
      rcases List.mem_cons.mp hr with rfl | hr
      · refine hkept rows (insertManifestRow files r) ?_
        unfold insertManifestRow
        split
        · rename_i hmem
          simpa using hmem
        · simp
      · exact ih (insertManifestRow files row) r hr

theorem doRestore_tried (hstates : SetsStates env) {s : Stored}
    (hend : (doRestore selected env s).2 = .finished) :
    ∀ f ∈ (applyAll (doRestore selected env s).1.flatten s).restoreFiles, f.state.attempted = true := by
  have hdone : ∀ (files : List RestoreFile) f, f ∈ files → f.row ∉ loadPendingManifest files →
      f.state.attempted = true := by
    intro files f hf hnot
    have hstate : f.state = .done := by
      by_contra hne
      exact hnot (mem_loadPendingManifest hf hne)
    rw [hstate]
    rfl
  unfold doRestore at hend ⊢
  dsimp only at hend ⊢
  split at hend
  · cases hend
  · rename_i hinit
    rw [if_neg hinit]
    split at hend
    · rename_i hnone
      rw [if_pos hnone]
      intro f hf
      exact hdone _ f hf (by simp [hnone])
    · rename_i hsome
      rw [if_neg hsome, List.flatten_append, applyAll_append]
      intro f hf
      rcases processItems_finished hstates hend _ f hf with hdone' | ⟨hmem, hnot⟩
      · exact hdone'
      · refine hdone _ f hmem fun hpending => hnot ?_
        exact List.mem_map_of_mem hpending

theorem jobs_ne_finished {effects : List Effect} (h : ∀ e ∈ effects, ∀ state, e ≠ .updateJobFinal state)
    (hupdate : ∀ state, .updateJobState state ∈ effects → state = .started) {s : Stored}
    (hs : s.jobs ≠ some .finished) : (applyAll effects s).jobs ≠ some .finished := by
  induction effects generalizing s with
  | nil => exact hs
  | cons e effects ih =>
      refine ih (fun e' he' => h e' (List.mem_cons_of_mem e he'))
        (fun state hstate => hupdate state (List.mem_cons_of_mem e hstate)) ?_
      cases e with
      | insertJob => simp [Effect.apply]
      | updateJobState state =>
          obtain rfl := hupdate state (by simp)
          cases hjobs : s.jobs <;> simp [Effect.apply, hjobs]
      | updateJobFinal state => exact absurd rfl (h _ (by simp) state)
      | initCounterRow => exact hs
      | insertManifest rows => exact hs
      | setFileState uuid state => exact hs
      | bumpCounter name n => exact hs
      | incrementCounter name => exact hs
      | seedCounters counters => exact hs

theorem resume_underWay {s : Stored} (hjobs : s.jobs ≠ none) (h : UnderWay selected s) (n : ℕ) :
    UnderWay selected (applyAll ((doRestore selected env s).1.flatten.take n) s) := by
  apply h.inProcess
  intro e he
  replace he := List.mem_of_mem_take he
  have hinit : ∀ e ∈ (initRestoreJob selected env s).1.flatten, e.inProcess = true := by
    intro e he
    unfold initRestoreJob at he
    rw [if_neg hjobs] at he
    split at he
    · cases he
    · split at he
      · obtain rfl : e = .seedCounters s.restoreCounters := by simpa using he
        rfl
      · obtain rfl | rfl : e = .seedCounters s.restoreCounters ∨ e = .updateJobState .started := by
          simpa using he
        · rfl
        · rfl
  unfold doRestore at he
  dsimp only at he
  split at he
  · exact hinit e he
  · split at he
    · exact hinit e he
    · rw [List.flatten_append, List.mem_append] at he
      rcases he with he | he
      · exact hinit e he
      · exact processItems_inProcess env _ _ e he

/-- The script of a first run that gets to its manifest. -/
theorem doRestore_fresh {s : Stored} (hjobs : s.jobs = none) (hinsert : env.insertJobOk = true)
    (hcounters : env.initCounterRowOk = true) (hfetch : env.fetchOk = true)
    (hmanifest : env.manifestOk = true) (hselected : selected ≠ []) :
    ∃ rest, (∀ e ∈ rest, e.inProcess = true) ∧ (doRestore selected env s).1.flatten =
      [.insertJob, .initCounterRow, .insertManifest selected] ++ rest := by
  have hinit : initRestoreJob selected env s =
      ([[.insertJob], [.initCounterRow], [.insertManifest selected]], true) := by
    simp [initRestoreJob, hjobs, hinsert, hcounters, hfetch, hmanifest, hselected]
  unfold doRestore
  rw [hinit]
  dsimp only
  split
  · exact ⟨[], by simp, rfl⟩
  · split
    · exact ⟨[], by simp, rfl⟩
    · rw [List.flatten_append]
      exact ⟨_, processItems_inProcess env _ _, rfl⟩

/-- The first run of a job, at whatever point it ends, if it is not cut off before it
has its manifest. -/
theorem start_underWay {s : Stored} (hjobs : s.jobs = none) (hwrites : WritesManifest selected env s)
    (hbringUp : env.bringUp = .ok) {n : ℕ}
    (hn : env.insertJobOk = true → selected ≠ [] → n = 0 ∨ 3 ≤ n) :
    UnderWay selected (applyAll ((doRestore selected env s).1.flatten.take n) s) := by
  have hnothing : UnderWay selected s := ⟨fun hne => absurd hjobs hne, by simp [hjobs]⟩
  by_cases hinsert : env.insertJobOk = true
  · by_cases hselected : selected = []
    · -- the job exists without a manifest, but there is nothing to put into it
      subst hselected
      refine ⟨by simp, jobs_ne_finished ?_ ?_ (by simp [hjobs])⟩
      · intro e he state
        have hmem := List.mem_of_mem_take he
        by_cases hcounters : env.initCounterRowOk = true
        · simp [doRestore, initRestoreJob, hjobs, hinsert, hcounters] at hmem
          rcases hmem with rfl | rfl <;> simp
        · simp [doRestore, initRestoreJob, hjobs, hinsert, hcounters] at hmem
          simp [hmem]
      · intro state hstate
        have hmem := List.mem_of_mem_take hstate
        by_cases hcounters : env.initCounterRowOk = true <;>
          simp [doRestore, initRestoreJob, hjobs, hinsert, hcounters] at hmem
    · obtain ⟨hcounters, hfetch, hmanifest, -⟩ := (hwrites hjobs hbringUp hinsert).resolve_left hselected
      obtain ⟨rest, hrest, hscript⟩ := doRestore_fresh hjobs hinsert hcounters hfetch hmanifest hselected
      rcases hn hinsert hselected with rfl | hn
      · rw [List.take_zero]
        exact hnothing
      · rw [hscript, List.take_append, List.take_of_length_le (by simpa using hn), applyAll_append]
        have hstarted : UnderWay selected
            (applyAll [.insertJob, .initCounterRow, .insertManifest selected] s) := by
          refine ⟨fun _ r hr => ?_, by simp [Effect.apply]⟩
          rw [manifest, List.map_map]
          exact mem_manifest_insert selected s.restoreFiles r hr
        exact hstarted.inProcess fun e he => hrest e (List.mem_of_mem_take he)
  · have hscript : (doRestore selected env s).1.flatten = [] := by
      simp [doRestore, initRestoreJob, hjobs, hinsert]
    rw [hscript, List.take_nil]
    exact hnothing

theorem jobScript_sound {s : Stored} (hsound : Sound selected s) (hstates : SetsStates env)
    (hwrites : WritesManifest selected env s) (hjobs : s.jobs ≠ some .finished) :
    Sound selected (runScript env (jobScript selected env s) s) := by
  have hunderWay : UnderWay selected s := ⟨hsound.complete, hjobs⟩
  unfold jobScript
  split
  · rename_i targetKnown _
    have hfail : Sound selected (runScript env ([] ++ finalize env .failed) s) := by
      refine runScript_sound ?_ ?_ nofun
      · intro n _
        simpa using hunderWay
      · simpa using hunderWay
    cases targetKnown with
    | true => simpa using hfail
    | false =>
        unfold runScript
        split
        · exact hsound
        · simp only [Bool.false_eq_true, if_false, List.flatten_nil, List.take_nil, applyAll_nil]
          exact ⟨hsound.complete, hsound.tried⟩
  · rename_i hbringUp
    -- the whole script is the longest of its beginnings
    have hfull : applyAll (doRestore selected env s).1.flatten s = applyAll
        ((doRestore selected env s).1.flatten.take ((doRestore selected env s).1.flatten.length + 3)) s := by
      rw [List.take_of_length_le (by omega)]
    by_cases hnone : s.jobs = none
    · refine runScript_sound ?_ ?_ (doRestore_tried hstates)
      · intro n hcrash
        refine start_underWay hnone hwrites hbringUp ?_
        intro hinsert hselected
        exact ((hwrites hnone hbringUp hinsert).resolve_left hselected).2.2.2 n hcrash
      · rw [hfull]
        exact start_underWay hnone hwrites hbringUp fun _ _ => .inr (by omega)
    · refine runScript_sound ?_ ?_ (doRestore_tried hstates)
      · exact fun n _ => resume_underWay hnone hunderWay n
      · rw [hfull]
        exact resume_underWay hnone hunderWay _

theorem sound_step (ev : Event) {s : Stored} (hsound : Sound selected s)
    (hev : ev.uninterrupted selected s) : Sound selected (step selected ev s) := by
  have hrunning : Sound selected (markRestoreRunning s) := ⟨hsound.complete, hsound.tried⟩
  cases ev with
  | start env =>
      obtain ⟨hnone, hwrites, hstates⟩ := hev
      exact jobScript_sound hrunning hstates hwrites (by simp [markRestoreRunning, hnone])
  | resume env =>
      unfold step
      dsimp only
      split
      · -- the row of the job is set to `failed`, whatever it was
        have hfailed : Sound selected ((Effect.updateJobFinal .failed).apply (markRestoreRunning s)) := by
          constructor
          · intro hne
            exact hsound.complete fun hnone => hne (by simp [Effect.apply, markRestoreRunning, hnone])
          · intro hfinished
            simp [Effect.apply] at hfinished
        unfold runScript finalize
        split <;> split
        · exact hfailed
        · exact hrunning
        · rename_i n _ _
          cases n with
          | zero => exact ⟨hsound.complete, hsound.tried⟩
          | succ n =>
              rw [List.take_of_length_le (by simp)]
              exact ⟨hfailed.complete, hfailed.tried⟩
        · rw [List.flatten_nil, List.take_nil]
          exact ⟨hsound.complete, hsound.tried⟩
      · exact hrunning
      · split
        · rename_i hresumable
          have hjobs : (markRestoreRunning s).jobs ≠ some .finished ∧ (markRestoreRunning s).jobs ≠ none := by
            constructor <;> intro heq <;> simp [heq, JobState.isResumable] at hresumable
          exact jobScript_sound hrunning hev (fun hnone => absurd hnone hjobs.2) hjobs.1
        · exact hrunning
  | restart queryOk =>
      unfold step
      cases queryOk with
      | false => exact ⟨hsound.complete, hsound.tried⟩
      | true =>
          constructor
          · intro hne
            exact hsound.complete fun hnone => hne (by simp [hnone])
          · intro hfinished
            refine hsound.tried ?_
            cases hjobs : s.jobs with
            | none => simp [hjobs] at hfinished
            | some state => cases state <;> simp_all

/-- A finished job has tried everything, if no run of it was cut off between the row
of the job and its manifest, and the states of its items could be written. -/
theorem finished_attempted (pathMatch : Str → Str → Option Bool) (db : Db) (req : Request)
    (exclusions : List Str) {s : Stored}
    (hrun : Reaches (Event.uninterrupted (selectedItems pathMatch db req exclusions))
      (step (selectedItems pathMatch db req exclusions)) Stored.empty s) :
    AllAttempted (selectedItems pathMatch db req exclusions) s := by
  have hsound : Sound (selectedItems pathMatch db req exclusions) s := by
    refine hrun.invariant ⟨fun hne => absurd rfl hne, nofun⟩ ?_
    exact fun ev s hs hev => sound_step ev hs hev
  exact hsound.allAttempted

end

def smoothEnv : Env :=
  ⟨.ok, .ok, true, true, true, true, true, true, true, fun _ => false, fun _ => .done none,
    fun _ _ => true, false, true, none⟩

def twoItems : List RemoteFile :=
  selectedItems (fun _ _ => none) (dirAndFile "/a" "/a/x") ⟨true, [], "job".toList⟩ []

def ranThrough : Stored := step twoItems (.start smoothEnv) Stored.empty

theorem finished_attempted_ranThrough : AllAttempted twoItems ranThrough := by
  have hrun : Reaches (Event.uninterrupted twoItems) (step twoItems) Stored.empty ranThrough :=
    .step _ .refl ⟨rfl, fun _ _ _ => .inr ⟨rfl, rfl, rfl, nofun⟩, fun _ _ => rfl⟩
  exact finished_attempted (fun _ _ => none) (dirAndFile "/a" "/a/x") ⟨true, [], "job".toList⟩ [] hrun

def crashedEarly : Stored :=
  step twoItems (.resume smoothEnv) (step twoItems (.restart true)
    (step twoItems (.start { smoothEnv with crashAfter := some 1 }) Stored.empty))

/-- The job is finished then, and nothing was tried. -/
theorem finished_attempted_crashedEarly : ¬ ∀ s : Stored,
    Reaches (fun _ _ => True) (step twoItems) Stored.empty s → AllAttempted twoItems s := by
  intro hall
  have hreached : Reaches (fun _ _ => True) (step twoItems) Stored.empty crashedEarly :=
    .step _ (.step _ (.step _ .refl trivial) trivial) trivial
  have hfinished : crashedEarly.jobs = some .finished := by decide
  have hfiles : crashedEarly.restoreFiles = [] := by decide
  obtain ⟨f, hf, -⟩ := hall _ hreached hfinished (plainRow "/a" .dir) (by decide)
  rw [hfiles] at hf
  cases hf

/-! ### The counters -/

def weight (row : RemoteFile) (state : FileState) : Counters
  | .restoredFiles => if state = .done ∧ row.props.type = .file then 1 else 0
  | .restoredDirectories => if state = .done ∧ row.props.type = .dir then 1 else 0
  | .restoredSymlinks => if state = .done ∧ row.props.type = .symlink then 1 else 0
  | .failedToRestoreFiles => if state = .failed then 1 else 0
  | .skippedDeleteMarkers => if state = .skipped then 1 else 0
  | .bytesRestored => if state = .done ∧ row.props.type = .file then row.props.size else 0

def doneOf (type : FileType) (files : List RestoreFile) : List RestoreFile :=
  files.filter fun f => f.state = .done ∧ f.row.props.type = type

/-- What the counters should be: numbers of rows in a state, and a sum of sizes. -/
def tally (files : List RestoreFile) : Counters
  | .restoredFiles => (doneOf .file files).length
  | .restoredDirectories => (doneOf .dir files).length
  | .restoredSymlinks => (doneOf .symlink files).length
  | .failedToRestoreFiles => (files.filter (·.state = .failed)).length
  | .skippedDeleteMarkers => (files.filter (·.state = .skipped)).length
  | .bytesRestored => ((doneOf .file files).map (·.row.props.size)).sum

def InMemory (s : Stored) : Prop :=
  ∀ stats, s.statsCounters = some stats → ∀ name, name ≠ .bytesRestored →
    stats name = s.restoreCounters.getD (fun _ => 0) name

/-- The counters that are stored agree with the manifest, and those in memory with
them. -/
def CountersAgree (s : Stored) : Prop :=
  s.restoreCounters.getD (fun _ => 0) = tally s.restoreFiles ∧ InMemory s

theorem tally_nil : tally [] = fun _ => 0 := by
  funext name
  cases name <;> rfl

theorem tally_cons (f : RestoreFile) (files : List RestoreFile) :
    tally (f :: files) = fun name => weight f.row f.state name + tally files name := by
  funext name
  cases name <;> simp only [tally, weight, doneOf, List.filter_cons] <;> split <;> simp_all <;> omega

/-- The state of one row changes what it counts for, and nothing else. -/
theorem tally_setState {files : List RestoreFile} (hnodup : (files.map (·.row.uuid)).Nodup)
    {f : RestoreFile} (hf : f ∈ files) (state : FileState) : tally (setState f.row.uuid state files) =
      fun name => tally files name - weight f.row f.state name + weight f.row state name := by
  induction files with
  | nil => cases hf
  | cons g files ih =>
      rw [List.map_cons, List.nodup_cons] at hnodup
      have hsplit : setState f.row.uuid state (g :: files) =
          (if g.row.uuid = f.row.uuid then { g with state := state } else g) ::
            setState f.row.uuid state files := rfl
      rw [hsplit, tally_cons, tally_cons]
      rcases List.mem_cons.mp hf with rfl | hf
      · -- no other row has its uuid
        have hrest : setState f.row.uuid state files = files := by
          rw [setState]
          conv_rhs => rw [← List.map_id files]
          apply List.map_congr_left
          intro g hg
          rw [if_neg fun heq => hnodup.1 (List.mem_map.mpr ⟨g, hg, heq⟩)]
          rfl
        rw [if_pos rfl, hrest]
        funext name
        dsimp only
        omega
      · have hne : g.row.uuid ≠ f.row.uuid := fun heq =>
          hnodup.1 (List.mem_map.mpr ⟨f, hf, heq.symm⟩)
        rw [if_neg hne, ih hnodup.2 hf]
        funext name
        dsimp only
        omega

structure Env.NoFailures (env : Env) : Prop where
  opening : env.opening = .ok
  insertJob : env.insertJobOk = true
  initCounterRow : env.initCounterRowOk = true
  fetch : env.fetchOk = true
  manifest : env.manifestOk = true
  readCounters : env.readCountersOk = true
  updateState : env.updateStateOk = true
  load : env.loadOk = true
  finalize : env.finalizeOk = true
  stmt : ∀ item e, env.stmtOk item e = true

/-- The counters that are stored agree, and there is a row for them once there is
something to count. -/
structure Counted (s : Stored) : Prop where
  uuids : (s.restoreFiles.map (·.row.uuid)).Nodup
  row : s.restoreCounters = none → s.restoreFiles = []
  fresh : s.jobs = none → s.restoreCounters = none
  sizes : ∀ f ∈ s.restoreFiles, 0 ≤ f.row.props.size
  agree : s.restoreCounters.getD (fun _ => 0) = tally s.restoreFiles

def FileState.isOpen : FileState → Bool
  | .pending => true
  | .inProgress => true
  | _ => false

def endState (env : Env) (item : RemoteFile) : FileState :=
  if item.deleteMarker then .skipped
  else
    match env.outcome item with
    | .done _ => .done
    | .failed => .failed
    | .cancelled => .inProgress

/-- `c` with the counters of `w` added, other than that of the bytes. -/
def addInMemory (w c : Counters) : Counters := fun name =>
  if name = .bytesRestored then c name else c name + w name

section

variable {env : Env}

theorem bump_eq_add {name : CounterName} {w : Counters} (hw : ∀ m, w m = if m = name then 1 else 0)
    (c : Counters) : c.bump name 1 = fun m => c m + w m := by
  funext m
  rw [Counters.bump, hw]
  split <;> simp

theorem addInMemory_eq {w : Counters} (hw : w .bytesRestored = 0) :
    addInMemory w = fun c m => c m + w m := by
  funext c m
  rw [addInMemory]
  split
  · rename_i hbytes
    rw [hbytes, hw, add_zero]
  · rfl

theorem bump_eq_addInMemory {name : CounterName} (hname : name ≠ .bytesRestored) {w : Counters}
    (hw : ∀ m, m ≠ .bytesRestored → w m = if m = name then 1 else 0) (c : Counters) :
    c.bump name 1 = addInMemory w c := by
  funext m
  rw [Counters.bump, addInMemory]
  by_cases hbytes : m = .bytesRestored
  · subst hbytes
    rw [if_neg (Ne.symm hname), if_pos rfl]
  · rw [if_neg hbytes, hw m hbytes]
    split <;> simp

theorem bumpDone_eq (hok : env.NoFailures) {item : RemoteFile} (hsize : 0 ≤ item.props.size) (s : Stored) :
    applyAll (bumpDone env item) s =
      { s with restoreCounters := s.restoreCounters.map fun c name => c name + weight item .done name } := by
  have hattempt : ∀ e, env.attempt item e = [e] := fun e => if_pos (hok.stmt item e)
  unfold bumpDone
  cases htype : item.props.type with
  | unknown =>
      have hzero : weight item .done = fun _ => 0 := by
        funext name
        cases name <;> simp [weight, htype]
      simp [restoredCounter, hzero]
  | dir =>
      have hw : ∀ m, weight item .done m = if m = .restoredDirectories then 1 else 0 := by
        intro m
        cases m <;> simp [weight, htype]
      simp [restoredCounter, hattempt, Effect.apply, bump_eq_add hw]
  | symlink =>
      have hw : ∀ m, weight item .done m = if m = .restoredSymlinks then 1 else 0 := by
        intro m
        cases m <;> simp [weight, htype]
      simp [restoredCounter, hattempt, Effect.apply, bump_eq_add hw]
  | file =>
      -- an empty file does not add to the bytes
      have hbump : ∀ c : Counters, (if 0 < item.props.size then
          (c.bump .restoredFiles 1).bump .bytesRestored item.props.size else c.bump .restoredFiles 1) =
            fun name => c name + weight item .done name := by
        intro c
        funext name
        split
        · cases name <;> simp [Counters.bump, weight, htype]
        · have hzero : item.props.size = 0 := by omega
          cases name <;> simp [Counters.bump, weight, htype, hzero]
      simp only [restoredCounter, hattempt, true_and]
      by_cases hpos : 0 < item.props.size
      · simp only [hpos, if_true] at hbump
        simp [hpos, Effect.apply, Function.comp_def, hbump]
      · simp only [hpos, if_false] at hbump
        simp [hpos, Effect.apply, hbump]

theorem countDone_eq (item : RemoteFile) (s : Stored) : applyAll (countDone item) s =
    { s with statsCounters := s.statsCounters.map (addInMemory (weight item .done)) } := by
  unfold countDone
  cases htype : item.props.type with
  | unknown =>
      have hid : addInMemory (weight item .done) = id := by
        funext c name
        cases name <;> simp [addInMemory, weight, htype]
      simp [restoredCounter, hid]
  | dir =>
      have hw : ∀ m, m ≠ .bytesRestored → weight item .done m = if m = .restoredDirectories then 1 else 0 := by
        intro m
        cases m <;> simp [weight, htype]
      simp [restoredCounter, Effect.apply, bump_eq_addInMemory (by decide) hw]
  | symlink =>
      have hw : ∀ m, m ≠ .bytesRestored → weight item .done m = if m = .restoredSymlinks then 1 else 0 := by
        intro m
        cases m <;> simp [weight, htype]
      simp [restoredCounter, Effect.apply, bump_eq_addInMemory (by decide) hw]
  | file =>
      have hw : ∀ m, m ≠ .bytesRestored → weight item .done m = if m = .restoredFiles then 1 else 0 := by
        intro m
        cases m <;> simp [weight, htype]
      simp [restoredCounter, Effect.apply, bump_eq_addInMemory (by decide) hw]

theorem processItem_eq (hok : env.NoFailures) {item : RemoteFile} (hsize : 0 ≤ item.props.size)
    (s : Stored) : applyAll (processItem env item) s =
      ⟨s.jobs, s.restoreCounters.map fun c name => c name + weight item (endState env item) name,
        setState item.uuid (endState env item) s.restoreFiles,
        s.statsCounters.map (addInMemory (weight item (endState env item)))⟩ := by
  have hattempt : ∀ e, env.attempt item e = [e] := fun e => if_pos (hok.stmt item e)
  unfold processItem endState
  cases hmarker : item.deleteMarker with
  | true =>
      have hw : ∀ m, weight item .skipped m = if m = .skippedDeleteMarkers then 1 else 0 := by
        intro m
        cases m <;> simp [weight]
      simp [hattempt, Effect.apply, bump_eq_add hw, addInMemory_eq (hw .bytesRestored)]
  | false =>
      cases houtcome : env.outcome item with
      | done written =>
          simp [hattempt, Effect.apply, bumpDone_eq hok hsize, countDone_eq, setState_twice]
      | failed =>
          have hw : ∀ m, weight item .failed m = if m = .failedToRestoreFiles then 1 else 0 := by
            intro m
            cases m <;> simp [weight]
          simp [hattempt, Effect.apply, bump_eq_add hw, addInMemory_eq (hw .bytesRestored), setState_twice]
      | cancelled =>
          have hzero : weight item .inProgress = fun _ => 0 := by
            funext name
            cases name <;> simp [weight]
          have hid : addInMemory (fun _ => 0) = id := by
            funext c name
            simp [addInMemory]
          simp [hattempt, Effect.apply, hzero, hid]

theorem weight_of_isOpen {state : FileState} (h : state.isOpen = true) (row : RemoteFile) :
    weight row state = fun _ => 0 := by
  funext name
  cases state <;> cases name <;> simp_all [weight, FileState.isOpen]

theorem map_uuid_setState (uuid : Str) (state : FileState) (files : List RestoreFile) :
    (setState uuid state files).map (·.row.uuid) = files.map (·.row.uuid) := by
  have h := congrArg (List.map RemoteFile.uuid) (map_row_setState uuid state files)
  rwa [List.map_map, List.map_map] at h

theorem processItem_counted (hok : env.NoFailures) {s : Stored} (h : Counted s) {f : RestoreFile}
    (hf : f ∈ s.restoreFiles) (hopen : f.state.isOpen = true) :
    Counted (applyAll (processItem env f.row) s) ∧
      (InMemory s → InMemory (applyAll (processItem env f.row) s)) := by
  have hsome : s.restoreCounters ≠ none := by
    intro hnone
    rw [h.row hnone] at hf
    cases hf
  obtain ⟨c, hc⟩ := Option.ne_none_iff_exists'.mp hsome
  have hagree : c = tally s.restoreFiles := by
    have hold := h.agree
    rwa [hc] at hold
  rw [processItem_eq hok (h.sizes f hf), hc]
  refine ⟨⟨?_, nofun, ?_, ?_, ?_⟩, ?_⟩
  · change ((setState _ _ _).map _).Nodup
    rw [map_uuid_setState]
    exact h.uuids
  · intro hjobs
    exact absurd (h.fresh hjobs) hsome
  · intro g hg
    obtain ⟨g', hg', rfl⟩ := List.mem_map.mp hg
    have hold := h.sizes g' hg'
    split <;> exact hold
  · change (fun name => c name + weight f.row (endState env f.row) name) = tally (setState _ _ _)
    rw [tally_setState h.uuids hf, weight_of_isOpen hopen, hagree]
    funext name
    dsimp only
    omega
  · intro hmemory stats hstats name hname
    obtain ⟨stats₀, hstats₀, rfl⟩ := Option.map_eq_some_iff.mp hstats
    have hold := hmemory stats₀ hstats₀ name hname
    rw [hc] at hold
    change addInMemory _ _ name = c name + _
    rw [addInMemory, if_neg hname, hold]
    rfl

theorem items_counted (hok : env.NoFailures) {items : List RemoteFile}
    (hnodup : (items.map RemoteFile.uuid).Nodup) {s : Stored} (h : Counted s)
    (hopen : ∀ item ∈ items, ∃ f ∈ s.restoreFiles, f.row = item ∧ f.state.isOpen = true) :
    Counted (applyAll (items.map (processItem env)).flatten s) ∧
      (InMemory s → InMemory (applyAll (items.map (processItem env)).flatten s)) := by
  induction items generalizing s with
  | nil => exact ⟨h, id⟩
  | cons item items ih =>
      rw [List.map_cons, List.nodup_cons] at hnodup
      obtain ⟨f, hf, rfl, hstate⟩ := hopen item (by simp)
      obtain ⟨hcounted, hmemory⟩ := processItem_counted hok h hf hstate
      rw [List.map_cons, List.flatten_cons, applyAll_append]
      have hrest := ih hnodup.2 hcounted ?_
      · exact ⟨hrest.1, fun hm => hrest.2 (hmemory hm)⟩
      · -- the rows of the other items are as they were
        intro item' hitem'
        obtain ⟨f', hf', rfl, hstate'⟩ := hopen item' (List.mem_cons_of_mem _ hitem')
        refine ⟨f', ?_, rfl, hstate'⟩
        rw [processItem_eq hok (h.sizes f hf)]
        have hne : f'.row.uuid ≠ f.row.uuid := fun heq =>
          hnodup.1 (List.mem_map.mpr ⟨f'.row, hitem', heq⟩)
        exact List.mem_map.mpr ⟨f', hf', if_neg hne⟩

theorem reachedItems_sublist (env : Env) (items : List RemoteFile) :
    (reachedItems env items).Sublist items := by
  induction items with
  | nil => exact List.Sublist.refl _
  | cons item items ih =>
      unfold reachedItems
      split
      · exact List.nil_sublist _
      · split
        · exact (List.nil_sublist _).cons_cons item
        · exact ih.cons_cons item

theorem nodup_loadPendingManifest {files : List RestoreFile} (h : (files.map (·.row.uuid)).Nodup) :
    ((loadPendingManifest files).map RemoteFile.uuid).Nodup := by
  rw [loadPendingManifest, ((List.perm_insertionSort _ _).map _).nodup_iff, List.map_map]
  exact h.sublist (List.filter_sublist.map _)

theorem exists_of_mem_loadPendingManifest {files : List RestoreFile} {item : RemoteFile}
    (h : item ∈ loadPendingManifest files) : ∃ f ∈ files, f.row = item ∧ f.state ≠ .done := by
  rw [loadPendingManifest, List.mem_insertionSort] at h
  obtain ⟨f, hf, rfl⟩ := List.mem_map.mp h
  rw [List.mem_filter] at hf
  exact ⟨f, hf.1, rfl, by simpa using hf.2⟩

/-- Every beginning of a list of groups, each of them as a whole. -/
theorem applyAll_take_append {P : Stored → Prop} {groups groups' : List (List Effect)} {s : Stored}
    (h : ∀ k, P (applyAll (groups.take k).flatten s))
    (h' : ∀ k, P (applyAll (groups'.take k).flatten (applyAll groups.flatten s))) (k : ℕ) :
    P (applyAll ((groups ++ groups').take k).flatten s) := by
  rw [List.take_append, List.flatten_append, applyAll_append]
  by_cases hk : k ≤ groups.length
  · rw [Nat.sub_eq_zero_of_le hk]
    exact h k
  · rw [List.take_of_length_le (l := groups) (by omega)]
    exact h' _

theorem finalize_counted {s : Stored} (h : Counted s) (state : JobState) (k : ℕ) :
    Counted (applyAll ((finalize env state).take k).flatten s) := by
  have hfinal : Counted ((Effect.updateJobFinal state).apply s) :=
    ⟨h.uuids, h.row, fun hnone => h.fresh (by simpa [Effect.apply] using hnone), h.sizes, h.agree⟩
  unfold finalize
  split
  · cases k with
    | zero => exact h
    | succ k =>
        rw [List.take_of_length_le (by simp)]
        exact hfinal
  · simpa using h

theorem tally_of_pending {files : List RestoreFile} (h : ∀ f ∈ files, f.state = .pending) :
    tally files = fun _ => 0 := by
  induction files with
  | nil => exact tally_nil
  | cons f files ih =>
      rw [tally_cons, h f (by simp), weight_of_isOpen rfl, ih fun g hg => h g (List.mem_cons_of_mem f hg)]
      rfl

/-- A uuid that is in the manifest is not inserted again. -/
theorem nodup_insertManifestRow {files : List RestoreFile} (h : (files.map (·.row.uuid)).Nodup)
    (row : RemoteFile) : ((insertManifestRow files row).map (·.row.uuid)).Nodup := by
  unfold insertManifestRow
  split
  · exact h
  · rename_i hnew
    rw [List.map_append, List.nodup_append]
    refine ⟨h, by simp, ?_⟩
    rintro uuid huuid uuid' huuid' rfl
    obtain rfl : uuid = row.uuid := by simpa using huuid'
    exact hnew (by simpa using huuid)

theorem insertManifestRow_pending {files : List RestoreFile} {row : RemoteFile} (hsize : 0 ≤ row.props.size)
    (h : ∀ f ∈ files, f.state = .pending ∧ 0 ≤ f.row.props.size) :
    ∀ f ∈ insertManifestRow files row, f.state = .pending ∧ 0 ≤ f.row.props.size := by
  unfold insertManifestRow
  split
  · exact h
  · intro f hf
    rcases List.mem_append.mp hf with hf | hf
    · exact h f hf
    · obtain rfl := List.mem_singleton.mp hf
      exact ⟨rfl, hsize⟩

theorem insertManifest_pending {rows : List RemoteFile} {files : List RestoreFile}
    (hsizes : ∀ r ∈ rows, 0 ≤ r.props.size) (hnodup : (files.map (·.row.uuid)).Nodup)
    (hall : ∀ f ∈ files, f.state = .pending ∧ 0 ≤ f.row.props.size) :
    ((rows.foldl insertManifestRow files).map (·.row.uuid)).Nodup ∧
      ∀ f ∈ rows.foldl insertManifestRow files, f.state = .pending ∧ 0 ≤ f.row.props.size := by
  induction rows generalizing files with
  | nil => exact ⟨hnodup, hall⟩
  | cons row rows ih =>
      rw [List.foldl_cons]
      exact ih (fun r hr => hsizes r (List.mem_cons_of_mem row hr)) (nodup_insertManifestRow hnodup row)
        (insertManifestRow_pending (hsizes row (by simp)) hall)

/-- The manifest of a new job: nothing of it is counted yet. -/
theorem insertManifest_counted {s : Stored} (h : Counted s) (hcounters : s.restoreCounters ≠ none)
    {rows : List RemoteFile} (hsizes : ∀ r ∈ rows, 0 ≤ r.props.size) (hempty : s.restoreFiles = []) :
    Counted ((Effect.insertManifest rows).apply s) ∧
      ∀ f ∈ ((Effect.insertManifest rows).apply s).restoreFiles, f.state = .pending := by
  obtain ⟨hnodup, hpending⟩ := @insertManifest_pending rows [] hsizes (by simp) (by simp)
  have hzero : s.restoreCounters.getD (fun _ => 0) = fun _ => 0 := by
    rw [h.agree, hempty, tally_nil]
  simp only [Effect.apply, hempty]
  refine ⟨⟨hnodup, fun hnone => absurd hnone hcounters, h.fresh, fun f hf => (hpending f hf).2, ?_⟩,
    fun f hf => (hpending f hf).1⟩
  rw [hzero, tally_of_pending fun f hf => (hpending f hf).1]

def CountsOnce (env : Env) (files : List RestoreFile) : Prop :=
  ∀ f ∈ files, f.row ∈ reachedItems env (loadPendingManifest files) → f.state.isOpen = true

variable {selected : List RemoteFile}

theorem inMemory_seedCounters {s : Stored} (hmemory : s.restoreCounters = none → InMemory s) :
    InMemory ((Effect.seedCounters s.restoreCounters).apply s) := by
  intro stats hstats name hname
  obtain ⟨stats₀, hstats₀, rfl⟩ : ∃ stats₀, s.statsCounters = some stats₀ ∧
      seed s.restoreCounters stats₀ = stats := by
    simpa [Effect.apply] using hstats
  change seed s.restoreCounters stats₀ name = s.restoreCounters.getD (fun _ => 0) name
  cases hcounters : s.restoreCounters with
  | none =>
      have hold := hmemory hcounters stats₀ hstats₀ name hname
      rwa [hcounters] at hold
  | some c => simp [seed, hname]

/-- The beginning of a fresh job: the job, its row of counters and, unless nothing is
selected, the manifest. -/
theorem initRestoreJob_counted_fresh (hok : env.NoFailures) {s : Stored} (h : Counted s)
    (hjobs : s.jobs = none) (hsizes : ∀ r ∈ selected, 0 ≤ r.props.size)
    (hmemory : s.restoreCounters = none → InMemory s) :
    (∀ k, Counted (applyAll ((initRestoreJob selected env s).1.take k).flatten s)) ∧
      InMemory (applyAll (initRestoreJob selected env s).1.flatten s) ∧
      ((initRestoreJob selected env s).2 = true →
        CountsOnce env (applyAll (initRestoreJob selected env s).1.flatten s).restoreFiles) := by
  have hcounters := h.fresh hjobs
  have hfiles := h.row hcounters
  have hjob : Counted (Effect.insertJob.apply s) := ⟨h.uuids, h.row, nofun, h.sizes, h.agree⟩
  have hrow : Counted (Effect.initCounterRow.apply (Effect.insertJob.apply s)) :=
    ⟨h.uuids, nofun, nofun, h.sizes, by simpa [Effect.apply, hcounters] using h.agree⟩
  have hstats : InMemory (Effect.initCounterRow.apply (Effect.insertJob.apply s)) := by
    have hold := hmemory hcounters
    simpa [InMemory, Effect.apply, hcounters] using hold
  simp only [initRestoreJob, hjobs, hok.insertJob, hok.initCounterRow, hok.fetch, hok.manifest, if_true,
    Bool.not_true, Bool.false_eq_true, if_false, Bool.false_or, Bool.or_false, decide_eq_true_eq]
  split
  · refine ⟨?_, hstats, nofun⟩
    intro k
    rcases k with _ | _ | k
    · exact h
    · exact hjob
    · rw [List.take_of_length_le (by simp)]
      exact hrow
  · obtain ⟨hmanifest, hpending⟩ := insertManifest_counted hrow (by simp [Effect.apply]) hsizes hfiles
    refine ⟨?_, hstats, ?_⟩
    · intro k
      rcases k with _ | _ | _ | k
      · exact h
      · exact hjob
      · exact hrow
      · rw [List.take_of_length_le (by simp)]
        exact hmanifest
    · intro _ f hf _
      rw [hpending f hf]
      rfl

theorem initRestoreJob_counted (hok : env.NoFailures) {s : Stored} (h : Counted s)
    (hsizes : ∀ r ∈ selected, 0 ≤ r.props.size) (honce : CountsOnce env s.restoreFiles)
    (hmemory : s.restoreCounters = none → InMemory s) :
    (∀ k, Counted (applyAll ((initRestoreJob selected env s).1.take k).flatten s)) ∧
      InMemory (applyAll (initRestoreJob selected env s).1.flatten s) ∧
      ((initRestoreJob selected env s).2 = true →
        CountsOnce env (applyAll (initRestoreJob selected env s).1.flatten s).restoreFiles) := by
  by_cases hjobs : s.jobs = none
  · exact initRestoreJob_counted_fresh hok h hjobs hsizes hmemory
  · -- a resumed job: the manifest stays as it is
    simp only [initRestoreJob, hjobs, hok.readCounters, hok.updateState, Bool.not_true, Bool.false_eq_true,
      if_false]
    have hseed : Counted ((Effect.seedCounters s.restoreCounters).apply s) :=
      ⟨h.uuids, h.row, h.fresh, h.sizes, h.agree⟩
    have hstarted : Counted ((Effect.updateJobState .started).apply
        ((Effect.seedCounters s.restoreCounters).apply s)) :=
      ⟨h.uuids, h.row, fun hnone => absurd (by simpa [Effect.apply] using hnone) hjobs, h.sizes, h.agree⟩
    refine ⟨?_, ?_, fun _ => honce⟩
    · intro k
      rcases k with _ | _ | k
      · exact h
      · exact hseed
      · rw [List.take_of_length_le (by simp)]
        exact hstarted
    · exact inMemory_seedCounters hmemory

theorem processItems_counted (hok : env.NoFailures) {s : Stored} (h : Counted s)
    (honce : CountsOnce env s.restoreFiles) (restoredAny : Bool) :
    (∀ k, Counted (applyAll
      ((processItems env (loadPendingManifest s.restoreFiles) restoredAny).1.take k).flatten s)) ∧
      (InMemory s → InMemory (applyAll
        (processItems env (loadPendingManifest s.restoreFiles) restoredAny).1.flatten s)) := by
  have hpart : ∀ items : List RemoteFile,
      items.Sublist (reachedItems env (loadPendingManifest s.restoreFiles)) →
      Counted (applyAll (items.map (processItem env)).flatten s) ∧
        (InMemory s → InMemory (applyAll (items.map (processItem env)).flatten s)) := by
    intro items hsub
    have hsub' := hsub.trans (reachedItems_sublist env _)
    refine items_counted hok ((nodup_loadPendingManifest h.uuids).sublist (hsub'.map _)) h ?_
    intro item hitem
    obtain ⟨f, hf, rfl, -⟩ := exists_of_mem_loadPendingManifest (hsub'.subset hitem)
    exact ⟨f, hf, rfl, honce f hf (hsub.subset hitem)⟩
  rw [processItems_fst]
  refine ⟨?_, (hpart _ (List.Sublist.refl _)).2⟩
  intro k
  rw [← List.map_take]
  exact (hpart _ (List.take_sublist k _)).1

/-- All of a run, and each of its beginnings that does not end within an item. -/
theorem doRestore_counted (hok : env.NoFailures) {s : Stored} (h : Counted s)
    (hsizes : ∀ r ∈ selected, 0 ≤ r.props.size) (honce : CountsOnce env s.restoreFiles)
    (hmemory : s.restoreCounters = none → InMemory s) :
    (∀ k, Counted (applyAll ((doRestore selected env s).1.take k).flatten s)) ∧
      InMemory (applyAll (doRestore selected env s).1.flatten s) := by
  obtain ⟨hinit, hstats, hopen⟩ := initRestoreJob_counted hok h hsizes honce hmemory
  have hall : Counted (applyAll (initRestoreJob selected env s).1.flatten s) := by
    have htake := hinit (initRestoreJob selected env s).1.length
    rwa [List.take_length] at htake
  unfold doRestore
  dsimp only
  split
  · exact ⟨hinit, hstats⟩
  · rename_i hgo
    split
    · exact ⟨hinit, hstats⟩
    · replace hopen := hopen (by simpa [hok.load] using hgo)
      obtain ⟨hloop, hloopStats⟩ := processItems_counted hok hall hopen false
      refine ⟨fun k => applyAll_take_append hinit hloop k, ?_⟩
      rw [List.flatten_append, applyAll_append]
      exact hloopStats hstats

def BetweenItems (env : Env) (script : List (List Effect)) : Prop :=
  ∀ n, env.crashAfter = some n → ∃ k, (script.take k).flatten.length = n

/-- What is left of a run that ended, or was cut off between two items. -/
theorem runScript_counted {script : List (List Effect)} {s : Stored} (hcut : BetweenItems env script)
    (h : ∀ k, Counted (applyAll (script.take k).flatten s))
    (hstats : InMemory (applyAll script.flatten s)) :
    Counted (runScript env script s) ∧ InMemory (runScript env script s) := by
  unfold runScript
  cases hcrash : env.crashAfter with
  | none =>
      have hall := h script.length
      rw [List.take_length] at hall
      exact ⟨hall, hstats⟩
  | some n =>
      obtain ⟨k, hk⟩ := hcut n hcrash
      have htake : script.flatten.take n = (script.take k).flatten := by
        have hsplit : script.flatten = (script.take k).flatten ++ (script.drop k).flatten := by
          rw [← List.flatten_append, List.take_append_drop]
        rw [hsplit, ← hk, List.take_left]
      have hkept := h k
      dsimp only
      rw [htake]
      exact ⟨⟨hkept.uuids, hkept.row, hkept.fresh, hkept.sizes, hkept.agree⟩, nofun⟩

end

section

variable (selected : List RemoteFile)

/-- A job is started once. No statement fails, and no crash comes within an item. -/
def Event.smooth (ev : Event) (s : Stored) : Prop :=
  match ev with
  | .start env => s.jobs = none ∧ env.NoFailures ∧
      BetweenItems env (jobScript selected env (markRestoreRunning s))
  | .resume env => env.NoFailures ∧ BetweenItems env (jobScript selected env (markRestoreRunning s))
  | .restart queryOk => queryOk = true

/-- A resumption is not refused, it gets as far as to read the counters, and it gets
to no item that has failed or was skipped before. -/
def Event.countsOnce (ev : Event) (s : Stored) : Prop :=
  match ev with
  | .resume env => s.jobs.any JobState.isResumable = true ∧ env.bringUp = .ok ∧
      CountsOnce env s.restoreFiles
  | _ => True

end

section

variable {env : Env} {selected : List RemoteFile}

theorem jobScript_counted (hok : env.NoFailures) {s : Stored} (h : Counted s)
    (hsizes : ∀ r ∈ selected, 0 ≤ r.props.size) (honce : CountsOnce env s.restoreFiles)
    (hmemory : s.restoreCounters = none → InMemory s)
    (hbringUp : env.bringUp = .ok ∨ s.restoreCounters = none) :
    (∀ k, Counted (applyAll ((jobScript selected env s).take k).flatten s)) ∧
      InMemory (applyAll (jobScript selected env s).flatten s) := by
  unfold jobScript
  split
  · rename_i targetKnown hfailed
    have hnone : s.restoreCounters = none := hbringUp.resolve_left (by simp [hfailed])
    cases targetKnown with
    | false => exact ⟨fun k => by simpa using h, hmemory hnone⟩
    | true =>
        refine ⟨finalize_counted h .failed, ?_⟩
        rw [if_pos rfl, finalize, if_pos hok.finalize]
        exact hmemory hnone
  · obtain ⟨hdo, hstats⟩ := doRestore_counted hok h hsizes honce hmemory
    have hall : Counted (applyAll (doRestore selected env s).1.flatten s) := by
      have htake := hdo (doRestore selected env s).1.length
      rwa [List.take_length] at htake
    refine ⟨fun k => applyAll_take_append hdo (finalize_counted hall _) k, ?_⟩
    rw [List.flatten_append, applyAll_append, finalize, if_pos hok.finalize]
    exact hstats

theorem counted_step (hsizes : ∀ r ∈ selected, 0 ≤ r.props.size) (ev : Event) {s : Stored}
    (h : Counted s) (hsmooth : ev.smooth selected s) (honce : ev.countsOnce s) :
    Counted (step selected ev s) ∧ InMemory (step selected ev s) := by
  have hrunning : Counted (markRestoreRunning s) := ⟨h.uuids, h.row, h.fresh, h.sizes, h.agree⟩
  -- all counters are zero in memory at first
  have hmemory : (markRestoreRunning s).restoreCounters = none → InMemory (markRestoreRunning s) := by
    intro hnone stats hstats name _
    rw [hnone]
    cases hstats
    rfl
  cases ev with
  | start env =>
      obtain ⟨hjobs, hok, hcut⟩ := hsmooth
      have hnone := h.fresh hjobs
      have hempty : (markRestoreRunning s).restoreFiles = [] := h.row hnone
      have honce' : CountsOnce env (markRestoreRunning s).restoreFiles := by
        rw [hempty]
        exact fun f hf => absurd hf (by simp)
      obtain ⟨hscript, hstats⟩ := jobScript_counted hok hrunning hsizes honce' hmemory (.inr hnone)
      exact runScript_counted hcut hscript hstats
  | resume env =>
      obtain ⟨hok, hcut⟩ := hsmooth
      obtain ⟨hresumable, hbringUp, honce⟩ := honce
      obtain ⟨hscript, hstats⟩ := jobScript_counted hok hrunning hsizes honce hmemory (.inl hbringUp)
      have hstep : step selected (.resume env) s =
          runScript env (jobScript selected env (markRestoreRunning s)) (markRestoreRunning s) := by
        unfold step
        dsimp only
        rw [hok.opening]
        exact if_pos hresumable
      rw [hstep]
      exact runScript_counted hcut hscript hstats
  | restart queryOk =>
      obtain rfl : queryOk = true := hsmooth
      refine ⟨⟨h.uuids, h.row, ?_, h.sizes, h.agree⟩, nofun⟩
      intro hnone
      refine h.fresh ?_
      cases hjobs : s.jobs with
      | none => rfl
      | some state => simp [step, hjobs] at hnone

end

/-- The counters agree with the manifest after every run, if no resumption gets to an
item that was counted before, and none ends before it has read the counters. -/
theorem counters_agree (pathMatch : Str → Str → Option Bool) (db : Db) (req : Request)
    (exclusions : List Str)
    (hsizes : ∀ r ∈ selectedItems pathMatch db req exclusions, 0 ≤ r.props.size) {s : Stored}
    (hrun : Reaches (fun ev s => ev.smooth (selectedItems pathMatch db req exclusions) s ∧ ev.countsOnce s)
      (step (selectedItems pathMatch db req exclusions)) Stored.empty s) : CountersAgree s := by
  have hinv : Counted s ∧ InMemory s := by
    refine hrun.invariant (I := fun s => Counted s ∧ InMemory s)
      ⟨⟨List.nodup_nil, fun _ => rfl, fun _ => rfl, by simp [Stored.empty], ?_⟩, nofun⟩ ?_
    · exact tally_nil.symm
    · exact fun ev s hs hev => counted_step hsizes ev hs.1 hev.1 hev.2
  exact ⟨hinv.1.agree, hinv.2⟩

theorem smoothEnv_noFailures (ctxDone : RemoteFile → Bool) (outcome : RemoteFile → Outcome) :
    Env.NoFailures { smoothEnv with ctxDone := ctxDone, outcome := outcome } :=
  ⟨rfl, rfl, rfl, rfl, rfl, rfl, rfl, rfl, rfl, fun _ _ => rfl⟩

def cancelledAtOnce : Stored :=
  step twoItems (.start { smoothEnv with ctxDone := fun _ => true }) Stored.empty

theorem counters_agree_resumed : CountersAgree (step twoItems (.resume smoothEnv) cancelledAtOnce) := by
  have honce : CountsOnce smoothEnv cancelledAtOnce.restoreFiles := by
    change ∀ f ∈ cancelledAtOnce.restoreFiles,
      f.row ∈ reachedItems smoothEnv (loadPendingManifest cancelledAtOnce.restoreFiles) →
        f.state.isOpen = true
    decide
  have hrun : Reaches (fun ev s => ev.smooth twoItems s ∧ ev.countsOnce s) (step twoItems) Stored.empty
      (step twoItems (.resume smoothEnv) cancelledAtOnce) :=
    .step _ (.step _ .refl ⟨⟨rfl, smoothEnv_noFailures _ _, nofun⟩, trivial⟩)
      ⟨⟨smoothEnv_noFailures _ _, nofun⟩, by decide, rfl, honce⟩
  exact counters_agree (fun _ _ => none) (dirAndFile "/a" "/a/x") ⟨true, [], "job".toList⟩ []
    (by decide) hrun

def failedTwice : Stored :=
  step twoItems (.resume { smoothEnv with outcome := fun _ => .failed })
    (step twoItems (.start { smoothEnv with outcome := fun _ => .failed }) Stored.empty)

/-- Two rows have failed, and the counter of failures is at four. -/
theorem counters_agree_failedTwice : ¬ ∀ s : Stored,
    Reaches (fun ev s => ev.smooth twoItems s) (step twoItems) Stored.empty s → CountersAgree s := by
  intro hall
  have hreached : Reaches (fun ev s => ev.smooth twoItems s) (step twoItems) Stored.empty failedTwice :=
    .step _ (.step _ .refl ⟨rfl, smoothEnv_noFailures _ _, nofun⟩) ⟨smoothEnv_noFailures _ _, nofun⟩
  have hagree := congrFun (hall _ hreached).1 .failedToRestoreFiles
  revert hagree
  decide

end CloudBackup.Restore
