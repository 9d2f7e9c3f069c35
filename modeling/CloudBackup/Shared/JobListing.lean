import CloudBackup.Config.Template
import CloudBackup.Library.Slices
import CloudBackup.Shared.JobsState

/-!
`BackupJobsState.Get`, the listing of the jobs. It has an entry for each backup of the
configuration, and after these one for each backup that is still running without being
configured. The entries of running backups are copies, with maps and slices of their own: the
table goes on changing while a listing is looked at.

The maps are known by their addresses in a memory, and the slices by those of their arrays. A
restore of the same name has no part in the listing.
-/

namespace CloudBackup.Shared

open Config Slices

/-! ### The table in memory -/

/-- `BackupJobStatus`, with what stands for its maps and its slice. The times count from the
zero time. The context and the rate counters are copied with the rest, and are not here. -/
structure BackupJobStatus (C T R : Type) where
  jobType : Str := []
  name : Str
  state : Str
  backupJobId : Str := []
  startTime : ℤ := 0
  endTime : ℤ := 0
  platform : Str := []
  rates : Rates := ⟨0, 0, 0⟩
  fileContentBytesRead : ℕ := 0
  objectStoreRates : R
  statsCounters : C
  statsText : T
  sequence : ℕ := 0
  nextRun : ℤ := 0

/-- As it lies in memory: each map and each slice is `nil` or known by its place. -/
abbrev JobCell := BackupJobStatus (Option ℕ) (Option ℕ) (Option Slice)

abbrev JobEntry := BackupJobStatus (Str → Option ℕ) (Str → Option Str) (List ObjectStoreRate)

abbrev Maps (β : Type) := List (Str → Option β)

def Maps.read {β : Type} (maps : Maps β) : Option ℕ → Str → Option β
  | none => fun _ => none
  | some addr => (maps[addr]?).getD fun _ => none

structure Memory where
  counters : Maps ℕ
  texts : Maps Str
  rates : Heap ObjectStoreRate

def readSlice (h : Heap ObjectStoreRate) : Option Slice → List ObjectStoreRate
  | none => []
  | some s => elems h s

def view (mem : Memory) (job : JobCell) : JobEntry :=
  { job with
    objectStoreRates := readSlice mem.rates job.objectStoreRates
    statsCounters := mem.counters.read job.statsCounters
    statsText := mem.texts.read job.statsText }

structure JobCell.Within (mem : Memory) (job : JobCell) : Prop where
  counters : ∀ addr, job.statsCounters = some addr → addr < mem.counters.length
  texts : ∀ addr, job.statsText = some addr → addr < mem.texts.length
  rates : ∀ s, job.objectStoreRates = some s → s.Within mem.rates

structure BackupJobsState where
  memory : Memory
  running : List JobCell
  within : ∀ job ∈ running, job.Within memory

/-! ### Get -/

def BackupJobStatus.isBackup {C T R : Type} (job : BackupJobStatus C T R) : Bool :=
  job.jobType = [] || job.jobType = "backup".toList

def resolveNextRun (nextRunResolver : Option (Str → ℤ)) (name : Str) : ℤ :=
  match nextRunResolver with
  | none => 0
  | some resolve => resolve name

/-- The copy of a job: new maps with the pairs of the old ones, and a new array. -/
def copyJob (nextRunResolver : Option (Str → ℤ)) (mem : Memory) (job : JobCell) : Memory × JobCell :=
  let objectStoreRates := readSlice mem.rates job.objectStoreRates
  (⟨mem.counters ++ [mem.counters.read job.statsCounters], mem.texts ++ [mem.texts.read job.statsText],
      alloc mem.rates objectStoreRates⟩,
    { job with
      statsCounters := some mem.counters.length
      statsText := some mem.texts.length
      objectStoreRates := some (newSlice mem.rates objectStoreRates)
      nextRun := resolveNextRun nextRunResolver job.name })

abbrev RunningBackups := Str → Option JobCell

def collectPass (nextRunResolver : Option (Str → ℤ)) (s : Memory × RunningBackups) (job : JobCell) :
    Memory × RunningBackups :=
  if job.isBackup then
    let copied := copyJob nextRunResolver s.1 job
    (copied.1, Function.update s.2 job.name (some copied.2))
  else s

def stoppedCell (nextRunResolver : Option (Str → ℤ)) (name : Str) : JobCell where
  name := name
  state := "stopped".toList
  nextRun := resolveNextRun nextRunResolver name
  objectStoreRates := none
  statsCounters := none
  statsText := none

def configuredPass (nextRunResolver : Option (Str → ℤ)) (runningBackups : RunningBackups)
    (s : List JobCell × (Str → Bool)) (backupJob : ConfigBackup) : List JobCell × (Str → Bool) :=
  (s.1 ++ [match runningBackups backupJob.name with
      | some running => running
      | none => stoppedCell nextRunResolver backupJob.name],
    Function.update s.2 backupJob.name true)

def leftoverPass (configNames : Str → Bool) (s : List JobCell × RunningBackups) (job : JobCell) :
    List JobCell × RunningBackups :=
  if job.isBackup then
    if configNames job.name then s
    else
      match s.2 job.name with
      | some jobCopy => (s.1 ++ [jobCopy], Function.update s.2 job.name none)
      | none => s
  else s

def BackupJobsState.get (nextRunResolver : Option (Str → ℤ)) (jobs : BackupJobsState) (cfgCopy : CfgTemplate) :
    Memory × List JobCell :=
  let collected := jobs.running.foldl (collectPass nextRunResolver) (jobs.memory, fun _ => none)
  let configured := cfgCopy.backup.foldl (configuredPass nextRunResolver collected.2) ([], fun _ => false)
  let listed := jobs.running.foldl (leftoverPass configured.2) (configured.1, collected.2)
  (collected.1, listed.1)

/-! ### What is listed -/

section

variable (nextRunResolver : Option (Str → ℤ)) (jobs : BackupJobsState)

/-- The data of a running job, with its next run. -/
def runningEntry (job : JobCell) : JobEntry :=
  { view jobs.memory job with nextRun := resolveNextRun nextRunResolver job.name }

def stoppedEntry (name : Str) : JobEntry where
  name := name
  state := "stopped".toList
  nextRun := resolveNextRun nextRunResolver name
  objectStoreRates := []
  statsCounters := fun _ => none
  statsText := fun _ => none

def configuredEntry (backup : ConfigBackup) : JobEntry :=
  match jobs.running.find? fun job => job.isBackup && job.name = backup.name with
  | some job => runningEntry nextRunResolver jobs job
  | none => stoppedEntry nextRunResolver backup.name

def leftover (cfgCopy : CfgTemplate) : List JobCell :=
  jobs.running.filter fun job => job.isBackup && !cfgCopy.backup.any fun backup => backup.name = job.name

end

/-- They have a map or an array in common. -/
def Shares (entry job : JobCell) : Prop :=
  (∃ addr, entry.statsCounters = some addr ∧ job.statsCounters = some addr) ∨
    (∃ addr, entry.statsText = some addr ∧ job.statsText = some addr) ∨
      ∃ s s', entry.objectStoreRates = some s ∧ job.objectStoreRates = some s' ∧ s.addr = s'.addr

/-! ### Copies -/

structure Memory.Extends (mem mem' : Memory) : Prop where
  counters : mem.counters <+: mem'.counters
  texts : mem.texts <+: mem'.texts
  rates : mem.rates <+: mem'.rates

theorem Memory.Extends.refl (mem : Memory) : mem.Extends mem :=
  ⟨List.prefix_refl _, List.prefix_refl _, List.prefix_refl _⟩

theorem Memory.Extends.trans {mem mem' mem'' : Memory} (h : mem.Extends mem') (h' : mem'.Extends mem'') :
    mem.Extends mem'' :=
  ⟨h.counters.trans h'.counters, h.texts.trans h'.texts, h.rates.trans h'.rates⟩

theorem Maps.read_of_prefix {β : Type} {maps maps' : Maps β} (h : maps <+: maps') {r : Option ℕ}
    (hr : ∀ addr, r = some addr → addr < maps.length) : maps'.read r = maps.read r := by
  cases r with
  | none => rfl
  | some addr =>
      obtain ⟨rest, rfl⟩ := h
      rw [read, read, List.getElem?_append_left (hr addr rfl)]

theorem readSlice_of_prefix {h h' : Heap ObjectStoreRate} (hext : h <+: h') {r : Option Slice}
    (hr : ∀ s, r = some s → s.Within h) : readSlice h' r = readSlice h r := by
  cases r with
  | none => rfl
  | some s => exact elems_of_isPrefix hext (hr s rfl)

section

variable {mem mem' : Memory} {job : JobCell}

theorem JobCell.Within.extends (h : job.Within mem) (hext : mem.Extends mem') : job.Within mem' where
  counters := fun addr ha => (h.counters addr ha).trans_le hext.counters.length_le
  texts := fun addr ha => (h.texts addr ha).trans_le hext.texts.length_le
  rates := fun s hs => (h.rates s hs).of_isPrefix hext.rates

/-- What is read through a cell stays the same when there is more memory. -/
theorem view_of_extends (h : job.Within mem) (hext : mem.Extends mem') : view mem' job = view mem job := by
  rw [view, view, Maps.read_of_prefix hext.counters h.counters, Maps.read_of_prefix hext.texts h.texts,
    readSlice_of_prefix hext.rates h.rates]

structure JobCell.Fresh (mem : Memory) (job : JobCell) : Prop where
  counters : ∀ addr, job.statsCounters = some addr → mem.counters.length ≤ addr
  texts : ∀ addr, job.statsText = some addr → mem.texts.length ≤ addr
  rates : ∀ s, job.objectStoreRates = some s → mem.rates.length ≤ s.addr

theorem not_shares_of_fresh {entry : JobCell} (hentry : entry.Fresh mem) (hjob : job.Within mem) :
    ¬ Shares entry job := by
  rintro (⟨addr, he, hj⟩ | ⟨addr, he, hj⟩ | ⟨s, s', he, hj, haddr⟩)
  · exact absurd (hjob.counters addr hj) (Nat.not_lt.mpr (hentry.counters addr he))
  · exact absurd (hjob.texts addr hj) (Nat.not_lt.mpr (hentry.texts addr he))
  · exact absurd (hjob.rates s' hj) (Nat.not_lt.mpr (haddr ▸ hentry.rates s he))

theorem JobCell.Fresh.mono (h : job.Fresh mem') (hext : mem.Extends mem') : job.Fresh mem where
  counters := fun addr ha => hext.counters.length_le.trans (h.counters addr ha)
  texts := fun addr ha => hext.texts.length_le.trans (h.texts addr ha)
  rates := fun s hs => hext.rates.length_le.trans (h.rates s hs)

variable (nextRunResolver : Option (Str → ℤ))

theorem copyJob_extends (mem : Memory) (job : JobCell) : mem.Extends (copyJob nextRunResolver mem job).1 :=
  ⟨List.prefix_append _ _, List.prefix_append _ _, isPrefix_alloc _ _⟩

theorem copyJob_within (mem : Memory) (job : JobCell) :
    (copyJob nextRunResolver mem job).2.Within (copyJob nextRunResolver mem job).1 where
  counters := fun addr ha => by
    cases ha
    simp [copyJob]
  texts := fun addr ha => by
    cases ha
    simp [copyJob]
  rates := fun s hs => by
    cases hs
    exact newSlice_within _ _

theorem copyJob_fresh (mem : Memory) (job : JobCell) : (copyJob nextRunResolver mem job).2.Fresh mem where
  counters := fun addr ha => by
    cases ha
    exact le_rfl
  texts := fun addr ha => by
    cases ha
    exact le_rfl
  rates := fun s hs => by
    cases hs
    exact le_rfl

theorem view_copyJob (mem : Memory) (job : JobCell) :
    view (copyJob nextRunResolver mem job).1 (copyJob nextRunResolver mem job).2 =
      { view mem job with nextRun := resolveNextRun nextRunResolver job.name } := by
  simp [view, copyJob, Maps.read, readSlice, elems_alloc_newSlice]

end

/-! ### The first loop -/

section

variable (nextRunResolver : Option (Str → ℤ)) (jobs : BackupJobsState)

/-- What the first loop has once it is through with the jobs of `seen`. -/
structure Collected (seen : List JobCell) (s : Memory × RunningBackups) : Prop where
  extended : jobs.memory.Extends s.1
  complete : ∀ job ∈ seen, job.isBackup = true → s.2 job.name ≠ none
  copied : ∀ name running, s.2 name = some running →
    ∃ job ∈ seen, job.isBackup = true ∧ job.name = name ∧ running.Fresh jobs.memory ∧ running.Within s.1 ∧
      view s.1 running = runningEntry nextRunResolver jobs job

variable {nextRunResolver jobs}

theorem Collected.nil : Collected nextRunResolver jobs [] (jobs.memory, fun _ => none) where
  extended := Memory.Extends.refl _
  complete := fun job hjob => absurd hjob List.not_mem_nil
  copied := fun name running h => absurd h (by simp)

theorem collectPass_backup (mem : Memory) (found : RunningBackups) {job : JobCell} (hbackup : job.isBackup = true) :
    collectPass nextRunResolver (mem, found) job =
      ((copyJob nextRunResolver mem job).1,
        Function.update found job.name (some (copyJob nextRunResolver mem job).2)) := by
  rw [collectPass, if_pos hbackup]

/-- A pass keeps the copies that are there, and adds that of a backup. -/
theorem Collected.collectPass {seen : List JobCell} {s : Memory × RunningBackups}
    (h : Collected nextRunResolver jobs seen s) {job : JobCell} (hjob : job ∈ jobs.running) :
    Collected nextRunResolver jobs (seen ++ [job]) (collectPass nextRunResolver s job) := by
  obtain ⟨mem, found⟩ := s
  have hext : mem.Extends (copyJob nextRunResolver mem job).1 := copyJob_extends nextRunResolver mem job
  by_cases hbackup : job.isBackup = true
  · rw [collectPass_backup mem found hbackup]
    refine ⟨h.extended.trans hext, fun job' hjob' hbackup' => ?_, fun name running hname => ?_⟩
    · by_cases heq : job'.name = job.name
      · simp [heq]
      · simp only [ne_eq, Function.update_of_ne heq]
        have hseen : job' ∈ seen := by
          refine (List.mem_append.mp hjob').resolve_right fun hlast => heq ?_
          rw [List.mem_singleton.mp hlast]
        exact h.complete job' hseen hbackup'
    · by_cases heq : name = job.name
      · subst heq
        obtain rfl : (copyJob nextRunResolver mem job).2 = running := by simpa using hname
        refine ⟨job, by simp, hbackup, rfl, (copyJob_fresh nextRunResolver mem job).mono h.extended,
          copyJob_within nextRunResolver mem job, ?_⟩
        rw [view_copyJob, view_of_extends (jobs.within job hjob) h.extended, runningEntry]
      · simp only [Function.update_of_ne heq] at hname
        obtain ⟨job', hseen, hbackup', hname', hfresh, hwithin, hview⟩ := h.copied name running hname
        refine ⟨job', List.mem_append_left _ hseen, hbackup', hname', hfresh, hwithin.extends hext, ?_⟩
        rw [view_of_extends hwithin hext, hview]
  · rw [Shared.collectPass, if_neg hbackup]
    refine ⟨h.extended, fun job' hjob' hbackup' => ?_, fun name running hname => ?_⟩
    · rcases List.mem_append.mp hjob' with hseen | hlast
      · exact h.complete job' hseen hbackup'
      · exact absurd (List.mem_singleton.mp hlast ▸ hbackup') hbackup
    · obtain ⟨job', hseen, hrest⟩ := h.copied name running hname
      exact ⟨job', List.mem_append_left _ hseen, hrest⟩

theorem Collected.foldl {rest : List JobCell} {seen : List JobCell} {s : Memory × RunningBackups}
    (h : Collected nextRunResolver jobs seen s) (hrest : ∀ job ∈ rest, job ∈ jobs.running) :
    Collected nextRunResolver jobs (seen ++ rest) (rest.foldl (Shared.collectPass nextRunResolver) s) := by
  induction rest generalizing seen s with
  | nil => simpa using h
  | cons job rest ih =>
      have hpass := h.collectPass (hrest job List.mem_cons_self)
      have := ih hpass fun job' hjob' => hrest job' (List.mem_cons_of_mem _ hjob')
      rwa [List.append_assoc, List.singleton_append] at this

variable (nextRunResolver jobs) in
theorem collected_running :
    Collected nextRunResolver jobs jobs.running
      (jobs.running.foldl (collectPass nextRunResolver) (jobs.memory, fun _ => none)) := by
  have hnil : Collected nextRunResolver jobs [] (jobs.memory, fun _ => none) := Collected.nil
  exact hnil.foldl fun _ => id

/-! ### The other loops -/

variable (nextRunResolver) in
theorem configuredPass_foldl (found : RunningBackups) (backup : List ConfigBackup)
    (s : List JobCell × (Str → Bool)) :
    (backup.foldl (configuredPass nextRunResolver found) s).1 =
        s.1 ++ backup.map (fun b => (found b.name).getD (stoppedCell nextRunResolver b.name)) ∧
      ∀ name, (backup.foldl (configuredPass nextRunResolver found) s).2 name =
        (s.2 name || backup.any fun b => b.name = name) := by
  induction backup generalizing s with
  | nil => simp
  | cons b backup ih =>
      have hcell : (configuredPass nextRunResolver found s b).1 =
          s.1 ++ [(found b.name).getD (stoppedCell nextRunResolver b.name)] := by
        rw [configuredPass]
        cases found b.name <;> rfl
      obtain ⟨hresult, hnames⟩ := ih (configuredPass nextRunResolver found s b)
      refine ⟨?_, fun name => ?_⟩
      · rw [List.foldl_cons, hresult, hcell, List.map_cons, List.append_assoc, List.singleton_append]
      · rw [List.foldl_cons, hnames, List.any_cons]
        by_cases heq : b.name = name
        · simp [configuredPass, heq]
        · simp [configuredPass, heq, Function.update_of_ne (Ne.symm heq)]

def taken (configNames : Str → Bool) (found : RunningBackups) (job : JobCell) : Option JobCell :=
  if job.isBackup && !configNames job.name then found job.name else none

/-- An entry that was taken is removed, which no job with another name notices. -/
theorem leftoverPass_foldl (configNames : Str → Bool) {rest : List JobCell}
    (hnodup : (rest.map BackupJobStatus.name).Nodup) (s : List JobCell × RunningBackups) :
    (rest.foldl (leftoverPass configNames) s).1 = s.1 ++ rest.filterMap (taken configNames s.2) := by
  induction rest generalizing s with
  | nil => simp
  | cons job rest ih =>
      rw [List.map_cons, List.nodup_cons] at hnodup
      have hothers : ∀ job' ∈ rest, job'.name ≠ job.name := fun job' hjob' heq =>
        hnodup.1 (heq ▸ List.mem_map_of_mem hjob')
      rw [List.foldl_cons, ih hnodup.2, List.filterMap_cons]
      by_cases hleft : job.isBackup && !configNames job.name
      · obtain ⟨hbackup, hconfig⟩ : job.isBackup = true ∧ configNames job.name = false := by simpa using hleft
        cases hfound : s.2 job.name with
        | none => simp [leftoverPass, taken, hbackup, hconfig, hfound]
        | some jobCopy =>
            have hrest : rest.filterMap (taken configNames (Function.update s.2 job.name none)) =
                rest.filterMap (taken configNames s.2) :=
              List.filterMap_congr fun job' hjob' => by
                rw [taken, taken, Function.update_of_ne (hothers job' hjob')]
            simp [leftoverPass, taken, hbackup, hconfig, hfound, hrest]
      · have hsame : leftoverPass configNames s job = s := by
          rw [leftoverPass]
          by_cases hbackup : job.isBackup = true
          · have hconfig : configNames job.name = true := by simpa [hbackup] using hleft
            rw [if_pos hbackup, if_pos hconfig]
          · rw [if_neg hbackup]
        rw [hsame, taken, if_neg hleft]

end

/-! ### The listing -/

section

variable {nextRunResolver : Option (Str → ℤ)} {jobs : BackupJobsState} {s : Memory × RunningBackups}

/-- With distinct names, a running backup is the one that is found under its name. -/
theorem eq_of_name_eq (hnodup : (jobs.running.map BackupJobStatus.name).Nodup) {job job' : JobCell}
    (hjob : job ∈ jobs.running) (hjob' : job' ∈ jobs.running) (hname : job.name = job'.name) : job = job' :=
  List.inj_on_of_nodup_map hnodup hjob hjob' hname

theorem find?_backup (hnodup : (jobs.running.map BackupJobStatus.name).Nodup) {job : JobCell}
    (hjob : job ∈ jobs.running) (hbackup : job.isBackup = true) :
    (jobs.running.find? fun job' => job'.isBackup && job'.name = job.name) = some job := by
  cases hfind : jobs.running.find? fun job' => job'.isBackup && job'.name = job.name with
  | none => exact absurd (List.find?_eq_none.mp hfind job hjob) (by simp [hbackup])
  | some job' =>
      have hname : job'.isBackup = true ∧ job'.name = job.name := by simpa using List.find?_some hfind
      rw [eq_of_name_eq hnodup (List.mem_of_find?_eq_some hfind) hjob hname.2]

theorem view_stoppedCell (mem : Memory) (name : Str) :
    view mem (stoppedCell nextRunResolver name) = stoppedEntry nextRunResolver name := rfl

theorem Collected.view_configured (h : Collected nextRunResolver jobs jobs.running s)
    (hnodup : (jobs.running.map BackupJobStatus.name).Nodup) (backup : ConfigBackup) :
    view s.1 ((s.2 backup.name).getD (stoppedCell nextRunResolver backup.name)) =
      configuredEntry nextRunResolver jobs backup := by
  rw [configuredEntry]
  cases hfound : s.2 backup.name with
  | none =>
      have hfind : (jobs.running.find? fun job => job.isBackup && job.name = backup.name) = none := by
        refine List.find?_eq_none.mpr fun job hjob hfits => ?_
        have hboth : job.isBackup = true ∧ job.name = backup.name := by simpa using hfits
        exact h.complete job hjob hboth.1 (hboth.2 ▸ hfound)
      rw [hfind, Option.getD_none, view_stoppedCell]
  | some running =>
      obtain ⟨job, hjob, hbackup, hname, -, -, hview⟩ := h.copied _ _ hfound
      rw [← hname, find?_backup hnodup hjob hbackup, Option.getD_some, hview]

theorem Collected.view_taken (h : Collected nextRunResolver jobs jobs.running s)
    (hnodup : (jobs.running.map BackupJobStatus.name).Nodup) (configNames : Str → Bool) {job : JobCell}
    (hjob : job ∈ jobs.running) :
    (taken configNames s.2 job).map (view s.1) =
      if job.isBackup && !configNames job.name then some (runningEntry nextRunResolver jobs job) else none := by
  by_cases hleft : job.isBackup && !configNames job.name
  · have hbackup : job.isBackup = true := (by simpa using hleft : _ ∧ _).1
    rw [taken, if_pos hleft, if_pos hleft]
    cases hfound : s.2 job.name with
    | none => exact absurd hfound (h.complete job hjob hbackup)
    | some running =>
        obtain ⟨job', hjob', -, hname, -, -, hview⟩ := h.copied _ _ hfound
        rw [Option.map_some, hview, eq_of_name_eq hnodup hjob' hjob hname]
  · rw [taken, if_neg hleft, if_neg hleft, Option.map_none]

theorem filterMap_ite {α β : Type} (p : α → Bool) (f : α → β) (l : List α) :
    (l.filterMap fun a => if p a then some (f a) else none) = (l.filter p).map f := by
  rw [← List.filterMap_eq_map, List.filterMap_filter]
  rfl

theorem fresh_stoppedCell (mem : Memory) (name : Str) : (stoppedCell nextRunResolver name).Fresh mem where
  counters := fun addr ha => by cases ha
  texts := fun addr ha => by cases ha
  rates := fun s hs => by cases hs

theorem Collected.fresh_found (h : Collected nextRunResolver jobs jobs.running s) {name : Str} {running : JobCell}
    (hfound : s.2 name = some running) : running.Fresh jobs.memory := by
  obtain ⟨job, -, -, -, hfresh, -⟩ := h.copied name running hfound
  exact hfresh

variable (nextRunResolver) in
theorem get_eq (hnodup : (jobs.running.map BackupJobStatus.name).Nodup) (cfgCopy : CfgTemplate) :
    ∃ s, Collected nextRunResolver jobs jobs.running s ∧
      jobs.get nextRunResolver cfgCopy =
        (s.1, (cfgCopy.backup.map fun b => (s.2 b.name).getD (stoppedCell nextRunResolver b.name)) ++
          jobs.running.filterMap (taken (fun name => cfgCopy.backup.any fun b => b.name = name) s.2)) := by
  refine ⟨_, collected_running nextRunResolver jobs, ?_⟩
  set s := jobs.running.foldl (collectPass nextRunResolver) (jobs.memory, fun _ => none) with hs
  obtain ⟨hresult, hnames⟩ := configuredPass_foldl nextRunResolver s.2 cfgCopy.backup ([], fun _ => false)
  have hconfig : (cfgCopy.backup.foldl (configuredPass nextRunResolver s.2) ([], fun _ => false)).2 =
      fun name => cfgCopy.backup.any fun b => b.name = name := by
    funext name
    simp [hnames]
  rw [BackupJobsState.get, ← hs, leftoverPass_foldl _ hnodup, hresult, hconfig, List.nil_append]

variable (nextRunResolver jobs) in
/-- A listing has the backups of the configuration in their order, and then the running backups that
are not configured in theirs. It has no map and no array in common with the table, which it leaves
as it was. -/
theorem get_listing (hnodup : (jobs.running.map BackupJobStatus.name).Nodup) (cfgCopy : CfgTemplate) :
    (jobs.get nextRunResolver cfgCopy).2.map (view (jobs.get nextRunResolver cfgCopy).1) =
        cfgCopy.backup.map (configuredEntry nextRunResolver jobs) ++
          (leftover jobs cfgCopy).map (runningEntry nextRunResolver jobs) ∧
      (∀ entry ∈ (jobs.get nextRunResolver cfgCopy).2, ∀ job ∈ jobs.running, ¬ Shares entry job) ∧
      ∀ job ∈ jobs.running, view (jobs.get nextRunResolver cfgCopy).1 job = view jobs.memory job := by
  obtain ⟨s, h, hget⟩ := get_eq nextRunResolver hnodup cfgCopy
  rw [hget]
  refine ⟨?_, fun entry hentry job hjob => ?_, fun job hjob => view_of_extends (jobs.within job hjob) h.extended⟩
  · have hleft : (jobs.running.filterMap
        (taken (fun name => cfgCopy.backup.any fun b => b.name = name) s.2)).map (view s.1) =
          (leftover jobs cfgCopy).map (runningEntry nextRunResolver jobs) := by
      rw [List.map_filterMap, List.filterMap_congr fun job hjob => h.view_taken hnodup _ hjob, filterMap_ite,
        leftover]
    rw [List.map_append, List.map_map, hleft]
    exact congrArg (· ++ _) (List.map_congr_left fun backup _ => h.view_configured hnodup backup)
  · refine not_shares_of_fresh ?_ (jobs.within job hjob)
    rcases List.mem_append.mp hentry with hconfigured | hleft
    · obtain ⟨backup, -, rfl⟩ := List.mem_map.mp hconfigured
      cases hfound : s.2 backup.name with
      | none => exact fresh_stoppedCell jobs.memory backup.name
      | some running => exact h.fresh_found hfound
    · obtain ⟨job', -, htaken⟩ := List.mem_filterMap.mp hleft
      rw [taken] at htaken
      split at htaken
      · exact h.fresh_found htaken
      · cases htaken

/-- The names are distinct in each table that the operations lead to. -/
theorem nodup_of_afterOps {ops : List Op}
    (h : jobs.running.map BackupJobStatus.name = (afterOps ops []).map JobStatus.name) :
    (jobs.running.map BackupJobStatus.name).Nodup :=
  h ▸ nodup_afterOps ops List.nodup_nil

end

def docsAndPhotos : BackupJobsState where
  memory := ⟨[initMap restoreCounters 0, initMap backupCounters 0],
    [initMap restoreTexts [], initMap backupTexts []], [[]]⟩
  running :=
    [{ jobType := "restore".toList, name := "docs".toList, state := "running".toList, objectStoreRates := none,
       statsCounters := some 0, statsText := some 0 },
     { jobType := "backup".toList, name := "photos".toList, state := "running".toList,
       objectStoreRates := some ⟨0, 0⟩, statsCounters := some 1, statsText := some 1 }]
  within := by
    intro job hjob
    rcases List.mem_pair.mp hjob with rfl | rfl
    · exact ⟨by simp, by simp, by simp⟩
    · exact ⟨by simp, by simp, by simp [Slice.Within]⟩

def onlyDocs : CfgTemplate where
  dataDir := "/data".toList
  backup := [{ name := "docs".toList }]

/-- `docs` is listed as stopped although a restore runs under its name, and `photos` after it. -/
theorem get_listing_docs :
    ((docsAndPhotos.get none onlyDocs).2.map (view (docsAndPhotos.get none onlyDocs).1)).map
        (fun entry => (String.ofList entry.name, String.ofList entry.state)) =
      [("docs", "stopped"), ("photos", "running")] := by
  rw [(get_listing none docsAndPhotos (by decide) onlyDocs).1]
  decide

end CloudBackup.Shared
