import CloudBackup.Shared.JobsState

/-!
`GenerateJobUuid`. It draws ids until one is not in the table `jobs` of the
backup's database, twenty times at most. The ids of running jobs are looked at,
but a match has no effect: its `continue` goes on with the next entry of
`Running` and not with the next id. The restore databases, where the id of a
restore becomes a primary key, are not looked at.
-/

namespace CloudBackup.Scheduler

open Shared

def backupType : Str := "backup".toList

def restoreType : Str := "restore".toList

inductive JobUuidErr
  | unknownJobType
  | start
  | checkJobUuidExists
  | couldNotGenerateJobId
  deriving DecidableEq, Repr

/-- What happens outside the program during one attempt: the result of
`uuid.NewV4`, if the database can be opened, and if the query succeeds. -/
structure Attempt where
  newV4 : Option Str
  startOk : Bool
  checkOk : Bool
  deriving DecidableEq, Repr

/-- The ids in use: the entries of `Running`, the table `jobs` of the backup's
database, and that of the restore database of each target. -/
structure UsedIds where
  running : List JobStatus
  jobs : List Str
  restoreJobs : Str → List Str

def tryIds (used : UsedIds) : List Attempt → Except JobUuidErr Str
  | [] => .error .couldNotGenerateJobId
  | a :: attempts =>
      match a.newV4 with
      | none => tryIds used attempts
      | some jobUuid =>
          -- the loop over `Running` does nothing but log
          if !a.startOk then .error .start
          else if !a.checkOk then .error .checkJobUuidExists
          else if used.jobs.any (· = jobUuid) then tryIds used attempts
          else .ok jobUuid

def generateJobUuid (used : UsedIds) (jobType : Str) (attempts : ℕ → Attempt) :
    Except JobUuidErr Str :=
  if jobType ≠ backupType ∧ jobType ≠ restoreType then .error .unknownJobType
  else tryIds used ((List.range 20).map attempts)

/-- No running job has the id, and it is in none of the tables that a job of this
type is recorded in. -/
structure Unused (used : UsedIds) (jobType jobUuid : Str) : Prop where
  running : ∀ job ∈ used.running, job.backupJobId ≠ jobUuid
  backup : jobType = backupType → jobUuid ∉ used.jobs
  restore : jobType = restoreType → ∀ target, jobUuid ∉ used.restoreJobs target

/-- The attempt yields no id, or one that is in the backup's database. -/
def PassedOver (used : UsedIds) (a : Attempt) : Prop :=
  a.newV4 = none ∨ ∃ jobUuid ∈ used.jobs, a = ⟨some jobUuid, true, true⟩

/-- The first of the attempts that is not passed over yields the id, which is not
in the backup's database. -/
def FirstNew (used : UsedIds) (attempts : List Attempt) (jobUuid : Str) : Prop :=
  ∃ before after, attempts = before ++ ⟨some jobUuid, true, true⟩ :: after ∧
    (∀ a ∈ before, PassedOver used a) ∧ jobUuid ∉ used.jobs

section

variable {used : UsedIds} {a : Attempt} {attempts : List Attempt} {jobUuid : Str}

theorem tryIds_of_passedOver (h : PassedOver used a) :
    tryIds used (a :: attempts) = tryIds used attempts := by
  rcases h with h | ⟨jobUuid, hmem, rfl⟩
  · rw [tryIds, h]
  · simp [tryIds, hmem]

theorem tryIds_of_not_passedOver (h : ¬ PassedOver used a) :
    tryIds used (a :: attempts) = .ok jobUuid ↔
      a = ⟨some jobUuid, true, true⟩ ∧ jobUuid ∉ used.jobs := by
  rw [PassedOver, not_or] at h
  obtain ⟨hnone, hmem⟩ := h
  obtain ⟨_ | id, startOk, checkOk⟩ := a
  · exact absurd rfl hnone
  · cases startOk with
    | false => simp [tryIds]
    | true =>
        cases checkOk with
        | false => simp [tryIds]
        | true =>
            have hnew : id ∉ used.jobs := fun hid => hmem ⟨id, hid, rfl⟩
            constructor
            · intro h
              obtain rfl : id = jobUuid := by simpa [tryIds, hnew] using h
              exact ⟨rfl, hnew⟩
            · rintro ⟨heq, -⟩
              obtain rfl : id = jobUuid := by simpa using heq
              simp [tryIds, hnew]

theorem firstNew_of_passedOver (h : PassedOver used a) :
    FirstNew used (a :: attempts) jobUuid ↔ FirstNew used attempts jobUuid := by
  constructor
  · rintro ⟨before, after, heq, hbefore, hnew⟩
    cases before with
    | nil =>
        obtain rfl : a = ⟨some jobUuid, true, true⟩ := (List.cons.inj heq).1
        rcases h with h | ⟨id, hid, h⟩
        · cases h
        · cases h
          exact absurd hid hnew
    | cons b before =>
        obtain ⟨rfl, hrest⟩ := List.cons.inj heq
        exact ⟨before, after, hrest, fun c hc => hbefore c (List.mem_cons_of_mem _ hc), hnew⟩
  · rintro ⟨before, after, rfl, hbefore, hnew⟩
    exact ⟨a :: before, after, rfl, List.forall_mem_cons.mpr ⟨h, hbefore⟩, hnew⟩

theorem firstNew_of_not_passedOver (h : ¬ PassedOver used a) :
    FirstNew used (a :: attempts) jobUuid ↔
      a = ⟨some jobUuid, true, true⟩ ∧ jobUuid ∉ used.jobs := by
  constructor
  · rintro ⟨before, after, heq, hbefore, hnew⟩
    cases before with
    | nil => exact ⟨(List.cons.inj heq).1, hnew⟩
    | cons b before =>
        obtain ⟨rfl, -⟩ := List.cons.inj heq
        exact absurd (hbefore a (List.mem_cons_self ..)) h
  · rintro ⟨rfl, hnew⟩
    exact ⟨[], attempts, rfl, by simp, hnew⟩

theorem tryIds_eq_ok_iff : tryIds used attempts = .ok jobUuid ↔ FirstNew used attempts jobUuid := by
  induction attempts with
  | nil => simp [tryIds, FirstNew]
  | cons a attempts ih =>
      by_cases h : PassedOver used a
      · rw [tryIds_of_passedOver h, firstNew_of_passedOver h, ih]
      · rw [tryIds_of_not_passedOver h, firstNew_of_not_passedOver h]

end

theorem generateJobUuid_eq_ok_iff {used : UsedIds} {jobType : Str} {attempts : ℕ → Attempt}
    {jobUuid : Str} :
    generateJobUuid used jobType attempts = .ok jobUuid ↔
      (jobType = backupType ∨ jobType = restoreType) ∧
        FirstNew used ((List.range 20).map attempts) jobUuid := by
  rw [generateJobUuid, ← tryIds_eq_ok_iff]
  by_cases h : jobType ≠ backupType ∧ jobType ≠ restoreType
  · rw [if_pos h]
    simp [h.1, h.2]
  · rw [if_neg h]
    rw [not_and_or, not_not, not_not] at h
    simp [h]

/-- The id that is returned is unused, if there is one. -/
def ReturnsUnused (used : UsedIds) (jobType : Str) (attempts : ℕ → Attempt) : Prop :=
  ∀ jobUuid, generateJobUuid used jobType attempts = .ok jobUuid → Unused used jobType jobUuid

/-- An id of a running job, or one in a restore database if a restore is to begin. -/
def Unseen (used : UsedIds) (jobType jobUuid : Str) : Prop :=
  (∃ job ∈ used.running, job.backupJobId = jobUuid) ∨
    (jobType = restoreType ∧ ∃ target, jobUuid ∈ used.restoreJobs target)

/-- Of an id that is not in the backup's database, the rest decides. -/
theorem unused_iff {used : UsedIds} {jobType jobUuid : Str} (hnew : jobUuid ∉ used.jobs) :
    Unused used jobType jobUuid ↔ ¬ Unseen used jobType jobUuid := by
  rw [Unseen, not_or, not_exists, not_and, not_exists]
  constructor
  · intro h
    exact ⟨fun job hjob => h.running job hjob.1 hjob.2, fun htype target => h.restore htype target⟩
  · rintro ⟨hrunning, hrestore⟩
    exact ⟨fun job hjob heq => hrunning job ⟨hjob, heq⟩, fun _ => hnew,
      fun htype target => hrestore htype target⟩

/-- What the code relies on: the first generated id that is not in the backup's
database is not in use elsewhere. No sequence of ids can violate that exactly if
the backup's database knows all ids in use. -/
theorem returnsUnused_iff (used : UsedIds) (jobType : Str)
    (htype : jobType = backupType ∨ jobType = restoreType) :
    (∀ attempts, ReturnsUnused used jobType attempts ↔
      ∀ jobUuid, FirstNew used ((List.range 20).map attempts) jobUuid →
        ¬ Unseen used jobType jobUuid) ∧
    ((∀ attempts, ReturnsUnused used jobType attempts) ↔
      ∀ jobUuid, Unseen used jobType jobUuid → jobUuid ∈ used.jobs) := by
  have hiff : ∀ attempts, ReturnsUnused used jobType attempts ↔
      ∀ jobUuid, FirstNew used ((List.range 20).map attempts) jobUuid →
        ¬ Unseen used jobType jobUuid := by
    intro attempts
    refine forall_congr' fun jobUuid => ?_
    rw [generateJobUuid_eq_ok_iff, and_iff_right htype]
    refine forall_congr' fun hfirst => ?_
    obtain ⟨-, -, -, -, hnew⟩ := hfirst
    exact unused_iff hnew
  refine ⟨hiff, fun h jobUuid hunseen => ?_, fun h attempts => (hiff attempts).mpr ?_⟩
  · -- a generator that returns nothing but this id
    by_contra hnew
    refine (hiff fun _ => ⟨some jobUuid, true, true⟩).mp (h _) jobUuid ?_ hunseen
    exact ⟨[], List.replicate 19 ⟨some jobUuid, true, true⟩, rfl, by simp, hnew⟩
  · rintro jobUuid ⟨-, -, -, -, hnew⟩ hunseen
    exact hnew (h jobUuid hunseen)

def backupRunning : UsedIds :=
  ⟨[newJob .backup backupCounters backupTexts "home".toList "first".toList 1], ["first".toList],
    fun _ => []⟩

theorem returnsUnused_backupRunning :
    backupRunning.running ≠ [] ∧ ∀ attempts, ReturnsUnused backupRunning backupType attempts := by
  refine ⟨by decide, (returnsUnused_iff backupRunning backupType (Or.inl rfl)).2.mpr ?_⟩
  rintro jobUuid (⟨job, hjob, rfl⟩ | ⟨-, target, htarget⟩)
  · obtain rfl := List.mem_singleton.mp hjob
    exact List.mem_singleton.mpr rfl
  · cases htarget

def restoreRunning : UsedIds :=
  ⟨[newJob .restore restoreCounters restoreTexts "home".toList "second".toList 1], [],
    fun _ => ["first".toList, "second".toList]⟩

/-- The generator returns the id of a running restore, and it is handed out again;
likewise the id of a restore that is over. -/
theorem not_returnsUnused_restoreRunning :
    ¬ ReturnsUnused restoreRunning backupType (fun _ => ⟨some "second".toList, true, true⟩) ∧
      ¬ ReturnsUnused restoreRunning restoreType (fun _ => ⟨some "first".toList, true, true⟩) := by
  constructor
  · intro h
    exact (h "second".toList (by decide)).running _ (List.mem_singleton.mpr rfl) rfl
  · intro h
    exact (h "first".toList (by decide)).restore rfl [] (by decide)

end CloudBackup.Scheduler
