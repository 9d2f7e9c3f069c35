import CloudBackup.Httpd.NextToken
import CloudBackup.Library.Casing
import CloudBackup.Library.Checks
import CloudBackup.Library.SqlLike
import CloudBackup.Restore.Selection
import CloudBackup.Shared.JobsState
import Mathlib.Data.List.Chain

/-!
The file list of a backup job: `handlerPostReportBackupFileList`. A page is cut out of the
rows of the statement, so many rows from an offset on. The rows of one path are put together,
and there is a next page if that leaves as many results as rows were asked for. If two rows of
a page have the same path, this looks like the end of the list.

The database is there and no statement fails on its own; times are numbers, as the database
has them.
-/

namespace CloudBackup.Httpd

open Database Shared Checks SqlLike Casing
open Restore (textLe)

/-! ### The tables -/

structure JobsRow where
  id : Str
  name : Str
  type : Str
  startTime : ℤ
  state : Str
  srcOs : Str
  deriving DecidableEq, Repr

structure RemoteFilesRow where
  uuid : Str
  localPath : Str
  parent : Str
  target : Str
  uploadDate : ℤ
  type : FileType
  size : ℕ
  deleteMarker : Bool
  deriving DecidableEq, Repr

/-- The tables, each with its rows in the order in which they are visited. Ids of jobs are
UUIDs, and SQLite numbers the rows of a table with 63 bits. -/
structure ReportDb where
  jobs : List JobsRow
  remoteFiles : List RemoteFilesRow
  backupCollections : List Collected
  jobIds : ∀ job ∈ jobs, ':' ∉ job.id
  rowids : backupCollections.length < 2 ^ 63

def ReportDb.findJob (db : ReportDb) (jobName jobId : Str) : List JobsRow :=
  db.jobs.filter fun job =>
    job.name = jobName ∧ job.id = jobId ∧ job.state ≠ "started".toList ∧ job.type = "backup".toList

/-- `GetJobPlatform`. -/
def ReportDb.jobPlatform (db : ReportDb) (jobName jobId : Str) : Str :=
  ((db.jobs.filter fun job => job.name = jobName ∧ job.id = jobId).getLast?.map JobsRow.srcOs).getD []

/-- `GetJobStartTime`. -/
def ReportDb.jobStartTime (db : ReportDb) (jobId jobName jobType : Str) : Option ℤ :=
  (db.jobs.find? fun job => job.id = jobId ∧ job.name = jobName ∧ job.type = jobType).map JobsRow.startTime

/-- `remote_files` joined with the collection of a job. The uuid is a primary key. -/
def ReportDb.collected (db : ReportDb) (jobId : Str) : List RemoteFilesRow :=
  (db.backupCollections.filter (·.jobId = jobId)).filterMap fun c => db.remoteFiles.find? (·.uuid = c.fileUuid)

def isBelow (parentDir pathSeparator : Str) (descend : Bool) (row : RemoteFilesRow) : Bool :=
  row.parent = parentDir || (descend && likePlain (parentDir ++ pathSeparator ++ ['%']) row.parent)

/-- `ReportBackupJobsFileListWithJobId` and `ReportBackupJobsFileListWithJobIdAndDescend`, before
the `LIMIT`. -/
def ReportDb.fileList (db : ReportDb) (jobId parentDir pathSeparator : Str) (descend : Bool) : List RemoteFilesRow :=
  ((db.collected jobId).filter (isBelow parentDir pathSeparator descend)).insertionSort fun r r' =>
    textLe r.localPath r'.localPath

/-! ### Paths of another system -/

def getPathSeparator (u : Tables) (os : Str) : Str := if toLower u os = "windows".toList then ['\\'] else ['/']

def byteLength (s : Str) : ℕ := (s.map Char.utf8Size).sum

def stripSeparators (separator : Char) (least : ℕ) : Str → Str
  | [] => []
  | c :: rest => if least < byteLength (c :: rest) ∧ c = separator then stripSeparators separator least rest else c :: rest

def stripEndOfPathSeparators (path separator : Str) : Str :=
  if separator = ['\\'] then (stripSeparators '\\' 3 path.reverse).reverse
  else (stripSeparators '/' 1 path.reverse).reverse

/-! ### Results -/

/-- `ReportBackupFileListInstanceDbResults`. -/
structure InstanceDbResults where
  jobId : Str
  jobName : Str
  jobStartTime : ℤ
  jobTarget : Str
  size : ℕ
  type : FileType
  uploadDate : ℤ
  deleteMarker : Bool
  deriving DecidableEq, Repr

/-- `ReportBackupFileListDbResults`. -/
structure FileListDbResults where
  path : Str
  parent : Str
  instances : List InstanceDbResults
  deriving DecidableEq, Repr

def rowResult (jobId jobName : Str) (row : RemoteFilesRow) : InstanceDbResults :=
  ⟨jobId, jobName, 0, row.target, row.size, row.type, row.uploadDate, row.deleteMarker⟩

def addRow (jobId jobName : Str) (results : List FileListDbResults) (row : RemoteFilesRow) : List FileListDbResults :=
  match results.getLast? with
  | some lastItem =>
      if lastItem.path = row.localPath then
        results.dropLast ++ [{ lastItem with instances := lastItem.instances ++ [rowResult jobId jobName row] }]
      else results ++ [⟨row.localPath, row.parent, [rowResult jobId jobName row]⟩]
  | none => results ++ [⟨row.localPath, row.parent, [rowResult jobId jobName row]⟩]

inductive ListErr
  | nameMissing
  | token (e : TokenErr)
  | running
  | jobNotUsable (found : ℕ)
  | offsetTooLarge
  | noStartTime
  deriving DecidableEq, Repr

/-- `addJobStartTimeToReportBackupFileListDbResults`. -/
def addJobStartTime (startTime : Option ℤ) (results : List FileListDbResults) : Except ListErr (List FileListDbResults) :=
  mapAll (fun r => do
    let instances ← mapAll (fun i => match startTime with
      | none => .error .noStartTime
      | some t => .ok { i with jobStartTime := t }) r.instances
    return { r with instances }) results

def getRowsForHandlerPostReportBackupFileListWithJobId (db : ReportDb) (jobId jobName parentDir : Str)
    (limit offset : ℕ) (descend : Bool) (pathSeparator : Str) : Except ListErr (List FileListDbResults) :=
  if 2 ^ 63 ≤ offset then .error .offsetTooLarge
  else
    let rows := ((db.fileList jobId parentDir pathSeparator descend).drop offset).take limit
    addJobStartTime (db.jobStartTime jobId jobName "backup".toList) (rows.foldl (addRow jobId jobName) [])

/-! ### The handler -/

def limitReportFileResults : ℕ := 10000

def limitReportFileResultsDefault : ℕ := 1000

structure ReportBackupFileList where
  name : Str
  next : Str
  maxResults : ℕ
  jobId : Str
  path : Str
  descend : Bool
  deriving DecidableEq, Repr

structure FileListPage where
  next : Str
  results : List FileListDbResults
  deriving DecidableEq, Repr

def pageLimit (maxResults : ℕ) : ℕ :=
  if limitReportFileResults < maxResults then limitReportFileResults
  else if 0 < maxResults then maxResults
  else limitReportFileResultsDefault

def asked (req : ReportBackupFileList) : Except TokenErr NextToken :=
  if req.next = [] then .ok ⟨req.maxResults, 0, req.jobId, req.path, req.descend⟩
  else decodeNextTokenOfReportBackupFileList req.next

section

variable (u : Tables) (db : ReportDb) (running : List JobStatus)

/-- The rows that the request is about, whatever page of them. -/
def matchingRows (jobName jobId path : Str) (descend : Bool) : List RemoteFilesRow :=
  let pathSeparator := getPathSeparator u (db.jobPlatform jobName jobId)
  db.fileList jobId (stripEndOfPathSeparators path pathSeparator) pathSeparator descend

def listPage (jobName : Str) (t : NextToken) : Except ListErr FileListPage := do
  let limit := pageLimit t.limit
  if isRunning jobName t.jobId running then .error .running
  else if (db.findJob jobName t.jobId).length ≠ 1 then .error (.jobNotUsable (db.findJob jobName t.jobId).length)
  else
    let pathSeparator := getPathSeparator u (db.jobPlatform jobName t.jobId)
    let results ← getRowsForHandlerPostReportBackupFileListWithJobId db t.jobId jobName
      (stripEndOfPathSeparators t.path pathSeparator) limit t.offset t.descend pathSeparator
    let next := if results.length = limit then
      buildNextTokenOfReportBackupFileList { t with limit := limit, offset := (t.offset + limit) % 2 ^ 64 } else []
    return ⟨next, results⟩

def handlerPostReportBackupFileList (req : ReportBackupFileList) : Except ListErr FileListPage :=
  if req.name = [] then .error .nameMissing
  else match asked req with
    | .error e => .error (.token e)
    | .ok t => listPage u db running req.name t

inductive Follows : ReportBackupFileList → List FileListPage → Prop
  | last {req page} (h : handlerPostReportBackupFileList u db running req = .ok page) (hnext : page.next = []) :
      Follows req [page]
  | more {req page pages} (h : handlerPostReportBackupFileList u db running req = .ok page) (hnext : page.next ≠ [])
      (hrest : Follows { req with next := page.next } pages) : Follows req (page :: pages)

end

/-! ### What a page shows -/

def shown (jobId jobName : Str) (startTime : ℤ) (row : RemoteFilesRow) : Str × InstanceDbResults :=
  (row.localPath, { rowResult jobId jobName row with jobStartTime := startTime })

def FileListDbResults.rows (r : FileListDbResults) : List (Str × InstanceDbResults) := r.instances.map (r.path, ·)

def FileListPage.rows (page : FileListPage) : List (Str × InstanceDbResults) :=
  page.results.flatMap FileListDbResults.rows

def Apart (rows : List RemoteFilesRow) : Prop := (rows.map RemoteFilesRow.localPath).IsChain (· ≠ ·)

structure Grouped (jobId jobName : Str) (rows : List RemoteFilesRow) (results : List FileListDbResults) : Prop where
  shows : results.flatMap FileListDbResults.rows = rows.map fun r => (r.localPath, rowResult jobId jobName r)
  last : results.getLast?.map FileListDbResults.path = rows.getLast?.map RemoteFilesRow.localPath
  length_le : results.length ≤ rows.length
  length_eq : results.length = rows.length ↔ Apart rows

section

variable {jobId jobName : Str} {rows : List RemoteFilesRow} {row : RemoteFilesRow} {results : List FileListDbResults}

theorem apart_concat : Apart (rows ++ [row]) ↔
    Apart rows ∧ rows.getLast?.map RemoteFilesRow.localPath ≠ some row.localPath := by
  rw [Apart, List.map_append, List.isChain_append, List.getLast?_map]
  simp [Apart]

theorem addRow_same {init : List FileListDbResults} {item : FileListDbResults} (h : item.path = row.localPath) :
    addRow jobId jobName (init ++ [item]) row =
      init ++ [{ item with instances := item.instances ++ [rowResult jobId jobName row] }] := by
  simp [addRow, h]

theorem addRow_new (h : results.getLast?.map FileListDbResults.path ≠ some row.localPath) :
    addRow jobId jobName results row = results ++ [⟨row.localPath, row.parent, [rowResult jobId jobName row]⟩] := by
  rw [addRow]
  split
  · rename_i item hitem
    rw [hitem] at h
    rw [if_neg (by simpa using h)]
  · rfl

theorem Grouped.addRow (h : Grouped jobId jobName rows results) (row : RemoteFilesRow) :
    Grouped jobId jobName (rows ++ [row]) (addRow jobId jobName results row) := by
  have hle := h.length_le
  by_cases hsame : results.getLast?.map FileListDbResults.path = some row.localPath
  · obtain ⟨item, hitem, hpath⟩ := Option.map_eq_some_iff.mp hsame
    obtain ⟨init, rfl⟩ := List.getLast?_eq_some_iff.mp hitem
    have hshows := h.shows
    rw [addRow_same hpath]
    rw [List.length_append, List.length_singleton] at hle
    constructor
    · simp only [List.flatMap_append, List.flatMap_singleton, List.map_append, FileListDbResults.rows] at hshows ⊢
      rw [← List.append_assoc, hshows]
      simp [hpath]
    · simp [hpath]
    · simp only [List.length_append, List.length_singleton]
      omega
    -- one row more, and no result more
    · rw [apart_concat, ← h.last]
      simp only [List.length_append, List.length_singleton, hsame, ne_eq, not_true, and_false, iff_false]
      omega
  · rw [addRow_new hsame]
    constructor
    · simp [h.shows, FileListDbResults.rows]
    · simp
    · simp only [List.length_append, List.length_singleton]
      omega
    · rw [apart_concat, ← h.last, ← h.length_eq]
      simp [hsame]

theorem grouped_foldl (jobId jobName : Str) (rows : List RemoteFilesRow) :
    Grouped jobId jobName rows (rows.foldl (addRow jobId jobName) []) := by
  induction rows using List.reverseRecOn with
  | nil => exact ⟨rfl, rfl, le_rfl, by simp [Apart]⟩
  | append_singleton rows row ih =>
      rw [List.foldl_append]
      exact ih.addRow row

end

def withStartTime (t : ℤ) (r : FileListDbResults) : FileListDbResults :=
  { r with instances := r.instances.map fun i => { i with jobStartTime := t } }

theorem addJobStartTime_some (t : ℤ) (results : List FileListDbResults) :
    addJobStartTime (some t) results = .ok (results.map (withStartTime t)) := by
  rw [addJobStartTime, mapAll_ok, List.forall₂_map_right_iff, List.forall₂_same]
  intro r _
  have hinstances : mapAll (fun i => (.ok { i with jobStartTime := t } : Except ListErr InstanceDbResults))
      r.instances = .ok (r.instances.map fun i => { i with jobStartTime := t }) := by
    rw [mapAll_ok, List.forall₂_map_right_iff, List.forall₂_same]
    exact fun _ _ => rfl
  simp only [hinstances]
  rfl

/-- What rows become: all of them are shown, those of a path together. -/
theorem addJobStartTime_foldl (jobId jobName : Str) (t : ℤ) (rows : List RemoteFilesRow) :
    ∃ results, addJobStartTime (some t) (rows.foldl (addRow jobId jobName) []) = .ok results ∧
      results.flatMap FileListDbResults.rows = rows.map (shown jobId jobName t) ∧
      results.length ≤ rows.length ∧ (results.length = rows.length ↔ Apart rows) := by
  have hgrouped := grouped_foldl jobId jobName rows
  refine ⟨(rows.foldl (addRow jobId jobName) []).map (withStartTime t), addJobStartTime_some t _, ?_, ?_, ?_⟩
  · have hrow : ∀ r : FileListDbResults, (withStartTime t r).rows =
        r.rows.map fun x => (x.1, { x.2 with jobStartTime := t }) := by
      intro r
      simp [withStartTime, FileListDbResults.rows]
    simp only [List.flatMap_map, hrow, ← List.map_flatMap, hgrouped.shows, List.map_map]
    rfl
  · rw [List.length_map]
    exact hgrouped.length_le
  · rw [List.length_map]
    exact hgrouped.length_eq

theorem getRows_ok {db : ReportDb} {jobId jobName : Str} {t : ℤ} {offset : ℕ} (parentDir pathSeparator : Str)
    (limit : ℕ) (descend : Bool) (hoffset : offset < 2 ^ 63) (ht : db.jobStartTime jobId jobName "backup".toList = some t) :
    let rows := ((db.fileList jobId parentDir pathSeparator descend).drop offset).take limit
    ∃ results, getRowsForHandlerPostReportBackupFileListWithJobId db jobId jobName parentDir limit offset descend
        pathSeparator = .ok results ∧
      results.flatMap FileListDbResults.rows = rows.map (shown jobId jobName t) ∧
      (results.length = limit ↔ rows.length = limit ∧ Apart rows) := by
  intro rows
  obtain ⟨results, hresults, hshown, hle, heq⟩ := addJobStartTime_foldl jobId jobName t rows
  refine ⟨results, ?_, hshown, ?_⟩
  · rw [getRowsForHandlerPostReportBackupFileListWithJobId, if_neg (not_le.mpr hoffset), ht]
    exact hresults
  · have hlimit : rows.length ≤ limit := List.length_take_le _ _
    rw [← heq]
    omega

/-! ### Following the tokens -/

structure Listable (db : ReportDb) (running : List JobStatus) (jobName jobId : Str) : Prop where
  notRunning : isRunning jobName jobId running = false
  usable : (db.findJob jobName jobId).length = 1

section

variable {db : ReportDb} {running : List JobStatus} {jobName jobId : Str}

theorem Listable.exists_job (h : Listable db running jobName jobId) :
    ∃ job ∈ db.jobs, job.id = jobId ∧ job.name = jobName ∧ job.type = "backup".toList := by
  obtain ⟨job, hjob⟩ := List.exists_mem_of_length_pos (h.usable ▸ Nat.one_pos)
  obtain ⟨hmem, hcols⟩ := List.mem_filter.mp hjob
  obtain ⟨hname, hid, -, htype⟩ := of_decide_eq_true hcols
  exact ⟨job, hmem, hid, hname, htype⟩

theorem Listable.colon_notMem (h : Listable db running jobName jobId) : ':' ∉ jobId := by
  obtain ⟨job, hmem, rfl, -, -⟩ := h.exists_job
  exact db.jobIds job hmem

theorem Listable.exists_startTime (h : Listable db running jobName jobId) :
    ∃ t, db.jobStartTime jobId jobName "backup".toList = some t := by
  obtain ⟨job, hmem, hid, hname, htype⟩ := h.exists_job
  rw [← Option.isSome_iff_exists, ReportDb.jobStartTime, Option.isSome_map, List.find?_isSome]
  exact ⟨job, hmem, by simp [hid, hname, htype]⟩

end

theorem pageLimit_pos (m : ℕ) : 0 < pageLimit m := by
  rw [pageLimit]
  split
  · decide
  · split
    · assumption
    · decide

theorem pageLimit_le (m : ℕ) : pageLimit m ≤ limitReportFileResults := by
  rw [pageLimit]
  split
  · exact le_rfl
  · split
    · omega
    · decide

theorem pageLimit_pageLimit (m : ℕ) : pageLimit (pageLimit m) = pageLimit m := by
  rw [pageLimit, if_neg (not_lt.mpr (pageLimit_le m)), if_pos (pageLimit_pos m)]

theorem length_matchingRows_lt (u : Tables) (db : ReportDb) (jobName jobId path : Str) (descend : Bool) :
    (matchingRows u db jobName jobId path descend).length < 2 ^ 63 := by
  simp only [matchingRows, ReportDb.fileList, List.length_insertionSort]
  calc _ ≤ (db.collected jobId).length := List.length_filter_le _ _
    _ ≤ (db.backupCollections.filter (·.jobId = jobId)).length := List.length_filterMap_le _ _
    _ ≤ db.backupCollections.length := List.length_filter_le _ _
    _ < 2 ^ 63 := db.rowids

/-- Each page, the last apart, has rows of different paths. -/
def DistinctPages (limit : ℕ) (rows : List RemoteFilesRow) : Prop :=
  ∀ k, (k + 1) * limit < rows.length → Apart ((rows.drop (k * limit)).take limit)

theorem distinctPages_iff {limit : ℕ} {rows : List RemoteFilesRow} : DistinctPages limit rows ↔
    (limit < rows.length → Apart (rows.take limit)) ∧ DistinctPages limit (rows.drop limit) := by
  have hshift : ∀ k, (k + 1) * limit = limit + k * limit := fun k => by rw [Nat.add_mul, Nat.one_mul, Nat.add_comm]
  constructor
  · intro h
    refine ⟨fun hlt => by simpa using h 0 (by simpa using hlt), ?_⟩
    intro k hk
    rw [List.length_drop] at hk
    have hnext := h (k + 1) (by rw [hshift]; omega)
    rwa [hshift k, ← List.drop_drop] at hnext
  · rintro ⟨hfirst, hrest⟩ k hk
    cases k with
    | zero => simpa using hfirst (by simpa using hk)
    | succ k =>
        rw [hshift] at hk
        rw [hshift, ← List.drop_drop]
        exact hrest k (by rw [List.length_drop]; omega)

section

variable {u : Tables} {db : ReportDb} {running : List JobStatus}

/-- One page: the rows it shows, and if there is a token for the next one. -/
theorem listPage_ok {jobName : Str} {t : NextToken} (h : Listable db running jobName t.jobId) {startTime : ℤ}
    (ht : db.jobStartTime t.jobId jobName "backup".toList = some startTime) (hoffset : t.offset < 2 ^ 63) :
    let rows := ((matchingRows u db jobName t.jobId t.path t.descend).drop t.offset).take (pageLimit t.limit)
    ∃ page, listPage u db running jobName t = .ok page ∧ page.rows = rows.map (shown t.jobId jobName startTime) ∧
      (rows.length = pageLimit t.limit ∧ Apart rows → page.next =
        buildNextTokenOfReportBackupFileList
          { t with limit := pageLimit t.limit, offset := (t.offset + pageLimit t.limit) % 2 ^ 64 }) ∧
      (¬ (rows.length = pageLimit t.limit ∧ Apart rows) → page.next = []) := by
  intro rows
  obtain ⟨results, hresults, hrows, hlength⟩ := getRows_ok
    (stripEndOfPathSeparators t.path (getPathSeparator u (db.jobPlatform jobName t.jobId)))
    (getPathSeparator u (db.jobPlatform jobName t.jobId)) (pageLimit t.limit) t.descend hoffset ht
  have hpage : listPage u db running jobName t = .ok ⟨if results.length = pageLimit t.limit then
      buildNextTokenOfReportBackupFileList
        { t with limit := pageLimit t.limit, offset := (t.offset + pageLimit t.limit) % 2 ^ 64 } else [], results⟩ := by
    simp only [listPage, h.notRunning, h.usable, ne_eq, not_true, if_false, hresults, Bool.false_eq_true]
    rfl
  refine ⟨_, hpage, hrows, ?_, ?_⟩
  · intro hfull
    exact if_pos (hlength.mpr hfull)
  · intro hshort
    exact if_neg (mt hlength.mp hshort)

theorem Follows.unique {req : ReportBackupFileList} {pages pages' : List FileListPage}
    (h : Follows u db running req pages) (h' : Follows u db running req pages') : pages = pages' := by
  induction h generalizing pages' with
  | last hpage hnext =>
      cases h' with
      | last hpage' _ => rw [Except.ok.inj (hpage.symm.trans hpage')]
      | more hpage' hnext' _ => exact absurd (Except.ok.inj (hpage.symm.trans hpage') ▸ hnext) hnext'
  | more hpage hnext _ ih =>
      cases h' with
      | last hpage' hnext' => exact absurd (Except.ok.inj (hpage.symm.trans hpage') ▸ hnext') hnext
      | more hpage' _ hrest' =>
          obtain rfl := Except.ok.inj (hpage.symm.trans hpage')
          rw [ih hrest']

theorem Follows.ne_nil {req : ReportBackupFileList} {pages : List FileListPage} (h : Follows u db running req pages) :
    pages ≠ [] := by
  cases h <;> exact List.cons_ne_nil _ _

theorem Follows.tokens {req : ReportBackupFileList} {pages : List FileListPage} (h : Follows u db running req pages) :
    ∀ page ∈ pages.dropLast, page.next ≠ [] := by
  induction h with
  | last hpage hnext => simp
  | more hpage hnext hrest ih =>
      rw [List.dropLast_cons_of_ne_nil hrest.ne_nil, List.forall_mem_cons]
      exact ⟨hnext, ih⟩

/-- Where a page is taken for the last one, it is the last one or this is a mistake. -/
theorem distinctPages_of_not_full {limit : ℕ} {rest : List RemoteFilesRow}
    (h : ¬ ((rest.take limit).length = limit ∧ Apart (rest.take limit))) :
    DistinctPages limit rest ↔ rest.length ≤ limit := by
  rw [distinctPages_iff]
  constructor
  · rintro ⟨hapart, -⟩
    by_contra hlt
    rw [not_le] at hlt
    exact h ⟨List.length_take_of_le hlt.le, hapart hlt⟩
  · intro hle
    refine ⟨fun hlt => absurd hlt (not_lt.mpr hle), ?_⟩
    rw [List.drop_of_length_le hle]
    intro k hk
    exact absurd hk (Nat.not_lt_zero _)

theorem map_take_eq_iff {α β : Type} (f : α → β) {limit : ℕ} {rest : List α} :
    (rest.take limit).map f = rest.map f ↔ rest.length ≤ limit := by
  constructor
  · intro h
    have hlength := congrArg List.length h
    simp only [List.length_map, List.length_take] at hlength
    omega
  · intro hle
    rw [List.take_of_length_le hle]

/-- The token of a page that is full asks for what follows it. -/
theorem asked_next {req : ReportBackupFileList} {t : NextToken} {next : Str}
    (h : Listable db running req.name t.jobId) (hoffset : t.offset < 2 ^ 63)
    (hnext : next = buildNextTokenOfReportBackupFileList
      { t with limit := pageLimit t.limit, offset := (t.offset + pageLimit t.limit) % 2 ^ 64 }) :
    next ≠ [] ∧ asked { req with next := next } =
      .ok { t with limit := pageLimit t.limit, offset := t.offset + pageLimit t.limit } := by
  have hlimit := pageLimit_le t.limit
  rw [limitReportFileResults] at hlimit
  have hne : next ≠ [] := by
    rw [hnext]
    exact buildNextTokenOfReportBackupFileList_ne_nil _
  refine ⟨hne, ?_⟩
  -- the offset stays far below the largest number
  rw [asked, if_neg hne, hnext, Nat.mod_eq_of_lt (by omega)]
  refine decodeNextToken_buildNextToken ⟨?_, ?_, h.colon_notMem⟩
  · dsimp only
    omega
  · dsimp only
    omega

/-- From some page on, the client comes to an end. It has seen all rows if and only if no page
before the last one was taken for it. -/
theorem follows_from {req : ReportBackupFileList} {t : NextToken} {startTime : ℤ} (hname : req.name ≠ [])
    (hasked : asked req = .ok t) (h : Listable db running req.name t.jobId)
    (ht : db.jobStartTime t.jobId req.name "backup".toList = some startTime)
    (hoffset : t.offset ≤ (matchingRows u db req.name t.jobId t.path t.descend).length) :
    let rest := (matchingRows u db req.name t.jobId t.path t.descend).drop t.offset
    ∃ pages, Follows u db running req pages ∧
      pages.flatMap FileListPage.rows <+: rest.map (shown t.jobId req.name startTime) ∧
      (pages.flatMap FileListPage.rows = rest.map (shown t.jobId req.name startTime) ↔
        DistinctPages (pageLimit t.limit) rest) := by
  obtain ⟨n, hn⟩ : ∃ n, n = (matchingRows u db req.name t.jobId t.path t.descend).length - t.offset := ⟨_, rfl⟩
  -- on the rows that are left
  induction n using Nat.strong_induction_on generalizing req t with
  | _ n ih =>
      intro rest
      have hfew := length_matchingRows_lt u db req.name t.jobId t.path t.descend
      have hrest : rest.length = n := by rw [hn]; exact List.length_drop
      have hpos := pageLimit_pos t.limit
      obtain ⟨page, hpage, hrows, hmore, hlast⟩ := listPage_ok (u := u) h ht (by omega)
      have hhandler : handlerPostReportBackupFileList u db running req = .ok page := by
        rw [handlerPostReportBackupFileList, if_neg hname, hasked]
        exact hpage
      by_cases hfull : (rest.take (pageLimit t.limit)).length = pageLimit t.limit ∧ Apart (rest.take (pageLimit t.limit))
      · have hle : pageLimit t.limit ≤ rest.length := by
          rw [← hfull.1]
          exact List.length_take_le' _ _
        obtain ⟨hne, hdecode⟩ := asked_next h (by omega) (hmore hfull)
        have hname' : ({ req with next := page.next } : ReportBackupFileList).name ≠ [] := hname
        obtain ⟨pages, hpages, hbegin, hall⟩ := ih (n - pageLimit t.limit) (by omega) hname' hdecode h ht
          (by dsimp only; omega) (by dsimp only; omega)
        simp only [pageLimit_pageLimit, ← List.drop_drop] at hbegin hall
        have hsplit : rest.map (shown t.jobId req.name startTime) =
            page.rows ++ (rest.drop (pageLimit t.limit)).map (shown t.jobId req.name startTime) := by
          rw [hrows, ← List.map_append, List.take_append_drop]
        refine ⟨page :: pages, .more hhandler hne hpages, ?_, ?_⟩
        · rw [List.flatMap_cons, hsplit, List.prefix_append_right_inj]
          exact hbegin
        · rw [List.flatMap_cons, hsplit, List.append_cancel_left_eq, distinctPages_iff]
          exact hall.trans ⟨fun hd => ⟨fun _ => hfull.2, hd⟩, And.right⟩
      · refine ⟨[page], .last hhandler (hlast hfull), ?_, ?_⟩
        · rw [List.flatMap_singleton, hrows]
          exact (List.take_prefix _ _).map _
        · rw [List.flatMap_singleton, hrows, map_take_eq_iff, distinctPages_of_not_full hfull]

end

/-! ### The whole list -/

section

variable (u : Tables) (db : ReportDb) (running : List JobStatus)

/-- The client that begins with this request comes to an end, no page but the last is without a
token, and every row that matches was returned exactly once. -/
def Complete (req : ReportBackupFileList) : Prop :=
  ∃ pages, Follows u db running req pages ∧ (∀ page ∈ pages.dropLast, page.next ≠ []) ∧
    (pages.flatMap FileListPage.rows).Perm
      ((matchingRows u db req.name req.jobId req.path req.descend).map
        (shown req.jobId req.name ((db.jobStartTime req.jobId req.name "backup".toList).getD 0)))

end

section

variable {u : Tables} {db : ReportDb} {running : List JobStatus} {req : ReportBackupFileList}

theorem follows_first (hname : req.name ≠ []) (hfirst : req.next = []) (h : Listable db running req.name req.jobId) :
    let rows := (matchingRows u db req.name req.jobId req.path req.descend).map
      (shown req.jobId req.name ((db.jobStartTime req.jobId req.name "backup".toList).getD 0))
    ∃ pages, Follows u db running req pages ∧ pages.flatMap FileListPage.rows <+: rows ∧
      (pages.flatMap FileListPage.rows = rows ↔
        DistinctPages (pageLimit req.maxResults) (matchingRows u db req.name req.jobId req.path req.descend)) := by
  obtain ⟨t, ht⟩ := h.exists_startTime
  rw [ht]
  have hasked : asked req = .ok ⟨req.maxResults, 0, req.jobId, req.path, req.descend⟩ := if_pos hfirst
  exact follows_from hname hasked h ht (Nat.zero_le _)

theorem Complete.distinctPages (hcomplete : Complete u db running req) (hname : req.name ≠ []) (hfirst : req.next = [])
    (h : Listable db running req.name req.jobId) :
    DistinctPages (pageLimit req.maxResults) (matchingRows u db req.name req.jobId req.path req.descend) := by
  obtain ⟨pages, hpages, -, hperm⟩ := hcomplete
  obtain ⟨pages', hpages', hbegin, hall⟩ := follows_first hname hfirst h
  obtain rfl := hpages.unique hpages'
  exact hall.mp (hbegin.eq_of_length hperm.length_eq)

/-- The list is complete exactly if no page but the last has two rows of one path. -/
theorem fileList_complete_iff (hname : req.name ≠ []) (hfirst : req.next = [])
    (h : Listable db running req.name req.jobId) : Complete u db running req ↔
      DistinctPages (pageLimit req.maxResults) (matchingRows u db req.name req.jobId req.path req.descend) := by
  constructor
  · intro hcomplete
    exact hcomplete.distinctPages hname hfirst h
  · intro hdistinct
    obtain ⟨pages, hpages, -, hall⟩ := follows_first hname hfirst h
    exact ⟨pages, hpages, hpages.tokens, .of_eq (hall.mpr hdistinct)⟩

end

/-! ### One target and two -/

def threeFiles (targets : List Str) : List RemoteFilesRow :=
  ["/d/a", "/d/b", "/d/c"].flatMap fun path => targets.map fun target =>
    ⟨path.toList ++ target, path.toList, "/d".toList, target, 0, .file, 1, false⟩

def finishedJob : JobsRow := ⟨"1".toList, "home".toList, "backup".toList, 0, "finished".toList, "linux".toList⟩

def collection (rows : List RemoteFilesRow) : List Collected := rows.map fun r => ⟨r.uuid, "1".toList, r.target⟩

def oneTargetDb : ReportDb where
  jobs := [finishedJob]
  remoteFiles := threeFiles ["s3".toList]
  backupCollections := collection (threeFiles ["s3".toList])
  jobIds := by decide
  rowids := by decide

def twoTargetsDb : ReportDb where
  jobs := [finishedJob]
  remoteFiles := threeFiles ["s3".toList, "gcp".toList]
  backupCollections := collection (threeFiles ["s3".toList, "gcp".toList])
  jobIds := by decide
  rowids := by decide

def listRequest : ReportBackupFileList := ⟨"home".toList, [], 2, "1".toList, "/d/".toList, false⟩

theorem fileList_complete_oneTarget : Listable oneTargetDb [] listRequest.name listRequest.jobId ∧
    Complete .plain oneTargetDb [] listRequest := by
  have hlistable : Listable oneTargetDb [] listRequest.name listRequest.jobId := ⟨by decide, by decide⟩
  refine ⟨hlistable, (fileList_complete_iff (by decide) rfl hlistable).mpr ?_⟩
  intro k hk
  have hlength : (matchingRows .plain oneTargetDb listRequest.name listRequest.jobId listRequest.path
    listRequest.descend).length = 3 := by decide
  have hlimit : pageLimit listRequest.maxResults = 2 := by decide
  rw [hlength, hlimit] at hk
  obtain rfl : k = 0 := by omega
  rw [Apart]
  decide

/-- The first page has the two rows of one path, and it looks like the last page. -/
theorem fileList_not_complete : ¬ ∀ (u : Tables) (db : ReportDb) (running : List JobStatus)
    (req : ReportBackupFileList), req.name ≠ [] → req.next = [] → Listable db running req.name req.jobId →
      0 < req.maxResults → Complete u db running req := by
  intro hall
  have hlistable : Listable twoTargetsDb [] listRequest.name listRequest.jobId := ⟨by decide, by decide⟩
  have hcomplete := hall .plain twoTargetsDb [] listRequest (by decide) rfl hlistable (by decide)
  have hfirst := hcomplete.distinctPages (by decide) rfl hlistable 0 (by decide)
  rw [Apart] at hfirst
  revert hfirst
  decide

end CloudBackup.Httpd
