import CloudBackup.Backup.Entries
import CloudBackup.Library.Checks
import CloudBackup.Library.SqlBytes
import CloudBackup.Library.SqlStatement
import CloudBackup.Library.UnixPath
import CloudBackup.Restore.RestoreOne
import Mathlib.Data.List.Sort

/-!
The rows that a restore asks for: `fetchItems`. A request names the paths it wants,
and with a directory everything below it. The second query looks for what lies below
with a pattern, in which letters of ASCII have no case and which is wrong for the
root. SQLite refuses a statement with too many parameters or too many patterns, and then
there is no restore. `fetchItems_exact_iff` says when the right rows are found, each of
them once.

A query can also fail for what happens outside of the program; what is modelled is a call
in which none does. How long a pattern of `LIKE` may be is left out: no path of a system
comes to 50000 bytes.
-/

namespace CloudBackup.Restore

open Database ObjectStore Backup Iteration SqlLike SqlStatement UnixPath

structure Request where
  allFiles : Bool
  files : List Str
  sourceBackupJobId : Str
  deriving DecidableEq, Repr

def typeRank : FileType → ℕ
  | .dir => 0
  | .file => 1
  | .symlink => 2
  | .unknown => 3

def textLe : Str → Str → Bool
  | [], _ => true
  | _ :: _, [] => false
  | c :: s, d :: t => c.toNat < d.toNat || (c.toNat = d.toNat && textLe s t)

/-- `ORDER BY type DESC, local_path ASC`. -/
def rowLe (type : FileType) (path : Str) (type' : FileType) (path' : Str) : Bool :=
  typeRank type' < typeRank type || (type = type' && textLe path path')

def itemsWhere (db : Db) (jobId : Str) (clause : RemoteFile → Bool) : List RemoteFile :=
  ((jobItems db jobId).filter clause).insertionSort fun r r' =>
    rowLe r.props.type r.localPath r'.props.type r'.localPath

def column : Expr := .binary .name .name

/-- `bc.job_id = ?`. -/
def ofJob : Expr := .binary column .parameter

/-- `rf.local_path LIKE ? ESCAPE '\\'`. -/
def childClause : Expr := .like column .parameter .name

def queryItems (db : Db) (jobId : Str) (condition : Expr) (clause : RemoteFile → Bool) :
    Except StatementErr (List RemoteFile) := do
  prepare (.binary condition (.binary column column))
  return itemsWhere db jobId clause

def childPattern (dir : Str) : Str := escape '\\' dir ++ escape '\\' ['/'] ++ ['%']

def mergeChildren (items childItems : List RemoteFile) : List RemoteFile :=
  (childItems.foldl (fun (acc : List Str × List RemoteFile) child =>
    if acc.1.contains child.uuid then acc
    else (child.uuid :: acc.1, acc.2 ++ [child])) (items.map RemoteFile.uuid, items)).2

/-- The second pass of `fetchItems`, for what lies below the directories that were found. -/
def fetchChildren (db : Db) (jobId : Str) (exactItems : List RemoteFile) : Except StatementErr (List RemoteFile) :=
  let dirPaths := (exactItems.filter (·.props.type = .dir)).map RemoteFile.localPath
  if dirPaths = [] then .ok exactItems
  else do
    let childItems ← queryItems db jobId (.binary ofJob (.joinedBy (dirPaths.map fun _ => childClause)))
      fun r => dirPaths.any fun dp => likeEscape '\\' (childPattern dp) r.localPath
    return mergeChildren exactItems childItems

def fetchItems (db : Db) (req : Request) : Except StatementErr (List RemoteFile) :=
  if req.allFiles || req.files = [] then queryItems db req.sourceBackupJobId ofJob fun _ => true
  else do
    let exactItems ← queryItems db req.sourceBackupJobId (.binary ofJob (.inParameters column req.files.length))
      fun r => req.files.contains r.localPath
    fetchChildren db req.sourceBackupJobId exactItems

/-! ### The merge -/

theorem mem_itemsWhere {db : Db} {jobId : Str} {clause : RemoteFile → Bool} {r : RemoteFile} :
    r ∈ itemsWhere db jobId clause ↔ r ∈ jobItems db jobId ∧ clause r = true := by
  rw [itemsWhere, List.mem_insertionSort, List.mem_filter]

/-- The uuids that were seen are those of the rows that were merged, and no row was
added twice. -/
structure Merging (items : List RemoteFile) (visited : List RemoteFile)
    (acc : List Str × List RemoteFile) : Prop where
  seen : ∀ uuid, uuid ∈ acc.1 ↔ uuid ∈ acc.2.map RemoteFile.uuid
  added : ∃ new, acc.2 = items ++ new ∧ (new.map RemoteFile.uuid).Nodup ∧
    (∀ r ∈ new, r ∈ visited ∧ r.uuid ∉ items.map RemoteFile.uuid) ∧
    ∀ r ∈ visited, r.uuid ∈ acc.2.map RemoteFile.uuid

section

variable {items visited : List RemoteFile} {acc : List Str × List RemoteFile} {child : RemoteFile}

theorem Merging.skip (h : Merging items visited acc) (hseen : child.uuid ∈ acc.1) :
    Merging items (visited ++ [child]) acc := by
  obtain ⟨new, hacc, hnodup, hnew, hvisited⟩ := h.added
  refine ⟨h.seen, new, hacc, hnodup, ?_, ?_⟩
  · exact fun r hr => ⟨List.mem_append_left _ (hnew r hr).1, (hnew r hr).2⟩
  · intro r hr
    rcases List.mem_append.mp hr with hr | hr
    · exact hvisited r hr
    · obtain rfl := List.mem_singleton.mp hr
      exact (h.seen r.uuid).mp hseen

theorem Merging.add (h : Merging items visited acc) (hseen : child.uuid ∉ acc.1) :
    Merging items (visited ++ [child]) (child.uuid :: acc.1, acc.2 ++ [child]) := by
  obtain ⟨new, hacc, hnodup, hnew, hvisited⟩ := h.added
  have hfresh : child.uuid ∉ acc.2.map RemoteFile.uuid := fun hmem => hseen ((h.seen child.uuid).mpr hmem)
  rw [hacc, List.map_append, List.mem_append, not_or] at hfresh
  refine ⟨?_, new ++ [child], by simp [hacc], ?_, ?_, ?_⟩
  · intro uuid
    simp only [List.mem_cons, h.seen, List.map_append, List.mem_append, List.map_cons, List.map_nil,
      List.not_mem_nil, or_false]
    exact or_comm
  · rw [List.map_append, List.nodup_append]
    refine ⟨hnodup, by simp, ?_⟩
    rintro uuid huuid uuid' huuid' rfl
    obtain rfl : uuid = child.uuid := by simpa using huuid'
    exact hfresh.2 huuid
  · intro r hr
    rcases List.mem_append.mp hr with hr | hr
    · exact ⟨List.mem_append_left _ (hnew r hr).1, (hnew r hr).2⟩
    · obtain rfl := List.mem_singleton.mp hr
      exact ⟨by simp, hfresh.1⟩
  · intro r hr
    rw [List.map_append]
    rcases List.mem_append.mp hr with hr | hr
    · exact List.mem_append_left _ (hvisited r hr)
    · obtain rfl := List.mem_singleton.mp hr
      simp

end

theorem merging_mergeChildren (items childItems : List RemoteFile) :
    ∃ new, mergeChildren items childItems = items ++ new ∧ (new.map RemoteFile.uuid).Nodup ∧
      (∀ r ∈ new, r ∈ childItems ∧ r.uuid ∉ items.map RemoteFile.uuid) ∧
      ∀ r ∈ childItems, r.uuid ∈ (mergeChildren items childItems).map RemoteFile.uuid := by
  suffices hgen : ∀ (post visited : List RemoteFile) (acc : List Str × List RemoteFile),
      Merging items visited acc → Merging items (visited ++ post)
        (post.foldl (fun acc child => if acc.1.contains child.uuid then acc
          else (child.uuid :: acc.1, acc.2 ++ [child])) acc) by
    have hstart : Merging items [] (items.map RemoteFile.uuid, items) :=
      ⟨fun _ => Iff.rfl, [], by simp, by simp, by simp, by simp⟩
    exact (hgen childItems [] _ hstart).added
  intro post
  induction post with
  | nil =>
      intro visited acc h
      simpa using h
  | cons child post ih =>
      intro visited acc h
      rw [List.foldl_cons, show visited ++ child :: post = (visited ++ [child]) ++ post by simp]
      apply ih
      by_cases hseen : acc.1.contains child.uuid = true
      · rw [if_pos hseen]
        exact h.skip (by simpa using hseen)
      · rw [if_neg hseen]
        exact h.add (by simpa using hseen)

/-! ### The right rows -/

def requestedDirs (db : Db) (jobId : Str) (files : List Str) : List RemoteFile :=
  (jobItems db jobId).filter fun r => files.contains r.localPath && decide (r.props.type = .dir)

/-- The request names the path of a row, or a directory above it. -/
def Selected (db : Db) (jobId : Str) (files : List Str) (r : RemoteFile) : Prop :=
  r.localPath ∈ files ∨ ∃ d ∈ requestedDirs db jobId files, Below d.localPath r.localPath

/-- The characters that SQLite reads in a path start with those of a directory and a
separator, if the case of letters does not count. -/
def BelowFolded (dir path : Str) : Prop := foldChars (dir ++ ['/']) <+: foldChars path

/-- The rows are those that a request selects, each of them once. -/
structure ExactlySelects (db : Db) (jobId : Str) (files : List Str) (items : List RemoteFile) : Prop where
  nodup : items.Nodup
  mem_iff : ∀ r, r ∈ items ↔ r ∈ jobItems db jobId ∧ Selected db jobId files r

/-- A request that gets what it asks for. It asks for something; what it names is in
the collection of the job once; nothing lies below one of its directories only by the
case of letters or by bytes that SQLite reads alike; and what lies below the root is found
for another reason. -/
structure Unambiguous (db : Db) (jobId : Str) (files : List Str) : Prop where
  nonempty : files ≠ [] ∨ jobItems db jobId = []
  once : ∀ r ∈ jobItems db jobId, r.localPath ∈ files →
    (db.backupCollections.filter fun c => c.fileUuid = r.uuid ∧ c.jobId = jobId).length = 1
  sameCase : ∀ d ∈ requestedDirs db jobId files, ∀ r ∈ jobItems db jobId,
    BelowFolded d.localPath r.localPath → Selected db jobId files r
  root : (∃ d ∈ requestedDirs db jobId files, d.localPath = ['/']) → ∀ r ∈ jobItems db jobId,
    r.localPath ∉ files → ∃ d ∈ requestedDirs db jobId files, BelowFolded d.localPath r.localPath

/-- SQLite takes the statements of a request: it has a place for each path and each
directory that was found. -/
structure FitsStatement (db : Db) (jobId : Str) (files : List Str) : Prop where
  paths : files.length ≤ 32765
  dirs : (requestedDirs db jobId files).length ≤ 996

theorem likeEscape_childPattern (dir path : Str) :
    likeEscape '\\' (childPattern dir) path = true ↔ BelowFolded dir path := by
  rw [childPattern, ← escape_append]
  exact likeEscape_escape (by decide) (by decide) _ _

theorem BelowFolded.of_below {dir path : Str} (hdir : IsClean dir) (hpath : IsClean path)
    (hroot : dir ≠ ['/']) (h : Below dir path) : BelowFolded dir path :=
  foldChars_prefix (by decide) ((below_iff_starts hdir hpath hroot).mp h)

section

variable {db : Db} {jobId : Str} {files : List Str}

theorem mem_requestedDirs {d : RemoteFile} : d ∈ requestedDirs db jobId files ↔
    d ∈ jobItems db jobId ∧ d.localPath ∈ files ∧ d.props.type = .dir := by
  simp [requestedDirs]

def Found (db : Db) (jobId : Str) (files : List Str) (r : RemoteFile) : Prop :=
  r.localPath ∈ files ∨ ∃ d ∈ requestedDirs db jobId files, BelowFolded d.localPath r.localPath

/-- A row stands in the join once for each of its entries in the collection. -/
theorem count_jobItems (hkey : (db.remoteFiles.map RemoteFile.uuid).Nodup) {r : RemoteFile}
    (hr : r ∈ db.remoteFiles) : (jobItems db jobId).count r =
      (db.backupCollections.filter fun c => c.fileUuid = r.uuid ∧ c.jobId = jobId).length := by
  have hnodup : db.remoteFiles.Nodup := List.Nodup.of_map _ hkey
  unfold jobItems
  generalize db.remoteFiles = rows at hnodup hr
  induction rows with
  | nil => cases hr
  | cons r' rows ih =>
      obtain ⟨hnotMem, hnodup⟩ := List.nodup_cons.mp hnodup
      rw [List.flatMap_cons, List.count_append, List.map_const', List.count_replicate]
      rcases List.mem_cons.mp hr with rfl | hr
      · have hrest : List.count r (rows.flatMap fun r' => (db.backupCollections.filter fun c =>
            c.fileUuid = r'.uuid ∧ c.jobId = jobId).map fun _ => r') = 0 := by
          rw [List.count_eq_zero]
          intro hmem
          obtain ⟨r', hr', hmap⟩ := List.mem_flatMap.mp hmem
          obtain ⟨_, -, rfl⟩ := List.mem_map.mp hmap
          exact hnotMem hr'
        rw [hrest]
        simp
      · have hne : r' ≠ r := by
          rintro rfl
          exact hnotMem hr
        rw [ih hnodup hr]
        simp [hne]

theorem uuid_injOn (hkey : (db.remoteFiles.map RemoteFile.uuid).Nodup) {r r' : RemoteFile}
    (hr : r ∈ jobItems db jobId) (hr' : r' ∈ jobItems db jobId) (heq : r.uuid = r'.uuid) : r = r' :=
  List.inj_on_of_nodup_map hkey (mem_jobItems hr) (mem_jobItems hr') heq

def exactItems (db : Db) (jobId : Str) (files : List Str) : List RemoteFile :=
  itemsWhere db jobId fun r => files.contains r.localPath

theorem mem_exactItems {r : RemoteFile} :
    r ∈ exactItems db jobId files ↔ r ∈ jobItems db jobId ∧ r.localPath ∈ files := by
  rw [exactItems, mem_itemsWhere, List.contains_iff_mem]

def withChildren (db : Db) (jobId : Str) (items : List RemoteFile) : List RemoteFile :=
  let dirPaths := (items.filter (·.props.type = .dir)).map RemoteFile.localPath
  if dirPaths = [] then items
  else mergeChildren items (itemsWhere db jobId fun r =>
    dirPaths.any fun dp => likeEscape '\\' (childPattern dp) r.localPath)

def foundItems (db : Db) (req : Request) : List RemoteFile :=
  if req.allFiles || req.files = [] then itemsWhere db req.sourceBackupJobId fun _ => true
  else withChildren db req.sourceBackupJobId (exactItems db req.sourceBackupJobId req.files)

/-- The two queries together: the second one adds rows that are new. -/
theorem foundItems_eq (hfiles : files ≠ []) : ∃ new,
    foundItems db ⟨false, files, jobId⟩ = exactItems db jobId files ++ new ∧
      (new.map RemoteFile.uuid).Nodup ∧
      (∀ r ∈ new, r ∈ jobItems db jobId ∧
        (∃ d ∈ requestedDirs db jobId files, BelowFolded d.localPath r.localPath) ∧
        r.uuid ∉ (exactItems db jobId files).map RemoteFile.uuid) ∧
      ∀ r ∈ jobItems db jobId, (∃ d ∈ requestedDirs db jobId files, BelowFolded d.localPath r.localPath) →
        r.uuid ∈ (foundItems db ⟨false, files, jobId⟩).map RemoteFile.uuid := by
  have hdirs : ∀ d, d ∈ (exactItems db jobId files).filter (·.props.type = .dir) ↔
      d ∈ requestedDirs db jobId files := by
    intro d
    simp only [List.mem_filter, mem_exactItems, decide_eq_true_eq, mem_requestedDirs, and_assoc]
  have hfetch : foundItems db ⟨false, files, jobId⟩ = withChildren db jobId (exactItems db jobId files) := by
    unfold foundItems
    rw [if_neg (by simpa using hfiles)]
  rw [hfetch, withChildren]
  split
  · rename_i hnone
    refine ⟨[], by simp, by simp, by simp, ?_⟩
    rintro r - ⟨d, hd, -⟩
    rw [← hdirs, List.map_eq_nil_iff.mp hnone] at hd
    cases hd
  · have hclause : ∀ r : RemoteFile, (((exactItems db jobId files).filter (·.props.type = .dir)).map
        RemoteFile.localPath).any (fun dp => likeEscape '\\' (childPattern dp) r.localPath) = true ↔
          ∃ d ∈ requestedDirs db jobId files, BelowFolded d.localPath r.localPath := by
      intro r
      simp only [List.any_map, List.any_eq_true, Function.comp_apply, likeEscape_childPattern, hdirs]
    obtain ⟨new, heq, hnodup, hnew, hall⟩ := merging_mergeChildren (exactItems db jobId files)
      (itemsWhere db jobId fun r => (((exactItems db jobId files).filter (·.props.type = .dir)).map
        RemoteFile.localPath).any fun dp => likeEscape '\\' (childPattern dp) r.localPath)
    refine ⟨new, heq, hnodup, ?_, ?_⟩
    · intro r hr
      obtain ⟨hmem, hfresh⟩ := hnew r hr
      obtain ⟨hjob, hmatch⟩ := mem_itemsWhere.mp hmem
      exact ⟨hjob, (hclause r).mp hmatch, hfresh⟩
    · intro r hr hbelow
      exact hall r (mem_itemsWhere.mpr ⟨hr, (hclause r).mpr hbelow⟩)

theorem mem_foundItems (hkey : (db.remoteFiles.map RemoteFile.uuid).Nodup) (hfiles : files ≠ [])
    (r : RemoteFile) : r ∈ foundItems db ⟨false, files, jobId⟩ ↔
      r ∈ jobItems db jobId ∧ Found db jobId files r := by
  obtain ⟨new, heq, -, hnew, hall⟩ := @foundItems_eq db jobId files hfiles
  have hsub : ∀ r' ∈ foundItems db ⟨false, files, jobId⟩, r' ∈ jobItems db jobId := by
    intro r' hr'
    rw [heq, List.mem_append] at hr'
    rcases hr' with hr' | hr'
    · exact (mem_exactItems.mp hr').1
    · exact (hnew r' hr').1
  constructor
  · intro hr
    refine ⟨hsub r hr, ?_⟩
    rw [heq, List.mem_append] at hr
    rcases hr with hr | hr
    · exact .inl (mem_exactItems.mp hr).2
    · exact .inr (hnew r hr).2.1
  · rintro ⟨hjob, hfile | hbelow⟩
    · rw [heq]
      exact List.mem_append_left _ (mem_exactItems.mpr ⟨hjob, hfile⟩)
    · -- the row that has its uuid is the row itself
      obtain ⟨r', hr', huuid⟩ := List.mem_map.mp (hall r hjob hbelow)
      obtain rfl := uuid_injOn hkey (hsub r' hr') hjob huuid
      exact hr'

/-- No row is found twice, unless the request names it and it is in the collection
twice. -/
theorem nodup_foundItems (hkey : (db.remoteFiles.map RemoteFile.uuid).Nodup) (hfiles : files ≠ []) :
    (foundItems db ⟨false, files, jobId⟩).Nodup ↔ ∀ r ∈ jobItems db jobId, r.localPath ∈ files →
      (db.backupCollections.filter fun c => c.fileUuid = r.uuid ∧ c.jobId = jobId).length = 1 := by
  obtain ⟨new, heq, hnodup, hnew, -⟩ := @foundItems_eq db jobId files hfiles
  have hsplit : (foundItems db ⟨false, files, jobId⟩).Nodup ↔ (exactItems db jobId files).Nodup := by
    rw [heq, List.nodup_append]
    constructor
    · exact fun h => h.1
    · refine fun h => ⟨h, hnodup.of_map, ?_⟩
      rintro r hr r' hr' rfl
      exact (hnew r hr').2.2 (List.mem_map_of_mem hr)
  have hcount : ∀ r ∈ jobItems db jobId, r.localPath ∈ files → (exactItems db jobId files).count r =
      (db.backupCollections.filter fun c => c.fileUuid = r.uuid ∧ c.jobId = jobId).length := by
    intro r hr hfile
    rw [exactItems, itemsWhere, (List.perm_insertionSort _ _).count_eq, List.count_filter (by simpa using hfile),
      count_jobItems hkey (mem_jobItems hr)]
  rw [hsplit, List.nodup_iff_count_le_one]
  constructor
  · intro h r hr hfile
    have hmem : r ∈ exactItems db jobId files := mem_exactItems.mpr ⟨hr, hfile⟩
    have hpos := List.count_pos_iff.mpr hmem
    have hle := h r
    rw [hcount r hr hfile] at hpos hle
    omega
  · intro h r
    by_cases hmem : r ∈ exactItems db jobId files
    · obtain ⟨hr, hfile⟩ := mem_exactItems.mp hmem
      rw [hcount r hr hfile, h r hr hfile]
    · rw [List.count_eq_zero_of_not_mem hmem]
      omega

end

theorem queryItems_ok_iff {db : Db} {jobId : Str} {condition : Expr} {clause : RemoteFile → Bool}
    {items : List RemoteFile} : queryItems db jobId condition clause = .ok items ↔
      prepare (.binary condition (.binary column column)) = .ok () ∧ itemsWhere db jobId clause = items := by
  unfold queryItems
  cases prepare (.binary condition (.binary column column)) with
  | error e => simp [bind, Except.bind]
  | ok u => simp [bind, Except.bind, pure, Except.pure]

theorem prepare_paths_iff (n : ℕ) :
    prepare (.binary (.binary ofJob (.inParameters column n)) (.binary column column)) = .ok () ↔ n ≤ 32765 := by
  simp [prepare_ok_iff, Expr.depth, Expr.parameters, ofJob, column, maxExprDepth, maxVariableNumber]
  omega

theorem prepare_dirs_iff (n : ℕ) :
    prepare (.binary (.binary ofJob (.joinedBy (List.replicate (n + 1) childClause))) (.binary column column)) =
      .ok () ↔ n + 1 ≤ 996 := by
  rw [prepare_ok_iff, Expr.depth, Expr.depth, depth_joinedBy_replicate, Expr.parameters, Expr.parameters,
    parameters_joinedBy_replicate]
  simp [Expr.depth, Expr.parameters, ofJob, column, childClause, maxExprDepth, maxVariableNumber]
  omega

theorem fetchChildren_ok_iff {db : Db} {jobId : Str} {exactItems items : List RemoteFile} :
    fetchChildren db jobId exactItems = .ok items ↔
      (exactItems.filter (·.props.type = .dir)).length ≤ 996 ∧ withChildren db jobId exactItems = items := by
  unfold fetchChildren withChildren
  rw [← List.length_map RemoteFile.localPath]
  generalize (exactItems.filter (·.props.type = .dir)).map RemoteFile.localPath = dirPaths
  cases dirPaths with
  | nil => simp
  | cons d dirs =>
      have hclauses : ((d :: dirs).map fun _ => childClause) = List.replicate (dirs.length + 1) childClause :=
        List.map_const'
      dsimp only
      rw [if_neg (List.cons_ne_nil d dirs), if_neg (List.cons_ne_nil d dirs), hclauses, Checks.bind_ok]
      simp only [queryItems_ok_iff, prepare_dirs_iff]
      constructor
      · rintro ⟨_, ⟨hdirs, rfl⟩, hreturn⟩
        exact ⟨hdirs, Except.ok.inj hreturn⟩
      · rintro ⟨hdirs, rfl⟩
        exact ⟨_, ⟨hdirs, rfl⟩, rfl⟩

theorem length_dirs_exactItems (db : Db) (jobId : Str) (files : List Str) :
    ((exactItems db jobId files).filter (·.props.type = .dir)).length = (requestedDirs db jobId files).length := by
  have hperm := (List.perm_insertionSort (fun r r' : RemoteFile =>
    rowLe r.props.type r.localPath r'.props.type r'.localPath) ((jobItems db jobId).filter fun r =>
      files.contains r.localPath)).filter (·.props.type = .dir)
  rw [exactItems, itemsWhere, hperm.length_eq, List.filter_filter, requestedDirs]
  congr 1
  exact List.filter_congr fun r _ => Bool.and_comm _ _

/-- The queries find the rows if SQLite takes them; otherwise there is an error. -/
theorem fetchItems_ok_iff {db : Db} {req : Request} {items : List RemoteFile} : fetchItems db req = .ok items ↔
    (req.allFiles = true ∨ FitsStatement db req.sourceBackupJobId req.files) ∧ foundItems db req = items := by
  obtain ⟨allFiles, files, jobId⟩ := req
  unfold fetchItems foundItems
  by_cases hall : (allFiles || decide (files = [])) = true
  · have hfits : allFiles = true ∨ FitsStatement db jobId files := by
      rcases (Bool.or_eq_true _ _).mp hall with hall | hnone
      · exact .inl hall
      · rw [of_decide_eq_true hnone]
        exact .inr ⟨by simp, by simp [requestedDirs]⟩
    have hprepare : prepare (.binary ofJob (.binary column column)) = .ok () := by decide
    rw [if_pos hall, if_pos hall, queryItems_ok_iff, and_iff_right hprepare, and_iff_right hfits]
  · have hpart : ¬ allFiles = true := fun h => hall (by simp [h])
    rw [if_neg hall, if_neg hall, Checks.bind_ok, or_iff_right hpart]
    simp only [queryItems_ok_iff, prepare_paths_iff, fetchChildren_ok_iff]
    constructor
    · rintro ⟨_, ⟨hpaths, rfl⟩, hdirs, rfl⟩
      refine ⟨⟨hpaths, ?_⟩, rfl⟩
      rw [← length_dirs_exactItems]
      exact hdirs
    · rintro ⟨hfits, rfl⟩
      refine ⟨exactItems db jobId files, ⟨hfits.paths, rfl⟩, ?_, rfl⟩
      rw [length_dirs_exactItems]
      exact hfits.dirs

/-- Without a path every row is fetched, and none is selected. -/
theorem exactlySelects_nil_iff (db : Db) (jobId : Str) :
    ExactlySelects db jobId [] (foundItems db ⟨false, [], jobId⟩) ↔ Unambiguous db jobId [] := by
  have hall : ∀ r, r ∈ foundItems db ⟨false, [], jobId⟩ ↔ r ∈ jobItems db jobId := by
    intro r
    simp [foundItems, mem_itemsWhere]
  have hnone : ∀ r, ¬ Selected db jobId [] r := by
    simp [Selected, requestedDirs]
  constructor
  · intro h
    refine ⟨.inr ?_, by simp, by simp [requestedDirs], by simp [requestedDirs]⟩
    apply List.eq_nil_iff_forall_not_mem.mpr
    intro r hr
    exact hnone r ((h.mem_iff r).mp ((hall r).mpr hr)).2
  · intro h
    have hnil : jobItems db jobId = [] := h.nonempty.resolve_left (by simp)
    have hempty : foundItems db ⟨false, [], jobId⟩ = [] := by
      apply List.eq_nil_iff_forall_not_mem.mpr
      intro r hr
      rw [hall, hnil] at hr
      cases hr
    rw [hempty]
    exact ⟨List.nodup_nil, by simp [hnil]⟩

section

variable {db : Db} {jobId : Str} {files : List Str}
  (hkey : (db.remoteFiles.map RemoteFile.uuid).Nodup)
  (hrows : ∀ r ∈ jobItems db jobId, IsClean r.localPath) (hfiles : files ≠ [])
include hkey hrows hfiles

theorem unambiguous_of_exactlySelects
    (h : ExactlySelects db jobId files (foundItems db ⟨false, files, jobId⟩)) :
    Unambiguous db jobId files := by
  obtain ⟨hnodup, hmem⟩ := h
  refine ⟨.inl hfiles, (nodup_foundItems hkey hfiles).mp hnodup, ?_, ?_⟩
  · intro d hd r hr hbelow
    exact ((hmem r).mp ((mem_foundItems hkey hfiles r).mpr ⟨hr, .inr ⟨d, hd, hbelow⟩⟩)).2
  · rintro ⟨d, hd, hroot⟩ r hr hnotFile
    have hdfile : d.localPath ∈ files := (mem_requestedDirs.mp hd).2.1
    have hbelow : Below d.localPath r.localPath := by
      rw [hroot, below_root (hrows r hr), ← hroot]
      intro heq
      exact hnotFile (heq ▸ hdfile)
    have hfetched := (hmem r).mpr ⟨hr, .inr ⟨d, hd, hbelow⟩⟩
    exact ((mem_foundItems hkey hfiles r).mp hfetched).2.resolve_left hnotFile

theorem exactlySelects_of_unambiguous (h : Unambiguous db jobId files) :
    ExactlySelects db jobId files (foundItems db ⟨false, files, jobId⟩) := by
  refine ⟨(nodup_foundItems hkey hfiles).mpr h.once, ?_⟩
  intro r
  rw [mem_foundItems hkey hfiles]
  constructor
  · rintro ⟨hr, hfile | ⟨d, hd, hbelow⟩⟩
    · exact ⟨hr, .inl hfile⟩
    · exact ⟨hr, h.sameCase d hd r hr hbelow⟩
  · rintro ⟨hr, hfile | ⟨d, hd, hbelow⟩⟩
    · exact ⟨hr, .inl hfile⟩
    · by_cases hroot : d.localPath = ['/']
      · by_cases hfile : r.localPath ∈ files
        · exact ⟨hr, .inl hfile⟩
        · exact ⟨hr, .inr (h.root ⟨d, hd, hroot⟩ r hr hfile)⟩
      · have hdclean := hrows d (mem_requestedDirs.mp hd).1
        exact ⟨hr, .inr ⟨d, hd, .of_below hdclean (hrows r hr) hroot hbelow⟩⟩

end

/-- A request gets the rows it selects if SQLite takes its statements and it is
unambiguous; and only then. -/
theorem fetchItems_exact_iff (db : Db) (jobId : Str) (files : List Str)
    (hkey : (db.remoteFiles.map RemoteFile.uuid).Nodup)
    (hrows : ∀ r ∈ jobItems db jobId, IsClean r.localPath) :
    (∃ items, fetchItems db ⟨false, files, jobId⟩ = .ok items ∧ ExactlySelects db jobId files items) ↔
      FitsStatement db jobId files ∧ Unambiguous db jobId files := by
  have hfound : ExactlySelects db jobId files (foundItems db ⟨false, files, jobId⟩) ↔
      Unambiguous db jobId files := by
    by_cases hfiles : files = []
    · subst hfiles
      exact exactlySelects_nil_iff db jobId
    · exact ⟨unambiguous_of_exactlySelects hkey hrows hfiles,
        exactlySelects_of_unambiguous hkey hrows hfiles⟩
  simp only [fetchItems_ok_iff, Bool.false_eq_true, false_or]
  rw [← hfound]
  constructor
  · rintro ⟨_, ⟨hfits, rfl⟩, hexact⟩
    exact ⟨hfits, hexact⟩
  · rintro ⟨hfits, hexact⟩
    exact ⟨_, ⟨hfits, rfl⟩, hexact⟩

def plainRow (path : String) (type : FileType) : RemoteFile :=
  ⟨path.toList, path.toList, "target".toList, "job".toList, false, 1, "0".toList,
    ⟨type, [], 1, 1, 1, [], [], [], [], false⟩⟩

def dirAndFile (dir file : String) : Db :=
  ⟨[], [plainRow dir .dir, plainRow file .file],
    [⟨dir.toList, "job".toList, "target".toList⟩, ⟨file.toList, "job".toList, "target".toList⟩], []⟩

instance (db : Db) (jobId : Str) (files : List Str) (r : RemoteFile) :
    Decidable (Selected db jobId files r) :=
  inferInstanceAs (Decidable (_ ∨ ∃ d ∈ requestedDirs db jobId files, _))

instance (dir path : Str) : Decidable (BelowFolded dir path) :=
  inferInstanceAs (Decidable (foldChars (dir ++ ['/']) <+: foldChars path))

/-- A directory is restored with the file in it. -/
theorem fetchItems_exact_dirAndFile : ∃ items,
    fetchItems (dirAndFile "/a" "/a/x_%") ⟨false, ["/a".toList], "job".toList⟩ = .ok items ∧
      ExactlySelects (dirAndFile "/a" "/a/x_%") "job".toList ["/a".toList] items :=
  (fetchItems_exact_iff (dirAndFile "/a" "/a/x_%") "job".toList ["/a".toList] (by decide)
    (by decide)).mpr ⟨⟨by decide, by decide⟩, by decide, by decide, by decide, by decide⟩

/-- The directory `/A` is restored with the file in `/a`. -/
theorem fetchItems_exact_otherCase : ¬ ∀ (db : Db) (jobId : Str) (files : List Str),
    (db.remoteFiles.map RemoteFile.uuid).Nodup → (∀ r ∈ jobItems db jobId, IsClean r.localPath) →
    (∀ f ∈ files, IsClean f) →
    ∃ items, fetchItems db ⟨false, files, jobId⟩ = .ok items ∧ ExactlySelects db jobId files items := by
  intro hall
  obtain ⟨items, hitems, hexact⟩ := hall (dirAndFile "/A" "/a/x") "job".toList ["/A".toList] (by decide)
    (by decide) (by decide)
  have hfetched : plainRow "/a/x" .file ∈ items := by
    rw [← (fetchItems_ok_iff.mp hitems).2]
    decide
  have hselected := ((hexact.mem_iff _).mp hfetched).2
  revert hselected
  decide

/-! ### One target -/

/-- The rows are of one target, and no path is there twice. -/
def OneVersionEach (target : Str) (items : List RemoteFile) : Prop :=
  (∀ r ∈ items, r.target = target) ∧ (items.map RemoteFile.localPath).Nodup

section

variable {db : Db} {jobId target : Str}

theorem eq_of_mem_of_length_le_one {α : Type} {l : List α} (h : l.length ≤ 1) {a b : α} (ha : a ∈ l)
    (hb : b ∈ l) : a = b := by
  have hne : l ≠ [] := List.ne_nil_of_mem ha
  obtain ⟨c, rfl⟩ : ∃ c, l = [c] := by
    apply List.length_eq_one_iff.mp
    have hpos : 0 < l.length := List.length_pos_of_ne_nil hne
    omega
  rw [List.mem_singleton.mp ha, List.mem_singleton.mp hb]

/-- One entry for each path makes one row for each path. -/
theorem nodup_jobItems (hkeyed : Keyed db)
    (htarget : ∀ c ∈ db.backupCollections, c.jobId = jobId → c.target = target)
    (hone : ∀ path, (entries db jobId target path).length ≤ 1) :
    ((jobItems db jobId).map RemoteFile.localPath).Nodup := by
  have hentry : ∀ r ∈ db.remoteFiles, ∀ c ∈ db.backupCollections, c.fileUuid = r.uuid ∧ c.jobId = jobId →
      c ∈ entries db jobId target r.localPath := by
    rintro r hr c hc ⟨huuid, hjob⟩
    simp only [entries, List.mem_filter, Bool.and_eq_true, decide_eq_true_eq]
    exact ⟨hc, ⟨hjob, htarget c hc hjob⟩, r, hr, huuid.symm, rfl⟩
  rw [jobItems, List.map_flatMap, List.nodup_flatMap]
  constructor
  · intro r hr
    have hfilter : (entries db jobId target r.localPath).filter (fun c => c.fileUuid = r.uuid ∧ c.jobId = jobId) =
        db.backupCollections.filter fun c => c.fileUuid = r.uuid ∧ c.jobId = jobId := by
      rw [entries, List.filter_filter]
      apply List.filter_congr
      intro c hc
      by_cases hmatch : c.fileUuid = r.uuid ∧ c.jobId = jobId
      · have hmem := hentry r hr c hc hmatch
        simp only [entries, List.mem_filter] at hmem
        rw [hmem.2, Bool.and_true]
      · simp [hmatch]
    have hle := (List.length_filter_le (fun c => decide (c.fileUuid = r.uuid ∧ c.jobId = jobId))
      (entries db jobId target r.localPath)).trans (hone r.localPath)
    rw [hfilter] at hle
    rw [List.map_const', List.map_replicate, List.nodup_replicate]
    exact hle
  · have hne : db.remoteFiles.Pairwise fun r r' => r.uuid ≠ r'.uuid :=
      List.pairwise_map.mp hkeyed.uuids
    refine hne.imp_of_mem ?_
    intro r r' hr hr' huuid path hpath hpath'
    obtain ⟨_, hmem, rfl⟩ := List.mem_map.mp hpath
    obtain ⟨_, hmem', heq⟩ := List.mem_map.mp hpath'
    obtain ⟨c, hc, rfl⟩ := List.mem_map.mp hmem
    obtain ⟨c', hc', rfl⟩ := List.mem_map.mp hmem'
    obtain ⟨hcmem, hcmatch⟩ : c ∈ db.backupCollections ∧ c.fileUuid = r.uuid ∧ c.jobId = jobId := by
      simpa using hc
    obtain ⟨hcmem', hcmatch'⟩ : c' ∈ db.backupCollections ∧ c'.fileUuid = r'.uuid ∧ c'.jobId = jobId := by
      simpa using hc'
    -- two entries for the same path are one, and so are their rows
    have hfirst := hentry r hr c hcmem hcmatch
    have hsecond := hentry r' hr' c' hcmem' hcmatch'
    rw [heq] at hsecond
    rw [eq_of_mem_of_length_le_one (hone r.localPath) hfirst hsecond] at hcmatch
    exact huuid (hcmatch.1.symm.trans hcmatch'.1)

theorem target_of_mem_jobItems (hkeyed : Keyed db)
    (htarget : ∀ c ∈ db.backupCollections, c.jobId = jobId → c.target = target) {r : RemoteFile}
    (hr : r ∈ jobItems db jobId) : r.target = target := by
  obtain ⟨r, hmem, hmap⟩ := List.mem_flatMap.mp hr
  obtain ⟨c, hc, rfl⟩ := List.mem_map.mp hmap
  obtain ⟨hcmem, huuid, hjob⟩ : c ∈ db.backupCollections ∧ c.fileUuid = r.uuid ∧ c.jobId = jobId := by
    simpa using hc
  obtain ⟨r', hr', huuid', htarget'⟩ := hkeyed.rowOf c hcmem
  obtain rfl := List.inj_on_of_nodup_map hkeyed.uuids hr' hmem (huuid'.trans huuid)
  exact htarget'.trans (htarget c hcmem hjob)

/-- A request gets a part of the rows of the job, none of them more often than it is
there. -/
theorem OneVersionEach.foundItems (h : OneVersionEach target (jobItems db jobId)) {req : Request}
    (hreq : req.sourceBackupJobId = jobId) : OneVersionEach target (foundItems db req) := by
  have hquery : ∀ clause, OneVersionEach target (itemsWhere db jobId clause) := by
    intro clause
    refine ⟨fun r hr => h.1 r (mem_itemsWhere.mp hr).1, ?_⟩
    rw [itemsWhere, ((List.perm_insertionSort _ _).map _).nodup_iff]
    exact h.2.sublist (List.filter_sublist.map _)
  have hpath : ∀ r ∈ jobItems db jobId, ∀ r' ∈ jobItems db jobId, r.localPath = r'.localPath → r = r' :=
    fun r hr r' hr' heq => List.inj_on_of_nodup_map h.2 hr hr' heq
  obtain ⟨allFiles, files, job⟩ := req
  obtain rfl : job = jobId := hreq
  by_cases hall : allFiles = true ∨ files = []
  · have hfetch : Restore.foundItems db ⟨allFiles, files, job⟩ = itemsWhere db job fun _ => true := by
      unfold Restore.foundItems
      rw [if_pos (by simpa using hall)]
    rw [hfetch]
    exact hquery _
  · simp only [not_or, Bool.not_eq_true] at hall
    obtain ⟨rfl, hfiles⟩ := hall
    obtain ⟨new, hfetch, hnodup, hnew, -⟩ := @foundItems_eq db job files hfiles
    have hexact := hquery fun r => files.contains r.localPath
    rw [hfetch]
    refine ⟨?_, ?_⟩
    · intro r hr
      rcases List.mem_append.mp hr with hr | hr
      · exact hexact.1 r hr
      · exact h.1 r (hnew r hr).1
    · rw [List.map_append, List.nodup_append]
      refine ⟨hexact.2, ?_, ?_⟩
      · -- rows of one path would be one row, which is not added twice
        apply List.Nodup.map_on ?_ hnodup.of_map
        intro r hr r' hr' heq
        exact hpath r (hnew r hr).1 r' (hnew r' hr').1 heq
      · rintro path hmem path' hmem' rfl
        obtain ⟨r, hr, rfl⟩ := List.mem_map.mp hmem
        obtain ⟨r', hr', heq⟩ := List.mem_map.mp hmem'
        obtain rfl := hpath r' (hnew r' hr').1 r (mem_exactItems.mp hr).1 heq
        exact (hnew r' hr').2.2 (List.mem_map_of_mem hr)

end

/-- A job walks no path twice. -/
def WalksOnce (jobUuid : Str) (a : Action) (s : Trace) : Prop :=
  match a with
  | .walk _ job it => job = jobUuid → it.path ∉ s.walked
  | .mark _ _ _ => True

/-- If the job that is restored had no target but this one and walked no path twice,
then one version of each path is read, and from this target. -/
theorem fetchItems_oneTarget (C : Cloud) (pathMatch : Str → Str → Option Bool) (jobId target : Str)
    {s : Trace} (hrun : Reaches (fun a s => InOrder jobId [target] a s ∧ OnCandidates jobId [target] a s ∧
      WalksOnce jobId a s) (Trace.step C pathMatch jobId) ⟨World.empty, [], false⟩ s)
    (req : Request) (hreq : req.sourceBackupJobId = jobId) {items : List RemoteFile}
    (hitems : fetchItems s.world.db req = .ok items) : OneVersionEach target items := by
  rw [← (fetchItems_ok_iff.mp hitems).2]
  have hone : OneEntry jobId [target] s := by
    refine hrun.invariant (.start [target] keyed_empty (by simp [World.empty, Db.empty])) ?_
    rintro a s hs ⟨horder, hcandidates, honce⟩
    refine oneEntry_step (List.nodup_singleton target) a hs horder ?_
    cases a with
    | walk cfg job it => exact honce
    | mark cfg job e =>
        -- a candidate is not in the collection of the first target, and there is no other
        intro hjob rec hrec _ n hn
        obtain rfl := List.mem_singleton.mp hn
        obtain ⟨row, hrow, hpath, -⟩ := getBackedup_row hrec
        have hmem := hcandidates hjob (List.mem_map.mpr ⟨row, hrow, hpath⟩) n rfl
        simp only [deletionCandidates, List.mem_filter, decide_eq_true_eq] at hmem
        exact hmem.2.1
  have htarget : ∀ c ∈ s.world.db.backupCollections, c.jobId = jobId → c.target = target :=
    fun c hc hjob => List.mem_singleton.mp (hone.target c hc hjob)
  refine OneVersionEach.foundItems ⟨?_, ?_⟩ hreq
  · exact fun r hr => target_of_mem_jobItems hone.keyed htarget hr
  · exact nodup_jobItems hone.keyed htarget (hone.le_one target)

theorem fetchItems_oneTarget_firstUpload : ∃ items,
    fetchItems (firstUpload.apply plainCloud (fun _ _ => none) World.empty).db ⟨true, [], "job".toList⟩ = .ok items ∧
      OneVersionEach "target".toList items :=
  ⟨_, rfl, fetchItems_oneTarget plainCloud (fun _ _ => none) "job".toList "target".toList
    (.step firstUpload .refl ⟨fun _ => ⟨rfl, by simp⟩, trivial, fun _ => by simp⟩) ⟨true, [], "job".toList⟩ rfl rfl⟩

def twoTargets : Action :=
  .walk plainConfig "job".toList (smoothItem "/file" (smallFile 1 1)
    [smoothTarget (plainStore .awsS3) 7 "first",
      smoothTarget { plainStore .awsS3 with name := "other".toList } 7 "second"])

theorem fetchItems_oneTarget_twoTargets : ¬ ∀ (names : List Str) (s : Trace),
    Reaches (fun a s => InOrder "job".toList names a s ∧ OnCandidates "job".toList names a s ∧
      WalksOnce "job".toList a s) (Trace.step plainCloud (fun _ _ => none) "job".toList)
      ⟨World.empty, [], false⟩ s →
    ∀ target ∈ names, ∀ req : Request, req.sourceBackupJobId = "job".toList →
      ∀ items, fetchItems s.world.db req = .ok items → OneVersionEach target items := by
  intro hall
  have hone := hall ["target".toList, "other".toList] _
    (.step twoTargets .refl ⟨fun _ => ⟨rfl, by simp⟩, trivial, fun _ => by simp⟩) "target".toList
    (by simp) ⟨true, [], "job".toList⟩ rfl _ rfl
  have htarget : ∀ r ∈ foundItems (twoTargets.apply plainCloud (fun _ _ => none) World.empty).db
      ⟨true, [], "job".toList⟩, r.target = "target".toList := hone.1
  revert htarget
  decide

end CloudBackup.Restore
