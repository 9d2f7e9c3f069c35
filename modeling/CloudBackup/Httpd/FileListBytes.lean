import CloudBackup.Httpd.Descend
import CloudBackup.Httpd.ReportTokens

/-!
The file list for paths of any bytes, and for any token that a client may send. A text has a
character for each byte. The handler is that of `CloudBackup.Httpd.FileList`, which is about
tokens of UTF-8; where all is ASCII, the two are the same (`Bytes.listPage_ascii`).

The limit of a token is cut like that of a request. So the pages are bounded, and a client that
follows the tokens comes to an end (`Bytes.filesPaged`).
-/

namespace CloudBackup.Httpd.Bytes

open Database Shared Casing
open Base64 (IsBytes textOf)
open Restore (textLe)

/-- The tables. The ids of jobs are texts of bytes too. -/
structure ReportDb extends Httpd.ReportDb where
  idBytes : ∀ job ∈ jobs, IsBytes job.id

structure ReportBackupFileList extends Httpd.ReportBackupFileList where
  bytes : IsBytes path

def stripSeparators (separator : Char) (least : ℕ) : Str → Str
  | [] => []
  | c :: rest =>
      if least < (c :: rest).length ∧ c = separator then stripSeparators separator least rest else c :: rest

def stripEndOfPathSeparators (path separator : Str) : Str :=
  if separator = ['\\'] then (stripSeparators '\\' 3 path.reverse).reverse
  else (stripSeparators '/' 1 path.reverse).reverse

/-- The rows of `ReportBackupJobsFileListWithJobId` or, with `descend`, of
`ReportBackupJobsFileListWithJobIdAndDescend`, before the `LIMIT`. -/
def fileList (db : Httpd.ReportDb) (jobId parentDir pathSeparator : Str) (descend : Bool) : List RemoteFilesRow :=
  if descend then db.descendList jobId parentDir pathSeparator
  else ((db.collected jobId).filter (·.parent = parentDir)).insertionSort fun r r' => textLe r.localPath r'.localPath

def getRowsForHandlerPostReportBackupFileListWithJobId (db : Httpd.ReportDb) (jobId jobName parentDir : Str)
    (limit offset : ℕ) (descend : Bool) (pathSeparator : Str) : Except ListErr (List FileListDbResults) :=
  if 2 ^ 63 ≤ offset then .error .offsetTooLarge
  else
    let rows := ((fileList db jobId parentDir pathSeparator descend).drop offset).take limit
    addJobStartTime (db.jobStartTime jobId jobName "backup".toList) (rows.foldl (addRow jobId jobName) [])

def asked (req : ReportBackupFileList) : Except TokenErr NextToken :=
  if req.next = [] then .ok ⟨req.maxResults, 0, req.jobId, req.path, req.descend⟩
  else decodeNextTokenOfReportBackupFileList req.next

section

variable (u : Tables) (db : Httpd.ReportDb) (running : List JobStatus)

/-- The rows that the request is about, whatever page of them. -/
def matchingRows (jobName jobId path : Str) (descend : Bool) : List RemoteFilesRow :=
  let pathSeparator := getPathSeparator u (db.jobPlatform jobName jobId)
  fileList db jobId (stripEndOfPathSeparators path pathSeparator) pathSeparator descend

def listPage (jobName : Str) (t : NextToken) : Except ListErr FileListPage := do
  let limit := pageLimit t.limit
  if isRunning jobName t.jobId running then .error .running
  else if (db.findJob jobName t.jobId).length ≠ 1 then .error (.jobNotUsable (db.findJob jobName t.jobId).length)
  else
    let pathSeparator := getPathSeparator u (db.jobPlatform jobName t.jobId)
    let results ← getRowsForHandlerPostReportBackupFileListWithJobId db t.jobId jobName
      (stripEndOfPathSeparators t.path pathSeparator) limit t.offset t.descend pathSeparator
    let next := if results.length = limit then
      buildNextTokenOfReportBackupFileList { t with limit := limit, offset := (t.offset + limit) % 2 ^ 64 } else []
    return ⟨next, results⟩

def handlerPostReportBackupFileList (req : ReportBackupFileList) : Except ListErr FileListPage :=
  if req.name = [] then .error .nameMissing
  else match asked req with
    | .error e => .error (.token e)
    | .ok t => listPage u db running req.name t

inductive Follows : ReportBackupFileList → List FileListPage → Prop
  | last {req page} (h : handlerPostReportBackupFileList u db running req = .ok page) (hnext : page.next = []) :
      Follows req [page]
  | more {req page pages} (h : handlerPostReportBackupFileList u db running req = .ok page) (hnext : page.next ≠ [])
      (hrest : Follows { req with next := page.next } pages) : Follows req (page :: pages)

end

/-! ### Texts of ASCII -/

theorem stripSeparators_ascii {separator : Char} {least : ℕ} {s : Str} (h : ∀ c ∈ s, c.toNat < 0x80) :
    stripSeparators separator least s = Httpd.stripSeparators separator least s := by
  have hlength : ∀ t : Str, (∀ c ∈ t, c.toNat < 0x80) → byteLength t = t.length := by
    intro t ht
    have hsize : t.map Char.utf8Size = t.map fun _ => 1 := by
      refine List.map_congr_left fun c hc => ?_
      rw [Char.utf8Size]
      exact if_pos (Nat.le_of_lt_succ (ht c hc))
    rw [byteLength, hsize, List.map_const', List.sum_replicate_nat, Nat.mul_one]
  induction s with
  | nil => rfl
  | cons c s ih =>
      rw [stripSeparators, Httpd.stripSeparators, hlength _ h, ih fun d hd => h d (List.mem_cons_of_mem _ hd)]

theorem stripEndOfPathSeparators_ascii {path : Str} (separator : Str) (h : ∀ c ∈ path, c.toNat < 0x80) :
    stripEndOfPathSeparators path separator = Httpd.stripEndOfPathSeparators path separator := by
  have hreverse : ∀ c ∈ path.reverse, c.toNat < 0x80 := by simpa using h
  rw [stripEndOfPathSeparators, Httpd.stripEndOfPathSeparators, stripSeparators_ascii hreverse,
    stripSeparators_ascii hreverse]

theorem mem_of_mem_stripSeparators {separator : Char} {least : ℕ} {s : Str} {c : Char}
    (h : c ∈ stripSeparators separator least s) : c ∈ s := by
  induction s with
  | nil => exact h
  | cons d s ih =>
      rw [stripSeparators] at h
      split at h
      · exact List.mem_cons_of_mem _ (ih h)
      · exact h

theorem mem_of_mem_stripEndOfPathSeparators {path separator : Str} {c : Char}
    (h : c ∈ stripEndOfPathSeparators path separator) : c ∈ path := by
  rw [stripEndOfPathSeparators] at h
  split at h <;> exact List.mem_reverse.mp (mem_of_mem_stripSeparators (List.mem_reverse.mp h))

theorem matchingRows_ascii {u : Tables} {db : Httpd.ReportDb} {jobName jobId path : Str} (descend : Bool)
    (hpath : ∀ c ∈ path, c.toNat < 0x80) (hrows : ∀ row ∈ db.collected jobId, ∀ c ∈ row.parent, c.toNat < 0x80) :
    matchingRows u db jobName jobId path descend = Httpd.matchingRows u db jobName jobId path descend := by
  have hseparator : ∀ c ∈ getPathSeparator u (db.jobPlatform jobName jobId), c.toNat < 0x80 := by
    rw [getPathSeparator]
    split <;> simp
  rw [matchingRows, Httpd.matchingRows, ← stripEndOfPathSeparators_ascii _ hpath, fileList]
  cases descend with
  | true =>
      refine descendList_ascii ?_ hrows
      intro c hc
      rcases List.mem_append.mp hc with hc | hc
      · exact hpath c (mem_of_mem_stripEndOfPathSeparators hc)
      · exact hseparator c hc
  | false =>
      rw [if_neg Bool.false_ne_true, Httpd.ReportDb.fileList]
      congr 1
      exact List.filter_congr fun row _ => by simp [isBelow]

theorem listPage_ascii {u : Tables} {db : Httpd.ReportDb} {running : List JobStatus} {jobName : Str} {t : NextToken}
    (hjobId : ∀ c ∈ t.jobId, c.toNat < 0x80) (hpath : ∀ c ∈ t.path, c.toNat < 0x80)
    (hrows : ∀ row ∈ db.collected t.jobId, ∀ c ∈ row.parent, c.toNat < 0x80) :
    listPage u db running jobName t = Httpd.listPage u db running jobName t := by
  have hmatching : matchingRows u db jobName t.jobId t.path t.descend =
      Httpd.matchingRows u db jobName t.jobId t.path t.descend := matchingRows_ascii t.descend hpath hrows
  simp only [matchingRows, Httpd.matchingRows] at hmatching
  have htoken : ∀ limit offset, buildNextTokenOfReportBackupFileList { t with limit := limit, offset := offset } =
      Httpd.buildNextTokenOfReportBackupFileList { t with limit := limit, offset := offset } := by
    intro limit offset
    exact build_ascii (lt_of_mem_plain le_rfl hjobId hpath)
  simp only [listPage, Httpd.listPage, getRowsForHandlerPostReportBackupFileListWithJobId,
    Httpd.getRowsForHandlerPostReportBackupFileListWithJobId, hmatching, htoken]

/-! ### What is asked for -/

theorem mem_of_mem_intercalate {ps : List Str} {c : Char} (h : c ∈ [':'].intercalate ps) :
    c = ':' ∨ ∃ p ∈ ps, c ∈ p := by
  induction ps with
  | nil => cases h
  | cons p ps ih =>
      cases ps with
      | nil =>
          rw [List.intercalate_singleton] at h
          exact .inr ⟨p, List.mem_cons_self, h⟩
      | cons q ps =>
          rw [List.intercalate_cons_cons, List.append_assoc, List.mem_append, List.mem_append, List.mem_singleton] at h
          rcases h with h | h | h
          · exact .inr ⟨p, List.mem_cons_self, h⟩
          · exact .inl h
          · exact (ih h).imp_right fun hex => hex.imp fun r hr => ⟨List.mem_cons_of_mem _ hr.1, hr.2⟩

theorem mem_intercalate_of_mem {ps : List Str} {p : Str} {c : Char} (hp : p ∈ ps) (hc : c ∈ p) :
    c ∈ [':'].intercalate ps := by
  induction ps with
  | nil => cases hp
  | cons q ps ih =>
      cases ps with
      | nil =>
          rw [List.mem_singleton] at hp
          rwa [List.intercalate_singleton, ← hp]
      | cons r ps =>
          rw [List.intercalate_cons_cons, List.append_assoc, List.mem_append, List.mem_append]
          rcases List.mem_cons.mp hp with rfl | hp
          · exact .inl hc
          · exact .inr (.inr (ih hp))

/-- The path of a token has no characters of its own. -/
theorem isBytes_of_parseParts {s : Str} {t : NextToken} (hs : IsBytes s) (h : parseParts (s.splitOn ':') = .ok t) :
    IsBytes t.path := by
  have hparts : ∀ p ∈ s.splitOn ':', IsBytes p := by
    intro p hp c hc
    have hmem := mem_intercalate_of_mem hp hc
    rw [List.intercalate_splitOn] at hmem
    exact hs c hmem
  revert hparts h
  generalize s.splitOn ':' = parts
  intro h hparts
  rw [parseParts.eq_def] at h
  split at h
  · rename_i limitPart offsetPart jobId p q rest
    split at h
    · cases h
    · cases h
    · cases h
    · obtain rfl := Except.ok.inj h
      intro c hc
      rcases mem_of_mem_intercalate hc with rfl | ⟨part, hpart, hcpart⟩
      · decide
      · have hmem := List.mem_of_mem_dropLast hpart
        exact hparts part (List.mem_cons_of_mem _ (List.mem_cons_of_mem _ (List.mem_cons_of_mem _ hmem))) c hcpart
  · cases h

theorem isBytes_of_asked {req : ReportBackupFileList} {t : NextToken} (h : asked req = .ok t) : IsBytes t.path := by
  rw [asked] at h
  split at h
  · obtain rfl := Except.ok.inj h
    exact req.bytes
  · rw [decodeNextTokenOfReportBackupFileList] at h
    split at h
    · cases h
    · exact isBytes_of_parseParts (Base64.isBytes_textOf _) h

/-! ### The pages -/

/-- A page has at most so many rows and results as the handler allows. -/
structure Bounded (page : FileListPage) : Prop where
  results : page.results.length ≤ limitReportFileResults
  rows : page.rows.length ≤ limitReportFileResults

section

variable {u : Tables} {running : List JobStatus}

theorem length_matchingRows_lt (u : Tables) (db : Httpd.ReportDb) (jobName jobId path : Str) (descend : Bool) :
    (matchingRows u db jobName jobId path descend).length < 2 ^ 63 := by
  have hcollected : (db.collected jobId).length < 2 ^ 63 :=
    calc _ ≤ (db.backupCollections.filter (·.jobId = jobId)).length := List.length_filterMap_le _ _
      _ ≤ db.backupCollections.length := List.length_filter_le _ _
      _ < 2 ^ 63 := db.rowids
  simp only [matchingRows, fileList, Httpd.ReportDb.descendList]
  split
  · rw [List.length_insertionSort]
    exact (List.length_filter_le _ _).trans_lt hcollected
  · rw [List.length_insertionSort]
    exact (List.length_filter_le _ _).trans_lt hcollected

theorem listable_of_listPage {db : Httpd.ReportDb} {jobName : Str} {t : NextToken} {page : FileListPage}
    (h : listPage u db running jobName t = .ok page) : Listable db running jobName t.jobId ∧ t.offset < 2 ^ 63 := by
  rw [listPage] at h
  dsimp only at h
  split at h
  · cases h
  · rename_i hrunning
    split at h
    · cases h
    · rename_i husable
      have hlistable : Listable db running jobName t.jobId := ⟨by simpa using hrunning, not_ne_iff.mp husable⟩
      refine ⟨hlistable, ?_⟩
      by_contra hoffset
      rw [getRowsForHandlerPostReportBackupFileListWithJobId, if_pos (not_lt.mp hoffset)] at h
      cases h

/-- The page of a job that can be listed. If it has a token, there were enough rows for it. -/
theorem listPage_answers {db : Httpd.ReportDb} {jobName : Str} {t : NextToken}
    (hlistable : Listable db running jobName t.jobId) (hoffset : t.offset < 2 ^ 63) :
    ∃ page, listPage u db running jobName t = .ok page ∧ Bounded page ∧
      (page.next = [] ∨
        t.offset + pageLimit t.limit ≤ (matchingRows u db jobName t.jobId t.path t.descend).length ∧
          page.next = buildNextTokenOfReportBackupFileList
            { t with limit := pageLimit t.limit, offset := (t.offset + pageLimit t.limit) % 2 ^ 64 }) := by
  obtain ⟨startTime, ht⟩ := hlistable.exists_startTime
  obtain ⟨results, hresults, hshown, hle, -⟩ := addJobStartTime_foldl t.jobId jobName startTime
    (((matchingRows u db jobName t.jobId t.path t.descend).drop t.offset).take (pageLimit t.limit))
  have hpage : listPage u db running jobName t = .ok ⟨if results.length = pageLimit t.limit then
      buildNextTokenOfReportBackupFileList
        { t with limit := pageLimit t.limit, offset := (t.offset + pageLimit t.limit) % 2 ^ 64 } else [], results⟩ := by
    simp only [matchingRows] at hresults
    simp only [listPage, hlistable.notRunning, hlistable.usable, ne_eq, not_true, if_false, Bool.false_eq_true,
      getRowsForHandlerPostReportBackupFileListWithJobId, if_neg (not_le.mpr hoffset), ht, hresults]
    rfl
  have hlimit := pageLimit_le t.limit
  have htake := List.length_take_le (pageLimit t.limit)
    ((matchingRows u db jobName t.jobId t.path t.descend).drop t.offset)
  refine ⟨_, hpage, ⟨by dsimp only; omega, ?_⟩, ?_⟩
  · rw [FileListPage.rows, hshown, List.length_map]
    omega
  · dsimp only
    split
    · rename_i hfull
      have hpos := pageLimit_pos t.limit
      rw [List.length_take, List.length_drop] at hle
      exact .inr ⟨by omega, rfl⟩
    · exact .inl rfl

variable {db : ReportDb}

theorem isBytes_jobId {jobName jobId : Str} (h : Listable db.toReportDb running jobName jobId) : IsBytes jobId := by
  obtain ⟨job, hmem, rfl, -, -⟩ := h.exists_job
  exact db.idBytes job hmem

/-- The token of a page asks for what follows it. -/
theorem asked_next (req : ReportBackupFileList) {t : NextToken} {next : Str}
    (h : Listable db.toReportDb running req.name t.jobId) (hpath : IsBytes t.path) (hoffset : t.offset < 2 ^ 63)
    (hnext : next = buildNextTokenOfReportBackupFileList
      { t with limit := pageLimit t.limit, offset := (t.offset + pageLimit t.limit) % 2 ^ 64 }) :
    next ≠ [] ∧ asked { req with next := next } =
      .ok { t with limit := pageLimit t.limit, offset := t.offset + pageLimit t.limit } := by
  have hlimit := pageLimit_le t.limit
  rw [limitReportFileResults] at hlimit
  have hne : next ≠ [] := by
    rw [hnext]
    exact buildNextTokenOfReportBackupFileList_ne_nil _
  refine ⟨hne, ?_⟩
  rw [asked, if_neg hne, hnext, Nat.mod_eq_of_lt (by omega)]
  refine decodeNextToken_buildNextToken ⟨?_, ?_, h.colon_notMem⟩ (isBytes_jobId h) hpath
  · dsimp only
    omega
  · dsimp only
    omega

/-- From any page that is answered, the client comes to an end. -/
theorem follows_from {req : ReportBackupFileList} {t : NextToken} (hname : req.name ≠ []) (hasked : asked req = .ok t)
    (hpath : IsBytes t.path) (h : Listable db.toReportDb running req.name t.jobId) (hoffset : t.offset < 2 ^ 63) :
    ∃ pages, Follows u db.toReportDb running req pages ∧ ∀ page ∈ pages, Bounded page := by
  obtain ⟨n, hn⟩ : ∃ n, n = (matchingRows u db.toReportDb req.name t.jobId t.path t.descend).length - t.offset :=
    ⟨_, rfl⟩
  -- on the rows that are left
  induction n using Nat.strong_induction_on generalizing req t with
  | _ n ih =>
      have hfew := length_matchingRows_lt u db.toReportDb req.name t.jobId t.path t.descend
      have hpos := pageLimit_pos t.limit
      obtain ⟨page, hpage, hbounded, hnext⟩ := listPage_answers (u := u) h hoffset
      have hhandler : handlerPostReportBackupFileList u db.toReportDb running req = .ok page := by
        rw [handlerPostReportBackupFileList, if_neg hname, hasked]
        exact hpage
      rcases hnext with hlast | ⟨hrows, hnext⟩
      · exact ⟨[page], .last hhandler hlast, List.forall_mem_singleton.mpr hbounded⟩
      · obtain ⟨hne, hdecode⟩ := asked_next req h hpath hoffset hnext
        have hname' : ({ req with next := page.next } : ReportBackupFileList).name ≠ [] := hname
        obtain ⟨pages, hpages, hall⟩ := ih (n - pageLimit t.limit) (by omega) hname' hdecode hpath h
          (by dsimp only; omega) (by dsimp only; omega)
        exact ⟨page :: pages, .more hhandler hne hpages, List.forall_mem_cons.mpr ⟨hbounded, hall⟩⟩

end

/-- If the request is answered with a page, the client comes to an end, and no page on the way
is too large. -/
def FilesPaged (u : Tables) (db : Httpd.ReportDb) (running : List JobStatus) (req : ReportBackupFileList) : Prop :=
  ∀ page, handlerPostReportBackupFileList u db running req = .ok page →
    ∃ pages, Follows u db running req pages ∧ ∀ page ∈ pages, Bounded page

theorem filesPaged (u : Tables) (db : ReportDb) (running : List JobStatus) (req : ReportBackupFileList) :
    FilesPaged u db.toReportDb running req := by
  intro page h
  rw [handlerPostReportBackupFileList] at h
  split at h
  · cases h
  · rename_i hname
    split at h
    · cases h
    · rename_i t hasked
      obtain ⟨hlistable, hoffset⟩ := listable_of_listPage h
      exact follows_from hname hasked (isBytes_of_asked hasked) hlistable hoffset

end CloudBackup.Httpd.Bytes
