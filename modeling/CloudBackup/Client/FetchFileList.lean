import CloudBackup.Client.Browse
import CloudBackup.Httpd.FileList
import CloudBackup.Restore.Confinement

/-!
`fetchFileList`, and the top level of the browser. The server has no directory of the roots of a
backup. So the client asks for all rows, and takes those whose directory is not among the rows.
But it looks only among the rows of one page.

Which rows are on a page is decided by the server, which cuts the list by the number of rows.
Where the rows of one path or a row and its directory come apart, there is a root twice, or one
that is none (`rootsListed_iff`).
-/

namespace CloudBackup.Client

open Database Shared Casing Httpd SqlLike UnixPath
open Browse (Entry)
open Restore (textLe textLe_total textLe_trans)

/-! ### fetchFileList -/

def shownEntry (path : Str) (pathSet : List Str) (r : FileListDbResults) : Option Entry :=
  match r.instances with
  | [] => none
  | inst :: _ =>
      if r.path = path ∧ path ≠ [] then none
      else if path = [] ∧ pathSet.contains r.parent then none
      else some ⟨r.path, r.parent, inst.type = .dir, inst.size, false⟩

def entryLe (e e' : Entry) : Bool := if e.isDir ≠ e'.isDir then e.isDir else textLe e.path e'.path

def fetchFileList (serve : ReportBackupFileList → Except ListErr FileListPage) (jobName jobId path nextToken : Str) :
    Except ListErr (List Entry × Str) := do
  let decoded ← serve ⟨jobName, nextToken, 0, jobId, path, path = []⟩
  let pathSet := decoded.results.map FileListDbResults.path
  return ((decoded.results.filterMap (shownEntry path pathSet)).insertionSort fun e e' => entryLe e e', decoded.next)

/-- What the pages of a directory may have: the parameter `lists` of the browser. -/
def Fetched (serve : ReportBackupFileList → Except ListErr FileListPage) (jobName jobId cwd : Str) (e : Entry) : Prop :=
  ∃ nextToken entries next, fetchFileList serve jobName jobId cwd nextToken = .ok (entries, next) ∧ e ∈ entries

/-- No entry that is fetched is taken for the row `..`. -/
theorem Fetched.not_isParent {serve : ReportBackupFileList → Except ListErr FileListPage} {jobName jobId cwd : Str}
    {e : Entry} (h : Fetched serve jobName jobId cwd e) : e.isParent = false := by
  obtain ⟨nextToken, entries, next, hfetch, he⟩ := h
  rw [fetchFileList] at hfetch
  cases hserve : serve ⟨jobName, nextToken, 0, jobId, cwd, cwd = []⟩ with
  | error err =>
      rw [hserve] at hfetch
      cases hfetch
  | ok decoded =>
      rw [hserve] at hfetch
      cases hfetch
      obtain ⟨r, -, hshown⟩ := List.mem_filterMap.mp ((List.mem_insertionSort _).mp he)
      rw [shownEntry] at hshown
      split at hshown
      · cases hshown
      · split_ifs at hshown
        cases hshown
        rfl

section

variable (u : Tables) (db : ReportDb) (running : List JobStatus) (jobName jobId : Str)

inductive TopPages : Str → List (List Entry) → Prop
  | last {nextToken entries}
      (h : fetchFileList (handlerPostReportBackupFileList u db running) jobName jobId [] nextToken =
        .ok (entries, [])) : TopPages nextToken [entries]
  | more {nextToken entries next pages}
      (h : fetchFileList (handlerPostReportBackupFileList u db running) jobName jobId [] nextToken =
        .ok (entries, next))
      (hnext : next ≠ []) (hrest : TopPages next pages) : TopPages nextToken (entries :: pages)

end

/-! ### The roots -/

def IsRoot (rows : List RemoteFilesRow) (row : RemoteFilesRow) : Prop :=
  ∀ row' ∈ rows, row'.localPath = row.parent → row'.localPath = row.localPath

instance (rows : List RemoteFilesRow) (row : RemoteFilesRow) : Decidable (IsRoot rows row) :=
  inferInstanceAs (Decidable (∀ row' ∈ rows, row'.localPath = row.parent → row'.localPath = row.localPath))

def rootPaths (rows : List RemoteFilesRow) : List Str :=
  ((rows.filter fun row => IsRoot rows row).map RemoteFilesRow.localPath).dedup

def paths (rows : List RemoteFilesRow) : List Str := rows.map RemoteFilesRow.localPath

/-- The browser gets a list of exactly the roots. -/
def RootsListed (u : Tables) (db : ReportDb) (running : List JobStatus) (jobName jobId : Str) : Prop :=
  ∃ pages, TopPages u db running jobName jobId [] pages ∧
    (pages.flatten.map Entry.path).Perm (rootPaths (db.collected jobId))

/-! ### The pages -/

instance (rows : List RemoteFilesRow) : Decidable (Apart rows) :=
  inferInstanceAs (Decidable (List.IsChain _ _))

/-- The rows of the pages that a client gets. After a page that is not full there is no other one,
and so it is after a page that has two rows of one path. -/
def reachedPages (limit : ℕ) (rows : List RemoteFilesRow) : List (List RemoteFilesRow) :=
  if 0 < limit ∧ (rows.take limit).length = limit ∧ Apart (rows.take limit) then
    rows.take limit :: reachedPages limit (rows.drop limit)
  else [rows.take limit]
termination_by rows.length
decreasing_by
  rename_i hfull
  obtain ⟨hpos, hlength, -⟩ := hfull
  rw [List.length_take] at hlength
  rw [List.length_drop]
  omega

/-- How the rows have to be cut into pages. -/
structure WellCut (rows : List RemoteFilesRow) (pages : List (List RemoteFilesRow)) : Prop where
  noSlash : ∀ row ∈ rows, row.localPath ≠ ['/']
  once : ∀ row ∈ rows, IsRoot rows row → pages.countP (fun page => row.localPath ∈ paths page) = 1
  withParent : ∀ page ∈ pages, ∀ row ∈ page, ¬ IsRoot rows row → row.parent ∈ paths page

/-! ### The results of a page -/

/-- The rows of each path are together, one path after the other. -/
structure Runs (rows : List RemoteFilesRow) (results : List FileListDbResults) : Prop where
  sublist : (results.map FileListDbResults.path).Sublist (paths rows)
  chain : (results.map FileListDbResults.path).IsChain (· ≠ ·)
  complete : ∀ row ∈ rows, row.localPath ∈ results.map FileListDbResults.path
  origin : ∀ r ∈ results, r.instances ≠ [] ∧ ∃ row ∈ rows, row.localPath = r.path ∧ row.parent = r.parent

section

variable {jobId jobName : Str} {rows : List RemoteFilesRow} {results : List FileListDbResults}

theorem paths_concat (rows : List RemoteFilesRow) (row : RemoteFilesRow) :
    paths (rows ++ [row]) = paths rows ++ [row.localPath] := List.map_append

/-- A row of the last path gives it one more instance. -/
theorem Runs.merge {init : List FileListDbResults} {item : FileListDbResults} (h : Runs rows (init ++ [item]))
    {row : RemoteFilesRow} (hpath : item.path = row.localPath) (inst : InstanceDbResults) :
    Runs (rows ++ [row]) (init ++ [{ item with instances := item.instances ++ [inst] }]) := by
  have hmap : (init ++ [{ item with instances := item.instances ++ [inst] }]).map FileListDbResults.path =
      (init ++ [item]).map FileListDbResults.path := by simp
  refine ⟨?_, hmap ▸ h.chain, fun row' hrow' => ?_, fun r hr => ?_⟩
  · rw [hmap, paths_concat]
    exact h.sublist.trans (List.sublist_append_left _ _)
  · rw [hmap]
    rcases List.mem_append.mp hrow' with hold | hnew
    · exact h.complete row' hold
    · rw [List.mem_singleton.mp hnew]
      simp [hpath]
  · rcases List.mem_append.mp hr with hold | hnew
    · obtain ⟨hne, row', hrow', heq⟩ := h.origin r (List.mem_append_left _ hold)
      exact ⟨hne, row', List.mem_append_left _ hrow', heq⟩
    · obtain ⟨-, row', hrow', heq⟩ := h.origin item (by simp)
      rw [List.mem_singleton.mp hnew]
      exact ⟨by simp, row', List.mem_append_left _ hrow', heq⟩

theorem Runs.append (h : Runs rows results) {row : RemoteFilesRow}
    (hother : results.getLast?.map FileListDbResults.path ≠ some row.localPath) {r : FileListDbResults}
    (hpath : r.path = row.localPath) (hparent : r.parent = row.parent) (hinst : r.instances ≠ []) :
    Runs (rows ++ [row]) (results ++ [r]) := by
  refine ⟨?_, ?_, fun row' hrow' => ?_, fun r' hr' => ?_⟩
  · rw [List.map_append, paths_concat, ← hpath]
    exact h.sublist.append (.refl _)
  · rw [List.map_append, List.isChain_append, List.getLast?_map]
    refine ⟨h.chain, .singleton _, fun p hp q hq => ?_⟩
    rintro rfl
    simp only [List.map_cons, List.map_nil, List.head?_cons, Option.mem_def, Option.some.injEq] at hq
    exact hother ((hq.symm.trans hpath) ▸ hp)
  · rw [List.map_append, List.mem_append]
    rcases List.mem_append.mp hrow' with hold | hnew
    · exact .inl (h.complete row' hold)
    · exact .inr (by simp [List.mem_singleton.mp hnew, hpath])
  · rcases List.mem_append.mp hr' with hold | hnew
    · obtain ⟨hne, row', hrow', heq⟩ := h.origin r' hold
      exact ⟨hne, row', List.mem_append_left _ hrow', heq⟩
    · rw [List.mem_singleton.mp hnew]
      exact ⟨hinst, row, by simp, hpath.symm, hparent.symm⟩

theorem Runs.addRow (h : Runs rows results) (row : RemoteFilesRow) :
    Runs (rows ++ [row]) (addRow jobId jobName results row) := by
  by_cases hsame : results.getLast?.map FileListDbResults.path = some row.localPath
  · obtain ⟨item, hitem, hpath⟩ := Option.map_eq_some_iff.mp hsame
    obtain ⟨init, rfl⟩ := List.getLast?_eq_some_iff.mp hitem
    rw [addRow_same hpath]
    exact h.merge hpath _
  · rw [addRow_new hsame]
    exact h.append hsame rfl rfl (List.cons_ne_nil _ _)

theorem runs_foldl (jobId jobName : Str) (rows : List RemoteFilesRow) :
    Runs rows (rows.foldl (addRow jobId jobName) []) := by
  induction rows using List.reverseRecOn with
  | nil => exact ⟨.refl _, .nil, by simp, by simp⟩
  | append_singleton rows row ih =>
      rw [List.foldl_append]
      exact ih.addRow row

theorem Runs.withStartTime (h : Runs rows results) (t : ℤ) : Runs rows (results.map (withStartTime t)) := by
  have hmap : (results.map (Httpd.withStartTime t)).map FileListDbResults.path =
      results.map FileListDbResults.path := by
    rw [List.map_map]
    rfl
  refine ⟨hmap ▸ h.sublist, hmap ▸ h.chain, fun row hrow => hmap ▸ h.complete row hrow, fun r hr => ?_⟩
  obtain ⟨r', hr', rfl⟩ := List.mem_map.mp hr
  obtain ⟨hne, horigin⟩ := h.origin r' hr'
  exact ⟨by simpa [Httpd.withStartTime] using hne, horigin⟩

end

/-! ### A page -/

section

variable {u : Tables} {db : ReportDb} {running : List JobStatus} {jobName : Str}

/-- The page that is answered, and if there is a token for the next one. -/
theorem listPage_runs {t : NextToken} (h : Listable db running jobName t.jobId) (hoffset : t.offset < 2 ^ 63) :
    let rows := ((matchingRows u db jobName t.jobId t.path t.descend).drop t.offset).take (pageLimit t.limit)
    ∃ page, listPage u db running jobName t = .ok page ∧ Runs rows page.results ∧
      (rows.length = pageLimit t.limit ∧ Apart rows → page.next =
        buildNextTokenOfReportBackupFileList
          { t with limit := pageLimit t.limit, offset := (t.offset + pageLimit t.limit) % 2 ^ 64 }) ∧
      (¬ (rows.length = pageLimit t.limit ∧ Apart rows) → page.next = []) := by
  intro rows
  obtain ⟨startTime, ht⟩ := h.exists_startTime
  obtain ⟨page, hpage, -, hmore, hlast⟩ := listPage_ok (u := u) h ht hoffset
  refine ⟨page, hpage, ?_, hmore, hlast⟩
  have hresults : page.results = (rows.foldl (addRow t.jobId jobName) []).map (withStartTime startTime) := by
    simp only [listPage, h.notRunning, h.usable, ne_eq, not_true, if_false, Bool.false_eq_true,
      getRowsForHandlerPostReportBackupFileListWithJobId, if_neg (not_le.mpr hoffset), ht,
      addJobStartTime_some] at hpage
    rw [← Except.ok.inj hpage]
    rfl
  rw [hresults]
  exact (runs_foldl t.jobId jobName rows).withStartTime startTime

end

/-- The rows are sorted by their paths, and have the directories of these as parents. -/
structure Tidy (rows : List RemoteFilesRow) : Prop where
  sorted : (paths rows).Pairwise fun s t => textLe s t = true
  parent : ∀ row ∈ rows, row.parent = dir row.localPath

theorem Tidy.sublist {rows rows' : List RemoteFilesRow} (h : Tidy rows) (hsub : rows'.Sublist rows) : Tidy rows' where
  sorted := h.sorted.sublist (hsub.map _)
  parent := fun row hrow => h.parent row (hsub.subset hrow)

theorem textLe_antisymm {s t : Str} (h : textLe s t = true) (h' : textLe t s = true) : s = t := by
  induction s generalizing t with
  | nil =>
      cases t with
      | nil => rfl
      | cons d t => cases h'
  | cons c s ih =>
      cases t with
      | nil => cases h
      | cons d t =>
          simp only [textLe, Bool.or_eq_true, decide_eq_true_eq, Bool.and_eq_true] at h h'
          rcases h with hlt | ⟨hc, hst⟩
          · omega
          · rcases h' with hlt | ⟨-, hts⟩
            · omega
            · rw [Char.toNat_inj.mp hc, ih hst hts]

theorem nodup_of_chain {l : List Str} (hsorted : l.Pairwise fun s t => textLe s t = true)
    (hchain : l.IsChain (· ≠ ·)) : l.Nodup := by
  induction l with
  | nil => exact .nil
  | cons s l ih =>
      obtain ⟨hle, hsorted⟩ := List.pairwise_cons.mp hsorted
      refine List.nodup_cons.mpr ⟨fun hs => ?_, ih hsorted hchain.tail⟩
      cases l with
      | nil => cases hs
      | cons t l =>
          have hne : s ≠ t := (List.isChain_cons_cons.mp hchain).1
          have hback : textLe t s = true :=
            (List.pairwise_cons.mp hsorted).1 s ((List.mem_cons.mp hs).resolve_left hne)
          exact hne (textLe_antisymm (hle t List.mem_cons_self) hback)

/-- What the browser takes from a page: each path whose directory is not on the page, once. -/
structure Shown (rows : List RemoteFilesRow) (entries : List Entry) : Prop where
  nodup : (entries.map Entry.path).Nodup
  mem_iff : ∀ p, p ∈ entries.map Entry.path ↔ p ∈ paths rows ∧ dir p ∉ paths rows

section

variable {rows : List RemoteFilesRow} {results : List FileListDbResults}

theorem Runs.mem_iff (h : Runs rows results) (p : Str) :
    p ∈ results.map FileListDbResults.path ↔ p ∈ paths rows := by
  constructor
  · exact fun hp => h.sublist.subset hp
  · intro hp
    obtain ⟨row, hrow, rfl⟩ := List.mem_map.mp hp
    exact h.complete row hrow

theorem Runs.parent_eq (h : Runs rows results) (htidy : Tidy rows) {r : FileListDbResults} (hr : r ∈ results) :
    r.parent = dir r.path := by
  obtain ⟨-, row, hrow, hpath, hparent⟩ := h.origin r hr
  rw [← hpath, ← hparent, htidy.parent row hrow]

theorem map_path_shownEntry (h : Runs rows results) (htidy : Tidy rows) :
    (results.filterMap (shownEntry [] (results.map FileListDbResults.path))).map Entry.path =
      (results.map FileListDbResults.path).filter fun p => dir p ∉ paths rows := by
  have hentry : ∀ r ∈ results, (shownEntry [] (results.map FileListDbResults.path) r).map Entry.path =
      if dir r.path ∉ paths rows then some r.path else none := by
    intro r hr
    obtain ⟨hne, -⟩ := h.origin r hr
    obtain ⟨inst, instances, hinst⟩ := List.exists_cons_of_ne_nil hne
    have hmem : (results.map FileListDbResults.path).contains r.parent = true ↔ dir r.path ∈ paths rows := by
      rw [List.contains_iff_mem, h.mem_iff, h.parent_eq htidy hr]
    simp only [shownEntry, hinst, ne_eq, not_true, and_false, if_false, true_and, hmem]
    by_cases hdir : dir r.path ∈ paths rows
    · rw [if_pos hdir, if_neg (not_not.mpr hdir), Option.map_none]
    · rw [if_neg hdir, if_pos hdir, Option.map_some]
  calc _ = results.filterMap fun r => if dir r.path ∉ paths rows then some r.path else none := by
        rw [List.map_filterMap, List.filterMap_congr hentry]
    _ = (results.map FileListDbResults.path).filterMap fun p => if dir p ∉ paths rows then some p else none := by
        rw [List.filterMap_map]
        rfl
    _ = _ := by
        rw [← List.filterMap_eq_filter]
        refine List.filterMap_congr fun p _ => ?_
        simp [Option.guard]

theorem shown_of_runs (h : Runs rows results) (htidy : Tidy rows) :
    Shown rows ((results.filterMap (shownEntry [] (results.map FileListDbResults.path))).insertionSort
      fun e e' => entryLe e e') := by
  have hperm := (List.perm_insertionSort (fun e e' => entryLe e e')
    (results.filterMap (shownEntry [] (results.map FileListDbResults.path)))).map Entry.path
  rw [map_path_shownEntry h htidy] at hperm
  have hnodup : (results.map FileListDbResults.path).Nodup :=
    nodup_of_chain (htidy.sorted.sublist h.sublist) h.chain
  refine ⟨hperm.nodup_iff.mpr (hnodup.filter _), fun p => ?_⟩
  rw [hperm.mem_iff, List.mem_filter, h.mem_iff, decide_eq_true_eq]

end

/-! ### All pages -/

section

variable {u : Tables} {db : ReportDb} {running : List JobStatus} {jobName jobId : Str}

theorem matchingRows_perm (hunix : getPathSeparator u (db.jobPlatform jobName jobId) = ['/'])
    (hclean : ∀ row ∈ db.collected jobId, IsClean row.localPath)
    (hparent : ∀ row ∈ db.collected jobId, row.parent = dir row.localPath) :
    (matchingRows u db jobName jobId [] true).Perm (db.collected jobId) := by
  have hall : ∀ row ∈ db.collected jobId, isBelow [] ['/'] true row = true := by
    intro row hrow
    have hdir : IsClean row.parent := hparent row hrow ▸ (hclean row hrow).dir
    obtain ⟨rest, hrest⟩ := hdir.exists_slash_cons
    have hlike : likePlain (['/'] ++ ['%']) row.parent = true := by
      rw [hrest]
      exact (matchTokens_chars_any ['/'] ('/' :: rest)).mpr (List.cons_prefix_cons.mpr ⟨rfl, List.nil_prefix⟩)
    rw [isBelow, List.nil_append, hlike, Bool.and_self, Bool.or_true]
  simp only [matchingRows, hunix, ReportDb.fileList]
  have hstrip : stripEndOfPathSeparators [] ['/'] = [] := rfl
  rw [hstrip, List.filter_eq_self.mpr hall]
  exact List.perm_insertionSort _ _

theorem matchingRows_sorted (jobName jobId path : Str) (descend : Bool) :
    (paths (matchingRows u db jobName jobId path descend)).Pairwise fun s t => textLe s t = true := by
  have : Std.Total fun r r' : RemoteFilesRow => textLe r.localPath r'.localPath = true :=
    ⟨fun r r' => textLe_total r.localPath r'.localPath⟩
  have : IsTrans RemoteFilesRow fun r r' => textLe r.localPath r'.localPath = true := ⟨fun _ _ _ => textLe_trans⟩
  rw [paths, List.pairwise_map]
  exact List.pairwise_insertionSort _ _

theorem tidy_matchingRows (hunix : getPathSeparator u (db.jobPlatform jobName jobId) = ['/'])
    (hclean : ∀ row ∈ db.collected jobId, IsClean row.localPath)
    (hparent : ∀ row ∈ db.collected jobId, row.parent = dir row.localPath) :
    Tidy (matchingRows u db jobName jobId [] true) where
  sorted := matchingRows_sorted jobName jobId [] true
  parent := fun row hrow => hparent row ((matchingRows_perm hunix hclean hparent).subset hrow)

/-- The entries of a page, and the token of the next one. -/
theorem fetchFileList_ok (hname : jobName ≠ []) {limit offset : ℕ} {nextToken : Str}
    (hasked : asked ⟨jobName, nextToken, 0, jobId, [], true⟩ = .ok ⟨limit, offset, jobId, [], true⟩)
    (h : Listable db running jobName jobId) (hoffset : offset < 2 ^ 63)
    (htidy : Tidy (matchingRows u db jobName jobId [] true)) :
    let rows := ((matchingRows u db jobName jobId [] true).drop offset).take (pageLimit limit)
    ∃ entries next, fetchFileList (handlerPostReportBackupFileList u db running) jobName jobId [] nextToken =
        .ok (entries, next) ∧ Shown rows entries ∧
      (rows.length = pageLimit limit ∧ Apart rows → next =
        buildNextTokenOfReportBackupFileList
          ⟨pageLimit limit, (offset + pageLimit limit) % 2 ^ 64, jobId, [], true⟩) ∧
      (¬ (rows.length = pageLimit limit ∧ Apart rows) → next = []) := by
  intro rows
  obtain ⟨page, hpage, hruns, hmore, hlast⟩ := listPage_runs (u := u) (t := ⟨limit, offset, jobId, [], true⟩) h hoffset
  have hhandler : handlerPostReportBackupFileList u db running ⟨jobName, nextToken, 0, jobId, [], true⟩ = .ok page := by
    rw [handlerPostReportBackupFileList, if_neg hname, hasked]
    exact hpage
  have hrows : Tidy rows := htidy.sublist ((List.take_sublist _ _).trans (List.drop_sublist _ _))
  refine ⟨_, page.next, ?_, shown_of_runs hruns hrows, hmore, hlast⟩
  simp only [fetchFileList, decide_true, hhandler]
  rfl

/-- From some page on, the browser comes to an end, with what is shown of each page. -/
theorem topPages_from (hname : jobName ≠ []) {limit offset : ℕ} {nextToken : Str}
    (hasked : asked ⟨jobName, nextToken, 0, jobId, [], true⟩ = .ok ⟨limit, offset, jobId, [], true⟩)
    (h : Listable db running jobName jobId)
    (hoffset : offset ≤ (matchingRows u db jobName jobId [] true).length)
    (htidy : Tidy (matchingRows u db jobName jobId [] true)) :
    ∃ pages, TopPages u db running jobName jobId nextToken pages ∧
      List.Forall₂ Shown
        (reachedPages (pageLimit limit) ((matchingRows u db jobName jobId [] true).drop offset)) pages := by
  obtain ⟨n, hn⟩ : ∃ n, n = (matchingRows u db jobName jobId [] true).length - offset := ⟨_, rfl⟩
  -- on the rows that are left
  induction n using Nat.strong_induction_on generalizing limit offset nextToken with
  | _ n ih =>
      have hfew := length_matchingRows_lt u db jobName jobId [] true
      have hpos := pageLimit_pos limit
      obtain ⟨entries, next, hfetch, hshown, hmore, hlast⟩ := fetchFileList_ok hname hasked h (by omega) htidy
      rw [reachedPages]
      by_cases hfull : (((matchingRows u db jobName jobId [] true).drop offset).take (pageLimit limit)).length =
          pageLimit limit ∧ Apart (((matchingRows u db jobName jobId [] true).drop offset).take (pageLimit limit))
      · have hle : pageLimit limit ≤ (matchingRows u db jobName jobId [] true).length - offset := by
          rw [← List.length_drop, ← hfull.1]
          exact List.length_take_le' _ _
        obtain ⟨hne, hdecode⟩ : next ≠ [] ∧ asked ⟨jobName, next, 0, jobId, [], true⟩ =
            .ok ⟨pageLimit limit, offset + pageLimit limit, jobId, [], true⟩ :=
          @asked_next db running ⟨jobName, nextToken, 0, jobId, [], true⟩ ⟨limit, offset, jobId, [], true⟩ next h
            (by dsimp only; omega) (hmore hfull)
        obtain ⟨pages, hpages, hall⟩ := ih (n - pageLimit limit) (by omega) hdecode
          (by omega) (by omega)
        rw [if_pos ⟨hpos, hfull⟩]
        rw [pageLimit_pageLimit, ← List.drop_drop] at hall
        exact ⟨entries :: pages, .more hfetch hne hpages, .cons hshown hall⟩
      · rw [if_neg fun hboth => hfull hboth.2]
        rw [hlast hfull] at hfetch
        exact ⟨[entries], .last hfetch, .cons hshown .nil⟩

theorem TopPages.unique {nextToken : Str} {pages pages' : List (List Entry)}
    (h : TopPages u db running jobName jobId nextToken pages)
    (h' : TopPages u db running jobName jobId nextToken pages') : pages = pages' := by
  induction h generalizing pages' with
  | last hfetch =>
      cases h' with
      | last hfetch' => cases hfetch.symm.trans hfetch'; rfl
      | more hfetch' hnext' _ =>
          cases hfetch.symm.trans hfetch'
          exact absurd rfl hnext'
  | more hfetch hnext _ ih =>
      cases h' with
      | last hfetch' =>
          cases hfetch.symm.trans hfetch'
          exact absurd rfl hnext
      | more hfetch' _ hrest' =>
          cases hfetch.symm.trans hfetch'
          rw [ih hrest']

end

/-- How often a path is in the list: for each page on which it is without its directory. -/
theorem count_flatten {pages : List (List RemoteFilesRow)} {entries : List (List Entry)}
    (h : List.Forall₂ Shown pages entries) (p : Str) :
    (entries.flatten.map Entry.path).count p = pages.countP fun page => p ∈ paths page ∧ dir p ∉ paths page := by
  induction h with
  | nil => rfl
  | @cons page es pages entries hshown _ ih =>
      rw [List.flatten_cons, List.map_append, List.count_append, ih, hshown.nodup.count, List.countP_cons, Nat.add_comm]
      simp only [hshown.mem_iff, decide_eq_true_eq]

theorem sublist_of_mem_reachedPages {limit : ℕ} {rows page : List RemoteFilesRow}
    (h : page ∈ reachedPages limit rows) : page.Sublist rows := by
  induction rows using reachedPages.induct limit with
  | case1 rows hfull ih =>
      rw [reachedPages, if_pos hfull] at h
      rcases List.mem_cons.mp h with rfl | hrest
      · exact List.take_sublist _ _
      · exact (ih hrest).trans (List.drop_sublist _ _)
  | case2 rows hlast =>
      rw [reachedPages, if_neg hlast, List.mem_singleton] at h
      exact h ▸ List.take_sublist _ _

theorem reachedPages_of_short {limit : ℕ} {rows : List RemoteFilesRow} (h : rows.length < limit) :
    reachedPages limit rows = [rows] := by
  rw [reachedPages, if_neg, List.take_of_length_le h.le]
  rintro ⟨-, hlength, -⟩
  rw [List.length_take] at hlength
  omega

/-! ### The list of the roots -/

section

variable {rows : List RemoteFilesRow}

theorem isRoot_iff (hclean : ∀ row ∈ rows, IsClean row.localPath)
    (hparent : ∀ row ∈ rows, row.parent = dir row.localPath) {row : RemoteFilesRow} (hrow : row ∈ rows) :
    IsRoot rows row ↔ dir row.localPath ∉ paths rows ∨ row.localPath = ['/'] := by
  rw [IsRoot, hparent row hrow]
  constructor
  · intro hroot
    by_contra hnone
    obtain ⟨hmem, hslash⟩ := not_or.mp hnone
    obtain ⟨row', hrow', heq⟩ := List.mem_map.mp (not_not.mp hmem)
    exact (hclean row hrow).dir_ne hslash (heq.symm.trans (hroot row' hrow' heq))
  · rintro (hnone | hslash) row' hrow' heq
    · exact absurd (heq ▸ List.mem_map_of_mem hrow') hnone
    · rw [heq, hslash]
      exact dir_root

theorem mem_rootPaths {p : Str} : p ∈ rootPaths rows ↔ ∃ row ∈ rows, IsRoot rows row ∧ row.localPath = p := by
  simp [rootPaths, and_assoc]

theorem count_rootPaths (p : Str) : (rootPaths rows).count p = if p ∈ rootPaths rows then 1 else 0 :=
  (List.nodup_dedup _).count

/-- A root is shown on each page that it is on. -/
theorem countP_root {pages : List (List RemoteFilesRow)} (hpages : ∀ page ∈ pages, page ⊆ rows) {p : Str}
    (hnone : dir p ∉ paths rows) :
    (pages.countP fun page => p ∈ paths page ∧ dir p ∉ paths page) = pages.countP fun page => p ∈ paths page := by
  refine List.countP_congr fun page hpage => ?_
  have hdir : dir p ∉ paths page := fun hmem => hnone (List.map_subset _ (hpages page hpage) hmem)
  simp [hdir]

/-- The counts say how the rows are cut: `/` would be counted nowhere, and a row without its parent
would be counted although it is no root. -/
theorem wellCut_of_count (hclean : ∀ row ∈ rows, IsClean row.localPath)
    (hparent : ∀ row ∈ rows, row.parent = dir row.localPath) {pages : List (List RemoteFilesRow)}
    (hpages : ∀ page ∈ pages, page ⊆ rows)
    (hcount : ∀ p, (pages.countP fun page => p ∈ paths page ∧ dir p ∉ paths page) = (rootPaths rows).count p) :
    WellCut rows pages := by
  have hnoSlash : ∀ row ∈ rows, row.localPath ≠ ['/'] := by
    intro row hrow hslash
    have hroot : ['/'] ∈ rootPaths rows :=
      mem_rootPaths.mpr ⟨row, hrow, (isRoot_iff hclean hparent hrow).mpr (.inr hslash), hslash⟩
    have hone := hcount ['/']
    rw [count_rootPaths, if_pos hroot, dir_root] at hone
    simp at hone
  refine ⟨hnoSlash, fun row hrow hroot => ?_, fun page hpage row hrow hroot => ?_⟩
  · have hnone := ((isRoot_iff hclean hparent hrow).mp hroot).resolve_right (hnoSlash row hrow)
    rw [← countP_root hpages hnone, hcount, count_rootPaths, if_pos (mem_rootPaths.mpr ⟨row, hrow, hroot, rfl⟩)]
  · have hmem := hpages page hpage hrow
    have hnot : row.localPath ∉ rootPaths rows := by
      intro hlisted
      obtain ⟨row', hrow', hroot', heq⟩ := mem_rootPaths.mp hlisted
      refine hroot ((isRoot_iff hclean hparent hmem).mpr ?_)
      rw [← heq]
      exact (isRoot_iff hclean hparent hrow').mp hroot'
    have hzero := hcount row.localPath
    rw [count_rootPaths, if_neg hnot, List.countP_eq_zero] at hzero
    rw [hparent row hmem]
    by_contra hnone
    exact hzero page hpage (by simpa using ⟨List.mem_map_of_mem hrow, hnone⟩)

theorem WellCut.count {pages : List (List RemoteFilesRow)} (hcut : WellCut rows pages)
    (hclean : ∀ row ∈ rows, IsClean row.localPath) (hparent : ∀ row ∈ rows, row.parent = dir row.localPath)
    (hpages : ∀ page ∈ pages, page ⊆ rows) (p : Str) :
    (pages.countP fun page => p ∈ paths page ∧ dir p ∉ paths page) = (rootPaths rows).count p := by
  rw [count_rootPaths]
  by_cases hlisted : p ∈ rootPaths rows
  · obtain ⟨row, hrow, hroot, rfl⟩ := mem_rootPaths.mp hlisted
    have hnone := ((isRoot_iff hclean hparent hrow).mp hroot).resolve_right (hcut.noSlash row hrow)
    rw [countP_root hpages hnone, hcut.once row hrow hroot, if_pos hlisted]
  · rw [if_neg hlisted, List.countP_eq_zero]
    intro page hpage hboth
    obtain ⟨hmem, hnone⟩ : p ∈ paths page ∧ dir p ∉ paths page := by simpa using hboth
    obtain ⟨row, hrow, rfl⟩ := List.mem_map.mp hmem
    have hmem' := hpages page hpage hrow
    have hroot : ¬ IsRoot rows row := fun hroot => hlisted (mem_rootPaths.mpr ⟨row, hmem', hroot, rfl⟩)
    exact hnone (hparent row hmem' ▸ hcut.withParent page hpage row hrow hroot)

theorem wellCut_iff (hclean : ∀ row ∈ rows, IsClean row.localPath)
    (hparent : ∀ row ∈ rows, row.parent = dir row.localPath) {pages : List (List RemoteFilesRow)}
    (hpages : ∀ page ∈ pages, page ⊆ rows) :
    (∀ p, (pages.countP fun page => p ∈ paths page ∧ dir p ∉ paths page) = (rootPaths rows).count p) ↔
      WellCut rows pages :=
  ⟨wellCut_of_count hclean hparent hpages, fun hcut p => hcut.count hclean hparent hpages p⟩

end

section

variable {u : Tables} {db : ReportDb} {running : List JobStatus} {jobName jobId : Str}

theorem reachedPages_subset (hunix : getPathSeparator u (db.jobPlatform jobName jobId) = ['/'])
    (hclean : ∀ row ∈ db.collected jobId, IsClean row.localPath)
    (hparent : ∀ row ∈ db.collected jobId, row.parent = dir row.localPath) {limit : ℕ} {page : List RemoteFilesRow}
    (hpage : page ∈ reachedPages limit (matchingRows u db jobName jobId [] true)) : page ⊆ db.collected jobId :=
  fun _ hrow => (matchingRows_perm hunix hclean hparent).subset ((sublist_of_mem_reachedPages hpage).subset hrow)

theorem rootsListed_iff_count (hname : jobName ≠ []) (h : Listable db running jobName jobId)
    (hunix : getPathSeparator u (db.jobPlatform jobName jobId) = ['/'])
    (hclean : ∀ row ∈ db.collected jobId, IsClean row.localPath)
    (hparent : ∀ row ∈ db.collected jobId, row.parent = dir row.localPath) :
    RootsListed u db running jobName jobId ↔
      ∀ p, ((reachedPages limitReportFileResultsDefault (matchingRows u db jobName jobId [] true)).countP
        fun page => p ∈ paths page ∧ dir p ∉ paths page) = (rootPaths (db.collected jobId)).count p := by
  have hfirst : asked ⟨jobName, [], 0, jobId, [], true⟩ = .ok ⟨0, 0, jobId, [], true⟩ := rfl
  obtain ⟨pages, htop, hshown⟩ := topPages_from hname hfirst h (Nat.zero_le _)
    (tidy_matchingRows hunix hclean hparent)
  have hcount := count_flatten hshown
  rw [List.drop_zero] at hcount
  constructor
  · rintro ⟨pages', htop', hlisted⟩ p
    obtain rfl := htop.unique htop'
    exact (hcount p).symm.trans (hlisted.count_eq p)
  · intro hroots
    exact ⟨pages, htop, List.perm_iff_count.mpr fun p => (hcount p).trans (hroots p)⟩

end

/-- The browser shows the roots if and only if the rows are cut well into pages. -/
theorem rootsListed_iff {u : Tables} {db : ReportDb} {running : List JobStatus} {jobName jobId : Str}
    (hname : jobName ≠ []) (h : Listable db running jobName jobId)
    (hunix : getPathSeparator u (db.jobPlatform jobName jobId) = ['/'])
    (hclean : ∀ row ∈ db.collected jobId, IsClean row.localPath)
    (hparent : ∀ row ∈ db.collected jobId, row.parent = dir row.localPath) :
    RootsListed u db running jobName jobId ↔
      WellCut (db.collected jobId)
        (reachedPages limitReportFileResultsDefault (matchingRows u db jobName jobId [] true)) :=
  (rootsListed_iff_count hname h hunix hclean hparent).trans
    (wellCut_iff hclean hparent fun _ => reachedPages_subset hunix hclean hparent)

/-! ### One page -/

theorem wellCut_of_short {rows rows' : List RemoteFilesRow} (hperm : rows'.Perm rows)
    (hshort : rows'.length < limitReportFileResultsDefault) (hnoSlash : ∀ row ∈ rows, row.localPath ≠ ['/']) :
    WellCut rows (reachedPages limitReportFileResultsDefault rows') := by
  rw [reachedPages_of_short hshort]
  have hpaths : ∀ p, p ∈ paths rows' ↔ p ∈ paths rows := fun p => (hperm.map _).mem_iff
  refine ⟨hnoSlash, fun row hrow _ => ?_, fun page hpage row hrow hroot => ?_⟩
  · have hmem : row.localPath ∈ paths rows' := (hpaths _).mpr (List.mem_map_of_mem hrow)
    simp [hmem]
  · obtain rfl := List.mem_singleton.mp hpage
    rw [hpaths]
    by_contra hnone
    exact hroot fun row' hrow' heq => absurd (heq ▸ List.mem_map_of_mem hrow') hnone

theorem rootsListed_oneTarget : RootsListed .plain oneTargetDb [] "home".toList "1".toList := by
  have hlistable : Listable oneTargetDb [] "home".toList "1".toList := ⟨by decide, by decide⟩
  have hclean : ∀ row ∈ oneTargetDb.collected "1".toList, IsClean row.localPath := by decide
  have hparent : ∀ row ∈ oneTargetDb.collected "1".toList, row.parent = dir row.localPath := by decide
  refine (rootsListed_iff (by decide) hlistable (by decide) hclean hparent).mpr ?_
  exact wellCut_of_short (matchingRows_perm (by decide) hclean hparent) (by decide) (by decide)

def wholeSystem : List RemoteFilesRow :=
  [⟨"1".toList, "/".toList, "/".toList, "s3".toList, 0, .dir, 0, false⟩,
    ⟨"2".toList, "/a".toList, "/".toList, "s3".toList, 0, .file, 1, false⟩]

theorem colon_notMem_ids : ∀ job ∈ [finishedJob], ':' ∉ job.id := by decide

def wholeSystemDb : ReportDb where
  jobs := [finishedJob]
  remoteFiles := wholeSystem
  backupCollections := collection wholeSystem
  jobIds := colon_notMem_ids
  rowids := by decide

/-- The root is its own directory, so it is not shown, and neither is anything else. -/
theorem rootsListed_wholeSystem : ¬ ∀ (u : Tables) (db : ReportDb) (running : List JobStatus) (jobName jobId : Str),
    jobName ≠ [] → Listable db running jobName jobId → getPathSeparator u (db.jobPlatform jobName jobId) = ['/'] →
      (∀ row ∈ db.collected jobId, IsClean row.localPath) →
        (∀ row ∈ db.collected jobId, row.parent = dir row.localPath) → RootsListed u db running jobName jobId := by
  intro hall
  have hlistable : Listable wholeSystemDb [] "home".toList "1".toList := ⟨by decide, by decide⟩
  have hlisted := hall .plain wholeSystemDb [] "home".toList "1".toList (by decide) hlistable (by decide) (by decide)
    (by decide)
  have hcount := (rootsListed_iff_count (by decide) hlistable (by decide) (by decide) (by decide)).mp hlisted ['/']
  rw [reachedPages_of_short (by decide)] at hcount
  revert hcount
  decide

end CloudBackup.Client
