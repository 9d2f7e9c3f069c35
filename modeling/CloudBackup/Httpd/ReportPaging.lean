import CloudBackup.Httpd.FileListBytes
import CloudBackup.Httpd.RestoreList

/-!
The pages of the lists of jobs: `handlerPostReportBackupList` and
`handlerPostReportRestoreList`. The two are the same but for where the rows come from; here
they are one definition (`jobsList`), and `Cuts` is what it has to know of the rows.

The number of results is cut for a request, but not for a token. A token with a limit of zero
is answered with the same token again and again, and one with a large limit with as many rows
as it asks for (`reportPaging_iff`). The list of files cuts the limit of a token too.
-/

namespace CloudBackup.Httpd

open Database Shared Casing StableSort

def limitReportResults : ℕ := 1000

def limitReportResultsDefault : ℕ := 100

structure ReportBackupList where
  name : Str
  next : Str
  maxResults : ℕ
  fromStartTime : Str
  untilStartTime : Str
  deriving DecidableEq, Repr

/-- What package `time` says while a request is answered: how it reads a text, and the time now
and thirty days ago. -/
structure Clock where
  parseTime : Str → Option ℤ
  monthAgo : ℤ
  now : ℤ
  isInt64_parseTime : ∀ s t, parseTime s = some t → IsInt64 t
  isInt64_monthAgo : IsInt64 monthAgo
  isInt64_now : IsInt64 now

inductive JobsListErr
  | nameMissing
  | fromStartTime (value : Str)
  | untilStartTime (value : Str)
  | untilBeforeFrom (value : Str) (fromStart : ℤ)
  | token (e : JobsTokenErr)
  | notFound (name : Str)
  | argumentTooLarge
  | panic
  deriving DecidableEq, Repr

structure JobsPage where
  next : Str
  results : List ReportBackupListDbResults
  deriving DecidableEq, Repr

/-! ### The request -/

def jobsPageLimit (maxResults : ℕ) : ℕ :=
  if limitReportResults < maxResults then limitReportResults
  else if 0 < maxResults then maxResults
  else limitReportResultsDefault

def parseStartTime (clock : Clock) (err : Str → JobsListErr) (unset : ℤ) (value : Str) : Except JobsListErr ℤ :=
  if value = [] then .ok unset
  else match clock.parseTime value with
    | none => .error (err value)
    | some t => .ok t

/-- `FromStartTime` and `UntilStartTime`. -/
def startInterval (clock : Clock) (req : ReportBackupList) : Except JobsListErr (ℤ × ℤ) := do
  let fromStart ← parseStartTime clock .fromStartTime clock.monthAgo req.fromStartTime
  let untilStart ← parseStartTime clock .untilStartTime clock.now req.untilStartTime
  if req.untilStartTime ≠ [] ∧ untilStart < fromStart then
    .error (.untilBeforeFrom req.untilStartTime fromStart)
  else return (fromStart, untilStart)

def askedJobs (clock : Clock) (req : ReportBackupList) : Except JobsListErr JobsToken := do
  let interval ← startInterval clock req
  if req.next = [] then return ⟨jobsPageLimit req.maxResults, 0, interval.1, interval.2⟩
  else match decodeNextTokenOfReportBackupList req.next with
    | .error e => .error (.token e)
    | .ok t => .ok t

/-! ### The handlers -/

/-- A page, with a token for the next one if it has as many results as were asked for. -/
def jobsPage (t : JobsToken) (results : List ReportBackupListDbResults) : JobsPage :=
  ⟨if results.length = t.limit then
    buildNextTokenOfReportBackupList { t with offset := (t.offset + t.limit) % 2 ^ 64 } else [], results⟩

/-- Where the rows of a list come from, for each backup definition there is. -/
abbrev RowSource := Str → Option (JobsToken → Except JobsListErr (List ReportBackupListDbResults))

def jobsList (source : RowSource) (clock : Clock) (req : ReportBackupList) : Except JobsListErr JobsPage :=
  if req.name = [] then .error .nameMissing
  else do
    let t ← askedJobs clock req
    match source req.name with
    | none => .error (.notFound req.name)
    | some getRows => do
        let results ← getRows t
        return jobsPage t results

structure BackupJobsRow where
  id : Str
  name : Str
  type : Str
  startTime : ℤ
  endTime : ℤ
  state : Str
  deriving DecidableEq, Repr

/-- The database of a backup definition; SQLite numbers the rows of a table with 63 bits. -/
structure BackupJobsDb where
  rows : List BackupJobsRow
  rowids : rows.length < 2 ^ 63

def reportBackupJobsListQuery (db : BackupJobsDb) (jobName : Str) (earliestStart latestStart : ℤ) :
    List BackupJobsRow :=
  (db.rows.filter fun row =>
    row.name = jobName ∧ row.state ≠ "started".toList ∧ row.type = "backup".toList ∧
      earliestStart ≤ row.startTime ∧ row.startTime ≤ latestStart).insertionSort fun r r' => r.startTime ≤ r'.startTime

def getRowsForHandlerPostReportBackupList (zone : ℤ → ℤ) (db : BackupJobsDb) (jobName : Str) (limit offset : ℕ)
    (earliestStart latestStart : ℤ) : Except JobsListErr (List ReportBackupListDbResults) :=
  if 2 ^ 63 ≤ limit ∨ 2 ^ 63 ≤ offset then .error .argumentTooLarge
  else .ok (((reportBackupJobsListQuery db jobName earliestStart latestStart).drop offset).take limit |>.map fun row =>
    ⟨row.name, row.id, Timestamps.formatRFC3339Nano zone row.startTime,
      Timestamps.formatRFC3339Nano zone row.endTime, row.state⟩)

section

variable (zone : ℤ → ℤ) (backupDbs : Str → Option BackupJobsDb) (restoreDbs : Str → Option RestoreDbs)

def backupSource : RowSource := fun name =>
  (backupDbs name).map fun db t =>
    getRowsForHandlerPostReportBackupList zone db name t.limit t.offset t.earliestStart t.latestStart

def restoreSource : RowSource := fun name =>
  (restoreDbs name).map fun dbs t =>
    (getRowsForHandlerPostReportRestoreList zone name dbs t.limit t.offset t.earliestStart t.latestStart).elim
      (.error .panic) .ok

def handlerPostReportBackupList : Clock → ReportBackupList → Except JobsListErr JobsPage :=
  jobsList (backupSource zone backupDbs)

def handlerPostReportRestoreList : Clock → ReportBackupList → Except JobsListErr JobsPage :=
  jobsList (restoreSource zone restoreDbs)

end

/-! ### A client -/

def nextRequest (name next : Str) : ReportBackupList := ⟨name, next, 0, [], []⟩

/-- A client follows the tokens, until there is none. Each request has its own time. -/
inductive FollowsJobs (handler : Clock → ReportBackupList → Except JobsListErr JobsPage) (clock : ℕ → Clock) :
    ℕ → ReportBackupList → List JobsPage → Prop
  | last {k req page} (h : handler (clock k) req = .ok page) (hnext : page.next = []) :
      FollowsJobs handler clock k req [page]
  | more {k req page pages} (h : handler (clock k) req = .ok page) (hnext : page.next ≠ [])
      (hrest : FollowsJobs handler clock (k + 1) (nextRequest req.name page.next) pages) :
      FollowsJobs handler clock k req (page :: pages)

/-- If the request is answered with a page, the client comes to an end, and no page on the way
has more than `LimitReportResults` results. -/
def JobsPaged (handler : Clock → ReportBackupList → Except JobsListErr JobsPage) (clock : ℕ → Clock)
    (req : ReportBackupList) : Prop :=
  ∀ page, handler (clock 0) req = .ok page →
    ∃ pages, FollowsJobs handler clock 0 req pages ∧ ∀ page ∈ pages, page.results.length ≤ limitReportResults

/-! ### What is asked for -/

theorem jobsPageLimit_pos (m : ℕ) : 0 < jobsPageLimit m := by
  rw [jobsPageLimit]
  split
  · decide
  · split
    · assumption
    · decide

theorem jobsPageLimit_le (m : ℕ) : jobsPageLimit m ≤ limitReportResults := by
  rw [jobsPageLimit]
  split
  · exact le_rfl
  · split
    · omega
    · decide

section

variable {clock : Clock} {req : ReportBackupList}

theorem isInt64_parseStartTime {err : Str → JobsListErr} {unset t : ℤ} {value : Str} (hunset : IsInt64 unset)
    (h : parseStartTime clock err unset value = .ok t) : IsInt64 t := by
  rw [parseStartTime] at h
  split at h
  · rwa [← Except.ok.inj h]
  · split at h
    · cases h
    · rename_i hparse
      obtain rfl := Except.ok.inj h
      exact clock.isInt64_parseTime _ _ hparse

theorem isInt64_startInterval {interval : ℤ × ℤ} (h : startInterval clock req = .ok interval) :
    IsInt64 interval.1 ∧ IsInt64 interval.2 := by
  obtain ⟨fromStart, hfrom, hrest⟩ := Checks.bind_ok.mp h
  obtain ⟨untilStart, huntil, hrest⟩ := Checks.bind_ok.mp hrest
  split at hrest
  · cases hrest
  · obtain rfl := Except.ok.inj hrest
    exact ⟨isInt64_parseStartTime clock.isInt64_monthAgo hfrom, isInt64_parseStartTime clock.isInt64_now huntil⟩

theorem askedJobs_token {interval : ℤ × ℤ} (htimes : startInterval clock req = .ok interval) (hnext : req.next ≠ [])
    {t : JobsToken} (hdecoded : decodeNextTokenOfReportBackupList req.next = .ok t) : askedJobs clock req = .ok t := by
  rw [askedJobs, htimes]
  refine (if_neg hnext).trans ?_
  rw [hdecoded]

/-- What is asked for comes from the request or from its token. -/
theorem askedJobs_cases {t : JobsToken} (h : askedJobs clock req = .ok t) :
    ∃ interval, startInterval clock req = .ok interval ∧
      (req.next = [] ∧ t = ⟨jobsPageLimit req.maxResults, 0, interval.1, interval.2⟩ ∨
        req.next ≠ [] ∧ decodeNextTokenOfReportBackupList req.next = .ok t) := by
  rw [askedJobs] at h
  obtain ⟨interval, htimes, hrest⟩ := Checks.bind_ok.mp h
  refine ⟨interval, htimes, ?_⟩
  split at hrest
  · rename_i hnext
    exact .inl ⟨hnext, (Except.ok.inj hrest).symm⟩
  · rename_i hnext
    split at hrest
    · cases hrest
    · rename_i hdecoded
      obtain rfl := Except.ok.inj hrest
      exact .inr ⟨hnext, hdecoded⟩

theorem askedJobs_fits {t : JobsToken} (h : askedJobs clock req = .ok t) : t.Fits := by
  obtain ⟨interval, htimes, ⟨-, rfl⟩ | ⟨-, hdecoded⟩⟩ := askedJobs_cases h
  · obtain ⟨hearliest, hlatest⟩ := isInt64_startInterval htimes
    have hlimit := jobsPageLimit_le req.maxResults
    rw [limitReportResults] at hlimit
    exact ⟨by dsimp only; omega, by dsimp only; omega, hearliest, hlatest⟩
  · exact decodeNextTokenOfReportBackupList_fits hdecoded

/-- A token that was built asks for what is in it, whatever the time. -/
theorem askedJobs_nextRequest {t : JobsToken} (h : t.Fits) (name : Str) :
    askedJobs clock (nextRequest name (buildNextTokenOfReportBackupList t)) = .ok t := by
  have htimes : startInterval clock (nextRequest name (buildNextTokenOfReportBackupList t)) =
      .ok (clock.monthAgo, clock.now) := rfl
  exact askedJobs_token htimes (buildNextTokenOfReportBackupList_ne_nil t) (decode_buildNextTokenOfReportBackupList h)

end

/-! ### Pages of any rows -/

/-- The pages are cut out of so many rows: `takes` says which limits and offsets are taken, and
those within the rows are. -/
structure Cuts (getRows : JobsToken → Except JobsListErr (List ReportBackupListDbResults)) (takes : JobsToken → Prop)
    (count : ℤ → ℤ → ℕ) : Prop where
  few : ∀ earliestStart latestStart, count earliestStart latestStart < 2 ^ 63
  answers : ∀ t : JobsToken, t.Fits → takes t → ∃ results, getRows t = .ok results ∧
    results.length = min t.limit (count t.earliestStart t.latestStart - t.offset)
  refuses : ∀ t : JobsToken, t.Fits → ¬ takes t → ∃ e, getRows t = .error e
  inside : ∀ t : JobsToken, t.limit ≤ count t.earliestStart t.latestStart →
    t.offset ≤ count t.earliestStart t.latestStart → takes t

/-- The request has a token, and it is answered. -/
structure Resumes (source : RowSource) (takes : JobsToken → Prop) (clock : Clock) (req : ReportBackupList)
    (t : JobsToken) : Prop where
  name : req.name ≠ []
  found : (source req.name).isSome
  times : ∃ interval, startInterval clock req = .ok interval
  token : req.next ≠ []
  decoded : decodeNextTokenOfReportBackupList req.next = .ok t
  takes : takes t

/-- The token asks for some results, and for no more than a request may ask for or there are. -/
def AsksForFew (count : ℕ) (t : JobsToken) : Prop :=
  t.limit ≠ 0 ∧ (t.limit ≤ limitReportResults ∨ count ≤ t.offset + limitReportResults)

section

variable {source : RowSource} {clock : ℕ → Clock} {req : ReportBackupList}
  {getRows : JobsToken → Except JobsListErr (List ReportBackupListDbResults)} {takes : JobsToken → Prop}
  {count : ℤ → ℤ → ℕ}

theorem jobsList_ok_iff {clock : Clock} {page : JobsPage} (hsource : source req.name = some getRows) :
    jobsList source clock req = .ok page ↔ req.name ≠ [] ∧
      ∃ t, askedJobs clock req = .ok t ∧ ∃ results, getRows t = .ok results ∧ page = jobsPage t results := by
  rw [jobsList]
  split
  · rename_i hname
    exact iff_of_false (by simp) fun h => h.1 hname
  · rename_i hname
    rw [Checks.bind_ok, and_iff_right hname]
    refine exists_congr fun t => and_congr_right fun _ => ?_
    rw [hsource]
    dsimp only
    rw [Checks.bind_ok]
    exact exists_congr fun results => and_congr_right fun _ => ⟨fun h => (Except.ok.inj h).symm, fun h => h ▸ rfl⟩

theorem jobsPage_next {t : JobsToken} {results : List ReportBackupListDbResults} (hfull : results.length = t.limit) :
    (jobsPage t results).next =
      buildNextTokenOfReportBackupList { t with offset := (t.offset + t.limit) % 2 ^ 64 } :=
  if_pos hfull

/-- The token of a page asks for what follows it, from the offset on that it has. -/
theorem askedJobs_jobsPage {clock : Clock} {t : JobsToken} (hfits : t.Fits) {results : List ReportBackupListDbResults}
    (hfull : results.length = t.limit) (name : Str) :
    askedJobs clock (nextRequest name (jobsPage t results).next) =
      .ok { t with offset := (t.offset + t.limit) % 2 ^ 64 } := by
  have hnextFits : JobsToken.Fits { t with offset := (t.offset + t.limit) % 2 ^ 64 } :=
    ⟨hfits.limit, Nat.mod_lt _ (Nat.two_pow_pos 64), hfits.earliestStart, hfits.latestStart⟩
  rw [jobsPage_next hfull]
  exact askedJobs_nextRequest hnextFits name

/-- Rows were asked for, and the client comes to an end. No page is larger than the first. -/
theorem follows_jobs (hcuts : Cuts getRows takes count) (hsource : source req.name = some getRows)
    (hname : req.name ≠ []) {k : ℕ} {t : JobsToken} (hasked : askedJobs (clock k) req = .ok t) (htakes : takes t)
    (hlimit : t.limit ≠ 0) : ∃ pages, FollowsJobs (jobsList source) clock k req pages ∧
      ∀ page ∈ pages, page.results.length ≤ min t.limit (count t.earliestStart t.latestStart - t.offset) := by
  obtain ⟨n, hn⟩ : ∃ n, n = count t.earliestStart t.latestStart - t.offset := ⟨_, rfl⟩
  -- on the rows that are left
  induction n using Nat.strong_induction_on generalizing k req t with
  | _ n ih =>
      have hfits := askedJobs_fits hasked
      have hfew := hcuts.few t.earliestStart t.latestStart
      obtain ⟨results, hresults, hlength⟩ := hcuts.answers t hfits htakes
      have hpage : jobsList source (clock k) req = .ok (jobsPage t results) :=
        (jobsList_ok_iff hsource).mpr ⟨hname, t, hasked, results, hresults, rfl⟩
      by_cases hfull : results.length = t.limit
      · have hmod : (t.offset + t.limit) % 2 ^ 64 = t.offset + t.limit := Nat.mod_eq_of_lt (by omega)
        have hnext : askedJobs (clock (k + 1)) (nextRequest req.name (jobsPage t results).next) =
            .ok { t with offset := t.offset + t.limit } := by
          rw [askedJobs_jobsPage hfits hfull, hmod]
        have hsource' : source (nextRequest req.name (jobsPage t results).next).name = some getRows := hsource
        obtain ⟨pages, hpages, hall⟩ := ih (n - t.limit) (by omega) hsource' hname hnext
          (hcuts.inside _ (by dsimp only; omega) (by dsimp only; omega)) hlimit (by dsimp only; omega)
        refine ⟨jobsPage t results :: pages, .more hpage ?_ hpages, List.forall_mem_cons.mpr ⟨hlength.le, ?_⟩⟩
        · rw [jobsPage_next hfull]
          exact buildNextTokenOfReportBackupList_ne_nil _
        · intro page hmem
          refine (hall page hmem).trans (le_min (min_le_left _ _) ((min_le_right _ _).trans ?_))
          dsimp only
          omega
      · exact ⟨[jobsPage t results], .last hpage (if_neg hfull), List.forall_mem_singleton.mpr hlength.le⟩

theorem answered (hcuts : Cuts getRows takes count) (hsource : source req.name = some getRows) {clock : Clock}
    {t : JobsToken} (hasked : askedJobs clock req = .ok t) {page : JobsPage}
    (h : jobsList source clock req = .ok page) : req.name ≠ [] ∧ takes t ∧ ∃ results, page = jobsPage t results ∧
      results.length = min t.limit (count t.earliestStart t.latestStart - t.offset) := by
  obtain ⟨hname, t', hasked', results, hresults, rfl⟩ := (jobsList_ok_iff hsource).mp h
  obtain rfl := Except.ok.inj (hasked.symm.trans hasked')
  have hfits := askedJobs_fits hasked
  have htakes : takes t := by
    by_contra htakes
    obtain ⟨e, he⟩ := hcuts.refuses t hfits htakes
    rw [hresults] at he
    cases he
  obtain ⟨results', hresults', hlength⟩ := hcuts.answers t hfits htakes
  obtain rfl := Except.ok.inj (hresults.symm.trans hresults')
  exact ⟨hname, htakes, results, rfl, hlength⟩

/-- A token with a limit of zero is answered with another one, so no client that comes to an end
has seen one. -/
theorem limit_ne_zero (hcuts : Cuts getRows takes count) {k : ℕ} {pages : List JobsPage}
    (h : FollowsJobs (jobsList source) clock k req pages) (hsource : source req.name = some getRows) {t : JobsToken}
    (hasked : askedJobs (clock k) req = .ok t) : t.limit ≠ 0 := by
  intro hzero
  induction h generalizing t with
  | last h hlast =>
      obtain ⟨-, -, results, rfl, hlength⟩ := answered hcuts hsource hasked h
      rw [jobsPage_next (by omega)] at hlast
      exact buildNextTokenOfReportBackupList_ne_nil _ hlast
  | more h _ _ ih =>
      obtain ⟨-, -, results, rfl, hlength⟩ := answered hcuts hsource hasked h
      exact ih hsource (askedJobs_jobsPage (askedJobs_fits hasked) (by omega) _) hzero

/-- Paging is right exactly if every token that is answered asks for some results, and not for
too many. -/
theorem jobsPaged_iff (hcuts : Cuts getRows takes count) (hsource : source req.name = some getRows) :
    JobsPaged (jobsList source) clock req ↔
      ∀ t, Resumes source takes (clock 0) req t → AsksForFew (count t.earliestStart t.latestStart) t := by
  constructor
  · rintro hpaged t ⟨hname, -, ⟨interval, htimes⟩, htoken, hdecoded, htakes⟩
    have hasked := askedJobs_token htimes htoken hdecoded
    obtain ⟨results, hresults, hlength⟩ := hcuts.answers t (askedJobs_fits hasked) htakes
    have hpage : jobsList source (clock 0) req = .ok (jobsPage t results) :=
      (jobsList_ok_iff hsource).mpr ⟨hname, t, hasked, results, hresults, rfl⟩
    obtain ⟨pages, hpages, hall⟩ := hpaged _ hpage
    refine ⟨limit_ne_zero hcuts hpages hsource hasked, ?_⟩
    -- the first page is the one that was answered
    have hfirst : jobsPage t results ∈ pages := by
      cases hpages with
      | last h _ => rw [Except.ok.inj (hpage.symm.trans h)]; exact List.mem_cons_self
      | more h _ _ => rw [Except.ok.inj (hpage.symm.trans h)]; exact List.mem_cons_self
    have hbound : results.length ≤ limitReportResults := hall _ hfirst
    omega
  · intro hfew page hpage
    obtain ⟨hname, t, hasked, -⟩ := (jobsList_ok_iff hsource).mp hpage
    obtain ⟨-, htakes, -⟩ := answered hcuts hsource hasked hpage
    have hasks : AsksForFew (count t.earliestStart t.latestStart) t := by
      obtain ⟨interval, htimes, ⟨-, rfl⟩ | ⟨htoken, hdecoded⟩⟩ := askedJobs_cases hasked
      · exact ⟨(jobsPageLimit_pos _).ne', .inl (jobsPageLimit_le _)⟩
      · exact hfew t ⟨hname, hsource ▸ rfl, ⟨interval, htimes⟩, htoken, hdecoded, htakes⟩
    obtain ⟨pages, hpages, hall⟩ := follows_jobs hcuts hsource hname hasked htakes hasks.1
    refine ⟨pages, hpages, fun page hmem => (hall page hmem).trans ?_⟩
    have hbound := hasks.2
    omega

/-- Where there is no such backup definition, no request is answered. -/
theorem jobsPaged_of_none (hsource : source req.name = none) : JobsPaged (jobsList source) clock req := by
  intro page hpage
  rw [jobsList] at hpage
  split at hpage
  · cases hpage
  · obtain ⟨t, -, hrest⟩ := Checks.bind_ok.mp hpage
    rw [hsource] at hrest
    cases hrest

theorem not_resumes_of_none (hsource : source req.name = none) (t : JobsToken) :
    ¬ Resumes source takes (clock 0) req t := by
  intro h
  have hfound := h.found
  rw [hsource] at hfound
  cases hfound

end

/-! ### The lists of backups and of restores -/

def backupCount (backupDbs : Str → Option BackupJobsDb) (name : Str) (earliestStart latestStart : ℤ) : ℕ :=
  (backupDbs name).elim 0 fun db => (reportBackupJobsListQuery db name earliestStart latestStart).length

def restoreCount (restoreDbs : Str → Option RestoreDbs) (name : Str) (earliestStart latestStart : ℤ) : ℕ :=
  (restoreDbs name).elim 0 fun dbs => (restoreRows name dbs earliestStart latestStart).length

/-- The arguments of the statement are not too large. -/
def BackupTakes (t : JobsToken) : Prop := t.limit < 2 ^ 63 ∧ t.offset < 2 ^ 63

/-- The page lies behind the rows, or its end has 64 bits. -/
def RestoreTakes (restoreDbs : Str → Option RestoreDbs) (name : Str) (t : JobsToken) : Prop :=
  restoreCount restoreDbs name t.earliestStart t.latestStart ≤ t.offset ∨ t.offset + t.limit < 2 ^ 64

section

variable (zone : ℤ → ℤ) (backupDbs : Str → Option BackupJobsDb) (restoreDbs : Str → Option RestoreDbs)
  {name : Str}

theorem backup_cuts {db : BackupJobsDb} (hdb : backupDbs name = some db) :
    Cuts (fun t => getRowsForHandlerPostReportBackupList zone db name t.limit t.offset t.earliestStart t.latestStart)
      BackupTakes (backupCount backupDbs name) := by
  have hcount : ∀ earliestStart latestStart, backupCount backupDbs name earliestStart latestStart =
      (reportBackupJobsListQuery db name earliestStart latestStart).length := by
    intro earliestStart latestStart
    rw [backupCount, hdb, Option.elim_some]
  have hfew : ∀ earliestStart latestStart, backupCount backupDbs name earliestStart latestStart < 2 ^ 63 := by
    intro earliestStart latestStart
    rw [hcount, reportBackupJobsListQuery, List.length_insertionSort]
    exact (List.length_filter_le _ _).trans_lt db.rowids
  refine ⟨hfew, ?_, ?_, ?_⟩
  · rintro t - ⟨hlimit, hoffset⟩
    refine ⟨_, by rw [getRowsForHandlerPostReportBackupList, if_neg (by omega)], ?_⟩
    rw [List.length_map, List.length_take, List.length_drop, hcount]
  · intro t _ htakes
    rw [BackupTakes] at htakes
    exact ⟨_, if_pos (by omega)⟩
  · intro t hlimit hoffset
    have hlt := hfew t.earliestStart t.latestStart
    exact ⟨by omega, by omega⟩

theorem restore_cuts {dbs : RestoreDbs} (hdbs : restoreDbs name = some dbs) :
    Cuts (fun t =>
      (getRowsForHandlerPostReportRestoreList zone name dbs t.limit t.offset t.earliestStart t.latestStart).elim
        (.error .panic) .ok)
      (RestoreTakes restoreDbs name) (restoreCount restoreDbs name) := by
  have hcount : ∀ earliestStart latestStart, restoreCount restoreDbs name earliestStart latestStart =
      (restoreRows name dbs earliestStart latestStart).length := by
    intro earliestStart latestStart
    rw [restoreCount, hdbs, Option.elim_some]
  have hfew : ∀ earliestStart latestStart, restoreCount restoreDbs name earliestStart latestStart < 2 ^ 62 := by
    intro earliestStart latestStart
    rw [hcount]
    exact length_restoreRows_lt name dbs earliestStart latestStart
  refine ⟨fun earliestStart latestStart => (hfew _ _).trans (by decide), ?_, ?_, ?_⟩
  · intro t hfits htakes
    rw [RestoreTakes, hcount] at htakes
    refine ⟨_, by rw [getRows_eq hfits.limit, if_pos htakes, Option.elim_some], ?_⟩
    rw [List.length_map, window, List.length_take, List.length_drop, List.length_insertionSort, hcount]
  · intro t hfits htakes
    rw [RestoreTakes, hcount] at htakes
    exact ⟨.panic, by rw [getRows_eq hfits.limit, if_neg htakes, Option.elim_none]⟩
  · intro t hlimit hoffset
    have hlt := hfew t.earliestStart t.latestStart
    exact .inr (by omega)

theorem backupList_paged_iff {clock : ℕ → Clock} {req : ReportBackupList} :
    JobsPaged (handlerPostReportBackupList zone backupDbs) clock req ↔
      ∀ t, Resumes (backupSource zone backupDbs) BackupTakes (clock 0) req t →
        AsksForFew (backupCount backupDbs req.name t.earliestStart t.latestStart) t := by
  cases hdb : backupDbs req.name with
  | none =>
      have hnone : backupSource zone backupDbs req.name = none := by rw [backupSource, hdb, Option.map_none]
      exact iff_of_true (jobsPaged_of_none hnone) fun t h => absurd h (not_resumes_of_none hnone t)
  | some db => exact jobsPaged_iff (backup_cuts zone backupDbs hdb) (by rw [backupSource, hdb, Option.map_some])

theorem restoreList_paged_iff {clock : ℕ → Clock} {req : ReportBackupList} :
    JobsPaged (handlerPostReportRestoreList zone restoreDbs) clock req ↔
      ∀ t, Resumes (restoreSource zone restoreDbs) (RestoreTakes restoreDbs req.name) (clock 0) req t →
        AsksForFew (restoreCount restoreDbs req.name t.earliestStart t.latestStart) t := by
  cases hdbs : restoreDbs req.name with
  | none =>
      have hnone : restoreSource zone restoreDbs req.name = none := by rw [restoreSource, hdbs, Option.map_none]
      exact iff_of_true (jobsPaged_of_none hnone) fun t h => absurd h (not_resumes_of_none hnone t)
  | some dbs => exact jobsPaged_iff (restore_cuts zone restoreDbs hdbs) (by rw [restoreSource, hdbs, Option.map_some])

end

/-- Paging is bounded and comes to an end in the list of files, and in the two lists of jobs
exactly for requests without a token or with one that asks for some results, but not for more
than a request may ask for or there are. -/
theorem reportPaging_iff (u : Tables) (db : Bytes.ReportDb) (running : List JobStatus)
    (fileReq : Bytes.ReportBackupFileList) (zone : ℤ → ℤ) (backupDbs : Str → Option BackupJobsDb)
    (restoreDbs : Str → Option RestoreDbs) (clock : ℕ → Clock) (req : ReportBackupList) :
    Bytes.FilesPaged u db.toReportDb running fileReq ∧
    (JobsPaged (handlerPostReportBackupList zone backupDbs) clock req ↔
      ∀ t, Resumes (backupSource zone backupDbs) BackupTakes (clock 0) req t →
        AsksForFew (backupCount backupDbs req.name t.earliestStart t.latestStart) t) ∧
    (JobsPaged (handlerPostReportRestoreList zone restoreDbs) clock req ↔
      ∀ t, Resumes (restoreSource zone restoreDbs) (RestoreTakes restoreDbs req.name) (clock 0) req t →
        AsksForFew (restoreCount restoreDbs req.name t.earliestStart t.latestStart) t) :=
  ⟨Bytes.filesPaged u db running fileReq, backupList_paged_iff zone backupDbs, restoreList_paged_iff zone restoreDbs⟩

/-! ### A limit of zero, and one that is too large -/

def anyClock : Clock where
  parseTime := fun _ => none
  monthAgo := 0
  now := 1
  isInt64_parseTime := by simp
  isInt64_monthAgo := by unfold IsInt64; decide
  isInt64_now := by unfold IsInt64; decide

def manyBackups : BackupJobsDb where
  rows := List.replicate 1001 ⟨"1".toList, "home".toList, "backup".toList, 0, 0, "finished".toList⟩
  rowids := by
    rw [List.length_replicate]
    decide

def withToken (limit : ℕ) : ReportBackupList :=
  nextRequest "home".toList (buildNextTokenOfReportBackupList ⟨limit, 0, 0, 1⟩)

theorem backupCount_manyBackups : backupCount (fun _ => some manyBackups) "home".toList 0 1 = 1001 := by
  rw [backupCount, Option.elim_some, reportBackupJobsListQuery, List.length_insertionSort, List.filter_eq_self.mpr]
  · exact List.length_replicate
  · intro row hrow
    obtain rfl := List.eq_of_mem_replicate hrow
    decide

theorem resumes_withToken {limit : ℕ} (hlimit : limit < 2 ^ 63) :
    Resumes (backupSource Timestamps.utc fun _ => some manyBackups) BackupTakes anyClock (withToken limit)
      ⟨limit, 0, 0, 1⟩ where
  name := List.cons_ne_nil _ _
  found := rfl
  times := ⟨(0, 1), rfl⟩
  token := buildNextTokenOfReportBackupList_ne_nil _
  decoded := decode_buildNextTokenOfReportBackupList
    ⟨hlimit.trans (by decide), Nat.two_pow_pos 64, anyClock.isInt64_monthAgo, anyClock.isInt64_now⟩
  takes := ⟨hlimit, Nat.two_pow_pos 63⟩

/-- A token with the limit zero has no end, and one with a larger limit gets more than 1000
results. -/
theorem reportPaging_fails :
    ¬ JobsPaged (handlerPostReportBackupList Timestamps.utc fun _ => some manyBackups) (fun _ => anyClock) (withToken 0) ∧
      ¬ JobsPaged (handlerPostReportBackupList Timestamps.utc fun _ => some manyBackups) (fun _ => anyClock)
        (withToken 2000) := by
  constructor
  · intro hpaged
    have hasks := (backupList_paged_iff _ _).mp hpaged _ (resumes_withToken (by decide))
    exact hasks.1 rfl
  · intro hpaged
    have hasks := (backupList_paged_iff _ _).mp hpaged _ (resumes_withToken (by decide))
    have hcount : backupCount (fun _ => some manyBackups) (withToken 2000).name 0 1 = 1001 := backupCount_manyBackups
    obtain ⟨-, hfew⟩ := hasks
    rw [hcount] at hfew
    revert hfew
    decide

end CloudBackup.Httpd
