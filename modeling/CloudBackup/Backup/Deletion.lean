import CloudBackup.Backup.TablesInStep
import Mathlib.Data.Finset.Basic
import Mathlib.Data.Finset.Card

/-!
`FindAndMarkDeleted` asks the database for paths that the job has neither
collected nor failed on, with a limit, and marks them one by one. If the limit
was reached it calls itself.

A path that is not marked, because it is still there or because something went
wrong, is found again by the next call. `findAndMarkDeleted_terminates_iff` says
what this means for the end of the recursion.
-/

namespace CloudBackup.Backup

open Database ObjectStore Iteration

/-! ### The function -/

inductive Fetched
  | ok
  | scanFailed
  | cancelled
  deriving DecidableEq, Repr

/-- What happens outside of the program during one call. The rows may come to an
end too early, with an error. -/
structure Round where
  queryOk : Bool
  endsAfter : Option ℕ
  fetch : Str → Fetched
  ctxDone : Str → Bool
  entry : Str → Entry

structure Marking where
  world : World
  events : List Event

def Marking.count (s : Marking) (events : List Event) : Marking :=
  { s with events := s.events ++ events }

inductive Ending
  | returned (cancelled : Bool)
  | panicked
  deriving DecidableEq, Repr

def fetchRow (r : Round) (path : Str) (found : List Str × List Event) :
    Flow (List Str × List Event) Unit :=
  match r.fetch path with
  | .ok => .next (found.1 ++ [path], found.2)
  | .scanFailed => .next (found.1, found.2 ++ [⟨.failedToFindDeleted, []⟩])
  | .cancelled => .stop () found

section Calls

variable (C : Cloud) (pathMatch : Str → Str → Option Bool) (cfg : ConfigBackup)
  (jobUuid target : Str) (maxResults : ℕ)

def markFound (r : Round) (path : Str) (s : Marking) : Flow Marking Ending :=
  if r.ctxDone path then .stop (.returned true) s
  else
    let res := markEntry C pathMatch cfg jobUuid { r.entry path with path := path } s.world
    let s : Marking := ⟨res.world, s.events ++ res.events⟩
    if res.err = some .nilDereference then .stop .panicked s
    else if res.cancelled then .stop (.returned true) s
    else .next s

def rows (r : Round) (db : Db) : List Str :=
  let found := findDeletedItems db jobUuid target maxResults
  r.endsAfter.elim found fun n => found.take n

/-- A call. It goes on if there is another one. -/
def call (r : Round) (s : Marking) : Flow Marking Ending :=
  if !r.queryOk then .stop (.returned false) (s.count [⟨.failedToFindDeleted, []⟩])
  else
    match forEach (fetchRow r) (rows jobUuid target maxResults r s.world.db) ([], []) with
    | .stop _ found => .stop (.returned true) (s.count found.2)
    | .next found =>
        match forEach (markFound C pathMatch cfg jobUuid r) found.1 (s.count found.2) with
        | .stop ending s => .stop ending s
        | .next s =>
            if r.endsAfter.isSome then
              .stop (.returned false) (s.count [⟨.failedToFindDeleted, []⟩])
            else if maxResults ≤ found.1.length then .next s
            else .stop (.returned false) s

/-- `FindAndMarkDeleted`, with what happens during each of its calls. The name of
the first target is `target`. -/
def findAndMarkDeleted (rounds : ℕ → Round) (fuel : ℕ) (s : Marking) : Option (Ending × Marking) :=
  untilStop (fun n => call C pathMatch cfg jobUuid target maxResults (rounds n)) fuel s

/-- The state that a call starts from, if the recursion gets to it. -/
def atCall (rounds : ℕ → Round) (n : ℕ) (s : Marking) : Option Marking :=
  atPass (fun n => call C pathMatch cfg jobUuid target maxResults (rounds n)) n s

end Calls

def candidates (jobUuid target : Str) (db : Db) : Finset Str :=
  (deletionCandidates db jobUuid target).toFinset

/-! ### Paths that are marked -/

section Marks

variable (C : Cloud) (pathMatch : Str → Str → Option Bool) (cfg : ConfigBackup) (jobUuid : Str)

def allTake (rec : Record) (targets : List Target) (w : World) : Bool :=
  match forEach (markTarget C jobUuid rec) targets ⟨filesDelete w.db rec.path, w.buckets, [], []⟩ with
  | .next _ => true
  | .stop _ _ => false

/-- The path is marked: its record can be read, the item is gone or no longer
wanted, and every statement and every request succeeds. -/
def marks (e : Entry) (w : World) : Bool :=
  match getBackedupObjectPropertiesFromDb e.queryOk w.db e.path with
  | .ok (some rec) =>
      gone pathMatch cfg e.lstat rec && e.stmts.beginOk && e.stmts.filesOk && e.stmts.commitOk &&
        allTake C jobUuid rec e.targets w
  | _ => false

/-- One of the paths is marked when its turn comes. -/
def marksOne (r : Round) : List Str → World → Bool
  | [], _ => false
  | path :: paths, w =>
      let e : Entry := { r.entry path with path := path }
      marks C pathMatch cfg jobUuid e w ||
        marksOne r paths (markEntry C pathMatch cfg jobUuid e w).world

end Marks

section

variable {C : Cloud} {pathMatch : Str → Str → Option Bool} {cfg : ConfigBackup}
  {jobUuid target : Str} {w : World}

theorem getBackedup_row {queryOk : Bool} {db : Db} {path : Str} {rec : Record}
    (h : getBackedupObjectPropertiesFromDb queryOk db path = .ok (some rec)) :
    ∃ row ∈ db.files, row.path = path ∧ rec = ⟨row.path, row.props, row.jobId, false⟩ := by
  unfold getBackedupObjectPropertiesFromDb at h
  split at h
  · cases h
  · split at h
    · cases h
    · rename_i row rows hquery
      have hrow : row ∈ filesQuery db path := by simp [hquery]
      obtain ⟨hmem, hpath⟩ : row ∈ db.files ∧ row.path = path := by simpa [filesQuery] using hrow
      split at h
      · cases h
      · split at h
        · cases h
        · split at h
          · cases h
          · cases h
            exact ⟨row, hmem, hpath, rfl⟩

/-- The rows of a delete marker say nothing about other paths. -/
theorem mem_collectedPaths_addedRows {db : Db} {row : RemoteFile} {path : Str}
    (hfresh : row.uuid ∉ db.remoteFiles.map RemoteFile.uuid) (hne : row.localPath ≠ path) :
    path ∈ collectedPaths (addedRows db row) jobUuid target ↔ path ∈ collectedPaths db jobUuid target := by
  have hold : ∀ r ∈ db.remoteFiles, row.uuid ≠ r.uuid :=
    fun r hr heq => hfresh (List.mem_map.mpr ⟨r, hr, heq.symm⟩)
  simp only [collectedPaths, addedRows_remoteFiles, addedRows_backupCollections, List.mem_map,
    List.mem_filter, List.mem_append, List.mem_singleton, List.any_append, List.any_cons,
    List.any_nil, Bool.or_false, Bool.or_eq_true, decide_eq_true_eq]
  constructor
  · rintro ⟨r, ⟨hr | rfl, hc⟩, hpath⟩
    · refine ⟨r, ⟨hr, hc.resolve_right fun hnew => hold r hr hnew.1⟩, hpath⟩
    · exact absurd hpath hne
  · rintro ⟨r, ⟨hr, hc⟩, hpath⟩
    exact ⟨r, ⟨.inl hr, .inl hc⟩, hpath⟩

/-- What the delete markers of a path do to the tables that the query reads. -/
structure Unlisted (path : Str) (db db' : Db) : Prop where
  files : db'.files = db.files
  failedFiles : db'.failedFiles = db.failedFiles
  collected : ∀ q, q ≠ path → ∀ jobUuid target,
    q ∈ collectedPaths db' jobUuid target ↔ q ∈ collectedPaths db jobUuid target

theorem markLoop_unlisted {rec : Record} {targets : List Target} {p p' : Pass}
    (h : forEach (markTarget C jobUuid rec) targets p = .next p') : Unlisted rec.path p.db p'.db := by
  refine forEach_next (I := fun _ q => Unlisted rec.path p.db q.db) ⟨rfl, rfl, fun _ _ _ _ => Iff.rfl⟩
    ?_ h
  intro pre t post q q' _ hq hbody
  obtain ⟨sent, b, -, -, -, -, -, uuid, hfresh, hdb⟩ := markTarget_next hbody
  rw [hdb]
  refine ⟨hq.files, hq.failedFiles, fun path hne jobUuid' target => ?_⟩
  rw [mem_collectedPaths_addedRows hfresh (Ne.symm hne)]
  exact hq.collected path hne jobUuid' target

theorem mem_candidates {db : Db} {path : Str} : path ∈ candidates jobUuid target db ↔
    path ∈ db.files.map FilesRow.path ∧ path ∉ collectedPaths db jobUuid target ∧
      path ∉ (db.failedFiles.filter (·.jobId = jobUuid)).map FailedFile.path := by
  simp only [candidates, deletionCandidates, List.mem_toFinset, List.mem_filter, decide_eq_true_eq]

theorem Unlisted.mem_files {path q : Str} {db db' : Db} (h : Unlisted path (filesDelete db path) db') :
    q ∈ db'.files.map FilesRow.path ↔ q ∈ db.files.map FilesRow.path ∧ q ≠ path := by
  rw [h.files]
  simp only [filesDelete, List.mem_map, List.mem_filter, decide_eq_true_eq]
  constructor
  · rintro ⟨f, ⟨hf, hne⟩, rfl⟩
    exact ⟨⟨f, hf, rfl⟩, hne⟩
  · rintro ⟨⟨f, hf, rfl⟩, hne⟩
    exact ⟨f, ⟨hf, hne⟩, rfl⟩

theorem candidates_unlisted {path : Str} {db db' : Db} (h : Unlisted path (filesDelete db path) db') :
    candidates jobUuid target db' = (candidates jobUuid target db).erase path := by
  ext q
  rw [Finset.mem_erase, mem_candidates, mem_candidates, h.mem_files, h.failedFiles]
  constructor
  · rintro ⟨⟨hq, hne⟩, hcollected, hfailed⟩
    exact ⟨hne, hq, fun hc => hcollected ((h.collected q hne _ _).mpr hc), hfailed⟩
  · rintro ⟨hne, hq, hcollected, hfailed⟩
    exact ⟨⟨hq, hne⟩, fun hc => hcollected ((h.collected q hne _ _).mp hc), hfailed⟩

/-! ### A path -/

theorem putMarkers_of_takes {stmts : Statements} {targets : List Target} {rec : Record}
    (h : (stmts.beginOk && stmts.filesOk && stmts.commitOk && allTake C jobUuid rec targets w) = true) :
    Unlisted rec.path (filesDelete w.db rec.path) (putMarkers C stmts targets jobUuid rec w).world.db := by
  simp only [Bool.and_eq_true, allTake] at h
  obtain ⟨⟨⟨hbegin, hfiles⟩, hcommit⟩, htake⟩ := h
  split at htake
  · rename_i p hloop
    rw [putMarkers, hbegin, hfiles, hcommit, hloop]
    exact markLoop_unlisted hloop
  · cases htake

/-- Markers that cannot all be put are an error, and leave the database as it is. -/
theorem putMarkers_of_not_takes {stmts : Statements} {targets : List Target} {rec : Record}
    (h : (stmts.beginOk && stmts.filesOk && stmts.commitOk && allTake C jobUuid rec targets w) = false) :
    (putMarkers C stmts targets jobUuid rec w).world.db = w.db ∧
      ((putMarkers C stmts targets jobUuid rec w).cancelled = true ∨
        (putMarkers C stmts targets jobUuid rec w).err ≠ none) := by
  unfold putMarkers
  cases hbegin : stmts.beginOk with
  | false => exact ⟨rfl, .inr (by simp)⟩
  | true =>
      cases hfiles : stmts.filesOk with
      | false => exact ⟨rfl, .inr (by simp)⟩
      | true =>
          rcases finish_cases C rec stmts.commitOk w.db (forEach (markTarget C jobUuid rec) targets
            ⟨filesDelete w.db rec.path, w.buckets, [], []⟩) with hstopped | ⟨p, hloop, -⟩
          · exact hstopped
          · have hcommit : stmts.commitOk = false := by
              simpa [hbegin, hfiles, allTake, hloop] using h
            rw [hcommit, hloop]
            exact ⟨rfl, .inr (by simp [finish])⟩

theorem markEntry_world {e : Entry} {rec : Record}
    (h : getBackedupObjectPropertiesFromDb e.queryOk w.db e.path = .ok (some rec)) :
    (markEntry C pathMatch cfg jobUuid e w).world =
      (markDeleted C pathMatch cfg e.lstat e.stmts e.targets jobUuid rec w).world := by
  rw [markEntry, h]
  dsimp only
  split <;> rfl

theorem markEntry_of_marks {e : Entry} (h : marks C pathMatch cfg jobUuid e w = true) :
    e.path ∈ w.db.files.map FilesRow.path ∧ Unlisted e.path (filesDelete w.db e.path)
      (markEntry C pathMatch cfg jobUuid e w).world.db := by
  unfold marks at h
  split at h
  · rename_i rec hrec
    obtain ⟨row, hmem, hpath, rfl⟩ := getBackedup_row hrec
    simp only [Bool.and_assoc, Bool.and_eq_true_iff] at h
    refine ⟨List.mem_map.mpr ⟨row, hmem, hpath⟩, ?_⟩
    rw [markEntry_world hrec, markDeleted_of_gone h.1, ← hpath]
    exact putMarkers_of_takes (by simpa [Bool.and_assoc] using h.2)
  · cases h

theorem markEntry_of_not_marks {e : Entry} (h : marks C pathMatch cfg jobUuid e w = false) :
    (markEntry C pathMatch cfg jobUuid e w).world.db = w.db := by
  unfold marks at h
  split at h
  · rename_i rec hrec
    rw [markEntry_world hrec]
    cases hgone : gone pathMatch cfg e.lstat rec with
    | false =>
        obtain ⟨err, hr⟩ := @markDeleted_of_not_gone C pathMatch cfg e.lstat e.stmts e.targets jobUuid rec w hgone
        rw [hr]
    | true =>
        rw [markDeleted_of_gone hgone]
        rw [hgone, Bool.true_and] at h
        exact (putMarkers_of_not_takes h).1
  · rename_i hrec
    unfold markEntry
    split
    · rfl
    · rfl
    · rename_i rec hsome
      exact absurd hsome (hrec rec)

/-! ### A call -/

theorem markFound_next {r : Round} {path : Str} {s s' : Marking}
    (h : markFound C pathMatch cfg jobUuid r path s = .next s') :
    s'.world = (markEntry C pathMatch cfg jobUuid { r.entry path with path := path } s.world).world ∧
      s'.events = s.events ++
        (markEntry C pathMatch cfg jobUuid { r.entry path with path := path } s.world).events := by
  unfold markFound at h
  split at h
  · cases h
  · dsimp only at h
    split at h
    · cases h
    · split at h
      · cases h
      · cases h
        exact ⟨rfl, rfl⟩

/-- The paths that a call goes through are candidates, or no longer in `files`
by the time it gets to them. -/
def Listed (jobUuid target : Str) (paths : List Str) (db : Db) : Prop :=
  ∀ path ∈ paths, path ∈ db.files.map FilesRow.path → path ∈ candidates jobUuid target db

/-- The candidates that are left are fewer if and only if one of the paths was
marked. -/
theorem markAll_candidates {r : Round} {paths : List Str} {s s' : Marking}
    (hlisted : Listed jobUuid target paths s.world.db)
    (h : forEach (markFound C pathMatch cfg jobUuid r) paths s = .next s') :
    candidates jobUuid target s'.world.db ⊆ candidates jobUuid target s.world.db ∧
      (candidates jobUuid target s'.world.db ⊂ candidates jobUuid target s.world.db ↔
        marksOne C pathMatch cfg jobUuid r paths s.world = true) := by
  induction paths generalizing s with
  | nil =>
      cases h
      exact ⟨Finset.Subset.refl _, by simp [marksOne]⟩
  | cons path paths ih =>
      cases hb : markFound C pathMatch cfg jobUuid r path s with
      | stop ending t =>
          rw [forEach_cons_stop hb] at h
          cases h
      | next t =>
          rw [forEach_cons_next hb] at h
          obtain ⟨hworld, -⟩ := markFound_next hb
          cases hmarks : marks C pathMatch cfg jobUuid { r.entry path with path := path } s.world with
          | false =>
              have hdb : t.world.db = s.world.db := by
                rw [hworld]
                exact markEntry_of_not_marks hmarks
              have hrest := ih (s := t) (by
                rw [hdb]
                exact fun q hq => hlisted q (List.mem_cons_of_mem path hq)) h
              simpa [marksOne, hmarks, ← hworld, hdb] using hrest
          | true =>
              obtain ⟨hmem, hunlisted⟩ := markEntry_of_marks hmarks
              rw [← hworld] at hunlisted
              have hcand : candidates jobUuid target t.world.db =
                  (candidates jobUuid target s.world.db).erase path := candidates_unlisted hunlisted
              have hlisted' : Listed jobUuid target paths t.world.db := by
                intro q hq hfile
                obtain ⟨hold, hne⟩ := hunlisted.mem_files.mp hfile
                rw [hcand, Finset.mem_erase]
                exact ⟨hne, hlisted q (List.mem_cons_of_mem path hq) hold⟩
              have hless : candidates jobUuid target t.world.db ⊂ candidates jobUuid target s.world.db := by
                rw [hcand]
                exact Finset.erase_ssubset (hlisted path (by simp) hmem)
              have hsub := (ih hlisted' h).1
              refine ⟨hsub.trans hless.subset, ?_⟩
              simpa [marksOne, hmarks] using Finset.ssubset_of_subset_of_ssubset hsub hless

def foundEntries (jobUuid target : Str) (maxResults : ℕ) (r : Round) (db : Db) : List Str :=
  (forEach (fetchRow r) (rows jobUuid target maxResults r db) ([], [])).state.1

variable {maxResults : ℕ}

theorem mem_foundEntries {r : Round} {db : Db} {path : Str}
    (h : path ∈ foundEntries jobUuid target maxResults r db) : path ∈ candidates jobUuid target db := by
  have hrows : ∀ q ∈ rows jobUuid target maxResults r db, q ∈ candidates jobUuid target db := by
    intro q hq
    rw [candidates, List.mem_toFinset]
    have hfound : q ∈ findDeletedItems db jobUuid target maxResults := by
      unfold rows at hq
      cases hends : r.endsAfter with
      | none => simpa [hends] using hq
      | some n =>
          rw [hends] at hq
          exact List.mem_of_mem_take hq
    exact List.mem_of_mem_take hfound
  refine forEach_invariant (I := fun found : List Str × List Event =>
    ∀ q ∈ found.1, q ∈ candidates jobUuid target db) ?_ (by simp) path h
  intro q hq found hfound
  unfold fetchRow
  split
  · intro q' hq'
    rcases List.mem_append.mp hq' with hq' | hq'
    · exact hfound q' hq'
    · obtain rfl := List.mem_singleton.mp hq'
      exact hrows q' hq
  · exact hfound
  · exact hfound

theorem markFound_world (r : Round) (path : Str) (s : Marking) :
    (markFound C pathMatch cfg jobUuid r path s).state.world = s.world ∨
      (markFound C pathMatch cfg jobUuid r path s).state.world =
        (markEntry C pathMatch cfg jobUuid { r.entry path with path := path } s.world).world := by
  unfold markFound
  split
  · exact .inl rfl
  · right
    dsimp only
    split
    · rfl
    · split <;> rfl

/-- What is kept for every path that a call finds is kept by the call. -/
theorem call_invariant {I : World → Prop} {r : Round} {s : Marking} (hs : I s.world)
    (h : ∀ path ∈ foundEntries jobUuid target maxResults r s.world.db, ∀ w, I w →
      I (markEntry C pathMatch cfg jobUuid { r.entry path with path := path } w).world) :
    I (call C pathMatch cfg jobUuid target maxResults r s).state.world := by
  unfold call
  split
  · exact hs
  · split
    · exact hs
    · rename_i found hfetch
      have hfound : foundEntries jobUuid target maxResults r s.world.db = found.1 := by
        rw [foundEntries, hfetch]
        rfl
      rw [hfound] at h
      have hpass : ∀ path ∈ found.1, ∀ t : Marking, I t.world →
          I (markFound C pathMatch cfg jobUuid r path t).state.world := by
        intro path hpath t ht
        rcases @markFound_world C pathMatch cfg jobUuid r path t with heq | heq
        · rw [heq]
          exact ht
        · rw [heq]
          exact h path hpath t.world ht
      have hloop : I (forEach (markFound C pathMatch cfg jobUuid r) found.1 (s.count found.2)).state.world :=
        forEach_invariant (I := fun t : Marking => I t.world) hpass hs
      split
      · rename_i hstop
        rwa [hstop] at hloop
      · rename_i hnext
        rw [hnext] at hloop
        split
        · exact hloop
        · split <;> exact hloop

/-- A call that is followed by another one has gone through all it found. -/
theorem call_next {r : Round} {s s' : Marking}
    (h : call C pathMatch cfg jobUuid target maxResults r s = .next s') :
    ∃ events, forEach (markFound C pathMatch cfg jobUuid r)
      (foundEntries jobUuid target maxResults r s.world.db) (s.count events) = .next s' ∧
      maxResults ≤ (foundEntries jobUuid target maxResults r s.world.db).length := by
  unfold call at h
  unfold foundEntries
  split at h
  · cases h
  · split at h
    · cases h
    · rename_i found hfetch
      rw [hfetch]
      split at h
      · cases h
      · rename_i t hmark
        split at h
        · cases h
        · split at h
          · rename_i hlen
            cases h
            exact ⟨found.2, hmark, hlen⟩
          · cases h

/-- The candidates of the next call are fewer if and only if this one has marked
a path. -/
theorem call_candidates {r : Round} {s s' : Marking}
    (h : call C pathMatch cfg jobUuid target maxResults r s = .next s') :
    candidates jobUuid target s'.world.db ⊂ candidates jobUuid target s.world.db ↔
      marksOne C pathMatch cfg jobUuid r (foundEntries jobUuid target maxResults r s.world.db)
        s.world = true := by
  obtain ⟨events, hmark, -⟩ := call_next h
  have hlisted : Listed jobUuid target (foundEntries jobUuid target maxResults r s.world.db)
      (s.count events).world.db := fun path hpath _ => mem_foundEntries hpath
  exact (markAll_candidates hlisted hmark).2

end

/-! ### The recursion -/

section

variable {C : Cloud} {pathMatch : Str → Str → Option Bool} {cfg : ConfigBackup} {jobUuid target : Str}
  {maxResults : ℕ} {rounds : ℕ → Round} {n : ℕ} {s t t' : Marking}

theorem atCall_next (ht : atCall C pathMatch cfg jobUuid target maxResults rounds n s = some t)
    (h : call C pathMatch cfg jobUuid target maxResults (rounds n) t = .next t') :
    atCall C pathMatch cfg jobUuid target maxResults rounds (n + 1) s = some t' := by
  unfold atCall at ht ⊢
  exact atPass_next ht h

theorem atCall_step (ht : atCall C pathMatch cfg jobUuid target maxResults rounds n s = some t)
    (ht' : atCall C pathMatch cfg jobUuid target maxResults rounds (n + 1) s = some t') :
    call C pathMatch cfg jobUuid target maxResults (rounds n) t = .next t' := by
  unfold atCall at ht ht'
  exact atPass_step ht ht'

end

/-- The recursion ends, and has fewer candidates with every call, if and only if
each call that is followed by another one has marked a path. -/
theorem findAndMarkDeleted_terminates_iff (C : Cloud) (pathMatch : Str → Str → Option Bool)
    (cfg : ConfigBackup) (jobUuid target : Str) (maxResults : ℕ) (rounds : ℕ → Round) (s : Marking) :
    ((∃ fuel, (findAndMarkDeleted C pathMatch cfg jobUuid target maxResults rounds fuel s).isSome) ∧
      ∀ n t t', atCall C pathMatch cfg jobUuid target maxResults rounds n s = some t →
        atCall C pathMatch cfg jobUuid target maxResults rounds (n + 1) s = some t' →
        candidates jobUuid target t'.world.db ⊂ candidates jobUuid target t.world.db) ↔
    ∀ n t t', atCall C pathMatch cfg jobUuid target maxResults rounds n s = some t →
      call C pathMatch cfg jobUuid target maxResults (rounds n) t = .next t' →
      marksOne C pathMatch cfg jobUuid (rounds n)
        (foundEntries jobUuid target maxResults (rounds n) t.world.db) t.world = true := by
  constructor
  · rintro ⟨-, hfewer⟩ n t t' ht hcall
    exact (call_candidates hcall).mp (hfewer n t t' ht (atCall_next ht hcall))
  · intro hmarks
    have hfewer : ∀ n t t', atCall C pathMatch cfg jobUuid target maxResults rounds n s = some t →
        call C pathMatch cfg jobUuid target maxResults (rounds n) t = .next t' →
        candidates jobUuid target t'.world.db ⊂ candidates jobUuid target t.world.db :=
      fun n t t' ht hcall => (call_candidates hcall).mpr (hmarks n t t' ht hcall)
    constructor
    · unfold atCall at hfewer
      unfold findAndMarkDeleted
      refine untilStop_of_decreasing (fun t => (candidates jobUuid target t.world.db).card) ?_
      intro n t t' ht hcall
      have hless := hfewer n t t' ht hcall
      exact Finset.card_lt_card hless
    · intro n t t' ht ht'
      exact hfewer n t t' ht (atCall_step ht ht')

/-! ### Paths that stay -/

section

variable {C : Cloud} {pathMatch : Str → Str → Option Bool} {cfg : ConfigBackup} {jobUuid target : Str}

/-- `MarkDeleted` of a store that is cancelled returns an error too, and
`markDeleted` looks for that first. -/
theorem markDeleted_cancelled (st : Store) (rec : Record) (v : ℕ) (reply : Reply) (b : Bucket)
    (h : (st.markDeleted C rec v reply b).1.err = none) :
    (st.markDeleted C rec v reply b).1.cancelled = false := by
  have hs3 : (st.markDeletedS3 C rec.path reply b).1.cancelled = false := by
    cases reply <;> rfl
  have hgcp : (st.markDeletedGcp rec.path v reply b).1.cancelled = false := by
    cases reply with
    | ok =>
        unfold Store.markDeletedGcp
        dsimp only
        split <;> rfl
    | failed stored => rfl
    | cancelled => rfl
  have hazure : (st.markDeletedAzure rec.path v reply b).1.err = none →
      (st.markDeletedAzure rec.path v reply b).1.cancelled = false := by
    intro herr
    cases reply with
    | ok => rfl
    | failed stored => rfl
    | cancelled => cases herr
  unfold Store.markDeleted at h ⊢
  cases hkind : st.kind with
  | testNull => rfl
  | awsS3 =>
      dsimp only
      split
      · rfl
      · exact hs3
  | gcpStorage =>
      dsimp only
      split
      · rfl
      · exact hgcp
  | azureBlob =>
      rw [hkind] at h
      dsimp only at h ⊢
      split
      · rfl
      · rename_i htype
        rw [if_neg htype] at h
        exact hazure h

/-- The loop over the targets can only be stopped by an error. -/
theorem markLoop_stop {rec : Record} {targets : List Target} {p p' : Pass} {halt : Halt}
    (h : forEach (markTarget C jobUuid rec) targets p = .stop halt p') :
    ∃ e, halt = .error e ∧ e ≠ .nilDereference := by
  obtain ⟨pre, t, post, q, -, -, hstop⟩ := forEach_stop h
  unfold markTarget at hstop
  split at hstop
  · cases hstop
    exact ⟨_, rfl, nofun⟩
  · dsimp only at hstop
    split at hstop
    · cases hstop
      exact ⟨_, rfl, nofun⟩
    · rename_i herr
      rw [markDeleted_cancelled _ _ _ _ _ herr] at hstop
      rcases addRows_stop hstop with rfl | rfl | rfl <;> exact ⟨_, rfl, nofun⟩

theorem putMarkers_undisturbed (stmts : Statements) (targets : List Target) (rec : Record) (w : World) :
    (putMarkers C stmts targets jobUuid rec w).cancelled = false ∧
      (putMarkers C stmts targets jobUuid rec w).err ≠ some .nilDereference := by
  unfold putMarkers
  split
  · exact ⟨rfl, nofun⟩
  · split
    · exact ⟨rfl, nofun⟩
    · cases hloop : forEach (markTarget C jobUuid rec) targets
        ⟨filesDelete w.db rec.path, w.buckets, [], []⟩ with
      | stop halt p =>
          obtain ⟨e, rfl, he⟩ := markLoop_stop hloop
          exact ⟨rfl, fun heq => he (Option.some.inj heq)⟩
      | next p => cases stmts.commitOk <;> exact ⟨rfl, nofun⟩

/-- A path that can be examined does not end the loop over the paths. -/
theorem markEntry_undisturbed {e : Entry} (h : e.lstat ≠ .failed) (w : World) :
    (markEntry C pathMatch cfg jobUuid e w).cancelled = false ∧
      (markEntry C pathMatch cfg jobUuid e w).err ≠ some .nilDereference := by
  have hmark : ∀ rec, (markDeleted C pathMatch cfg e.lstat e.stmts e.targets jobUuid rec w).cancelled = false ∧
      (markDeleted C pathMatch cfg e.lstat e.stmts e.targets jobUuid rec w).err ≠ some .nilDereference := by
    intro rec
    unfold markDeleted
    split
    · split
      · rename_i err hstill
        unfold stillExists at hstill
        split at hstill <;> simp_all
      · exact ⟨rfl, nofun⟩
      · exact putMarkers_undisturbed e.stmts e.targets rec w
    · exact putMarkers_undisturbed e.stmts e.targets rec w
  unfold markEntry
  split
  · exact ⟨rfl, nofun⟩
  · exact ⟨rfl, nofun⟩
  · rename_i rec _
    obtain ⟨hcan, herr⟩ := hmark rec
    dsimp only
    rw [if_neg (by simp [hcan, herr])]
    exact ⟨hcan, herr⟩

/-- Nothing comes between the calls: the query and the context are fine, and the
paths can be examined. The rest of `markDeleted` may fail in any way. -/
structure Undisturbed (r : Round) : Prop where
  query : r.queryOk = true
  rows : r.endsAfter = none
  fetched : ∀ path, r.fetch path = .ok
  live : ∀ path, r.ctxDone path = false
  examined : ∀ path, (r.entry path).lstat ≠ .failed

theorem foundEntries_undisturbed {r : Round} (hr : Undisturbed r) (maxResults : ℕ) (db : Db) :
    forEach (fetchRow r) (rows jobUuid target maxResults r db) ([], []) =
      .next (findDeletedItems db jobUuid target maxResults, []) := by
  have hall : ∀ (l found : List Str), forEach (fetchRow r) l (found, []) = .next (found ++ l, []) := by
    intro l
    induction l with
    | nil => intro found; simp
    | cons path l ih =>
        intro found
        have hrow : fetchRow r path (found, []) = .next (found ++ [path], []) := by
          simp [fetchRow, hr.fetched]
        rw [forEach_cons_next hrow, ih]
        simp
  rw [rows, hr.rows]
  exact hall _ []

/-- What the rows of a path stand for is still there. -/
def StillThere (pathMatch : Str → Str → Option Bool) (cfg : ConfigBackup) (files : List FilesRow)
    (r : Round) (path : Str) : Prop :=
  ∀ f ∈ files, f.path = path →
    gone pathMatch cfg (r.entry path).lstat ⟨f.path, f.props, f.jobId, false⟩ = false

theorem marks_of_stillThere {files : List FilesRow} {r : Round} {path : Str} {w : World}
    (h : StillThere pathMatch cfg files r path) (hfiles : w.db.files ⊆ files) :
    marks C pathMatch cfg jobUuid { r.entry path with path := path } w = false := by
  unfold marks
  split
  · rename_i rec hrec
    obtain ⟨row, hmem, hpath, rfl⟩ := getBackedup_row hrec
    have hthere := h row (hfiles hmem) hpath
    simp only [hthere, Bool.false_and]
  · rfl

structure Lasting (jobUuid target : Str) (files : List FilesRow) (K : Finset Str) (db : Db) : Prop where
  candidates : K ⊆ candidates jobUuid target db
  files : db.files ⊆ files

section

variable {files : List FilesRow} {K : Finset Str}

theorem markFound_undisturbed {r : Round} (hr : Undisturbed r)
    (hthere : ∀ q ∈ K, StillThere pathMatch cfg files r q) (path : Str) {s : Marking}
    (hs : Lasting jobUuid target files K s.world.db) :
    ∃ s', markFound C pathMatch cfg jobUuid r path s = .next s' ∧
      Lasting jobUuid target files K s'.world.db := by
  obtain ⟨hcan, herr⟩ := @markEntry_undisturbed C pathMatch cfg jobUuid
    { r.entry path with path := path } (hr.examined path) s.world
  refine ⟨_, by rw [markFound, hr.live, if_neg Bool.false_ne_true, if_neg herr, hcan]; rfl, ?_⟩
  change Lasting jobUuid target files K
    (markEntry C pathMatch cfg jobUuid { r.entry path with path := path } s.world).world.db
  cases hmarks : marks C pathMatch cfg jobUuid { r.entry path with path := path } s.world with
  | false =>
      rw [markEntry_of_not_marks hmarks]
      exact hs
  | true =>
      have hunlisted := (markEntry_of_marks hmarks).2
      constructor
      · rw [candidates_unlisted hunlisted]
        intro q hq
        refine Finset.mem_erase.mpr ⟨?_, hs.candidates hq⟩
        rintro rfl
        rw [marks_of_stillThere (hthere q hq) hs.files] at hmarks
        cases hmarks
      · rw [hunlisted.files]
        exact fun f hf => hs.files (List.mem_of_mem_filter hf)

theorem markAll_undisturbed {r : Round} (hr : Undisturbed r)
    (hthere : ∀ q ∈ K, StillThere pathMatch cfg files r q) (paths : List Str) {s : Marking}
    (hs : Lasting jobUuid target files K s.world.db) :
    ∃ s', forEach (markFound C pathMatch cfg jobUuid r) paths s = .next s' ∧
      Lasting jobUuid target files K s'.world.db := by
  induction paths generalizing s with
  | nil => exact ⟨s, rfl, hs⟩
  | cons path paths ih =>
      obtain ⟨t, ht, hlast⟩ := markFound_undisturbed hr hthere path hs
      rw [forEach_cons_next ht]
      exact ih hlast

theorem length_findDeletedItems {maxResults : ℕ} {db : Db} (hK : K ⊆ candidates jobUuid target db)
    (hcard : maxResults ≤ K.card) : (findDeletedItems db jobUuid target maxResults).length = maxResults := by
  have hlen : maxResults ≤ (deletionCandidates db jobUuid target).length :=
    calc maxResults ≤ K.card := hcard
      _ ≤ (candidates jobUuid target db).card := Finset.card_le_card hK
      _ ≤ (deletionCandidates db jobUuid target).length := List.toFinset_card_le _
  rw [findDeletedItems, List.length_take, Nat.min_eq_left hlen]

/-- With as many candidates that are still there as the limit allows, and no
interruption, the recursion never ends. -/
theorem findAndMarkDeleted_diverges {maxResults : ℕ} {rounds : ℕ → Round} {s : Marking}
    (hrounds : ∀ n, Undisturbed (rounds n)) (hK : K ⊆ candidates jobUuid target s.world.db)
    (hthere : ∀ n, ∀ q ∈ K, StillThere pathMatch cfg s.world.db.files (rounds n) q)
    (hcard : maxResults ≤ K.card) (fuel : ℕ) :
    findAndMarkDeleted C pathMatch cfg jobUuid target maxResults rounds fuel s = none := by
  unfold findAndMarkDeleted
  refine untilStop_eq_none
    (I := fun _ t => Lasting jobUuid target s.world.db.files K t.world.db) ?_ ?_ fuel
  · exact ⟨hK, List.Subset.refl _⟩
  · intro n t ht
    change Lasting jobUuid target s.world.db.files K (t.count []).world.db at ht
    obtain ⟨t', hmark, ht'⟩ := markAll_undisturbed (C := C) (hrounds n) (hthere n)
      (findDeletedItems t.world.db jobUuid target maxResults) ht
    refine ⟨t', ?_, ht'⟩
    have hlen : maxResults ≤ (findDeletedItems t.world.db jobUuid target maxResults).length :=
      (length_findDeletedItems ht.candidates hcard).ge
    simp [call, (hrounds n).query, foundEntries_undisturbed (hrounds n), hmark, (hrounds n).rows, hlen]

end

end

def reservedState : Marking := ⟨reservedUpload.apply plainCloud (fun _ _ => none) World.empty, []⟩

def reservedRound : Round :=
  ⟨true, none, fun _ => .ok, fun _ => false, fun path =>
    ⟨path, true, .found .file, ⟨true, true, true⟩, [smoothTarget (plainStore .awsS3) 7 "uuid"]⟩⟩

theorem reservedState_files : reservedState.world.db.files =
    [⟨"/.cbcrypt".toList, ⟨.file, [], 1, 1, 1, [], [], [], [], false⟩, "job".toList⟩] := by
  decide

theorem reservedState_candidates :
    candidates "job".toList "target".toList reservedState.world.db = {"/.cbcrypt".toList} := by
  decide

theorem findAndMarkDeleted_reserved : ¬ ∀ (rounds : ℕ → Round) (maxResults : ℕ), 1 ≤ maxResults →
    ∃ fuel, (findAndMarkDeleted plainCloud (fun _ _ => none) plainConfig "job".toList "target".toList
      maxResults rounds fuel reservedState).isSome := by
  intro h
  obtain ⟨fuel, hsome⟩ := h (fun _ => reservedRound) 1 le_rfl
  have hquiet : Undisturbed reservedRound := ⟨rfl, rfl, fun _ => rfl, fun _ => rfl, fun _ => nofun⟩
  have hthere : ∀ q ∈ candidates "job".toList "target".toList reservedState.world.db,
      StillThere (fun _ _ => none) plainConfig reservedState.world.db.files reservedRound q := by
    intro q _ f hf _
    rw [reservedState_files] at hf
    obtain rfl := List.mem_singleton.mp hf
    rfl
  have hcard : 1 ≤ (candidates "job".toList "target".toList reservedState.world.db).card := by
    rw [reservedState_candidates]
    rfl
  have hnone := @findAndMarkDeleted_diverges plainCloud (fun _ _ => none) plainConfig "job".toList
    "target".toList _ 1 (fun _ => reservedRound) reservedState (fun _ => hquiet)
    (Finset.Subset.refl _) (fun _ => hthere) hcard fuel
  rw [hnone] at hsome
  cases hsome

end CloudBackup.Backup
