import CloudBackup.Backup.Collection
import CloudBackup.Backup.Deletion

/-!
The entries of a job in `backup_collections`, counted by target and path. A step
adds at most one entry for each of its targets, and all of them for its own path.
So a job that works on every path once has one entry for it at most.

`oneEntry_reaches` is the result over whole runs. It is about one job; what others do
before, between and after its steps does not matter.
-/

namespace CloudBackup.Backup

open Database ObjectStore Iteration

def Action.path : Action → Str
  | .walk _ _ it => it.path
  | .mark _ _ e => e.path

def StandsFor (db : Db) (c : Collected) (path : Str) : Prop :=
  ∃ r ∈ db.remoteFiles, r.uuid = c.fileUuid ∧ r.localPath = path

instance (db : Db) (c : Collected) (path : Str) : Decidable (StandsFor db c path) :=
  inferInstanceAs (Decidable (∃ r ∈ db.remoteFiles, _))

/-- The entries of a job for a target and a path. -/
def entries (db : Db) (jobUuid target path : Str) : List Collected :=
  db.backupCollections.filter fun c =>
    decide (c.jobId = jobUuid) && decide (c.target = target) && decide (StandsFor db c path)

structure Adds (jobUuid path : Str) (names : List Str) (db db' : Db) (rows : List RemoteFile)
    (new : List Collected) : Prop where
  remoteFiles : db'.remoteFiles = db.remoteFiles ++ rows
  uuids : (rows.map RemoteFile.uuid).Nodup
  fresh : ∀ r ∈ rows, r.uuid ∉ db.remoteFiles.map RemoteFile.uuid
  backupCollections : db'.backupCollections = db.backupCollections ++ new
  targets : (new.map Collected.target).Sublist names
  rowOf : ∀ c ∈ new, c.jobId = jobUuid ∧
    ∃ r ∈ db'.remoteFiles, r.uuid = c.fileUuid ∧ r.localPath = path ∧ r.target = c.target

/-- The keys of the tables: no uuid is there twice, and every entry of a collection
has its row, of the same target. -/
structure Keyed (db : Db) : Prop where
  uuids : (db.remoteFiles.map RemoteFile.uuid).Nodup
  rowOf : ∀ c ∈ db.backupCollections, ∃ r ∈ db.remoteFiles, r.uuid = c.fileUuid ∧ r.target = c.target

theorem keyed_empty : Keyed Db.empty := ⟨List.nodup_nil, by simp [Db.empty]⟩

/-! ### One step -/

section

variable {jobUuid path : Str} {names : List Str} {db db' db'' : Db} {rows : List RemoteFile}
  {new : List Collected}

theorem Adds.nothing (hrows : db'.remoteFiles = db.remoteFiles)
    (hcollections : db'.backupCollections = db.backupCollections) :
    Adds jobUuid path names db db' [] [] :=
  ⟨by simpa using hrows, by simp, by simp, by simpa using hcollections, by simp, by simp⟩

theorem Adds.congr {db₁ : Db} (h : Adds jobUuid path names db db' rows new)
    (hrows : db.remoteFiles = db₁.remoteFiles)
    (hcollections : db.backupCollections = db₁.backupCollections) :
    Adds jobUuid path names db₁ db' rows new :=
  ⟨hrows ▸ h.remoteFiles, h.uuids, hrows ▸ h.fresh, hcollections ▸ h.backupCollections, h.targets, h.rowOf⟩

theorem Adds.skip (h : Adds jobUuid path names db db' rows new) (name : Str) :
    Adds jobUuid path (names ++ [name]) db db' rows new :=
  { h with targets := h.targets.trans (List.sublist_append_left _ _) }

theorem Adds.entry (h : Adds jobUuid path names db db' rows new) {r : RemoteFile}
    (hr : r ∈ db'.remoteFiles) (hpath : r.localPath = path) :
    Adds jobUuid path (names ++ [r.target]) db
      (backupCollectionsInsert db' ⟨r.uuid, jobUuid, r.target⟩) rows
      (new ++ [⟨r.uuid, jobUuid, r.target⟩]) := by
  refine ⟨h.remoteFiles, h.uuids, h.fresh, ?_, ?_, ?_⟩
  · rw [← List.append_assoc, ← h.backupCollections]
    rfl
  · rw [List.map_append]
    exact h.targets.append (List.Sublist.refl _)
  · intro c hc
    rcases List.mem_append.mp hc with hc | hc
    · exact h.rowOf c hc
    · obtain rfl := List.mem_singleton.mp hc
      exact ⟨rfl, r, hr, rfl, hpath, rfl⟩

theorem Adds.row (h : Adds jobUuid path names db db' rows new) {r : RemoteFile}
    (hfresh : r.uuid ∉ db'.remoteFiles.map RemoteFile.uuid) :
    Adds jobUuid path names db { db' with remoteFiles := db'.remoteFiles ++ [r] } (rows ++ [r]) new := by
  rw [h.remoteFiles, List.map_append, List.mem_append, not_or] at hfresh
  refine ⟨?_, ?_, ?_, h.backupCollections, h.targets, ?_⟩
  · rw [← List.append_assoc, ← h.remoteFiles]
  · rw [List.map_append, List.nodup_append]
    refine ⟨h.uuids, by simp, ?_⟩
    rintro uuid huuid uuid' huuid' rfl
    obtain rfl : uuid = r.uuid := by simpa using huuid'
    exact hfresh.2 huuid
  · intro r' hr'
    rcases List.mem_append.mp hr' with hr' | hr'
    · exact h.fresh r' hr'
    · obtain rfl := List.mem_singleton.mp hr'
      exact hfresh.1
  · intro c hc
    obtain ⟨hjob, r', hr', hrest⟩ := h.rowOf c hc
    exact ⟨hjob, r', List.mem_append_left _ hr', hrest⟩

theorem Adds.addsRow {t : Target} {deleteMarker : Bool} {rec : Record} {remoteVersion : Str}
    (h : Adds jobUuid rec.path names db db' rows new)
    (hadd : AddsRow t jobUuid deleteMarker rec remoteVersion db' db'') :
    ∃ rows' new', Adds jobUuid rec.path (names ++ [t.store.name]) db db'' rows' new' := by
  obtain ⟨uuid, hfresh, rfl⟩ := hadd
  refine ⟨_, _, (h.row (r := nextRow uuid t jobUuid deleteMarker rec remoteVersion db') hfresh).entry
    (r := nextRow uuid t jobUuid deleteMarker rec remoteVersion db') (by simp) rfl⟩

theorem operate_adds {C : Cloud} {cfg : ConfigBackup} {op : Operation} {rec : Record}
    {targets : List Target} {p p' : Pass}
    (h : forEach (operateTarget C cfg op rec) targets p = .next p') :
    ∃ rows new, Adds rec.jobUuid rec.path (targets.map (·.store.name)) p.db p'.db rows new := by
  refine forEach_next (I := fun (pre : List Target) (q : Pass) =>
    ∃ rows new, Adds rec.jobUuid rec.path (pre.map (·.store.name)) p.db q.db rows new)
    ⟨[], [], .nothing rfl rfl⟩ ?_ h
  rintro pre t post q q' - ⟨rows, new, hadds⟩ hstep
  rw [List.map_append]
  rcases operateTarget_next hstep with ⟨-, reason, -, hdb, -⟩ | ⟨-, remoteVersion, hadd⟩
  · rw [hdb]
    exact ⟨rows, new, hadds.skip _⟩
  · exact hadds.addsRow hadd

theorem mark_adds {C : Cloud} {rec : Record} {targets : List Target} {p p' : Pass}
    (h : forEach (markTarget C jobUuid rec) targets p = .next p') :
    ∃ rows new, Adds jobUuid rec.path (targets.map (·.store.name)) p.db p'.db rows new := by
  refine forEach_next (I := fun (pre : List Target) (q : Pass) =>
    ∃ rows new, Adds jobUuid rec.path (pre.map (·.store.name)) p.db q.db rows new)
    ⟨[], [], .nothing rfl rfl⟩ ?_ h
  rintro pre t post q q' - ⟨rows, new, hadds⟩ hstep
  obtain ⟨sent, b, -, -, -, -, -, hadd⟩ := markTarget_next hstep
  rw [List.map_append]
  exact hadds.addsRow hadd

theorem collect_adds (jobUuid path : Str) (targets : List Target) (db : Db) :
    ∃ rows new, Adds jobUuid path (targets.map (·.store.name)) db
      (targets.foldl (collectTarget jobUuid path) db) rows new := by
  induction targets using List.reverseRecOn with
  | nil => exact ⟨[], [], .nothing rfl rfl⟩
  | append_singleton targets t ih =>
      obtain ⟨rows, new, hadds⟩ := ih
      rw [List.map_append, List.foldl_append]
      simp only [List.map_cons, List.map_nil, List.foldl_cons, List.foldl_nil]
      generalize targets.foldl (collectTarget jobUuid path) db = db' at hadds
      unfold collectTarget
      split
      · exact ⟨rows, new, hadds.skip _⟩
      · split
        · exact ⟨rows, new, hadds.skip _⟩
        · rename_i uuid huuid
          split
          · exact ⟨rows, new, hadds.skip _⟩
          · obtain ⟨r, hr, hpath, htarget, rfl⟩ := getNewestRemoteFileUuid_mem huuid
            rw [← htarget]
            exact ⟨rows, _, hadds.entry hr hpath⟩

/-- A step adds entries for its own path, one for each of its targets at most. -/
theorem apply_adds (C : Cloud) (pathMatch : Str → Str → Option Bool) (a : Action) (w : World) :
    ∃ rows new, Adds a.jobUuid a.path (a.targets.map (·.store.name)) w.db (a.apply C pathMatch w).db
      rows new := by
  cases a with
  | walk cfg jobUuid it =>
      change ∃ rows new, Adds jobUuid it.path (it.targets.map (·.store.name)) w.db
        (walkItem C cfg jobUuid it w).world.db rows new
      rcases walkItem_cases C cfg jobUuid it w with
        ⟨-, hdb⟩ | ⟨-, -, hdb⟩ | ⟨rec, -, hr⟩ | ⟨op, rec, db, p, hdecide, hfiles, hloop, hr⟩
      · rw [hdb]
        exact ⟨[], [], .nothing rfl rfl⟩
      · obtain ⟨failed, hfailed⟩ := markItemAsFailed_cases it.failedFilesOk
          ⟨jobUuid, it.path, it.disk.fileType⟩ w.db
        rw [hdb, hfailed]
        exact ⟨[], [], .nothing rfl rfl⟩
      · rw [hr]
        exact collect_adds jobUuid it.path it.targets w.db
      · have hdesc := decideItem_operate hdecide
        obtain ⟨-, hrf, hbc, -⟩ := filesEntry_files hfiles
        obtain ⟨rows, new, hadds⟩ := operate_adds hloop
        rw [hr, ← hdesc.path_eq, ← hdesc.jobUuid_eq]
        exact ⟨rows, new, hadds.congr hrf hbc⟩
  | mark cfg jobUuid e =>
      change ∃ rows new, Adds jobUuid e.path (e.targets.map (·.store.name)) w.db
        (markEntry C pathMatch cfg jobUuid e w).world.db rows new
      rcases markEntry_cases C pathMatch cfg jobUuid e w with hdb | ⟨rec, p, hrec, hloop, hw, -⟩
      · rw [hdb]
        exact ⟨[], [], .nothing rfl rfl⟩
      · obtain ⟨row, -, hpath, rfl⟩ := getBackedup_row hrec
        obtain ⟨rows, new, hadds⟩ := mark_adds hloop
        rw [hw, ← hpath]
        exact ⟨rows, new, hadds.congr rfl rfl⟩

theorem Keyed.adds (h : Keyed db) (hadds : Adds jobUuid path names db db' rows new) : Keyed db' := by
  constructor
  · rw [hadds.remoteFiles, List.map_append, List.nodup_append]
    refine ⟨h.uuids, hadds.uuids, ?_⟩
    rintro uuid huuid uuid' huuid' rfl
    obtain ⟨r, hr, rfl⟩ := List.mem_map.mp huuid'
    exact hadds.fresh r hr huuid
  · intro c hc
    rw [hadds.backupCollections] at hc
    rcases List.mem_append.mp hc with hc | hc
    · obtain ⟨r, hr, hrest⟩ := h.rowOf c hc
      exact ⟨r, by rw [hadds.remoteFiles]; exact List.mem_append_left _ hr, hrest⟩
    · obtain ⟨-, r, hr, huuid, -, htarget⟩ := hadds.rowOf c hc
      exact ⟨r, hr, huuid, htarget⟩

/-- In a keyed database an entry stands for one path. -/
theorem Keyed.standsFor_unique (h : Keyed db) {c : Collected} {path' : Str}
    (hc : StandsFor db c path) (hc' : StandsFor db c path') : path = path' := by
  obtain ⟨r, hr, huuid, rfl⟩ := hc
  obtain ⟨r', hr', huuid', rfl⟩ := hc'
  rw [List.inj_on_of_nodup_map h.uuids hr hr' (huuid.trans huuid'.symm)]

/-- An entry stands for the path that it stood for before. -/
theorem Adds.standsFor_iff (hadds : Adds jobUuid path names db db' rows new) (h : Keyed db)
    {c : Collected} (hc : c ∈ db.backupCollections) (p : Str) :
    StandsFor db' c p ↔ StandsFor db c p := by
  constructor
  · intro hp
    obtain ⟨r, hr, huuid, -⟩ := h.rowOf c hc
    have hold : StandsFor db' c r.localPath :=
      ⟨r, by rw [hadds.remoteFiles]; exact List.mem_append_left _ hr, huuid, rfl⟩
    rw [(h.adds hadds).standsFor_unique hp hold]
    exact ⟨r, hr, huuid, rfl⟩
  · rintro ⟨r, hr, hrest⟩
    exact ⟨r, by rw [hadds.remoteFiles]; exact List.mem_append_left _ hr, hrest⟩

/-- What a step does to the entries of a job for a target and a path. -/
theorem Adds.entries_eq (hadds : Adds jobUuid path names db db' rows new) (h : Keyed db)
    (job target p : Str) : entries db' job target p = entries db job target p ++
      if jobUuid = job ∧ path = p then new.filter (·.target = target) else [] := by
  have hold : (db.backupCollections.filter fun c => decide (c.jobId = job) && decide (c.target = target) &&
      decide (StandsFor db' c p)) = entries db job target p := by
    apply List.filter_congr
    intro c hc
    rw [decide_eq_decide.mpr (hadds.standsFor_iff h hc p)]
  have hnew : (new.filter fun c => decide (c.jobId = job) && decide (c.target = target) &&
      decide (StandsFor db' c p)) =
        if jobUuid = job ∧ path = p then new.filter (·.target = target) else [] := by
    have hiff : ∀ c ∈ new, (c.jobId = job ↔ jobUuid = job) ∧ (StandsFor db' c p ↔ path = p) := by
      intro c hc
      obtain ⟨hjob, r, hr, huuid, hpath, -⟩ := hadds.rowOf c hc
      have hself : StandsFor db' c path := ⟨r, hr, huuid, hpath⟩
      refine ⟨by rw [hjob], fun hp => (h.adds hadds).standsFor_unique hself hp, ?_⟩
      rintro rfl
      exact hself
    split
    · rename_i heq
      apply List.filter_congr
      intro c hc
      simp [(hiff c hc).1, (hiff c hc).2, heq.1, heq.2]
    · rename_i hne
      apply List.filter_eq_nil_iff.mpr
      intro c hc
      simp only [Bool.and_eq_true, decide_eq_true_eq, (hiff c hc).1, (hiff c hc).2]
      exact fun hall => hne ⟨hall.1.1, hall.2⟩
  rw [entries, hadds.backupCollections, List.filter_append, hold, hnew]

theorem Adds.length_filter_le_one (hadds : Adds jobUuid path names db db' rows new) (hnames : names.Nodup)
    (target : Str) : (new.filter (·.target = target)).length ≤ 1 := by
  have hcount : (new.map Collected.target).count target ≤ 1 :=
    (hadds.targets.count_le target).trans (List.nodup_iff_count_le_one.mp hnames target)
  rw [List.count, List.countP_map, List.countP_eq_length_filter] at hcount
  have hsame : new.filter ((· == target) ∘ Collected.target) = new.filter (·.target = target) :=
    List.filter_congr fun c _ => by rw [Function.comp_apply, Bool.eq_iff_iff]; simp
  rwa [hsame] at hcount

end

/-! ### Runs of a job -/

/-- The world, and what a job has done to it: the paths that it has walked, and if
it has begun to look for deleted items. -/
structure Trace where
  world : World
  walked : List Str
  marking : Bool

section

variable (C : Cloud) (pathMatch : Str → Str → Option Bool) (jobUuid : Str)

def Trace.step (a : Action) (s : Trace) : Trace :=
  ⟨a.apply C pathMatch s.world, if a.jobUuid = jobUuid then s.walked ++ a.scans else s.walked,
    s.marking || (decide (a.jobUuid = jobUuid) && decide (a.scans = []))⟩

/-- The steps of a job are for its targets, and it looks for deleted items last. -/
def InOrder (names : List Str) (a : Action) (s : Trace) : Prop :=
  a.jobUuid = jobUuid → a.Over names ∧ (s.marking = true → a.scans = [])

/-- A step of a job is the first one for its path: it was not walked before, or it
is not in the collection of any target when it is to be marked. -/
def FirstTime (names : List Str) (a : Action) (s : Trace) : Prop :=
  match a with
  | .walk _ job it => job = jobUuid → it.path ∉ s.walked
  | .mark cfg job e => job = jobUuid → ∀ rec,
      getBackedupObjectPropertiesFromDb e.queryOk s.world.db e.path = .ok (some rec) →
        gone pathMatch cfg e.lstat rec = true →
          ∀ n ∈ names, e.path ∉ collectedPaths s.world.db jobUuid n

/-- The paths that are to be marked are those that `FindDeletedItems` selects, which
looks at the first target. -/
def OnCandidates (names : List Str) (a : Action) (s : Trace) : Prop :=
  match a with
  | .walk _ _ _ => True
  | .mark _ job e => job = jobUuid → e.path ∈ s.world.db.files.map FilesRow.path →
      ∀ first, names.head? = some first → e.path ∈ deletionCandidates s.world.db jobUuid first

/-- What holds along the run of a job: one entry for a target and a path at most,
for its own targets; and as long as it walks, for a path that it has walked. -/
structure OneEntry (names : List Str) (s : Trace) : Prop where
  keyed : Keyed s.world.db
  le_one : ∀ target path, (entries s.world.db jobUuid target path).length ≤ 1
  target : ∀ c ∈ s.world.db.backupCollections, c.jobId = jobUuid → c.target ∈ names
  walked : s.marking = false → ∀ target path, entries s.world.db jobUuid target path ≠ [] →
    path ∈ s.walked

end

section

variable {C : Cloud} {pathMatch : Str → Str → Option Bool} {jobUuid : Str} {names : List Str} {s : Trace}

theorem entries_eq_nil_of_not_collected {db : Db} {target path : Str}
    (h : path ∉ collectedPaths db jobUuid target) : entries db jobUuid target path = [] := by
  apply List.filter_eq_nil_iff.mpr
  intro c hc hmatch
  simp only [Bool.and_eq_true, decide_eq_true_eq] at hmatch
  obtain ⟨⟨hjob, htarget⟩, r, hr, huuid, hpath⟩ := hmatch
  apply h
  rw [collectedPaths, List.mem_map]
  refine ⟨r, List.mem_filter.mpr ⟨hr, List.any_eq_true.mpr ⟨c, hc, ?_⟩⟩, hpath⟩
  simp [huuid, hjob, htarget]

theorem entries_eq_nil_of_target {db : Db} {target path : Str}
    (h : ∀ c ∈ db.backupCollections, c.jobId = jobUuid → c.target ≠ target) :
    entries db jobUuid target path = [] := by
  apply List.filter_eq_nil_iff.mpr
  intro c hc hmatch
  simp only [Bool.and_eq_true, decide_eq_true_eq] at hmatch
  exact h c hc hmatch.1.1 hmatch.1.2

/-- A path that is not marked leaves the tables alone. -/
theorem markEntry_of_not_gone {cfg : ConfigBackup} {e : Entry} {w : World}
    (h : ∀ rec, getBackedupObjectPropertiesFromDb e.queryOk w.db e.path = .ok (some rec) →
      gone pathMatch cfg e.lstat rec = false) : (markEntry C pathMatch cfg jobUuid e w).world = w := by
  unfold markEntry
  split
  · rfl
  · rfl
  · rename_i rec hrec
    obtain ⟨err, hmark⟩ := @markDeleted_of_not_gone C pathMatch cfg e.lstat e.stmts e.targets jobUuid rec w
      (h rec hrec)
    rw [hmark]
    dsimp only
    split <;> rfl

/-- Before a step of the job that adds something, there is no entry for its path. -/
theorem OneEntry.first (h : OneEntry jobUuid names s) {a : Action} (hjob : a.jobUuid = jobUuid)
    (horder : InOrder jobUuid names a s) (hfirst : FirstTime pathMatch jobUuid names a s) :
    a.apply C pathMatch s.world = s.world ∨
      ∀ target, entries s.world.db jobUuid target a.path = [] := by
  cases a with
  | walk cfg job it =>
      right
      intro target
      by_contra hne
      have hmarking : s.marking = false := by
        rw [← Bool.not_eq_true]
        intro hmarking
        cases (horder hjob).2 hmarking
      exact hfirst hjob (h.walked hmarking target it.path hne)
  | mark cfg job e =>
      by_cases hgone : ∃ rec, getBackedupObjectPropertiesFromDb e.queryOk s.world.db e.path = .ok (some rec) ∧
          gone pathMatch cfg e.lstat rec = true
      · right
        obtain ⟨rec, hrec, hgone⟩ := hgone
        intro target
        by_cases hmem : target ∈ names
        · exact entries_eq_nil_of_not_collected (hfirst hjob rec hrec hgone target hmem)
        · apply entries_eq_nil_of_target
          rintro c hc hcjob rfl
          exact hmem (h.target c hc hcjob)
      · left
        apply markEntry_of_not_gone
        intro rec hrec
        rw [← Bool.not_eq_true]
        exact fun hg => hgone ⟨rec, hrec, hg⟩

theorem oneEntry_own (hnames : names.Nodup) {a : Action} (h : OneEntry jobUuid names s)
    (hjob : a.jobUuid = jobUuid) (horder : InOrder jobUuid names a s)
    (hfirst : FirstTime pathMatch jobUuid names a s) :
    OneEntry jobUuid names (s.step C pathMatch jobUuid a) := by
  obtain ⟨rows, new, hadds⟩ := apply_adds C pathMatch a s.world
  have hkeyed := h.keyed.adds hadds
  have hover := (horder hjob).1
  unfold Action.Over at hover
  rw [hover] at hadds
  have hwalked : (s.step C pathMatch jobUuid a).walked = s.walked ++ a.scans := if_pos hjob
  refine ⟨hkeyed, ?_, ?_, ?_⟩
  · intro target path
    change (entries (a.apply C pathMatch s.world).db jobUuid target path).length ≤ 1
    rcases h.first (C := C) hjob horder hfirst with hsame | hnone
    · rw [hsame]
      exact h.le_one target path
    · rw [hadds.entries_eq h.keyed, List.length_append]
      split
      · rename_i heq
        rw [← heq.2, hnone target]
        simpa using hadds.length_filter_le_one hnames target
      · simpa using h.le_one target path
  · intro c hc hcjob
    change c ∈ (a.apply C pathMatch s.world).db.backupCollections at hc
    rw [hadds.backupCollections] at hc
    rcases List.mem_append.mp hc with hc | hc
    · exact h.target c hc hcjob
    · exact hadds.targets.subset (List.mem_map_of_mem hc)
  · intro hmarking target path hne
    rw [hwalked]
    simp only [Trace.step, hjob, decide_true, Bool.true_and, Bool.or_eq_false_iff,
      decide_eq_false_iff_not] at hmarking hne
    rw [hadds.entries_eq h.keyed] at hne
    split at hne
    · -- the step is a walk, so its path is now among those that were walked
      rename_i heq
      cases a with
      | walk cfg job it =>
          rw [← heq.2]
          simp [Action.scans, Action.path]
      | mark cfg job e => exact absurd rfl hmarking.2
    · rw [List.append_nil] at hne
      exact List.mem_append_left _ (h.walked hmarking.1 target path hne)

/-- What another job adds is not under this job id. -/
theorem oneEntry_other {a : Action} (h : OneEntry jobUuid names s) (hjob : a.jobUuid ≠ jobUuid) :
    OneEntry jobUuid names (s.step C pathMatch jobUuid a) := by
  obtain ⟨rows, new, hadds⟩ := apply_adds C pathMatch a s.world
  have hwalked : (s.step C pathMatch jobUuid a).walked = s.walked := if_neg hjob
  have hmarking : (s.step C pathMatch jobUuid a).marking = s.marking := by simp [Trace.step, hjob]
  have hentries : ∀ target path, entries (s.step C pathMatch jobUuid a).world.db jobUuid target path =
      entries s.world.db jobUuid target path := by
    intro target path
    change entries (a.apply C pathMatch s.world).db jobUuid target path = _
    rw [hadds.entries_eq h.keyed, if_neg fun heq => hjob heq.1, List.append_nil]
  refine ⟨h.keyed.adds hadds, ?_, ?_, ?_⟩
  · intro target path
    rw [hentries]
    exact h.le_one target path
  · intro c hc hcjob
    change c ∈ (a.apply C pathMatch s.world).db.backupCollections at hc
    rw [hadds.backupCollections] at hc
    rcases List.mem_append.mp hc with hc | hc
    · exact h.target c hc hcjob
    · exact absurd ((hadds.rowOf c hc).1.symm.trans hcjob) hjob
  · intro hm target path
    rw [hentries, hwalked]
    exact h.walked (hmarking ▸ hm) target path

theorem oneEntry_step (hnames : names.Nodup) (a : Action) (h : OneEntry jobUuid names s)
    (horder : InOrder jobUuid names a s) (hfirst : FirstTime pathMatch jobUuid names a s) :
    OneEntry jobUuid names (s.step C pathMatch jobUuid a) := by
  by_cases hjob : a.jobUuid = jobUuid
  · exact oneEntry_own hnames h hjob horder hfirst
  · exact oneEntry_other h hjob

theorem OneEntry.start (names : List Str) {w : World} (hkeyed : Keyed w.db)
    (hnew : ∀ c ∈ w.db.backupCollections, c.jobId ≠ jobUuid) :
    OneEntry jobUuid names ⟨w, [], false⟩ := by
  have hnone : ∀ target path, entries w.db jobUuid target path = [] := fun target path =>
    entries_eq_nil_of_target fun c hc hjob => absurd hjob (hnew c hc)
  refine ⟨hkeyed, ?_, fun c hc hjob => absurd hjob (hnew c hc), ?_⟩
  · intro target path
    simp [hnone target path]
  · intro _ target path hne
    exact absurd (hnone target path) hne

/-- A job that works on each path once has one entry for it at most, at each of its
targets. -/
theorem oneEntry_reaches (hnames : names.Nodup) {s₀ : Trace} (h₀ : OneEntry jobUuid names s₀)
    (h : Reaches (fun a s => InOrder jobUuid names a s ∧ FirstTime pathMatch jobUuid names a s)
      (Trace.step C pathMatch jobUuid) s₀ s) : OneEntry jobUuid names s :=
  h.invariant h₀ fun a _ ht ha => oneEntry_step hnames a ht ha.1 ha.2

end

end CloudBackup.Backup
