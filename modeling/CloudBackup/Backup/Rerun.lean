import CloudBackup.Backup.Settled
import CloudBackup.Backup.Visits

/-!
A second run over an unchanged disk. `Stable` is what the first one should leave
behind: everything that is to be seen has a settled row, and nothing else is waiting to
be marked as deleted. `stable_run` says that a run which starts from there changes
nothing, and `stable_of_run` when the first run gets there. `rerun_idempotent` puts
them together.
-/

namespace CloudBackup.Backup

open Database ObjectStore Iteration UnixPath

section

variable (pathMatch : Str → Str → Option Bool) (cfg : ConfigBackup) (dereference : Bool) (v : Volume)
  (lstat : Str → Lstat) (target : Str)

/-- Everything that is to be seen is up to date. What `markDeleted` would take for gone
has been sent to the first target, and is seen by the next run: that will collect it. -/
structure Stable (db : Db) : Prop where
  nodup : (db.files.map FilesRow.path).Nodup
  settled : ∀ path stat, Seen pathMatch cfg dereference v path stat → SettledAt cfg path stat db
  gone : ∀ f ∈ db.files, gone pathMatch cfg (lstat f.path) (recordOf f) = true →
    (∃ stat, Seen pathMatch cfg dereference v f.path stat) ∧
      (getNewestRemoteFileUuid db f.path target).isSome = true

end

/-- What a run can do to the backup was not done: the buckets are the same, and two of
the tables. -/
structure SameBackup (w w' : World) : Prop where
  buckets : w'.buckets = w.buckets
  files : w'.db.files = w.db.files
  remoteFiles : w'.db.remoteFiles = w.db.remoteFiles

theorem SameBackup.refl (w : World) : SameBackup w w := ⟨rfl, rfl, rfl⟩

theorem SameBackup.trans {w w' w'' : World} (h : SameBackup w w') (h' : SameBackup w' w'') :
    SameBackup w w'' :=
  ⟨h'.buckets.trans h.buckets, h'.files.trans h.files, h'.remoteFiles.trans h.remoteFiles⟩

/-- The statements that collect an item for the target succeed, and so does the query
for its row. A new uuid is not empty. -/
def Enters (target : Str) (env : Surroundings) : Prop :=
  ∀ turn, (env.item turn).queryOk = true ∧ (∀ t ∈ (env.item turn).targets, t.newV4 ≠ some []) ∧
    ∃ t ∈ (env.item turn).targets, t.store.name = target ∧ t.queryOk = true ∧ t.collectionsOk = true

section

variable {C : Cloud} {pathMatch : Str → Str → Option Bool} {cfg : ConfigBackup} {dereference : Bool}
  {v : Volume} {lstat : Str → Lstat} {target jobUuid : Str} {env : Surroundings} {s : Scanning} {it : Item}
  {w w' : World}

theorem Stable.congr (h : Stable pathMatch cfg dereference v lstat target w.db) (hsame : SameBackup w w') :
    Stable pathMatch cfg dereference v lstat target w'.db := by
  refine ⟨by rw [hsame.files]; exact h.nodup, ?_, ?_⟩
  · unfold SettledAt
    rw [hsame.files]
    exact h.settled
  · intro f hf hgone
    rw [hsame.files] at hf
    rw [getNewestRemoteFileUuid_congr hsame.remoteFiles]
    exact h.gone f hf hgone

/-! ### The second run -/

/-- What is seen is up to date, if its row can be looked up. -/
theorem Stable.upToDate (jobUuid : Str) (h : Stable pathMatch cfg dereference v lstat target w.db)
    (hcomparable : ∀ path stat, Seen pathMatch cfg dereference v path stat → Comparable cfg stat)
    (hseen : Seen pathMatch cfg dereference v it.path it.disk) (hquery : it.queryOk = true) :
    ∃ rec, decideItem cfg jobUuid it w.db = .upToDate rec := by
  obtain ⟨f, hf, hpath, hsettled⟩ := h.settled it.path it.disk hseen
  exact decideItem_of_settled (hcomparable _ _ hseen) h.nodup hf hpath hsettled hquery

theorem Stable.visit (h : Stable pathMatch cfg dereference v lstat target w.db)
    (hcomparable : ∀ path stat, Seen pathMatch cfg dereference v path stat → Comparable cfg stat)
    (hseen : Seen pathMatch cfg dereference v it.path it.disk) :
    SameBackup w (walkItem C cfg jobUuid it w).world := by
  have hfailed : ∀ rows : List FailedFile, SameBackup w { w with db := { w.db with failedFiles := rows } } :=
    fun rows => ⟨rfl, rfl, rfl⟩
  unfold walkItem doItem
  cases hctx : it.ctxDone with
  | true => exact .refl w
  | false =>
      rw [if_neg Bool.false_ne_true]
      cases hquery : it.queryOk with
      | false =>
          have hdecide : decideItem cfg jobUuid it w.db =
              .fail (.query .query) (updateCounters .upload it.disk.fileType it.path true) := by
            rw [decideItem, hquery]
            rfl
          obtain ⟨rows, hrows⟩ := markItemAsFailed_cases it.failedFilesOk
            ⟨jobUuid, it.path, it.disk.fileType⟩ w.db
          rw [hdecide]
          simp only [reduceCtorEq, Bool.false_eq_true, or_self, if_false]
          rw [hrows]
          exact hfailed rows
      | true =>
          obtain ⟨rec, hdecide⟩ := h.upToDate jobUuid hcomparable hseen hquery
          rw [hdecide]
          simp only [or_true, if_true]
          obtain ⟨hfiles, hremote, -⟩ := collectTarget_tables jobUuid it.path it.targets w.db
          exact ⟨rfl, hfiles, hremote⟩

theorem stable_scan (h : Stable pathMatch cfg dereference v lstat target s.world.db)
    (hcomparable : ∀ path stat, Seen pathMatch cfg dereference v path stat → Comparable cfg stat) :
    SameBackup s.world
        (forEach (scanRoot C pathMatch cfg dereference v jobUuid env) cfg.paths s).state.world ∧
      ∀ it w, Visits pathMatch cfg dereference v C jobUuid env s it w → SameBackup s.world w :=
  visits_invariant (I := SameBackup s.world) (.refl _) fun _ _ hvisit hsame =>
    hsame.trans ((h.congr hsame).visit hcomparable hvisit.seen)

theorem InCollection.visit {path : Str} (h : InCollection w.db jobUuid path target) :
    InCollection (walkItem C cfg jobUuid it w).world.db jobUuid path target := by
  obtain ⟨rows, new, hadds⟩ := apply_adds C (fun _ _ => none) (.walk cfg jobUuid it) w
  obtain ⟨r, hr, hpath, htarget, hmem⟩ := h
  refine ⟨r, ?_, hpath, htarget, ?_⟩
  · rw [show (walkItem C cfg jobUuid it w).world.db.remoteFiles = _ from hadds.remoteFiles]
    exact List.mem_append_left _ hr
  · rw [show (walkItem C cfg jobUuid it w).world.db.backupCollections = _ from hadds.backupCollections]
    exact List.mem_append_left _ hmem

theorem InCollection.mem_collectedPaths {db : Db} {path : Str} (h : InCollection db jobUuid path target) :
    path ∈ collectedPaths db jobUuid target := by
  obtain ⟨r, hr, hpath, -, hmem⟩ := h
  refine List.mem_map.mpr ⟨r, List.mem_filter.mpr ⟨hr, List.any_eq_true.mpr ⟨_, hmem, ?_⟩⟩, hpath⟩
  simp

/-- An item that is up to date is collected for a target that it was sent to. -/
theorem upToDate_inCollection {rec : Record} (hdecide : decideItem cfg jobUuid it w.db = .upToDate rec)
    (hcan : (walkItem C cfg jobUuid it w).cancelled = false) {t : Target} (ht : t ∈ it.targets)
    (hquery : t.queryOk = true) (hcollections : t.collectionsOk = true)
    (hnewest : (getNewestRemoteFileUuid w.db it.path t.store.name).isSome = true) :
    InCollection (walkItem C cfg jobUuid it w).world.db jobUuid it.path t.store.name := by
  have hctx : it.ctxDone = false := by
    rw [← Bool.not_eq_true]
    intro hctx
    simp [walkItem, doItem, hctx] at hcan
  have hworld : (walkItem C cfg jobUuid it w).world.db =
      it.targets.foldl (collectTarget jobUuid it.path) w.db := by
    simp [walkItem, doItem, hctx, hdecide]
  rw [hworld]
  exact collect_inCollection_of_mem jobUuid ht hquery hcollections hnewest

/-- What would be taken for gone is in the collection after the scan. -/
theorem stable_collected (h : Stable pathMatch cfg dereference v lstat target s.world.db)
    (hcomparable : ∀ path stat, Seen pathMatch cfg dereference v path stat → Comparable cfg stat)
    (henters : Enters target env) {s' : Scanning}
    (hscan : forEach (scanRoot C pathMatch cfg dereference v jobUuid env) cfg.paths s = .next s')
    {f : FilesRow} (hf : f ∈ s.world.db.files)
    (hgone : gone pathMatch cfg (lstat f.path) (recordOf f) = true) :
    f.path ∈ collectedPaths s'.world.db jobUuid target := by
  obtain ⟨⟨stat, hseen⟩, hnewest⟩ := h.gone f hf hgone
  obtain ⟨it, w, hvisit, hpath, -, hcan⟩ := visits_of_seen hscan hseen
  have hsame := (stable_scan h hcomparable).2 it w hvisit
  obtain ⟨turn, hitem⟩ := hvisit.item
  obtain ⟨hquery, -, t, ht, rfl, htquery, htcollections⟩ := henters turn
  obtain ⟨rec, hdecide⟩ := (h.congr hsame).upToDate jobUuid hcomparable hvisit.seen
    (by rw [hitem]; exact hquery)
  have hcollected : InCollection (walkItem C cfg jobUuid it w).world.db jobUuid f.path t.store.name := by
    rw [← hpath] at hnewest ⊢
    refine upToDate_inCollection hdecide hcan (by rw [hitem]; exact ht) htquery htcollections ?_
    rw [getNewestRemoteFileUuid_congr hsame.remoteFiles]
    exact hnewest
  have hend := hvisit.lasts (P := fun w => InCollection w.db jobUuid f.path t.store.name)
    (fun _ _ _ => InCollection.visit) hcollected
  rw [hscan] at hend
  exact hend.mem_collectedPaths

/-! ### Deleted items of the second run -/

/-- No candidate is gone, so that a call changes nothing. -/
theorem call_unchanged {maxResults : ℕ} {r : Round} {m : Marking}
    (hlstat : ∀ path, (r.entry path).lstat = lstat path)
    (h : ∀ f ∈ m.world.db.files, gone pathMatch cfg (lstat f.path) (recordOf f) = true →
      f.path ∈ collectedPaths m.world.db jobUuid target) :
    (call C pathMatch cfg jobUuid target maxResults r m).state.world = m.world := by
  refine call_invariant (I := fun w => w = m.world) rfl ?_
  rintro path hpath w rfl
  have hcandidate := (mem_candidates.mp (mem_foundEntries hpath)).2.1
  apply markEntry_of_not_gone
  intro rec hrec
  obtain ⟨f, hf, hfpath, rfl⟩ := getBackedup_row hrec
  dsimp only at hfpath ⊢
  rw [hlstat, ← hfpath, ← Bool.not_eq_true]
  intro hgone
  rw [← hfpath] at hcandidate
  exact hcandidate (h f hf hgone)

variable {rounds : ℕ → Round}

/-- A run finds nothing to do: every item that it can look up is up to date, and
wherever it gets to, nothing was done to the backup. -/
structure Idle (C : Cloud) (pathMatch : Str → Str → Option Bool) (cfg : ConfigBackup) (dereference : Bool)
    (v : Volume) (jobUuid : Str) (env : Surroundings) (target : Str) (rounds : ℕ → Round) (s : Scanning) :
    Prop where
  visits : ∀ it w, Visits pathMatch cfg dereference v C jobUuid env s it w → SameBackup s.world w ∧
    (it.queryOk = true → ∃ rec, decideItem cfg jobUuid it w.db = .upToDate rec)
  calls : ∀ t n m, forEach (scanRoot C pathMatch cfg dereference v jobUuid env) cfg.paths s = .next t →
    atCall C pathMatch cfg jobUuid target maxResults rounds n ⟨t.world, []⟩ = some m → SameBackup s.world m.world
  ending : ∀ fuel ending u,
    runBackup C pathMatch cfg dereference v jobUuid env target rounds fuel s = some (ending, u) →
      SameBackup s.world u.world

theorem stable_run (h : Stable pathMatch cfg dereference v lstat target s.world.db)
    (hcomparable : ∀ path stat, Seen pathMatch cfg dereference v path stat → Comparable cfg stat)
    (henters : ∀ f ∈ s.world.db.files, gone pathMatch cfg (lstat f.path) (recordOf f) = true →
      Enters target env)
    (hlstat : ∀ k path, ((rounds k).entry path).lstat = lstat path) :
    Idle C pathMatch cfg dereference v jobUuid env target rounds s := by
  obtain ⟨hscanned, hvisits⟩ := @stable_scan C pathMatch cfg dereference v lstat target jobUuid env s h
    hcomparable
  -- once everything is collected, the calls do not change the world at all
  have hcalls : ∀ t, forEach (scanRoot C pathMatch cfg dereference v jobUuid env) cfg.paths s = .next t →
      ∀ n (m : Marking), m.world = t.world →
        (call C pathMatch cfg jobUuid target maxResults (rounds n) m).state.world = t.world := by
    intro t hscan n m hm
    rw [hscan] at hscanned
    rw [← hm]
    refine call_unchanged (hlstat n) ?_
    intro f hf hgone
    rw [hm, show t.world.db.files = s.world.db.files from hscanned.files] at hf
    rw [hm]
    exact stable_collected h hcomparable (henters f hf hgone) hscan hf hgone
  refine ⟨?_, ?_, ?_⟩
  · intro it w hvisit
    have hsame := hvisits it w hvisit
    exact ⟨hsame, (h.congr hsame).upToDate jobUuid hcomparable hvisit.seen⟩
  · intro t n m hscan hcall
    have hworld : m.world = t.world :=
      atPass_invariant (I := fun m : Marking => m.world = t.world) (fun k _ hk => hcalls t hscan k _ hk) rfl hcall
    rw [hscan] at hscanned
    rw [hworld]
    exact hscanned
  · intro fuel ending u hrun
    unfold runBackup at hrun
    split at hrun
    · rename_i hscan
      cases hrun
      rw [hscan] at hscanned
      exact hscanned
    · rename_i hscan
      cases hrun
      rw [hscan] at hscanned
      exact hscanned
    · rename_i t hscan
      obtain ⟨⟨ending', m⟩, hmark, heq⟩ := Option.map_eq_some_iff.mp hrun
      cases heq
      have hworld : m.world = t.world :=
        untilStop_invariant (I := fun m : Marking => m.world = t.world) (fun k _ hk => hcalls t hscan k _ hk) rfl
          hmark
      rw [hscan] at hscanned
      dsimp only
      rw [hworld]
      exact hscanned

end

/-! ### The first run -/

def Counter.failure : Counter → Bool
  | .failedToUpload _ => true
  | .failedToUpdateMetadata _ => true
  | .failedToMarkDeleted _ => true
  | .failedToFindDeleted => true
  | _ => false

/-- A run that was not cancelled and in which no item failed or was skipped, under a
job id of its own. It has come to `t` after the scan, and to `m` at the end. -/
structure FlawlessRun (C : Cloud) (pathMatch : Str → Str → Option Bool) (cfg : ConfigBackup)
    (dereference : Bool) (v : Volume) (jobUuid : Str) (env : Surroundings) (target : Str)
    (rounds : ℕ → Round) (s t : Scanning) (m : Marking) : Prop where
  scan : forEach (scanRoot C pathMatch cfg dereference v jobUuid env) cfg.paths s = .next t
  mark : ∃ fuel, findAndMarkDeleted C pathMatch cfg jobUuid target maxResults rounds fuel ⟨t.world, []⟩ =
    some (.returned false, m)
  items : ∀ it w, Visits pathMatch cfg dereference v C jobUuid env s it w →
    (walkItem C cfg jobUuid it w).err = none ∧ skipsNone (.walk cfg jobUuid it) w = true
  counters : ∀ ev ∈ m.events, ev.counter.failure = false
  collections : ∀ c ∈ s.world.db.backupCollections, c.jobId ≠ jobUuid
  failedFiles : ∀ f ∈ s.world.db.failedFiles, f.jobId ≠ jobUuid

/-- What the first run has to find for the second one to find nothing. What is seen can
be compared again. If checksums are compared, the row of a file does not have the other
flag. And what is seen but would be taken for gone is collected by both of the runs,
and was sent to the first target if it was sent at all. -/
structure Repeatable (pathMatch : Str → Str → Option Bool) (cfg : ConfigBackup) (dereference : Bool)
    (v : Volume) (lstat : Str → Lstat) (target : Str) (env env' : Surroundings) (db : Db) : Prop where
  comparable : ∀ path stat, Seen pathMatch cfg dereference v path stat → Comparable cfg stat
  flags : ∀ path stat, Seen pathMatch cfg dereference v path stat → ∀ f ∈ db.files, f.path = path →
    FlagAgrees cfg stat f.props
  gone : ∀ path stat, Seen pathMatch cfg dereference v path stat → ∀ rec : Record, rec.path = path →
    rec.props.type = stat.fileType → gone pathMatch cfg (lstat path) rec = true →
    Enters target env ∧ Enters target env' ∧
      ∀ f ∈ db.files, f.path = path → (getNewestRemoteFileUuid db path target).isSome = true

/-- What holds while the first run scans: the rows are those from before, or settled. -/
structure Settling (pathMatch : Str → Str → Option Bool) (cfg : ConfigBackup) (dereference : Bool)
    (v : Volume) (jobUuid : Str) (db₀ db : Db) : Prop where
  kept : WellKept db
  rows : ∀ f ∈ db.files, f ∈ db₀.files ∨
    ∃ stat, Seen pathMatch cfg dereference v f.path stat ∧ Settled cfg stat f.props
  collected : ∀ target path, entries db jobUuid target path ≠ [] →
    ∃ stat, Seen pathMatch cfg dereference v path stat
  failedFiles : ∀ f ∈ db.failedFiles, f.jobId ≠ jobUuid

section

variable {C : Cloud} {pathMatch : Str → Str → Option Bool} {cfg : ConfigBackup} {dereference : Bool}
  {v : Volume} {lstat : Str → Lstat} {target jobUuid : Str} {env env' : Surroundings} {s t : Scanning}
  {it : Item} {w : World} {db₀ : Db}

theorem Settling.visit_cases (h : Settling pathMatch cfg dereference v jobUuid db₀ w.db)
    (hrep : Repeatable pathMatch cfg dereference v lstat target env env' db₀)
    (hseen : Seen pathMatch cfg dereference v it.path it.disk)
    (herr : (walkItem C cfg jobUuid it w).err = none) :
    ((walkItem C cfg jobUuid it w).cancelled = true ∧ (walkItem C cfg jobUuid it w).world.db = w.db) ∨
    (∃ rec, decideItem cfg jobUuid it w.db = .upToDate rec ∧ (walkItem C cfg jobUuid it w).world.db =
      it.targets.foldl (collectTarget jobUuid it.path) w.db ∧ SettledAt cfg it.path it.disk w.db) ∨
    ∃ op rec db p, decideItem cfg jobUuid it w.db = .operate op rec ∧
      filesEntry op it.stmts.filesOk rec w.db = some db ∧
      forEach (operateTarget C cfg op rec) it.targets ⟨db, w.buckets, [], []⟩ = .next p ∧
      (walkItem C cfg jobUuid it w).world.db = p.db ∧ Settled cfg it.disk (toRow rec.props) := by
  have hdisk := hrep.comparable _ _ hseen
  have hflag : ∀ f ∈ w.db.files, f.path = it.path → FlagAgrees cfg it.disk f.props := by
    intro f hf hpath
    rcases h.rows f hf with hold | ⟨stat, hstat, hsettled⟩
    · exact hrep.flags _ _ hseen f hold hpath
    · rw [hpath] at hstat
      obtain rfl := hseen.unique hstat
      exact fun _ hfile => hsettled.encrypted hfile
  rcases walkItem_cases C cfg jobUuid it w with
    ⟨hcan, hdb⟩ | ⟨-, hne, -⟩ | ⟨rec, hdecide, hr⟩ | ⟨op, rec, db, p, hdecide, hfiles, hloop, hr⟩
  · exact .inl ⟨hcan, hdb⟩
  · exact absurd herr hne
  · exact .inr (.inl ⟨rec, hdecide, by rw [hr], settledAt_of_upToDate hdisk h.kept.sums hdecide⟩)
  · exact .inr (.inr ⟨op, rec, db, p, hdecide, hfiles, hloop, by rw [hr],
      settled_of_operate hdisk hflag hdecide⟩)

theorem Settling.settles (h : Settling pathMatch cfg dereference v jobUuid db₀ w.db)
    (hrep : Repeatable pathMatch cfg dereference v lstat target env env' db₀)
    (hseen : Seen pathMatch cfg dereference v it.path it.disk)
    (herr : (walkItem C cfg jobUuid it w).err = none)
    (hcan : (walkItem C cfg jobUuid it w).cancelled = false) :
    SettledAt cfg it.path it.disk (walkItem C cfg jobUuid it w).world.db := by
  rcases h.visit_cases hrep hseen herr with
    ⟨hcan', -⟩ | ⟨rec, -, hdb, hsettled⟩ | ⟨op, rec, db, p, hdecide, hfiles, hloop, hdb, hsettled⟩
  · rw [hcan] at hcan'
    cases hcan'
  · rw [hdb]
    unfold SettledAt
    rw [(collectTarget_tables jobUuid it.path it.targets w.db).1]
    exact hsettled
  · rw [hdb]
    unfold SettledAt
    rw [(operate_files hloop).1]
    exact ⟨filesRow rec, (filesEntry_mem hfiles).1, (decideItem_operate hdecide).path_eq, hsettled⟩

/-- A settled row is still there after another visit, or settled again. -/
theorem Settling.stays (h : Settling pathMatch cfg dereference v jobUuid db₀ w.db)
    (hrep : Repeatable pathMatch cfg dereference v lstat target env env' db₀)
    (hseen : Seen pathMatch cfg dereference v it.path it.disk)
    (herr : (walkItem C cfg jobUuid it w).err = none) {path : Str} {stat : OnDisk}
    (hstat : Seen pathMatch cfg dereference v path stat) (hat : SettledAt cfg path stat w.db) :
    SettledAt cfg path stat (walkItem C cfg jobUuid it w).world.db := by
  rcases h.visit_cases hrep hseen herr with
    ⟨-, hdb⟩ | ⟨rec, -, hdb, -⟩ | ⟨op, rec, db, p, hdecide, hfiles, hloop, hdb, hsettled⟩
  · rw [hdb]
    exact hat
  · rw [hdb]
    unfold SettledAt
    rw [(collectTarget_tables jobUuid it.path it.targets w.db).1]
    exact hat
  · rw [hdb]
    unfold SettledAt
    rw [(operate_files hloop).1]
    have hpath := (decideItem_operate hdecide).path_eq
    by_cases heq : it.path = path
    · subst heq
      obtain rfl := hseen.unique hstat
      exact ⟨filesRow rec, (filesEntry_mem hfiles).1, hpath, hsettled⟩
    · obtain ⟨f, hf, hfpath, hfsettled⟩ := hat
      refine ⟨f, (filesEntry_mem hfiles).2.1 f hf ?_, hfpath, hfsettled⟩
      rw [hfpath, hpath]
      exact fun hne => heq hne.symm

theorem Settling.visit (h : Settling pathMatch cfg dereference v jobUuid db₀ w.db)
    (hrep : Repeatable pathMatch cfg dereference v lstat target env env' db₀)
    (hseen : Seen pathMatch cfg dereference v it.path it.disk)
    (herr : (walkItem C cfg jobUuid it w).err = none) :
    Settling pathMatch cfg dereference v jobUuid db₀ (walkItem C cfg jobUuid it w).world.db := by
  obtain ⟨rows, new, hadds⟩ := apply_adds C (fun _ _ => none) (.walk cfg jobUuid it) w
  have hentries : ∀ target path, entries (walkItem C cfg jobUuid it w).world.db jobUuid target path ≠ [] →
      ∃ stat, Seen pathMatch cfg dereference v path stat := by
    intro target path hne
    rw [show entries (walkItem C cfg jobUuid it w).world.db jobUuid target path = _ from
      hadds.entries_eq h.kept.keyed jobUuid target path] at hne
    split at hne
    · rename_i heq
      rw [← heq.2]
      exact ⟨it.disk, hseen⟩
    · rw [List.append_nil] at hne
      exact h.collected target path hne
  rcases h.visit_cases hrep hseen herr with
    ⟨-, hdb⟩ | ⟨rec, -, hdb, -⟩ | ⟨op, rec, db, p, hdecide, hfiles, hloop, hdb, hsettled⟩
  · rw [hdb]
    exact h
  · obtain ⟨hfiles, -, hfailed⟩ := collectTarget_tables jobUuid it.path it.targets w.db
    refine ⟨h.kept.walk, ?_, hentries, ?_⟩
    · rw [hdb, hfiles]
      exact h.rows
    · rw [hdb, hfailed]
      exact h.failedFiles
  · obtain ⟨hloopFiles, hloopFailed⟩ := operate_files hloop
    obtain ⟨hold, -, -, hfailed⟩ := filesEntry_files hfiles
    refine ⟨h.kept.walk, ?_, hentries, ?_⟩
    · intro f hf
      rw [hdb, hloopFiles] at hf
      rcases hold f hf with rfl | ⟨hmem, -⟩
      · right
        refine ⟨it.disk, ?_, hsettled⟩
        rw [show (filesRow rec).path = it.path from (decideItem_operate hdecide).path_eq]
        exact hseen
      · exact h.rows f hmem
    · rw [hdb, hloopFailed, hfailed]
      exact h.failedFiles

end

/-! ### What was sent -/

section

variable {C : Cloud} {pathMatch : Str → Str → Option Bool} {cfg : ConfigBackup} {jobUuid : Str} {rec : Record}
  {db : Db} {row : RemoteFile}

/-- The next row of a path and a target can be collected. -/
theorem newestUuid_addedRows_self (hmarker : row.deleteMarker = false) (huuid : row.uuid ≠ [])
    (hversion : row.version = calcRemoteFileVersion db row.localPath row.target) :
    (getNewestRemoteFileUuid (addedRows db row) row.localPath row.target).isSome = true := by
  have hnewest : ((versionsOf (addedRows db row) row.localPath row.target).filter (!·.deleteMarker)).argmax
      RemoteFile.version = some row := by
    change ((versionsOf { db with remoteFiles := db.remoteFiles ++ [row] } row.localPath row.target).filter
      (!·.deleteMarker)).argmax RemoteFile.version = some row
    rw [versionsOf_append, if_pos ⟨rfl, rfl⟩, List.filter_append,
      List.filter_cons_of_pos (by simp [hmarker]), List.filter_nil, List.argmax_concat]
    cases hm : ((versionsOf db row.localPath row.target).filter (!·.deleteMarker)).argmax
        RemoteFile.version with
    | none => rfl
    | some m =>
        have hmem : m ∈ versionsOf db row.localPath row.target :=
          List.mem_of_mem_filter (List.argmax_mem (Option.mem_def.mpr hm))
        have hlt : m.version < row.version := by
          rw [hversion]
          exact version_lt_calc hmem
        simp [hlt]
  rw [getNewestRemoteFileUuid, hnewest]
  simp [huuid]

/-- A delete marker does not count, and neither does the row of another path. -/
theorem newestUuid_addedRows_of_ne {path target : Str}
    (h : row.deleteMarker = true ∨ ¬ (row.localPath = path ∧ row.target = target)) :
    getNewestRemoteFileUuid (addedRows db row) path target = getNewestRemoteFileUuid db path target := by
  have hversions : (versionsOf (addedRows db row) path target).filter (!·.deleteMarker) =
      (versionsOf db path target).filter (!·.deleteMarker) := by
    change (versionsOf { db with remoteFiles := db.remoteFiles ++ [row] } path target).filter
      (!·.deleteMarker) = _
    rw [versionsOf_append, List.filter_append]
    split
    · rename_i heq
      rw [List.filter_cons_of_neg (by simp [h.resolve_right (not_not.mpr heq)]), List.filter_nil,
        List.append_nil]
    · rw [List.filter_nil, List.append_nil]
  rw [getNewestRemoteFileUuid, getNewestRemoteFileUuid, hversions]

/-- The row that a pass adds has the uuid that was drawn for it. -/
theorem operateTarget_uuid {op : Operation} {t : Target} {p p' : Pass}
    (h : operateTarget C cfg op rec t p = .next p') :
    (op.operationType = .upload ∧ (∃ reason, preUploadCheck rec cfg t.store = some reason) ∧ p'.db = p.db) ∨
    ∃ uuid remoteVersion, t.newV4 = some uuid ∧
      p'.db = addedRows p.db (nextRow uuid t rec.jobUuid false rec remoteVersion p.db) := by
  have hadd : ∀ {q : Pass} {remoteVersion}, addRows t rec.jobUuid false rec
      (calcRemoteFileVersion p.db rec.path t.store.name) remoteVersion q = .next p' → q.db = p.db →
      ∃ uuid remoteVersion, t.newV4 = some uuid ∧
        p'.db = addedRows p.db (nextRow uuid t rec.jobUuid false rec remoteVersion p.db) := by
    intro q remoteVersion hrows hq
    rcases addRows_cases t rec.jobUuid false rec (calcRemoteFileVersion p.db rec.path t.store.name)
      remoteVersion q with ⟨-, e, db, hstop⟩ | ⟨-, uuid, huuid, -, hnext⟩
    · rw [hstop] at hrows
      cases hrows
    · rw [hnext] at hrows
      cases hrows
      exact ⟨uuid, remoteVersion, huuid, by rw [← hq]; rfl⟩
  unfold operateTarget at h
  split at h
  · rename_i hop
    unfold uploadTarget at h
    split at h
    · cases h
    · split at h
      · rename_i reason hskip
        cases h
        exact .inl ⟨hop, ⟨reason, hskip⟩, rfl⟩
      · dsimp only at h
        split at h
        · cases h
        · split at h
          · cases h
          · exact .inr (hadd h rfl)
  · unfold updateTarget at h
    split at h
    · cases h
    · dsimp only at h
      split at h
      · cases h
      · split at h
        · cases h
        · split at h
          · cases h
          · exact .inr (hadd h rfl)

/-- The loop of `UploadAndUpdateDB`, if no target is skipped and the uuids are not empty. -/
theorem operate_newestUuid {op : Operation} {targets : List Target} {p p' : Pass}
    (hskip : op.operationType = .upload → ∀ t ∈ targets, preUploadCheck rec cfg t.store = none)
    (hnew : ∀ t ∈ targets, t.newV4 ≠ some [])
    (h : forEach (operateTarget C cfg op rec) targets p = .next p') :
    (∀ path target, (getNewestRemoteFileUuid p.db path target).isSome = true →
      (getNewestRemoteFileUuid p'.db path target).isSome = true) ∧
    ∀ t ∈ targets, (getNewestRemoteFileUuid p'.db rec.path t.store.name).isSome = true := by
  refine forEach_next (I := fun (pre : List Target) (q : Pass) =>
    (∀ path target, (getNewestRemoteFileUuid p.db path target).isSome = true →
      (getNewestRemoteFileUuid q.db path target).isSome = true) ∧
    ∀ t ∈ pre, (getNewestRemoteFileUuid q.db rec.path t.store.name).isSome = true)
    ⟨fun _ _ => id, by simp⟩ ?_ h
  rintro pre t post q q' rfl ⟨hold, hpre⟩ hstep
  rcases operateTarget_uuid hstep with ⟨hop, ⟨reason, hsome⟩, -⟩ | ⟨uuid, remoteVersion, huuid, hdb⟩
  · rw [hskip hop t (by simp)] at hsome
    cases hsome
  · have hself : (getNewestRemoteFileUuid q'.db rec.path t.store.name).isSome = true := by
      rw [hdb]
      refine @newestUuid_addedRows_self q.db (nextRow uuid t rec.jobUuid false rec remoteVersion q.db) rfl ?_ rfl
      rintro rfl
      exact hnew t (by simp) huuid
    have hkeeps : ∀ path target, (getNewestRemoteFileUuid q.db path target).isSome = true →
        (getNewestRemoteFileUuid q'.db path target).isSome = true := by
      intro path target hsome
      by_cases heq : rec.path = path ∧ t.store.name = target
      · obtain ⟨rfl, rfl⟩ := heq
        exact hself
      · rw [hdb, newestUuid_addedRows_of_ne (.inr heq)]
        exact hsome
    refine ⟨fun path target hsome => hkeeps path target (hold path target hsome), ?_⟩
    intro t' ht'
    rcases List.mem_append.mp ht' with ht' | ht'
    · exact hkeeps _ _ (hpre t' ht')
    · obtain rfl := List.mem_singleton.mp ht'
      exact hself

/-- A delete marker changes nothing about what can be collected. -/
theorem markEntry_newestUuid {e : Entry} {w : World} (path target : Str) :
    getNewestRemoteFileUuid (markEntry C pathMatch cfg jobUuid e w).world.db path target =
      getNewestRemoteFileUuid w.db path target := by
  rcases markEntry_cases C pathMatch cfg jobUuid e w with hdb | ⟨rec, p, -, hloop, hworld, -⟩
  · rw [hdb]
  · rw [hworld]
    change getNewestRemoteFileUuid p.db path target = _
    refine forEach_next (I := fun (_ : List Target) (q : Pass) =>
      getNewestRemoteFileUuid q.db path target = getNewestRemoteFileUuid w.db path target) ?_ ?_ hloop
    · exact getNewestRemoteFileUuid_congr rfl path target
    · rintro pre t post q q' - hq hstep
      obtain ⟨sent, b, -, -, -, -, -, uuid, -, hdb⟩ := markTarget_next hstep
      rw [hdb, newestUuid_addedRows_of_ne (.inl rfl)]
      exact hq

end

/-! ### The scan of the first run -/

section

variable {C : Cloud} {pathMatch : Str → Str → Option Bool} {cfg : ConfigBackup} {dereference : Bool}
  {v : Volume} {lstat : Str → Lstat} {target jobUuid : Str} {env env' : Surroundings} {rounds : ℕ → Round}
  {s t : Scanning} {m : Marking} {it : Item} {w : World} {path : Str} {stat : OnDisk}

theorem FlawlessRun.settling (hrun : FlawlessRun C pathMatch cfg dereference v jobUuid env target rounds s t m)
    (hkept : WellKept s.world.db)
    (hrep : Repeatable pathMatch cfg dereference v lstat target env env' s.world.db) :
    Settling pathMatch cfg dereference v jobUuid s.world.db t.world.db ∧
      ∀ it w, Visits pathMatch cfg dereference v C jobUuid env s it w →
        Settling pathMatch cfg dereference v jobUuid s.world.db w.db := by
  have hstart : Settling pathMatch cfg dereference v jobUuid s.world.db s.world.db := by
    refine ⟨hkept, fun f hf => .inl hf, ?_, hrun.failedFiles⟩
    intro target path hne
    exact absurd (entries_eq_nil_of_target fun c hc hjob => absurd hjob (hrun.collections c hc)) hne
  have hvisits := visits_invariant (I := fun w => Settling pathMatch cfg dereference v jobUuid s.world.db w.db)
    hstart fun it w hvisit h => h.visit hrep hvisit.seen (hrun.items it w hvisit).1
  rw [hrun.scan] at hvisits
  exact hvisits

/-- After the scan everything that was seen has a settled row. -/
theorem FlawlessRun.settledAt (hrun : FlawlessRun C pathMatch cfg dereference v jobUuid env target rounds s t m)
    (hkept : WellKept s.world.db)
    (hrep : Repeatable pathMatch cfg dereference v lstat target env env' s.world.db)
    (hseen : Seen pathMatch cfg dereference v path stat) : SettledAt cfg path stat t.world.db := by
  obtain ⟨it, w, hvisit, rfl, rfl, hcan⟩ := visits_of_seen hrun.scan hseen
  have hsettling := (hrun.settling hkept hrep).2
  have herr := (hrun.items it w hvisit).1
  have hend := hvisit.lasts
    (P := fun w => Settling pathMatch cfg dereference v jobUuid s.world.db w.db ∧ SettledAt cfg it.path it.disk w.db)
    (fun it' w' hvisit' h =>
      ⟨h.1.visit hrep hvisit'.seen (hrun.items it' w' hvisit').1,
        h.1.stays hrep hvisit'.seen (hrun.items it' w' hvisit').1 hseen h.2⟩)
    ⟨(hsettling it w hvisit).visit hrep hvisit.seen herr,
      (hsettling it w hvisit).settles hrep hvisit.seen herr hcan⟩
  rw [hrun.scan] at hend
  exact hend.2

def SentIfKnown (target path : Str) (db : Db) : Prop :=
  (∃ f ∈ db.files, f.path = path) → (getNewestRemoteFileUuid db path target).isSome = true

theorem SentIfKnown.visit (hrun : FlawlessRun C pathMatch cfg dereference v jobUuid env target rounds s t m)
    (hrep : Repeatable pathMatch cfg dereference v lstat target env env' s.world.db)
    (henters : Enters target env) (hvisit : Visits pathMatch cfg dereference v C jobUuid env s it w)
    (hsettling : Settling pathMatch cfg dereference v jobUuid s.world.db w.db)
    (h : SentIfKnown target path w.db) :
    SentIfKnown target path (walkItem C cfg jobUuid it w).world.db := by
  obtain ⟨herr, hskips⟩ := hrun.items it w hvisit
  rcases hsettling.visit_cases hrep hvisit.seen herr with
    ⟨-, hdb⟩ | ⟨rec, -, hdb, -⟩ | ⟨op, rec, db, p, hdecide, hfiles, hloop, hdb, -⟩
  · rw [hdb]
    exact h
  · obtain ⟨hfiles, hremote, -⟩ := collectTarget_tables jobUuid it.path it.targets w.db
    unfold SentIfKnown
    rw [hdb, hfiles, getNewestRemoteFileUuid_congr hremote]
    exact h
  · have hskip : op.operationType = .upload → ∀ t ∈ it.targets, preUploadCheck rec cfg t.store = none := by
      intro hop
      simpa [skipsNone, hdecide, hop] using hskips
    obtain ⟨turn, hitem⟩ := hvisit.item
    obtain ⟨-, hnew, t', ht', rfl, -⟩ := henters turn
    have htargets : it.targets = (env.item turn).targets := by rw [hitem]
    rw [← htargets] at hnew ht'
    obtain ⟨hold, hsent⟩ := operate_newestUuid hskip hnew hloop
    obtain ⟨hrows, hremote, -⟩ := filesEntry_files hfiles
    rw [hdb]
    rintro ⟨f, hf, rfl⟩
    rw [(operate_files hloop).1] at hf
    rcases hrows f hf with rfl | ⟨hmem, -⟩
    · exact hsent t' ht'
    · apply hold
      change (getNewestRemoteFileUuid db f.path t'.store.name).isSome = true
      rw [getNewestRemoteFileUuid_congr hremote]
      exact h ⟨f, hmem, rfl⟩

/-- After the scan an item that has been sent to the first target is collected for it. -/
theorem FlawlessRun.collected (hrun : FlawlessRun C pathMatch cfg dereference v jobUuid env target rounds s t m)
    (hkept : WellKept s.world.db)
    (hrep : Repeatable pathMatch cfg dereference v lstat target env env' s.world.db)
    (henters : Enters target env) (hseen : Seen pathMatch cfg dereference v path stat)
    (hsent : SentIfKnown target path s.world.db) :
    path ∈ collectedPaths t.world.db jobUuid target ∧
      (getNewestRemoteFileUuid t.world.db path target).isSome = true := by
  obtain ⟨hend, hvisits⟩ := visits_invariant (I := fun w => SentIfKnown target path w.db) hsent
    fun it w hvisit h => h.visit hrun hrep henters hvisit ((hrun.settling hkept hrep).2 it w hvisit)
  rw [hrun.scan] at hend
  obtain ⟨f, hf, hfpath, -⟩ := hrun.settledAt hkept hrep hseen
  refine ⟨?_, hend ⟨f, hf, hfpath⟩⟩
  obtain ⟨it, w, hvisit, rfl, rfl, hcan⟩ := visits_of_seen hrun.scan hseen
  obtain ⟨herr, hskips⟩ := hrun.items it w hvisit
  obtain ⟨turn, hitem⟩ := hvisit.item
  obtain ⟨-, -, t', ht', rfl, hquery, hcollections⟩ := henters turn
  have htargets : it.targets = (env.item turn).targets := by rw [hitem]
  rw [← htargets] at ht'
  have hcollected : InCollection (walkItem C cfg jobUuid it w).world.db jobUuid it.path t'.store.name := by
    rcases ((hrun.settling hkept hrep).2 it w hvisit).visit_cases hrep hvisit.seen herr with
      ⟨hcan', -⟩ | ⟨rec, hdecide, -, g, hg, hgpath, -⟩ | ⟨op, rec, db, p, hdecide, -, hloop, hdb, -⟩
    · rw [hcan] at hcan'
      cases hcan'
    · exact upToDate_inCollection hdecide hcan ht' hquery hcollections (hvisits it w hvisit ⟨g, hg, hgpath⟩)
    · have hskip : op.operationType = .upload → ∀ t ∈ it.targets, preUploadCheck rec cfg t.store = none := by
        intro hop
        simpa [skipsNone, hdecide, hop] using hskips
      have hdesc := decideItem_operate hdecide
      rw [hdb, ← hdesc.path_eq, ← hdesc.jobUuid_eq]
      exact (operate_inCollection hskip hloop).2.2 t' ht'
  have hlast := hvisit.lasts (P := fun w => InCollection w.db jobUuid it.path t'.store.name)
    (fun _ _ _ => InCollection.visit) hcollected
  rw [hrun.scan] at hlast
  exact hlast.mem_collectedPaths

end

/-! ### Deleted items of the first run -/

/-- What holds while the first run looks for deleted items: what was seen stays, and
the rows that go are not needed to collect anything else. -/
structure Searching (pathMatch : Str → Str → Option Bool) (cfg : ConfigBackup) (dereference : Bool)
    (v : Volume) (jobUuid : Str) (db₀ db : Db) : Prop where
  kept : WellKept db
  since : Since jobUuid db₀ db
  settled : ∀ path stat, Seen pathMatch cfg dereference v path stat → SettledAt cfg path stat db
  newest : ∀ path target, getNewestRemoteFileUuid db path target = getNewestRemoteFileUuid db₀ path target

section

variable {C : Cloud} {pathMatch : Str → Str → Option Bool} {cfg : ConfigBackup} {dereference : Bool}
  {v : Volume} {lstat : Str → Lstat} {target jobUuid : Str} {w : World} {db₀ : Db}

theorem Searching.mark {e : Entry} (h : Searching pathMatch cfg dereference v jobUuid db₀ w.db)
    (hcandidate : e.path ∈ candidates jobUuid target db₀)
    (hcollected : ∀ path stat, Seen pathMatch cfg dereference v path stat → ∀ rec : Record, rec.path = path →
      rec.props.type = stat.fileType → gone pathMatch cfg e.lstat rec = true → path = e.path →
      path ∈ collectedPaths db₀ jobUuid target) :
    Searching pathMatch cfg dereference v jobUuid db₀ (markEntry C pathMatch cfg jobUuid e w).world.db := by
  refine ⟨h.kept.mark, h.since.markEntry, ?_, fun path target => ?_⟩
  · intro path stat hseen
    obtain ⟨f, hf, hpath, hsettled⟩ := h.settled path stat hseen
    cases hmarks : marks C pathMatch cfg jobUuid e w with
    | false =>
        rw [markEntry_of_not_marks hmarks]
        exact ⟨f, hf, hpath, hsettled⟩
    | true =>
        refine ⟨f, ?_, hpath, hsettled⟩
        rw [(markEntry_of_marks hmarks).2.files]
        refine List.mem_filter.mpr ⟨hf, decide_eq_true ?_⟩
        intro heq
        -- the item would be gone, and so it was collected and is not a candidate
        unfold marks at hmarks
        split at hmarks
        · rename_i rec hrec
          obtain ⟨g, hg, hgpath, rfl⟩ := getBackedup_row hrec
          obtain rfl := h.kept.eq_of_path hf hg (heq.trans hgpath.symm)
          simp only [Bool.and_eq_true] at hmarks
          exact (mem_candidates.mp hcandidate).2.1 (heq ▸ hpath ▸
            hcollected path stat hseen _ hpath hsettled.type hmarks.1.1.1.1 (hpath.symm.trans heq))
        · cases hmarks
  · rw [markEntry_newestUuid]
    exact h.newest path target

/-! ### The last call -/

theorem fetchRow_events (r : Round) (path : Str) (found : List Str × List Event) :
    found.2 ⊆ (fetchRow r path found).state.2 := by
  unfold fetchRow
  split
  · exact fun _ => id
  · exact List.subset_append_left _ _
  · exact fun _ => id

/-- Rows that were all fetched without a failure have all been found. -/
theorem fetchAll_next {r : Round} {l : List Str} {found found' : List Str × List Event}
    (h : forEach (fetchRow r) l found = .next found') (hfine : ∀ ev ∈ found'.2, ev.counter.failure = false) :
    found'.1 = found.1 ++ l := by
  induction l generalizing found with
  | nil =>
      cases h
      rw [List.append_nil]
  | cons path l ih =>
      have hkeeps : ∀ found₁, forEach (fetchRow r) l found₁ = .next found' → found₁.2 ⊆ found'.2 := by
        intro found₁ hnext
        have hinv : found₁.2 ⊆ (forEach (fetchRow r) l found₁).state.2 :=
          forEach_invariant (I := fun x : List Str × List Event => found₁.2 ⊆ x.2)
            (fun a _ x hx ev hev => fetchRow_events r a x (hx hev)) (List.Subset.refl _)
        rw [hnext] at hinv
        exact hinv
      cases hfetch : r.fetch path with
      | ok =>
          rw [forEach_cons_next (by rw [fetchRow, hfetch])] at h
          rw [ih h, List.append_assoc]
          rfl
      | scanFailed =>
          rw [forEach_cons_next (by rw [fetchRow, hfetch])] at h
          have hev := hfine _ (hkeeps _ h (List.mem_append_right _ (List.mem_singleton.mpr rfl)))
          cases hev
      | cancelled =>
          rw [forEach_cons_stop (by rw [fetchRow, hfetch])] at h
          cases h

theorem markFound_events (r : Round) (path : Str) (s : Marking) :
    s.events ⊆ (markFound C pathMatch cfg jobUuid r path s).state.events := by
  unfold markFound
  split
  · exact fun _ => id
  · dsimp only
    split
    · exact List.subset_append_left _ _
    · split <;> exact List.subset_append_left _ _

theorem markFound_stop {r : Round} {path : Str} {s s' : Marking} {ending : Ending}
    (h : markFound C pathMatch cfg jobUuid r path s = .stop ending s') : ending ≠ .returned false := by
  unfold markFound at h
  split at h
  · cases h
    simp
  · dsimp only at h
    split at h
    · cases h
      simp
    · split at h
      · cases h
        simp
      · cases h

/-- The last call, if nothing has failed, goes through all of the candidates. -/
theorem call_returned {r : Round} {s m : Marking} {maxResults : ℕ}
    (h : call C pathMatch cfg jobUuid target maxResults r s = .stop (.returned false) m)
    (hfine : ∀ ev ∈ m.events, ev.counter.failure = false) :
    ∃ s' : Marking, s'.world = s.world ∧ forEach (markFound C pathMatch cfg jobUuid r)
      (deletionCandidates s.world.db jobUuid target) s' = .next m := by
  unfold call at h
  split at h
  · cases h
    have hev := hfine ⟨.failedToFindDeleted, []⟩ (List.mem_append_right _ (List.mem_singleton.mpr rfl))
    cases hev
  · split at h
    · cases h
    · rename_i found hfetch
      split at h
      · rename_i ending s' hstop
        cases h
        obtain ⟨pre, path, post, u, -, -, hpass⟩ := forEach_stop hstop
        exact absurd rfl (markFound_stop hpass)
      · rename_i s' hnext
        split at h
        · cases h
          have hev := hfine ⟨.failedToFindDeleted, []⟩ (List.mem_append_right _ (List.mem_singleton.mpr rfl))
          cases hev
        · rename_i hends
          split at h
          · cases h
          · rename_i hlen
            cases h
            have hevents : (s.count found.2).events ⊆ m.events := by
              have hinv : (s.count found.2).events ⊆
                  (forEach (markFound C pathMatch cfg jobUuid r) found.1 (s.count found.2)).state.events :=
                forEach_invariant (I := fun x : Marking => (s.count found.2).events ⊆ x.events)
                  (fun path _ x hx ev hev => markFound_events r path x (hx hev)) (List.Subset.refl _)
              rw [hnext] at hinv
              exact hinv
            have hfound : found.1 = rows jobUuid target maxResults r s.world.db :=
              fetchAll_next hfetch fun ev hev => hfine ev (hevents (List.mem_append_right _ hev))
            rw [rows, Option.not_isSome_iff_eq_none.mp hends] at hfound
            have hall : found.1 = deletionCandidates s.world.db jobUuid target := by
              rw [hfound] at hlen ⊢
              change (deletionCandidates s.world.db jobUuid target).take maxResults = _
              change ¬ maxResults ≤ ((deletionCandidates s.world.db jobUuid target).take maxResults).length at hlen
              rw [List.length_take] at hlen
              exact List.take_of_length_le (by omega)
            rw [hall] at hnext
            exact ⟨s.count found.2, rfl, hnext⟩

/-- A path that raises no failure is marked if it is gone. -/
theorem markEntry_fine {e : Entry}
    (h : ∀ ev ∈ (markEntry C pathMatch cfg jobUuid e w).events, ev.counter.failure = false) :
    ∃ rec, getBackedupObjectPropertiesFromDb e.queryOk w.db e.path = .ok (some rec) ∧
      (rec.props.type ≠ .unknown → gone pathMatch cfg e.lstat rec = true →
        marks C pathMatch cfg jobUuid e w = true) := by
  cases hread : getBackedupObjectPropertiesFromDb e.queryOk w.db e.path with
  | error err =>
      rw [markEntry, hread] at h
      cases h _ (List.mem_singleton.mpr rfl)
  | ok found =>
      cases found with
      | none =>
          rw [markEntry, hread] at h
          cases h _ (List.mem_singleton.mpr rfl)
      | some rec =>
          refine ⟨rec, rfl, fun htype hgone => ?_⟩
          rw [← Bool.not_eq_false]
          intro hmarks
          rw [marks, hread] at hmarks
          dsimp only at hmarks
          rw [hgone, Bool.true_and] at hmarks
          obtain ⟨hcan, hnil⟩ := @putMarkers_undisturbed C jobUuid e.stmts e.targets rec w
          have herr : (putMarkers C e.stmts e.targets jobUuid rec w).err.isSome = true := by
            rcases (putMarkers_of_not_takes hmarks).2 with htrue | hne
            · cases htrue.symm.trans hcan
            · exact Option.isSome_iff_ne_none.mpr hne
          rw [markEntry, hread] at h
          dsimp only at h
          rw [markDeleted_of_gone hgone, if_neg (by simp [hcan, hnil]), herr, updateCounters, if_neg htype] at h
          cases h _ (List.mem_append_right _ (List.mem_singleton.mpr rfl))

theorem markFound_files (r : Round) (path : Str) (s : Marking) :
    (markFound C pathMatch cfg jobUuid r path s).state.world.db.files ⊆ s.world.db.files := by
  rcases @markFound_world C pathMatch cfg jobUuid r path s with heq | heq
  · rw [heq]
    exact fun _ => id
  · rw [heq]
    exact ((Since.refl s.world.db : Since jobUuid _ _).markEntry).files

/-- What is left after a loop without a failure, at the paths of the loop, is not gone. -/
theorem markAll_fine {r : Round} {paths : List Str} {s m : Marking} (hkept : WellKept s.world.db)
    (h : forEach (markFound C pathMatch cfg jobUuid r) paths s = .next m)
    (hfine : ∀ ev ∈ m.events, ev.counter.failure = false) {f : FilesRow} (hf : f ∈ m.world.db.files)
    (hpath : f.path ∈ paths) : gone pathMatch cfg (r.entry f.path).lstat (recordOf f) = false := by
  obtain ⟨x, x', hcomes, hpass⟩ := comesTo_of_next h hpath
  -- a row that is missing after the pass would be missing at the end
  have hstays : f ∈ x'.world.db.files := by
    by_contra hnot
    have hend := hcomes.lasts (P := fun y : Marking => f ∉ y.world.db.files)
      (fun path y _ hy hmem => hy (markFound_files r path y hmem)) (by rw [hpass]; exact hnot)
    rw [h] at hend
    exact hend hf
  obtain ⟨hworld, hadded⟩ := markFound_next hpass
  have hthere : f ∈ x.world.db.files := by
    have hsub := @markFound_files C pathMatch cfg jobUuid r f.path x
    rw [hpass] at hsub
    exact hsub hstays
  have hxkept : WellKept x.world.db := by
    refine (comesTo_invariant (I := fun y : Marking => WellKept y.world.db) hkept ?_).2 f.path x hcomes
    intro path y _ hy
    rcases @markFound_world C pathMatch cfg jobUuid r path y with heq | heq
    · rw [heq]
      exact hy
    · rw [heq]
      exact hy.mark
  have hevents : ∀ ev ∈ (markEntry C pathMatch cfg jobUuid { r.entry f.path with path := f.path } x.world).events,
      ev.counter.failure = false := by
    intro ev hev
    have hmem : ev ∈ x'.events := by
      rw [hadded]
      exact List.mem_append_right _ hev
    have hend := hcomes.lasts (P := fun y : Marking => ev ∈ y.events)
      (fun path y _ hy => markFound_events r path y hy) (by rw [hpass]; exact hmem)
    rw [h] at hend
    exact hfine ev hend
  obtain ⟨rec, hrec, hmarks⟩ := markEntry_fine hevents
  obtain ⟨g, hg, hgpath, rfl⟩ := getBackedup_row hrec
  obtain rfl := hxkept.eq_of_path hg hthere hgpath
  rw [← Bool.not_eq_true]
  intro hgone
  have hunlisted := (markEntry_of_marks (hmarks (hxkept.known g hg) hgone)).2
  rw [← hworld] at hunlisted
  exact (hunlisted.mem_files.mp (List.mem_map_of_mem hstays)).2 rfl

end

section

variable {C : Cloud} {pathMatch : Str → Str → Option Bool} {cfg : ConfigBackup} {dereference : Bool}
  {v : Volume} {lstat : Str → Lstat} {target jobUuid : Str} {env env' : Surroundings} {rounds : ℕ → Round}
  {s t : Scanning} {m : Marking}

theorem entries_ne_nil_of_collected {db : Db} {path : Str} (h : path ∈ collectedPaths db jobUuid target) :
    entries db jobUuid target path ≠ [] := by
  obtain ⟨r, hr, rfl⟩ := List.mem_map.mp h
  obtain ⟨hmem, hany⟩ := List.mem_filter.mp hr
  obtain ⟨c, hc, heq⟩ := List.any_eq_true.mp hany
  rw [decide_eq_true_eq] at heq
  refine List.ne_nil_of_mem (a := c) (List.mem_filter.mpr ⟨hc, ?_⟩)
  have hstands : StandsFor db c r.localPath := ⟨r, hmem, heq.1.symm, rfl⟩
  simp [heq.2.1, heq.2.2, hstands]

/-- What holds wherever the search for deleted items gets to. -/
theorem FlawlessRun.searching (hrun : FlawlessRun C pathMatch cfg dereference v jobUuid env target rounds s t m)
    (hkept : WellKept s.world.db)
    (hrep : Repeatable pathMatch cfg dereference v lstat target env env' s.world.db)
    (hlstat : ∀ k path, ((rounds k).entry path).lstat = lstat path) (k : ℕ) {m' : Marking}
    (h : Searching pathMatch cfg dereference v jobUuid t.world.db m'.world.db) :
    Searching pathMatch cfg dereference v jobUuid t.world.db
      (call C pathMatch cfg jobUuid target maxResults (rounds k) m').state.world.db := by
  refine call_invariant
    (I := fun w => Searching pathMatch cfg dereference v jobUuid t.world.db w.db) h ?_
  intro path hpath w hw
  refine hw.mark (h.since.candidates (mem_foundEntries hpath)) ?_
  intro path' stat hseen rec hrecpath htype hgone heq
  rw [show path' = path from heq] at hseen hrecpath ⊢
  dsimp only at hgone
  rw [hlstat] at hgone
  obtain ⟨henters, -, hsent⟩ := hrep.gone path stat hseen rec hrecpath htype hgone
  exact (hrun.collected hkept hrep henters hseen fun ⟨f, hf, hfpath⟩ => hsent f hf hfpath).1

theorem FlawlessRun.searching_start
    (hrun : FlawlessRun C pathMatch cfg dereference v jobUuid env target rounds s t m)
    (hkept : WellKept s.world.db)
    (hrep : Repeatable pathMatch cfg dereference v lstat target env env' s.world.db) :
    Searching pathMatch cfg dereference v jobUuid t.world.db t.world.db :=
  ⟨(hrun.settling hkept hrep).1.kept, .refl _, fun _ _ => hrun.settledAt hkept hrep, fun _ _ => rfl⟩

/-- What is left in the end and would be taken for gone was seen. -/
theorem FlawlessRun.seen_of_gone (hrun : FlawlessRun C pathMatch cfg dereference v jobUuid env target rounds s t m)
    (hkept : WellKept s.world.db)
    (hrep : Repeatable pathMatch cfg dereference v lstat target env env' s.world.db)
    (hlstat : ∀ k path, ((rounds k).entry path).lstat = lstat path) {f : FilesRow}
    (hf : f ∈ m.world.db.files) (hgone : gone pathMatch cfg (lstat f.path) (recordOf f) = true) :
    ∃ stat, Seen pathMatch cfg dereference v f.path stat := by
  by_contra hunseen
  obtain ⟨fuel, hmark⟩ := hrun.mark
  obtain ⟨n, u, hu, hlast⟩ := untilStop_last hmark
  have hsearch : Searching pathMatch cfg dereference v jobUuid t.world.db u.world.db :=
    atPass_invariant (I := fun m' : Marking => Searching pathMatch cfg dereference v jobUuid t.world.db m'.world.db)
      (fun k _ hk => hrun.searching hkept hrep hlstat k hk) (hrun.searching_start hkept hrep) hu
  obtain ⟨s', hworld, hloop⟩ := call_returned hlast hrun.counters
  have hsub : m.world.db.files ⊆ u.world.db.files := by
    have hinv : (forEach (markFound C pathMatch cfg jobUuid (rounds n))
        (deletionCandidates u.world.db jobUuid target) s').state.world.db.files ⊆ u.world.db.files :=
      forEach_invariant (I := fun x : Marking => x.world.db.files ⊆ u.world.db.files)
        (fun path _ x hx _ hmem => hx (markFound_files (rounds n) path x hmem))
        (by rw [hworld]; exact fun _ => id)
    rw [hloop] at hinv
    exact hinv
  have hpath : f.path ∈ u.world.db.files.map FilesRow.path := List.mem_map_of_mem (hsub hf)
  have hsettling := (hrun.settling hkept hrep).1
  -- it was neither collected nor did it fail, so that the last call came to it
  have hcandidate : f.path ∈ deletionCandidates u.world.db jobUuid target := by
    rw [← List.mem_toFinset]
    refine mem_candidates.mpr ⟨hpath, ?_, ?_⟩
    · intro hmem
      exact hunseen (hsettling.collected target f.path
        (entries_ne_nil_of_collected ((hsearch.since.collected f.path hpath target).mp hmem)))
    · rw [hsearch.since.failedFiles]
      intro hmem
      obtain ⟨row, hrow, -⟩ := List.mem_map.mp hmem
      obtain ⟨hrow, hjob⟩ := List.mem_filter.mp hrow
      exact hsettling.failedFiles row hrow (of_decide_eq_true hjob)
  have hleft := markAll_fine (by rw [hworld]; exact hsearch.kept) hloop hrun.counters hf hcandidate
  rw [hlstat, hgone] at hleft
  cases hleft

theorem stable_of_run (hrun : FlawlessRun C pathMatch cfg dereference v jobUuid env target rounds s t m)
    (hkept : WellKept s.world.db)
    (hrep : Repeatable pathMatch cfg dereference v lstat target env env' s.world.db)
    (hlstat : ∀ k path, ((rounds k).entry path).lstat = lstat path) :
    Stable pathMatch cfg dereference v lstat target m.world.db ∧
      ∀ f ∈ m.world.db.files, gone pathMatch cfg (lstat f.path) (recordOf f) = true → Enters target env' := by
  obtain ⟨fuel, hmark⟩ := hrun.mark
  have hsearch : Searching pathMatch cfg dereference v jobUuid t.world.db m.world.db :=
    untilStop_invariant
      (I := fun m' : Marking => Searching pathMatch cfg dereference v jobUuid t.world.db m'.world.db)
      (fun k _ hk => hrun.searching hkept hrep hlstat k hk) (hrun.searching_start hkept hrep) hmark
  have hgone : ∀ f ∈ m.world.db.files, gone pathMatch cfg (lstat f.path) (recordOf f) = true →
      ∃ stat, Seen pathMatch cfg dereference v f.path stat ∧ Enters target env ∧ Enters target env' ∧
        SentIfKnown target f.path s.world.db := by
    intro f hf hgone
    obtain ⟨stat, hseen⟩ := hrun.seen_of_gone hkept hrep hlstat hf hgone
    obtain ⟨g, hg, hpath, hsettled⟩ := hsearch.settled f.path stat hseen
    obtain rfl := hsearch.kept.eq_of_path hg hf hpath
    obtain ⟨henters, henters', hsent⟩ := hrep.gone g.path stat hseen (recordOf g) rfl hsettled.type hgone
    exact ⟨stat, hseen, henters, henters', fun ⟨f', hf', hfpath⟩ => hsent f' hf' hfpath⟩
  refine ⟨⟨hsearch.kept.nodup, hsearch.settled, ?_⟩, ?_⟩
  · intro f hf hg
    obtain ⟨stat, hseen, henters, -, hsent⟩ := hgone f hf hg
    refine ⟨⟨stat, hseen⟩, ?_⟩
    rw [hsearch.newest]
    exact (hrun.collected hkept hrep henters hseen hsent).2
  · intro f hf hg
    obtain ⟨-, -, -, henters', -⟩ := hgone f hf hg
    exact henters'

/-- After a run in which nothing went wrong, a run with the same configuration over the
same disk finds nothing to do, if what the first one found is `Repeatable`. -/
theorem rerun_idempotent {job job' : Str} {rounds' : ℕ → Round} {s' : Scanning}
    (hhistory : Reaches (fun _ _ => True) (Action.apply C pathMatch) World.empty s.world)
    (hrun : FlawlessRun C pathMatch cfg dereference v job env target rounds s t m)
    (hrep : Repeatable pathMatch cfg dereference v lstat target env env' s.world.db)
    (hlstat : ∀ k path, ((rounds k).entry path).lstat = lstat path)
    (hlstat' : ∀ k path, ((rounds' k).entry path).lstat = lstat path) (hs' : s'.world = m.world) :
    Idle C pathMatch cfg dereference v job' env' target rounds' s' := by
  obtain ⟨hstable, henters⟩ := stable_of_run hrun (wellKept_reaches hhistory) hrep hlstat
  rw [← hs'] at hstable henters
  exact stable_run hstable hrep.comparable henters hlstat'

end

/-! ### A file with a checksum -/

def summedFile : OnDisk :=
  { smallFile 1 1 with getFileMD5Sum := some "89e74e640b8c46257a29de0616794d5d".toList }

def summedVolume : Volume where
  stat path := if path = "/file".toList then some summedFile else none
  lstat path := if path = "/file".toList then some summedFile else none
  readDirNames _ := none
  pathMax := 6
  isName := nofun
  nodup := nofun
  tooLong := by
    intro path hlong
    have hne : path ≠ "/file".toList := by
      rintro rfl
      exact absurd hlong (by decide)
    exact ⟨if_neg hne, if_neg hne⟩

def summedConfig : ConfigBackup := { encryptingConfig with checksum := true, paths := ["/file".toList] }

def summedItem (uuid : String) : Item := smoothItem "/file" summedFile [encryptingTarget uuid]

def summedSurroundings (uuid : String) : Surroundings :=
  ⟨fun _ _ => false, fun _ => true, fun _ => summedItem uuid⟩

theorem single_summed : Single (fun _ _ => none) summedConfig false summedVolume "/file".toList summedFile :=
  ⟨rfl, by decide, rfl, by decide⟩

theorem begins_summed (job : Str) (uuid : String) (w : World) :
    Begins false summedVolume job (summedSurroundings uuid) "/file".toList ⟨w, [], 0⟩
      ⟨w, [⟨job, "/file".toList, .file⟩], 0⟩ := by
  refine ⟨rfl, rfl, summedFile, ?_, ?_⟩
  · rw [single_summed.clean]
    rfl
  · rw [single_summed.clean]
    rfl

def summedRun (job : Str) (uuid : String) (w : World) : World :=
  (walkItem plainCloud summedConfig job (summedItem uuid) w).world

/-- Nothing goes wrong in the run, if the file can be sent and nothing else is left. -/
theorem flawless_summed {job : Str} {uuid : String} {w : World}
    (hresult : (walkItem plainCloud summedConfig job (summedItem uuid) w).cancelled = false ∧
      (walkItem plainCloud summedConfig job (summedItem uuid) w).err = none ∧
      skipsNone (.walk summedConfig job (summedItem uuid)) w = true)
    (hcandidates : deletionCandidates (summedRun job uuid w).db job "target".toList = [])
    (hcollections : ∀ c ∈ w.db.backupCollections, c.jobId ≠ job)
    (hfailed : ∀ f ∈ w.db.failedFiles, f.jobId ≠ job) :
    ∃ t, FlawlessRun plainCloud (fun _ _ => none) summedConfig false summedVolume job (summedSurroundings uuid)
      "target".toList (fun _ => smoothRound) ⟨w, [], 0⟩ t ⟨summedRun job uuid w, []⟩ := by
  have hbegins := begins_summed job uuid w
  obtain ⟨t, hscan, hworld⟩ := single_summed.scan (C := plainCloud) hbegins hresult.1
  have hworld' : t.world = summedRun job uuid w := hworld
  refine ⟨t, hscan, ⟨1, ?_⟩, ?_, nofun, hcollections, hfailed⟩
  · have hrows : rows job "target".toList maxResults smoothRound (summedRun job uuid w).db = [] := by
      change (deletionCandidates (summedRun job uuid w).db job "target".toList).take maxResults = []
      rw [hcandidates, List.take_nil]
    rw [hworld', findAndMarkDeleted, untilStop, call]
    dsimp only
    rw [hrows]
    rfl
  · intro it w' hvisit
    obtain ⟨rfl, rfl⟩ := (single_summed.visits hbegins).mp hvisit
    exact hresult.2

def encryptedWorld : World := encryptedUpload.apply plainCloud (fun _ _ => none) World.empty

/-- The run after the next one has nothing to do. -/
theorem rerun_idempotent_summed :
    Idle plainCloud (fun _ _ => none) summedConfig false summedVolume "third".toList
      (summedSurroundings "third") "target".toList (fun _ => smoothRound)
      ⟨summedRun "second".toList "second" encryptedWorld, [], 0⟩ := by
  have hfiles : encryptedWorld.db.files =
      [⟨"/file".toList, ⟨.file, [], 1, 1, 1, [], [], [], [], true⟩, "first".toList⟩] := by
    decide +kernel
  obtain ⟨t, hrun⟩ := @flawless_summed "second".toList "second" encryptedWorld (by decide +kernel)
    (by decide +kernel) (by decide +kernel) (by decide +kernel)
  have hcomparable : Comparable summedConfig summedFile :=
    ⟨by decide, ⟨1, by decide⟩, fun _ _ => ⟨_, rfl, by decide⟩, fun _ => rfl⟩
  have hrep : Repeatable (fun _ _ => none) summedConfig false summedVolume (fun _ => .found .file)
      "target".toList (summedSurroundings "second") (summedSurroundings "third") encryptedWorld.db := by
    refine ⟨?_, ?_, ?_⟩
    · intro path stat hseen
      obtain ⟨rfl, rfl⟩ := single_summed.seen hseen
      exact hcomparable
    · intro path stat _ f hf _ _ _
      rw [hfiles] at hf
      obtain rfl := List.mem_singleton.mp hf
      rfl
    · intro path stat hseen rec hpath htype hgone
      obtain ⟨rfl, rfl⟩ := single_summed.seen hseen
      have hincluded : isPathIncluded summedConfig.paths "/file".toList = true := by decide
      rw [gone, hpath, htype, hincluded] at hgone
      cases hgone
  exact rerun_idempotent (.step encryptedUpload .refl trivial) hrun hrep (fun _ _ => rfl) (fun _ _ => rfl) rfl

/-- The file was not encrypted before: it is sent again by the second run. -/
theorem not_idle_flag : ¬ ∀ (w : World) (t : Scanning) (m : Marking),
    Reaches (fun _ _ => True) (Action.apply plainCloud fun _ _ => none) World.empty w →
    FlawlessRun plainCloud (fun _ _ => none) summedConfig false summedVolume "second".toList
      (summedSurroundings "second") "target".toList (fun _ => smoothRound) ⟨w, [], 0⟩ t m →
    Idle plainCloud (fun _ _ => none) summedConfig false summedVolume "third".toList
      (summedSurroundings "third") "target".toList (fun _ => smoothRound) ⟨m.world, [], 0⟩ := by
  intro h
  obtain ⟨t, hrun⟩ := @flawless_summed "second".toList "second" firstWorld (by decide +kernel)
    (by decide +kernel) (by decide +kernel) (by decide +kernel)
  have hidle := h _ t _ (.step firstUpload .refl trivial) hrun
  have hvisit := (single_summed.visits (C := plainCloud) (begins_summed "third".toList "third"
    (summedRun "second".toList "second" firstWorld))).mpr ⟨rfl, rfl⟩
  obtain ⟨rec, hdecide⟩ := (hidle.visits _ _ hvisit).2 rfl
  have hagain : (decideItem summedConfig "third".toList (summedItem "third")
      (summedRun "second".toList "second" firstWorld).db).operation = some .contentUpdate := by
    decide +kernel
  rw [show decideItem summedConfig "third".toList (summedItem "third") _ = _ from hdecide] at hagain
  cases hagain

end CloudBackup.Backup
