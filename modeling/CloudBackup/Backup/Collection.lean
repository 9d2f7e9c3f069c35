import CloudBackup.Backup.TablesInStep

/-!
The collection of a backup job, from which it is restored. Every item that is
scanned should end up there for every target, or be reported: as a failed file,
or by the counter of skipped items.

Two things go wrong. For an item that is up to date, a target without a row for
it is passed over in silence. And an item that is skipped for a target counts as
uploaded. `collection_complete` says that a job without these two is complete.
-/

namespace CloudBackup.Backup

open Database ObjectStore Iteration

/-- The collection of a job holds a path for a target. -/
def InCollection (db : Db) (jobUuid path target : Str) : Prop :=
  ∃ r ∈ db.remoteFiles, r.localPath = path ∧ r.target = target ∧
    (⟨r.uuid, jobUuid, target⟩ : Collected) ∈ db.backupCollections

/-- The job says that it did not back up a path to a target. -/
def Reported (db : Db) (events : List Event) (jobUuid path target : Str) : Prop :=
  (∃ f ∈ db.failedFiles, f.jobId = jobUuid ∧ f.path = path) ∨
    ∃ reason, (⟨.skipped reason target, path⟩ : Event) ∈ events

def Counter.success : Counter → Bool
  | .uploaded _ => true
  | .updatedMetadata _ => true
  | .upToDate _ => true
  | _ => false

/-- A job so far: the world, the counters, and the paths that were scanned. -/
structure Job where
  world : World
  events : List Event
  scanned : List Str

def Action.scans : Action → List Str
  | .walk _ _ it => [it.path]
  | .mark _ _ _ => []

def Job.step (C : Cloud) (pathMatch : Str → Str → Option Bool) (a : Action) (j : Job) : Job :=
  let r := a.run C pathMatch j.world
  ⟨r.world, j.events ++ r.events, j.scanned ++ a.scans⟩

/-- Everything that was scanned is in the collection or reported, and what counts
as backed up is in the collection. -/
def CollectionComplete (jobUuid : Str) (names : List Str) (j : Job) : Prop :=
  (∀ path ∈ j.scanned, ∀ n ∈ names, InCollection j.world.db jobUuid path n ∨
    Reported j.world.db j.events jobUuid path n) ∧
  ∀ ev ∈ j.events, ev.counter.success = true → ∀ n ∈ names,
    InCollection j.world.db jobUuid ev.path n

def Action.statementsOk : Action → Bool
  | .walk _ _ it => it.queryOk && it.stmts.beginOk && it.stmts.filesOk && it.stmts.commitOk &&
      it.failedFilesOk && it.targets.all fun t =>
        t.queryOk && t.remoteVersionOk && t.remoteFilesOk && t.collectionsOk
  | .mark _ _ e => e.queryOk && e.stmts.beginOk && e.stmts.filesOk && e.stmts.commitOk &&
      e.targets.all fun t => t.queryOk && t.remoteVersionOk && t.remoteFilesOk && t.collectionsOk

/-- An item that is up to date has a row for every target, and an item that is
to be sent is not skipped. -/
def reachesAll (a : Action) (w : World) : Bool :=
  match a with
  | .mark _ _ _ => true
  | .walk cfg jobUuid it =>
      match decideItem cfg jobUuid it w.db with
      | .fail _ _ => true
      | .upToDate _ =>
          it.targets.all fun t => (getNewestRemoteFileUuid w.db it.path t.store.name).isSome
      | .operate op rec => op.operationType ≠ .upload ||
          it.targets.all fun t => preUploadCheck rec cfg t.store = none

/-! ### Rows stay -/

structure Grows (db db' : Db) : Prop where
  remoteFiles : db.remoteFiles ⊆ db'.remoteFiles
  backupCollections : db.backupCollections ⊆ db'.backupCollections
  failedFiles : db.failedFiles ⊆ db'.failedFiles

theorem Grows.refl (db : Db) : Grows db db := ⟨fun _ => id, fun _ => id, fun _ => id⟩

theorem Grows.trans {db db' db'' : Db} (h : Grows db db') (h' : Grows db' db'') : Grows db db'' :=
  ⟨fun _ hr => h'.remoteFiles (h.remoteFiles hr),
    fun _ hc => h'.backupCollections (h.backupCollections hc),
    fun _ hf => h'.failedFiles (h.failedFiles hf)⟩

theorem InCollection.grows {db db' : Db} {jobUuid path target : Str}
    (h : InCollection db jobUuid path target) (hg : Grows db db') :
    InCollection db' jobUuid path target := by
  obtain ⟨r, hr, hpath, htarget, hmem⟩ := h
  exact ⟨r, hg.remoteFiles hr, hpath, htarget, hg.backupCollections hmem⟩

theorem Reported.grows {db db' : Db} {events events' : List Event} {jobUuid path target : Str}
    (h : Reported db events jobUuid path target) (hg : Grows db db') (he : events ⊆ events') :
    Reported db' events' jobUuid path target := by
  rcases h with ⟨f, hf, hjob⟩ | ⟨reason, hev⟩
  · exact .inl ⟨f, hg.failedFiles hf, hjob⟩
  · exact .inr ⟨reason, he hev⟩

section

variable {C : Cloud} {cfg : ConfigBackup} {rec : Record} {t : Target} {jobUuid : Str}
  {deleteMarker : Bool} {remoteVersion : Str} {db db' : Db}

theorem AddsRow.grows (h : AddsRow t jobUuid deleteMarker rec remoteVersion db db') : Grows db db' := by
  obtain ⟨uuid, -, rfl⟩ := h
  exact ⟨fun _ hr => List.mem_append_left _ hr, fun _ hc => List.mem_append_left _ hc, fun _ => id⟩

theorem AddsRow.inCollection (h : AddsRow t jobUuid deleteMarker rec remoteVersion db db') :
    InCollection db' jobUuid rec.path t.store.name := by
  obtain ⟨uuid, -, rfl⟩ := h
  exact ⟨nextRow uuid t jobUuid deleteMarker rec remoteVersion db, by simp, rfl, rfl, by
    simp [nextRow, remoteFile]⟩

theorem grows_of_filesEntry {op : Operation} {ok : Bool} (h : filesEntry op ok rec db = some db') :
    Grows db db' := by
  obtain ⟨-, hr, hc, hf⟩ := filesEntry_files h
  exact ⟨by rw [hr]; exact fun _ => id, by rw [hc]; exact fun _ => id, by rw [hf]; exact fun _ => id⟩

/-- The loop of `UploadAndUpdateDB` for an item that is not skipped. -/
theorem operate_inCollection {op : Operation} {targets : List Target} {p p' : Pass}
    (hskip : op.operationType = .upload → ∀ t ∈ targets, preUploadCheck rec cfg t.store = none)
    (h : forEach (operateTarget C cfg op rec) targets p = .next p') :
    Grows p.db p'.db ∧ p'.events = p.events ∧
      ∀ t ∈ targets, InCollection p'.db rec.jobUuid rec.path t.store.name := by
  refine forEach_next (I := fun (pre : List Target) (q : Pass) => Grows p.db q.db ∧
    q.events = p.events ∧ ∀ t ∈ pre, InCollection q.db rec.jobUuid rec.path t.store.name)
    ⟨.refl p.db, rfl, by simp⟩ ?_ h
  rintro pre t post q q' hl ⟨hgrows, hevents, hcollected⟩ hstep
  rcases operateTarget_next hstep with ⟨hop, reason, hsome, -⟩ | ⟨hev, remoteVersion, hadd⟩
  · rw [hskip hop t (by simp [hl])] at hsome
    cases hsome
  · refine ⟨hgrows.trans hadd.grows, hev.trans hevents, ?_⟩
    intro t' ht'
    rcases List.mem_append.mp ht' with ht' | ht'
    · exact (hcollected t' ht').grows hadd.grows
    · obtain rfl := List.mem_singleton.mp ht'
      exact hadd.inCollection

theorem mark_grows {targets : List Target} {p p' : Pass}
    (h : forEach (markTarget C jobUuid rec) targets p = .next p') : Grows p.db p'.db := by
  refine forEach_next (I := fun (_ : List Target) (q : Pass) => Grows p.db q.db) (.refl p.db) ?_ h
  intro pre t post q q' _ hgrows hstep
  obtain ⟨sent, b, -, -, -, -, -, hadd⟩ := markTarget_next hstep
  exact hgrows.trans hadd.grows

end

/-! ### Items that are up to date -/

theorem getNewestRemoteFileUuid_congr {db db' : Db} (h : db'.remoteFiles = db.remoteFiles)
    (path target : Str) :
    getNewestRemoteFileUuid db' path target = getNewestRemoteFileUuid db path target := by
  rw [getNewestRemoteFileUuid, getNewestRemoteFileUuid, versionsOf, versionsOf, h]

theorem getNewestRemoteFileUuid_mem {db : Db} {path target uuid : Str}
    (h : getNewestRemoteFileUuid db path target = some uuid) :
    ∃ r ∈ db.remoteFiles, r.localPath = path ∧ r.target = target ∧ r.uuid = uuid := by
  unfold getNewestRemoteFileUuid at h
  split at h
  · rename_i r hr
    have hmem := List.argmax_mem (Option.mem_def.mpr hr)
    simp only [versionsOf, List.mem_filter, decide_eq_true_eq] at hmem
    split at h
    · cases h
    · exact ⟨r, hmem.1.1, hmem.1.2.1, hmem.1.2.2, Option.some.inj h⟩
  · cases h

theorem collectTarget_grows (jobUuid path : Str) (db : Db) (t : Target) :
    Grows db (collectTarget jobUuid path db t) := by
  unfold collectTarget
  split
  · exact .refl db
  · split
    · exact .refl db
    · split
      · exact .refl db
      · exact ⟨fun _ => id, fun _ hc => List.mem_append_left _ hc, fun _ => id⟩

theorem collect_grows (jobUuid path : Str) (targets : List Target) (db : Db) :
    Grows db (targets.foldl (collectTarget jobUuid path) db) := by
  induction targets generalizing db with
  | nil => exact .refl db
  | cons t targets ih => exact (collectTarget_grows jobUuid path db t).trans (ih _)

/-- The loop of `Do` for an item that has a row for a target. -/
theorem collect_inCollection_of_mem (jobUuid : Str) {path : Str} {targets : List Target} {db : Db}
    {t : Target} (ht : t ∈ targets) (hquery : t.queryOk = true) (hcollections : t.collectionsOk = true)
    (hrow : (getNewestRemoteFileUuid db path t.store.name).isSome = true) :
    InCollection (targets.foldl (collectTarget jobUuid path) db) jobUuid path t.store.name := by
  induction targets generalizing db with
  | nil => cases ht
  | cons t' targets ih =>
      have hrf : (collectTarget jobUuid path db t').remoteFiles = db.remoteFiles :=
        (collectTarget_tables jobUuid path [t'] db).2.1
      rcases List.mem_cons.mp ht with rfl | ht
      · obtain ⟨uuid, huuid⟩ := Option.isSome_iff_exists.mp hrow
        obtain ⟨r, hr, hpath, htarget, rfl⟩ := getNewestRemoteFileUuid_mem huuid
        refine InCollection.grows ⟨r, ?_, hpath, htarget, ?_⟩ (collect_grows jobUuid path targets _)
        · rw [hrf]
          exact hr
        · simp [collectTarget, hquery, hcollections, huuid, backupCollectionsInsert]
      · refine ih ht ?_
        rw [getNewestRemoteFileUuid_congr hrf]
        exact hrow

/-- The loop of `Do` for an item that has a row for every target. -/
theorem collect_inCollection (jobUuid : Str) {path : Str} {targets : List Target} {db : Db}
    (hok : ∀ t ∈ targets, t.queryOk = true ∧ t.collectionsOk = true)
    (hrow : ∀ t ∈ targets, (getNewestRemoteFileUuid db path t.store.name).isSome = true) :
    Grows db (targets.foldl (collectTarget jobUuid path) db) ∧ ∀ t ∈ targets,
      InCollection (targets.foldl (collectTarget jobUuid path) db) jobUuid path t.store.name :=
  ⟨collect_grows jobUuid path targets db, fun t ht =>
    collect_inCollection_of_mem jobUuid ht (hok t ht).1 (hok t ht).2 (hrow t ht)⟩

/-! ### Counters -/

/-- None of the counters is one of success. -/
def Quiet (events : List Event) : Prop := ∀ ev ∈ events, ev.counter.success = false

theorem Quiet.append {e e' : List Event} (h : Quiet e) (h' : Quiet e') : Quiet (e ++ e') := by
  intro ev hev
  rcases List.mem_append.mp hev with hev | hev
  · exact h ev hev
  · exact h' ev hev

theorem quiet_updateCounters_failed (op : OperationType) (hop : op ≠ .upToDate) (type : FileType)
    (path : Str) : Quiet (updateCounters op type path true) := by
  intro ev hev
  cases op <;> cases type <;> simp_all [updateCounters, Counter.success]

theorem quiet_updateCounters_markDeleted (type : FileType) (path : Str) (failed : Bool) :
    Quiet (updateCounters .markDeleted type path failed) := by
  intro ev hev
  cases failed <;> cases type <;> simp_all [updateCounters, Counter.success]

theorem newRecordWith_quiet {cfg : ConfigBackup} {jobUuid : Str} {it : Item} {checksum : Str}
    {e : ItemErr} {events : List Event} (h : newRecordWith cfg jobUuid it checksum = .fail e events) :
    Quiet events := by
  unfold newRecordWith at h
  split at h
  · cases h
    exact quiet_updateCounters_failed _ (by simp) _ _
  · split at h
    · cases h
      exact quiet_updateCounters_failed _ (by simp) _ _
    · cases h

theorem decideItem_quiet {cfg : ConfigBackup} {jobUuid : Str} {it : Item} {db : Db} {e : ItemErr}
    {events : List Event} (h : decideItem cfg jobUuid it db = .fail e events) : Quiet events := by
  unfold decideItem at h
  split at h
  · cases h
    exact quiet_updateCounters_failed _ (by simp) _ _
  · unfold newRecord at h
    split at h
    · split at h
      · exact newRecordWith_quiet h
      · exact newRecordWith_quiet h
      · cases h
        exact fun _ hev => absurd hev (by simp)
    · exact newRecordWith_quiet h
  · unfold existingRecord at h
    dsimp only at h
    split at h
    · cases h
      exact quiet_updateCounters_failed _ (by simp) _ _
    · split at h
      · split at h
        · cases h
          exact quiet_updateCounters_failed _ (by simp) _ _
        · cases h
      · split at h
        · split at h
          · cases h
            exact quiet_updateCounters_failed _ (by simp) _ _
          · cases h
        · cases h

section

variable {C : Cloud} {cfg : ConfigBackup} {rec : Record} {t : Target} {jobUuid : Str} {p : Pass}

theorem addRows_events (t : Target) (jobUuid : Str) (deleteMarker : Bool) (rec : Record)
    (version : ℕ) (remoteVersion : Str) (p : Pass) :
    (addRows t jobUuid deleteMarker rec version remoteVersion p).state.events = p.events := by
  obtain ⟨db, hdb⟩ := addRows_state t jobUuid deleteMarker rec version remoteVersion p
  rw [hdb]

theorem operateTarget_quiet {op : Operation} (h : Quiet p.events) :
    Quiet (operateTarget C cfg op rec t p).state.events := by
  unfold operateTarget
  split
  · unfold uploadTarget
    split
    · exact h
    · split
      · exact h.append (by simp [Quiet, Counter.success])
      · dsimp only
        split
        · exact h
        · split
          · exact h
          · rw [addRows_events]
            exact h
  · unfold updateTarget
    split
    · exact h
    · dsimp only
      split
      · exact h
      · split
        · exact h
        · split
          · exact h
          · rw [addRows_events]
            exact h

theorem markTarget_events : (markTarget C jobUuid rec t p).state.events = p.events := by
  unfold markTarget
  split
  · rfl
  · dsimp only
    split
    · rfl
    · split
      · rfl
      · rw [addRows_events]
        rfl

theorem finish_events (C : Cloud) (rec : Record) (commitOk : Bool) (db : Db) (flow : Flow Pass Halt) :
    (finish C rec commitOk db flow).events = flow.state.events := by
  cases flow with
  | stop halt p => cases halt <;> rfl
  | next p => cases commitOk <;> rfl

theorem countResult_quiet {op : OperationType} (hop : op ≠ .upToDate) {r : Result}
    (hr : r.err ≠ none) (h : Quiet r.events) : Quiet (countResult op rec r).events := by
  unfold countResult
  split
  · exact h
  · rw [Option.isSome_iff_ne_none.mpr hr]
    exact h.append (quiet_updateCounters_failed _ hop _ _)

theorem uploadAndUpdateDB_quiet {op : Operation} {stmts : Statements} {targets : List Target}
    {w : World} (h : (uploadAndUpdateDB C cfg op stmts targets rec w).err ≠ none) :
    Quiet (uploadAndUpdateDB C cfg op stmts targets rec w).events := by
  have hop : op.operationType ≠ .upToDate := by cases op <;> simp [Operation.operationType]
  have hnil : Quiet [] := fun _ hev => absurd hev (by simp)
  unfold uploadAndUpdateDB at h ⊢
  rw [countResult_err] at h
  refine countResult_quiet hop h ?_
  split
  · exact hnil
  · split
    · exact hnil
    · rw [finish_events]
      exact forEach_invariant (I := fun q : Pass => Quiet q.events)
        (fun t _ q hq => operateTarget_quiet hq) hnil

theorem walkItem_quiet {it : Item} {w : World} (h : (walkItem C cfg jobUuid it w).err ≠ none) :
    Quiet (walkItem C cfg jobUuid it w).events := by
  have hsame : (walkItem C cfg jobUuid it w).err = (doItem C cfg jobUuid it w).err ∧
      (walkItem C cfg jobUuid it w).events = (doItem C cfg jobUuid it w).events := by
    unfold walkItem
    dsimp only
    split <;> exact ⟨rfl, rfl⟩
  rw [hsame.1] at h
  rw [hsame.2]
  unfold doItem at h ⊢
  split
  · exact fun _ hev => absurd hev (by simp)
  · rename_i hctx
    rw [if_neg hctx] at h
    split
    · rename_i hfail
      exact decideItem_quiet hfail
    · rename_i hop
      rw [hop] at h
      exact uploadAndUpdateDB_quiet h
    · rename_i hup
      rw [hup] at h
      exact absurd rfl h

theorem markEntry_quiet (C : Cloud) (pathMatch : Str → Str → Option Bool) (cfg : ConfigBackup)
    (jobUuid : Str) (e : Entry) (w : World) : Quiet (markEntry C pathMatch cfg jobUuid e w).events := by
  have hnil : Quiet [] := fun _ hev => absurd hev (by simp)
  have hput : ∀ rec, (putMarkers C e.stmts e.targets jobUuid rec w).events = [] := by
    intro rec
    unfold putMarkers
    split
    · rfl
    · split
      · rfl
      · rw [finish_events]
        exact forEach_invariant (I := fun q : Pass => q.events = [])
          (fun t _ q hq => markTarget_events.trans hq) rfl
  have hmark : ∀ rec,
      (markDeleted C pathMatch cfg e.lstat e.stmts e.targets jobUuid rec w).events = [] := by
    intro rec
    unfold markDeleted
    split
    · split
      · rfl
      · rfl
      · exact hput rec
    · exact hput rec
  unfold markEntry
  split
  · simp [Quiet, Counter.success]
  · simp [Quiet, Counter.success]
  · dsimp only
    split
    · rw [hmark]
      exact hnil
    · change Quiet (_ ++ _)
      rw [hmark]
      exact hnil.append (quiet_updateCounters_markDeleted _ _ _)

end

/-! ### Jobs -/

/-- A step of the job: it belongs to the job and its targets, its statements
succeed, and it is not cancelled. -/
structure InJob (C : Cloud) (pathMatch : Str → Str → Option Bool) (jobUuid : Str) (names : List Str)
    (a : Action) (w : World) : Prop where
  jobUuid_eq : a.jobUuid = jobUuid
  targets_over : a.Over names
  statementsOk : a.statementsOk = true
  notCancelled : (a.run C pathMatch w).cancelled = false

section

variable {C : Cloud} {pathMatch : Str → Str → Option Bool} {jobUuid : Str} {names : List Str}

theorem CollectionComplete.extend {j : Job} (h : CollectionComplete jobUuid names j) {w : World}
    {events : List Event} {paths : List Str} (hg : Grows j.world.db w.db)
    (hpaths : ∀ path ∈ paths, ∀ n ∈ names, InCollection w.db jobUuid path n ∨
      Reported w.db (j.events ++ events) jobUuid path n)
    (hevents : ∀ ev ∈ events, ev.counter.success = true → ∀ n ∈ names,
      InCollection w.db jobUuid ev.path n) :
    CollectionComplete jobUuid names ⟨w, j.events ++ events, j.scanned ++ paths⟩ := by
  constructor
  · intro path hpath n hn
    rcases List.mem_append.mp hpath with hpath | hpath
    · rcases h.1 path hpath n hn with hc | hr
      · exact .inl (hc.grows hg)
      · exact .inr (hr.grows hg fun _ hev => List.mem_append_left _ hev)
    · exact hpaths path hpath n hn
  · intro ev hev hs n hn
    rcases List.mem_append.mp hev with hev | hev
    · exact (h.2 ev hev hs n hn).grows hg
    · exact hevents ev hev hs n hn

theorem markItemAsFailed_mem (row : FailedFile) (db : Db) :
    Grows db (markItemAsFailed true row db) ∧
      ∃ f ∈ (markItemAsFailed true row db).failedFiles, f.jobId = row.jobId ∧ f.path = row.path := by
  by_cases hmem : (row.jobId, row.path) ∈ db.failedFiles.map fun f => (f.jobId, f.path)
  · have hsame : markItemAsFailed true row db = db := by
      simp only [markItemAsFailed, failedFilesInsert, if_pos hmem]
      rfl
    obtain ⟨f, hf, heq⟩ := List.mem_map.mp hmem
    rw [hsame]
    exact ⟨.refl db, f, hf, (Prod.mk.inj heq).1, (Prod.mk.inj heq).2⟩
  · have hadd : markItemAsFailed true row db =
        { db with failedFiles := db.failedFiles ++ [row] } := by
      simp only [markItemAsFailed, failedFilesInsert, if_neg hmem]
      rfl
    rw [hadd]
    exact ⟨⟨fun _ => id, fun _ => id, fun _ hf => List.mem_append_left _ hf⟩, row, by simp, rfl, rfl⟩

theorem path_of_mem_updateCounters {op : OperationType} {type : FileType} {path : Str} {failed : Bool}
    {ev : Event} (h : ev ∈ updateCounters op type path failed) : ev.path = path := by
  cases op <;> cases failed <;> cases type <;> simp_all [updateCounters]

theorem mem_names {targets : List Target} (h : targets.map (·.store.name) = names) {n : Str}
    (hn : n ∈ names) : ∃ t ∈ targets, t.store.name = n := by
  rw [← h] at hn
  exact List.mem_map.mp hn

/-- An item that is in the collection of every target is scanned. -/
theorem CollectionComplete.collected {j : Job} (h : CollectionComplete jobUuid names j) {w : World}
    {events : List Event} {path : Str} (hg : Grows j.world.db w.db)
    (hin : ∀ n ∈ names, InCollection w.db jobUuid path n) (hevents : ∀ ev ∈ events, ev.path = path) :
    CollectionComplete jobUuid names ⟨w, j.events ++ events, j.scanned ++ [path]⟩ := by
  refine h.extend hg ?_ ?_
  · intro path' hpath n hn
    obtain rfl := List.mem_singleton.mp hpath
    exact .inl (hin n hn)
  · intro ev hev _ n hn
    rw [hevents ev hev]
    exact hin n hn

theorem walk_complete {j : Job} {cfg : ConfigBackup} {it : Item}
    (h : CollectionComplete jobUuid names j)
    (hin : InJob C pathMatch jobUuid names (.walk cfg jobUuid it) j.world)
    (hall : reachesAll (.walk cfg jobUuid it) j.world = true) :
    CollectionComplete jobUuid names (j.step C pathMatch (.walk cfg jobUuid it)) := by
  have hok := hin.statementsOk
  simp only [Action.statementsOk, Bool.and_eq_true, List.all_eq_true] at hok
  have hover : it.targets.map (·.store.name) = names := hin.targets_over
  have hcan : (walkItem C cfg jobUuid it j.world).cancelled = false := hin.notCancelled
  change CollectionComplete jobUuid names ⟨(walkItem C cfg jobUuid it j.world).world,
    j.events ++ (walkItem C cfg jobUuid it j.world).events, j.scanned ++ [it.path]⟩
  rcases walkItem_cases C cfg jobUuid it j.world with
    ⟨htrue, -⟩ | ⟨-, herr, hdb⟩ | ⟨rec, hdecide, hr⟩ | ⟨op, rec, db, p, hdecide, hfiles, hloop, hr⟩
  · rw [htrue] at hcan
    cases hcan
  · -- an item that failed is reported, and counts no success
    rw [hok.1.2] at hdb
    obtain ⟨hg, hfailed⟩ := markItemAsFailed_mem ⟨jobUuid, it.path, it.disk.fileType⟩ j.world.db
    rw [← hdb] at hg hfailed
    refine h.extend hg ?_ ?_
    · intro path hpath n _
      obtain rfl := List.mem_singleton.mp hpath
      exact .inr (.inl hfailed)
    · intro ev hev hs
      rw [walkItem_quiet herr ev hev] at hs
      cases hs
  · -- an item that is up to date has a row for every target already
    have hrows : ∀ t ∈ it.targets,
        (getNewestRemoteFileUuid j.world.db it.path t.store.name).isSome = true := by
      simpa [reachesAll, hdecide] using hall
    obtain ⟨hg, hcol⟩ := collect_inCollection jobUuid (fun t ht =>
      ⟨(hok.2 t ht).1.1.1, (hok.2 t ht).2⟩) hrows
    have hin : ∀ n ∈ names, InCollection
        (it.targets.foldl (collectTarget jobUuid it.path) j.world.db) jobUuid it.path n := by
      intro n hn
      obtain ⟨t, ht, rfl⟩ := mem_names hover hn
      exact hcol t ht
    rw [hr]
    refine h.collected hg hin fun ev hev => ?_
    change ev ∈ updateCounters .upToDate rec.props.type it.path false at hev
    exact path_of_mem_updateCounters hev
  · -- and one that is backed up gets its rows, as no target skips it
    have hskip : op.operationType = .upload →
        ∀ t ∈ it.targets, preUploadCheck rec cfg t.store = none := by
      intro hop
      simpa [reachesAll, hdecide, hop] using hall
    obtain ⟨hg, hev, hcol⟩ := operate_inCollection hskip hloop
    have hdesc := decideItem_operate hdecide
    have hin : ∀ n ∈ names, InCollection p.db jobUuid it.path n := by
      intro n hn
      obtain ⟨t, ht, rfl⟩ := mem_names hover hn
      rw [← hdesc.path_eq, ← hdesc.jobUuid_eq]
      exact hcol t ht
    rw [hr]
    refine h.collected ((grows_of_filesEntry hfiles).trans hg) hin fun ev hmem => ?_
    rw [hev] at hmem
    rw [path_of_mem_updateCounters hmem, hdesc.path_eq]

theorem mark_complete {j : Job} {cfg : ConfigBackup} {e : Entry}
    (h : CollectionComplete jobUuid names j) :
    CollectionComplete jobUuid names (j.step C pathMatch (.mark cfg jobUuid e)) := by
  change CollectionComplete jobUuid names ⟨(markEntry C pathMatch cfg jobUuid e j.world).world,
    j.events ++ (markEntry C pathMatch cfg jobUuid e j.world).events, j.scanned ++ []⟩
  have hg : Grows j.world.db (markEntry C pathMatch cfg jobUuid e j.world).world.db := by
    rcases markEntry_cases C pathMatch cfg jobUuid e j.world with hdb | ⟨rec, p, -, hloop, hw, -⟩
    · rw [hdb]
      exact .refl _
    · rw [hw]
      have hdel : Grows j.world.db (filesDelete j.world.db rec.path) :=
        ⟨fun _ => id, fun _ => id, fun _ => id⟩
      exact hdel.trans (mark_grows hloop)
  refine h.extend hg (by simp) ?_
  intro ev hev hs
  rw [markEntry_quiet C pathMatch cfg jobUuid e j.world ev hev] at hs
  cases hs

end

/-- A job is complete if every item that is up to date has a row for each of the
targets and no item is skipped. The world at its start may be any. -/
theorem collection_complete (C : Cloud) (pathMatch : Str → Str → Option Bool) (jobUuid : Str)
    (names : List Str) (w : World) {j : Job}
    (h : Reaches (fun a j => InJob C pathMatch jobUuid names a j.world ∧
      reachesAll a j.world = true) (Job.step C pathMatch) ⟨w, [], []⟩ j) :
    CollectionComplete jobUuid names j := by
  refine h.invariant ⟨by simp, by simp⟩ ?_
  rintro a j hj ⟨hin, hall⟩
  cases a with
  | walk cfg job it =>
      obtain rfl : job = jobUuid := hin.jobUuid_eq
      exact walk_complete hj hin hall
  | mark cfg job e =>
      obtain rfl : job = jobUuid := hin.jobUuid_eq
      exact mark_complete hj

def firstWorld : World := firstUpload.apply plainCloud (fun _ _ => none) World.empty

def secondScan (names : List String) : Action :=
  .walk plainConfig "second".toList (smoothItem "/file" (smallFile 1 1) (names.map fun n =>
    smoothTarget { plainStore .awsS3 with name := n.toList } 7 n))

def secondJob (names : List String) : Job :=
  Job.step plainCloud (fun _ _ => none) (secondScan names) ⟨firstWorld, [], []⟩

theorem collection_complete_secondJob :
    CollectionComplete "second".toList ["target".toList] (secondJob ["target"]) :=
  collection_complete plainCloud (fun _ _ => none) "second".toList ["target".toList] firstWorld
    (.step _ .refl ⟨⟨rfl, rfl, by decide, by decide⟩, by decide⟩)

/-- A target that was added since the first job is passed over. -/
theorem collection_complete_newTarget :
    Reaches (fun _ _ => True) (Action.apply plainCloud fun _ _ => none) World.empty firstWorld ∧
    ∃ j : Job, Reaches (fun a j => InJob plainCloud (fun _ _ => none) "second".toList
      ["target".toList, "added".toList] a j.world) (Job.step plainCloud fun _ _ => none)
      ⟨firstWorld, [], []⟩ j ∧
    ¬ CollectionComplete "second".toList ["target".toList, "added".toList] j := by
  refine ⟨.step _ .refl trivial, secondJob ["target", "added"], .step _ .refl ⟨rfl, rfl, by decide,
    by decide⟩, ?_⟩
  rintro ⟨hscanned, -⟩
  have hremote : ∀ r ∈ (secondJob ["target", "added"]).world.db.remoteFiles,
      r.target ≠ "added".toList := by decide
  have hfailed : (secondJob ["target", "added"]).world.db.failedFiles = [] := by decide
  have hevents : (secondJob ["target", "added"]).events = [⟨.upToDate .file, "/file".toList⟩] := by
    decide
  rcases hscanned "/file".toList (by decide) "added".toList (by simp) with
    ⟨r, hr, -, htarget, -⟩ | ⟨f, hf, -⟩ | ⟨reason, hev⟩
  · exact hremote r hr htarget
  · rw [hfailed] at hf
    cases hf
  · rw [hevents] at hev
    simp at hev

end CloudBackup.Backup
