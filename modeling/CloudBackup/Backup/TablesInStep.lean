import CloudBackup.Backup.Item

/-!
The tables `files` and `remote_files` over whole backup runs. A change is
detected with the help of `files`, and a restore goes by `remote_files`; so for
every row of the first the newest row of the second should say the same, at
every target.

The checks before an upload break this. An item that is skipped for a target
has its row in `files` all the same. `tables_inStep` says that nothing else does.
-/

namespace CloudBackup.Backup

open Database ObjectStore Iteration

def SameProps (r f : Props) : Prop :=
  r.type = f.type ∧ r.size = f.size ∧ r.mtime = f.mtime ∧ r.ctime = f.ctime ∧
    r.linkTarget = f.linkTarget ∧ r.checksum = f.checksum ∧ r.encrypted = f.encrypted

instance (r f : Props) : Decidable (SameProps r f) := by
  unfold SameProps
  infer_instance

/-- The newest row of every path in `files` is not a delete marker and agrees
with its row there, for every one of the targets. -/
def TablesInStep (names : List Str) (db : Db) : Prop :=
  ∀ f ∈ db.files, ∀ n ∈ names, ∃ r, newest db f.path n = some r ∧ r.deleteMarker = false ∧
    SameProps r.props f.props

/-- An item that is to be sent is not skipped for any target. -/
def skipsNone (a : Action) (w : World) : Bool :=
  match a with
  | .mark _ _ _ => true
  | .walk cfg jobUuid it =>
      match decideItem cfg jobUuid it w.db with
      | .operate op rec => op.operationType ≠ .upload ||
          it.targets.all fun t => preUploadCheck rec cfg t.store = none
      | _ => true

/-! ### The newest row after a pass -/

section

variable {t : Target} {jobUuid : Str} {deleteMarker : Bool} {rec : Record} {remoteVersion : Str}
  {db db' : Db}

theorem newest_addedRows_of_ne {row : RemoteFile} {path target : Str}
    (h : ¬ (row.localPath = path ∧ row.target = target)) :
    newest (addedRows db row) path target = newest db path target :=
  newest_append_of_ne h

/-- The row that a pass adds is the newest one of its path and target. -/
theorem AddsRow.newest_self (h : AddsRow t jobUuid deleteMarker rec remoteVersion db db') :
    ∃ r, newest db' rec.path t.store.name = some r ∧ r.deleteMarker = deleteMarker ∧
      r.props = toRow rec.props := by
  obtain ⟨uuid, -, rfl⟩ := h
  refine ⟨nextRow uuid t jobUuid deleteMarker rec remoteVersion db, ?_, rfl, rfl⟩
  rw [addedRows, newest_backupCollectionsInsert]
  exact newest_append_self rfl

theorem AddsRow.newest_of_ne (h : AddsRow t jobUuid deleteMarker rec remoteVersion db db')
    {path target : Str} (hne : ¬ (rec.path = path ∧ t.store.name = target)) :
    newest db' path target = newest db path target := by
  obtain ⟨uuid, -, rfl⟩ := h
  exact newest_addedRows_of_ne hne

theorem AddsRow.files_eq (h : AddsRow t jobUuid deleteMarker rec remoteVersion db db') :
    db'.files = db.files := by
  obtain ⟨uuid, -, rfl⟩ := h
  rfl

end

/-- What the passes for some of the targets leave behind: the newest row of each
of them is that of the record, and nothing else has changed. -/
structure Renewed (rec : Record) (deleteMarker : Bool) (names : List Str) (db db' : Db) : Prop where
  files : db'.files = db.files
  self : ∀ n ∈ names, ∃ r, newest db' rec.path n = some r ∧ r.deleteMarker = deleteMarker ∧
    r.props = toRow rec.props
  other : ∀ path, rec.path ≠ path → ∀ n, newest db' path n = newest db path n

theorem Renewed.nil (rec : Record) (deleteMarker : Bool) (db : Db) :
    Renewed rec deleteMarker [] db db :=
  ⟨rfl, by simp, fun _ _ _ => rfl⟩

theorem Renewed.addsRow {rec : Record} {deleteMarker : Bool} {names : List Str} {db db' db'' : Db}
    (h : Renewed rec deleteMarker names db db') {t : Target} {jobUuid remoteVersion : Str}
    (hadd : AddsRow t jobUuid deleteMarker rec remoteVersion db' db'') :
    Renewed rec deleteMarker (names ++ [t.store.name]) db db'' := by
  refine ⟨hadd.files_eq.trans h.files, ?_, ?_⟩
  · intro n hn
    by_cases heq : t.store.name = n
    · subst heq
      exact hadd.newest_self
    · have hmem : n ∈ names := by
        rcases List.mem_append.mp hn with hn | hn
        · exact hn
        · exact absurd (List.mem_singleton.mp hn).symm heq
      rw [hadd.newest_of_ne fun hc => heq hc.2]
      exact h.self n hmem
  · intro path hne n
    rw [hadd.newest_of_ne fun hc => hne hc.1, h.other path hne n]

theorem operate_renewed {C : Cloud} {cfg : ConfigBackup} {op : Operation} {rec : Record}
    {targets : List Target} {p p' : Pass}
    (hskip : op.operationType = .upload → ∀ t ∈ targets, preUploadCheck rec cfg t.store = none)
    (h : forEach (operateTarget C cfg op rec) targets p = .next p') :
    Renewed rec false (targets.map (·.store.name)) p.db p'.db := by
  refine forEach_next (I := fun (pre : List Target) (q : Pass) =>
    Renewed rec false (pre.map (·.store.name)) p.db q.db) (.nil rec false p.db) ?_ h
  intro pre t post q q' hl hq hstep
  rw [List.map_append]
  rcases operateTarget_next hstep with ⟨hop, reason, hsome, -⟩ | ⟨-, remoteVersion, hadd⟩
  · rw [hskip hop t (by simp [hl])] at hsome
    cases hsome
  · exact hq.addsRow hadd

theorem operate_files {C : Cloud} {cfg : ConfigBackup} {op : Operation} {rec : Record}
    {targets : List Target} {p p' : Pass} (h : forEach (operateTarget C cfg op rec) targets p = .next p') :
    p'.db.files = p.db.files ∧ p'.db.failedFiles = p.db.failedFiles := by
  refine forEach_next (I := fun (_ : List Target) (q : Pass) =>
    q.db.files = p.db.files ∧ q.db.failedFiles = p.db.failedFiles) ⟨rfl, rfl⟩ ?_ h
  rintro pre t post q q' - ⟨hfiles, hfailed⟩ hstep
  rcases operateTarget_next hstep with ⟨-, reason, -, hdb, -⟩ | ⟨-, remoteVersion, uuid, -, hdb⟩
  · rw [hdb]
    exact ⟨hfiles, hfailed⟩
  · rw [hdb]
    exact ⟨hfiles, hfailed⟩

theorem mark_renewed {C : Cloud} {jobUuid : Str} {rec : Record} {targets : List Target}
    {p p' : Pass} (h : forEach (markTarget C jobUuid rec) targets p = .next p') :
    Renewed rec true (targets.map (·.store.name)) p.db p'.db := by
  refine forEach_next (I := fun (pre : List Target) (q : Pass) =>
    Renewed rec true (pre.map (·.store.name)) p.db q.db) (.nil rec true p.db) ?_ h
  intro pre t post q q' hl hq hstep
  obtain ⟨sent, b, -, -, -, -, -, hadd⟩ := markTarget_next hstep
  rw [List.map_append]
  exact hq.addsRow hadd

/-! ### The table `files` -/

/-- The row of the record is the only one of its path afterwards. -/
theorem filesEntry_files {op : Operation} {ok : Bool} {rec : Record} {db db' : Db}
    (h : filesEntry op ok rec db = some db') :
    (∀ f ∈ db'.files, f = filesRow rec ∨ (f ∈ db.files ∧ rec.path ≠ f.path)) ∧
      db'.remoteFiles = db.remoteFiles ∧ db'.backupCollections = db.backupCollections ∧
      db'.failedFiles = db.failedFiles := by
  unfold filesEntry at h
  split at h
  · cases h
  · split at h
    · obtain ⟨hmem, rfl⟩ := filesInsert_eq_some h
      refine ⟨?_, rfl, rfl, rfl⟩
      intro f hf
      rcases List.mem_append.mp hf with hf | hf
      · refine .inr ⟨hf, fun heq => hmem ?_⟩
        rw [show (filesRow rec).path = f.path from heq]
        exact List.mem_map_of_mem hf
      · exact .inl (List.mem_singleton.mp hf)
    · split at h
      · cases h
      · cases h
        refine ⟨?_, rfl, rfl, rfl⟩
        intro f hf
        obtain ⟨g, hg, rfl⟩ := List.mem_map.mp hf
        by_cases hpath : g.path = (filesRow rec).path
        · exact .inl (if_pos hpath)
        · rw [if_neg hpath]
          exact .inr ⟨hg, fun heq => hpath heq.symm⟩

theorem collectTarget_tables (jobUuid path : Str) (targets : List Target) (db : Db) :
    (targets.foldl (collectTarget jobUuid path) db).files = db.files ∧
      (targets.foldl (collectTarget jobUuid path) db).remoteFiles = db.remoteFiles ∧
      (targets.foldl (collectTarget jobUuid path) db).failedFiles = db.failedFiles := by
  induction targets generalizing db with
  | nil => exact ⟨rfl, rfl, rfl⟩
  | cons t targets ih =>
      have ht : (collectTarget jobUuid path db t).files = db.files ∧
          (collectTarget jobUuid path db t).remoteFiles = db.remoteFiles ∧
          (collectTarget jobUuid path db t).failedFiles = db.failedFiles := by
        unfold collectTarget
        split
        · exact ⟨rfl, rfl, rfl⟩
        · split
          · exact ⟨rfl, rfl, rfl⟩
          · split <;> exact ⟨rfl, rfl, rfl⟩
      obtain ⟨hf, hr, hx⟩ := ih (collectTarget jobUuid path db t)
      exact ⟨hf.trans ht.1, hr.trans ht.2.1, hx.trans ht.2.2⟩

theorem newest_congr {db db' : Db} (h : db'.remoteFiles = db.remoteFiles) (path target : Str) :
    newest db' path target = newest db path target := by
  rw [newest, newest, versionsOf, versionsOf, h]

/-! ### Runs -/

theorem sameProps_of_eq {r f : Props} (h : r = f) : SameProps r f := by
  subst h
  exact ⟨rfl, rfl, rfl, rfl, rfl, rfl, rfl⟩

theorem TablesInStep.congr {names : List Str} {db db' : Db} (h : TablesInStep names db)
    (hf : db'.files = db.files) (hr : db'.remoteFiles = db.remoteFiles) : TablesInStep names db' := by
  intro f hmem n hn
  rw [hf] at hmem
  rw [newest_congr hr]
  exact h f hmem n hn

/-- An item keeps the tables in step, if no target skips it. -/
theorem tablesInStep_walk {C : Cloud} {names : List Str} {cfg : ConfigBackup} {jobUuid : Str} {it : Item}
    {w : World} (h : TablesInStep names w.db) (hover : it.targets.map (·.store.name) = names)
    (hskip : skipsNone (.walk cfg jobUuid it) w = true) :
    TablesInStep names (walkItem C cfg jobUuid it w).world.db := by
  rcases walkItem_cases C cfg jobUuid it w with
    ⟨-, hdb⟩ | ⟨-, -, hdb⟩ | ⟨rec, -, hr⟩ | ⟨op, rec, db, p, hdecide, hfiles, hloop, hr⟩
  · rw [hdb]
    exact h
  · obtain ⟨rows, hrows⟩ := markItemAsFailed_cases it.failedFilesOk
      ⟨jobUuid, it.path, it.disk.fileType⟩ w.db
    rw [hdb, hrows]
    exact h.congr rfl rfl
  · obtain ⟨hf, hrf, -⟩ := collectTarget_tables jobUuid it.path it.targets w.db
    rw [hr]
    exact h.congr hf hrf
  · have hskip' : op.operationType = .upload →
        ∀ t ∈ it.targets, preUploadCheck rec cfg t.store = none := by
      intro hop
      simpa [skipsNone, hdecide, hop] using hskip
    have hnew := operate_renewed hskip' hloop
    rw [hover] at hnew
    obtain ⟨hmem, hrf, -, -⟩ := filesEntry_files hfiles
    rw [hr]
    intro f hf n hn
    change f ∈ p.db.files at hf
    rw [hnew.files] at hf
    -- the row of the item is new in both tables, and no other is touched
    rcases hmem f hf with rfl | ⟨hold, hne⟩
    · obtain ⟨r, hr, hdm, hprops⟩ := hnew.self n hn
      exact ⟨r, hr, hdm, sameProps_of_eq hprops⟩
    · obtain ⟨r, hr, hdm, hprops⟩ := h f hold n hn
      refine ⟨r, ?_, hdm, hprops⟩
      rw [← hr, ← newest_congr hrf]
      exact hnew.other f.path hne n

theorem tablesInStep_mark {C : Cloud} {pathMatch : Str → Str → Option Bool} {names : List Str}
    {cfg : ConfigBackup} {jobUuid : Str} {e : Entry} {w : World} (h : TablesInStep names w.db) :
    TablesInStep names (markEntry C pathMatch cfg jobUuid e w).world.db := by
  rcases markEntry_cases C pathMatch cfg jobUuid e w with hdb | ⟨rec, p, -, hloop, hworld, -⟩
  · rw [hdb]
    exact h
  · have hnew := mark_renewed hloop
    rw [hworld]
    intro f hf n hn
    change f ∈ p.db.files at hf
    rw [hnew.files] at hf
    obtain ⟨hold, hne⟩ : f ∈ w.db.files ∧ f.path ≠ rec.path := by
      simpa [filesDelete] using hf
    obtain ⟨r, hr, hdm, hprops⟩ := h f hold n hn
    refine ⟨r, ?_, hdm, hprops⟩
    rw [← hr]
    exact hnew.other f.path (Ne.symm hne) n

/-- One step keeps the tables in step, if it skips nothing. -/
theorem tablesInStep_step {C : Cloud} {pathMatch : Str → Str → Option Bool} {names : List Str}
    (a : Action) (w : World) (h : TablesInStep names w.db) (hover : a.Over names)
    (hskip : skipsNone a w = true) : TablesInStep names (a.apply C pathMatch w).db := by
  cases a with
  | walk cfg jobUuid it => exact tablesInStep_walk h hover hskip
  | mark cfg jobUuid e => exact tablesInStep_mark h

/-- In a run that skips no item the tables are always in step. -/
theorem tables_inStep (C : Cloud) (pathMatch : Str → Str → Option Bool) (names : List Str)
    {w : World} (h : Reaches (fun a w => a.Over names ∧ skipsNone a w = true)
      (Action.apply C pathMatch) World.empty w) : TablesInStep names w.db := by
  refine h.invariant (I := fun w => TablesInStep names w.db) ?_ ?_
  · intro f hf
    exact absurd hf (by simp [World.empty, Db.empty])
  · intro a s hs ha
    exact tablesInStep_step a s hs ha.1 ha.2

def firstUpload : Action :=
  .walk plainConfig "job".toList
    (smoothItem "/file" (smallFile 1 1) [smoothTarget (plainStore .awsS3) 7 "uuid"])

theorem tables_inStep_firstUpload :
    TablesInStep ["target".toList] (firstUpload.apply plainCloud (fun _ _ => none) World.empty).db :=
  tables_inStep plainCloud (fun _ _ => none) ["target".toList]
    (.step firstUpload .refl ⟨rfl, by decide⟩)

def reservedUpload : Action :=
  .walk plainConfig "job".toList
    (smoothItem "/.cbcrypt" (smallFile 1 1) [smoothTarget (plainStore .awsS3) 7 "uuid"])

/-- The file is skipped, and has a row in `files` only. -/
theorem tables_inStep_reservedUpload : ∃ w : World,
    Reaches (fun a _ => a.Over ["target".toList]) (Action.apply plainCloud fun _ _ => none)
      World.empty w ∧ ¬ TablesInStep ["target".toList] w.db := by
  refine ⟨_, .step reservedUpload .refl rfl, ?_⟩
  intro h
  have hfiles : (reservedUpload.apply plainCloud (fun _ _ => none) World.empty).db.files =
      [⟨"/.cbcrypt".toList, ⟨.file, [], 1, 1, 1, [], [], [], [], false⟩, "job".toList⟩] := by
    decide
  have hremote : (reservedUpload.apply plainCloud (fun _ _ => none) World.empty).db.remoteFiles =
      [] := by decide
  obtain ⟨r, hr, -⟩ := h _ (by rw [hfiles]; exact List.mem_singleton.mpr rfl) "target".toList
    (by simp)
  have hmem := (newest_mem hr).1
  rw [hremote] at hmem
  cases hmem

end CloudBackup.Backup
