import CloudBackup.Backup.TablesInStep

/-!
The versions of `remote_files`. `calcRemoteFileVersion` looks for the highest version of
a path at a target, and both `UploadAndUpdateDB` and `markDeleted` use what it returns.
Rows are only ever added; so the versions of a path at a target count the rows that were
committed for it, whatever was rolled back in between.
-/

namespace CloudBackup.Backup

open Database ObjectStore Iteration

/-- The versions of every path at every target count up from one, in the order in which
the rows were added. -/
def VersionsCount (db : Db) : Prop :=
  ∀ path target, (versionsOf db path target).map RemoteFile.version =
    List.range' 1 (versionsOf db path target).length

theorem versionsCount_empty : VersionsCount Db.empty := fun _ _ => rfl

/-- The next version is one more than the number of rows. -/
theorem VersionsCount.calc_eq {db : Db} (h : VersionsCount db) (path target : Str) :
    calcRemoteFileVersion db path target = (versionsOf db path target).length + 1 := by
  have hle : ∀ r ∈ versionsOf db path target, r.version ≤ (versionsOf db path target).length := by
    intro r hr
    have hmem := List.mem_map_of_mem (f := RemoteFile.version) hr
    rw [h path target, List.mem_range'_1] at hmem
    omega
  cases hnewest : newest db path target with
  | none =>
      have hnil : versionsOf db path target = [] := by rwa [newest, List.argmax_eq_none] at hnewest
      rw [calcRemoteFileVersion, hnewest, hnil, List.length_nil]
  | some r =>
      have hr : r ∈ versionsOf db path target := List.argmax_mem hnewest
      have hpos : 0 < (versionsOf db path target).length := List.length_pos_of_mem hr
      -- the last row has the highest version
      have hlast : (versionsOf db path target).length ∈ (versionsOf db path target).map RemoteFile.version := by
        rw [h path target, List.mem_range'_1]
        omega
      obtain ⟨last, hmem, hversion⟩ := List.mem_map.mp hlast
      have hlt := version_lt_calc hmem
      have hbound := hle r hr
      have hcalc : calcRemoteFileVersion db path target = r.version + 1 := by
        rw [calcRemoteFileVersion, hnewest]
      omega

/-- A database has come out of another one by adding rows, if there were any. -/
structure Continues (db db' : Db) : Prop where
  count : VersionsCount db → VersionsCount db'
  kept : db.remoteFiles <+: db'.remoteFiles

theorem Continues.refl (db : Db) : Continues db db := ⟨id, List.prefix_refl _⟩

theorem Continues.trans {db db' db'' : Db} (h : Continues db db') (h' : Continues db' db'') :
    Continues db db'' :=
  ⟨h'.count ∘ h.count, h.kept.trans h'.kept⟩

theorem versionsOf_congr {db db' : Db} (h : db'.remoteFiles = db.remoteFiles) (path target : Str) :
    versionsOf db' path target = versionsOf db path target := by
  rw [versionsOf, versionsOf, h]

theorem Continues.of_eq {db db' : Db} (h : db'.remoteFiles = db.remoteFiles) : Continues db db' := by
  refine ⟨fun hcount path target => ?_, h ▸ List.prefix_refl _⟩
  rw [versionsOf_congr h]
  exact hcount path target

theorem Continues.versionsOf {db db' : Db} (h : Continues db db') (path target : Str) :
    versionsOf db path target <+: versionsOf db' path target :=
  h.kept.filter _

theorem AddsRow.continues {t : Target} {jobUuid : Str} {deleteMarker : Bool} {rec : Record}
    {remoteVersion : Str} {db db' : Db} (h : AddsRow t jobUuid deleteMarker rec remoteVersion db db') :
    Continues db db' := by
  obtain ⟨uuid, -, rfl⟩ := h
  refine ⟨fun hcount path target => ?_, List.prefix_append _ _⟩
  have hadded : versionsOf (addedRows db (nextRow uuid t jobUuid deleteMarker rec remoteVersion db))
      path target = _ := versionsOf_append db _ path target
  rw [hadded]
  split
  · rename_i heq
    obtain ⟨rfl, rfl⟩ := heq
    have hversion : (nextRow uuid t jobUuid deleteMarker rec remoteVersion db).version =
        (versionsOf db rec.path t.store.name).length + 1 := hcount.calc_eq _ _
    have hold := hcount rec.path t.store.name
    change (versionsOf db rec.path t.store.name ++ [_]).map _ =
      List.range' 1 (versionsOf db rec.path t.store.name ++ [_]).length
    rw [List.map_append, List.length_append, List.length_singleton, List.range'_concat, hold,
      List.map_singleton, hversion, Nat.one_mul, Nat.add_comm 1]
  · rw [List.append_nil]
    exact hcount path target

/-! ### Steps -/

section

variable {C : Cloud} {rec : Record} {targets : List Target} {p p' : Pass}

theorem operate_continues {cfg : ConfigBackup} {op : Operation}
    (h : forEach (operateTarget C cfg op rec) targets p = .next p') : Continues p.db p'.db := by
  refine forEach_next (I := fun _ q => Continues p.db q.db) (.refl _) ?_ h
  intro pre t post q q' _ hq hstep
  rcases operateTarget_next hstep with ⟨-, reason, -, hdb, -⟩ | ⟨-, remoteVersion, hadd⟩
  · rw [hdb]
    exact hq
  · exact hq.trans hadd.continues

theorem mark_continues {jobUuid : Str} (h : forEach (markTarget C jobUuid rec) targets p = .next p') :
    Continues p.db p'.db := by
  refine forEach_next (I := fun _ q => Continues p.db q.db) (.refl _) ?_ h
  intro pre t post q q' _ hq hstep
  obtain ⟨sent, b, -, -, -, -, -, hadd⟩ := markTarget_next hstep
  exact hq.trans hadd.continues

end

theorem apply_continues (C : Cloud) (pathMatch : Str → Str → Option Bool) (a : Action) (w : World) :
    Continues w.db (a.apply C pathMatch w).db := by
  cases a with
  | walk cfg jobUuid it =>
      change Continues w.db (walkItem C cfg jobUuid it w).world.db
      rcases walkItem_cases C cfg jobUuid it w with
        ⟨-, hdb⟩ | ⟨-, -, hdb⟩ | ⟨rec, -, hr⟩ | ⟨op, rec, db, p, -, hfiles, hloop, hr⟩
      · rw [hdb]
        exact .refl _
      · obtain ⟨rows, hrows⟩ := markItemAsFailed_cases it.failedFilesOk
          ⟨jobUuid, it.path, it.disk.fileType⟩ w.db
        rw [hdb, hrows]
        exact .of_eq rfl
      · rw [hr]
        exact .of_eq (collectTarget_tables jobUuid it.path it.targets w.db).2.1
      · rw [hr]
        exact (Continues.of_eq (filesEntry_files hfiles).2.1).trans (operate_continues hloop)
  | mark cfg jobUuid e =>
      change Continues w.db (markEntry C pathMatch cfg jobUuid e w).world.db
      rcases markEntry_cases C pathMatch cfg jobUuid e w with hdb | ⟨rec, p, -, hloop, hworld, -⟩
      · rw [hdb]
        exact .refl _
      · rw [hworld]
        exact (Continues.of_eq (filesDelete_remoteFiles w.db rec.path)).trans (mark_continues hloop)

/-! ### Runs -/

/-- The world after some operations, one after the other. -/
def after (C : Cloud) (pathMatch : Str → Str → Option Bool) (actions : List Action) (w : World) : World :=
  actions.foldl (fun w a => a.apply C pathMatch w) w

theorem after_continues (C : Cloud) (pathMatch : Str → Str → Option Bool) (actions : List Action)
    (w : World) : Continues w.db (after C pathMatch actions w).db := by
  induction actions generalizing w with
  | nil => exact .refl _
  | cons a actions ih => exact (apply_continues C pathMatch a w).trans (ih (a.apply C pathMatch w))

/-- Whatever operations there are, and however they end, the versions of a path at a
target are numbered from one on in the order of the commits, and what comes later is
added behind. -/
theorem versions_numbered (C : Cloud) (pathMatch : Str → Str → Option Bool) (buckets : Str → Bucket)
    (actions more : List Action) (path target : Str) :
    (versionsOf (after C pathMatch actions ⟨Db.empty, buckets⟩).db path target).map RemoteFile.version =
        List.range' 1 (versionsOf (after C pathMatch actions ⟨Db.empty, buckets⟩).db path target).length ∧
      versionsOf (after C pathMatch actions ⟨Db.empty, buckets⟩).db path target <+:
        versionsOf (after C pathMatch (actions ++ more) ⟨Db.empty, buckets⟩).db path target := by
  constructor
  · exact (after_continues C pathMatch actions ⟨Db.empty, buckets⟩).count versionsCount_empty path target
  · rw [after, after, List.foldl_append]
    exact (after_continues C pathMatch more _).versionsOf path target

end CloudBackup.Backup
