import CloudBackup.Backup.Rerun
import CloudBackup.Backup.UploadLog
import CloudBackup.Backup.Versions
import CloudBackup.ObjectStore.Frame

/-!
What the store of a job holds after any history of runs, for all of its paths at once.
The requests for one path leave the objects of the others alone, so that every row of a
file leads to what was sent last for it. This is for jobs with one target, where
nothing was skipped; a metadata update needs a store that goes by the remote version.
-/

namespace CloudBackup.Backup

open Cbcrypto Database ObjectStore UnixPath Iteration

/-- A step of a job whose only target is the store, with the encryption of the day. -/
structure Regular (keys : Str → Option (Bytes × Block keystoreUUIDSize)) (st : Store) (a : Action)
    (w : World) : Prop where
  target : ∃ t, a.targets = [t] ∧ t.store = { st with enc := t.store.enc }
  keeping : InKeeping keys a
  skips : skipsNone a w = true
  uuids : ∀ t ∈ a.targets, t.newV4 ≠ some []
  walks : ∀ cfg jobUuid it, a = .walk cfg jobUuid it → IsClean it.path ∧
    (cfg.checksum = true → it.disk.fileType = .file → it.disk.getFileMD5Sum ≠ some [])
  takesOver : ∀ cfg jobUuid it rec, a = .walk cfg jobUuid it →
    decideItem cfg jobUuid it w.db = .operate .metadataUpdate rec → rec.props.type = .file →
    st.kind = .awsS3 ∨ st.kind = .gcpStorage

/-- A row leads to what was sent last for it, and later requests will not change that. -/
def Leads (C : Cloud) (st : Store) (l : Log) (r : RemoteFile) : Prop :=
  st.Old C (l.world.buckets st.name).next (calcRemoteFileVersion l.world.db r.localPath st.name) r.version
      r.remoteVersion ∧
    ∃ u, lastUpload l.uploads r.localPath st.name r.version = some u ∧
      st.find C r.localPath r.version r.remoteVersion (l.world.buckets st.name) = .ok u.body

structure Stocked (C : Cloud) (keys : Str → Option (Bytes × Block keystoreUUIDSize)) (st : Store) (l : Log) :
    Prop where
  inStep : TablesInStep [st.name] l.world.db
  kept : WellKept l.world.db
  count : VersionsCount l.world.db
  logged : Logged C.aead.toAead keys l
  uuids : ∀ r ∈ l.world.db.remoteFiles, r.uuid ≠ []
  mine : ∀ r ∈ l.world.db.remoteFiles, r.target = st.name ∧ IsClean r.localPath
  leads : ∀ r ∈ l.world.db.remoteFiles, r.props.type = .file → r.deleteMarker = false → Leads C st l r

/-! ### The bucket -/

/-- What a pass leaves in its state touches the objects of its path only, and so will
taking it back. -/
structure Separate (st : Store) (rec : Record) (b : Bucket) (p : Pass) : Prop where
  bucket : st.Local rec.path b (p.buckets st.name)
  processed : ∀ e ∈ p.processed, e.store = st

section

variable {C : Cloud} {cfg : ConfigBackup} {rec : Record} {t : Target} {b : Bucket} {p : Pass}

theorem Separate.cleanUp {st : Store} (h : Separate st rec b p) :
    st.Local rec.path b (Backup.cleanUp C rec p st.name) := by
  obtain ⟨hbucket, hprocessed⟩ := h
  unfold Backup.cleanUp
  generalize p.buckets = buckets at hbucket
  generalize p.processed = processed at hprocessed
  induction processed generalizing buckets with
  | nil => exact hbucket
  | cons e processed ih =>
      refine ih _ ?_ fun e' he' => hprocessed e' (List.mem_cons_of_mem e he')
      obtain rfl := hprocessed e List.mem_cons_self
      change e.store.Local rec.path b (Function.update buckets e.store.name _ e.store.name)
      rw [Function.update_self]
      exact hbucket.trans (Store.local_delete e.version e.remoteVersion e.undo _)

theorem separate_setBucket (hp : p.processed = []) (hb : t.store.Local rec.path (p.buckets t.store.name) b) :
    Separate t.store rec (p.buckets t.store.name) (p.setBucket t.store.name b) := by
  refine ⟨?_, by simp [Pass.setBucket, hp]⟩
  rw [show (p.setBucket t.store.name b).buckets t.store.name = b by simp [Pass.setBucket]]
  exact hb

theorem separate_addRows {jobUuid : Str} {deleteMarker : Bool} {version : ℕ} {remoteVersion : Str}
    (hp : p.processed = []) (hb : t.store.Local rec.path (p.buckets t.store.name) b) :
    Separate t.store rec (p.buckets t.store.name) (addRows t jobUuid deleteMarker rec version remoteVersion
      ((p.setBucket t.store.name b).addProcessed t version remoteVersion)).state := by
  obtain ⟨db, hdb⟩ := addRows_state t jobUuid deleteMarker rec version remoteVersion
    ((p.setBucket t.store.name b).addProcessed t version remoteVersion)
  rw [hdb]
  refine ⟨(separate_setBucket hp hb).bucket, ?_⟩
  intro e he
  obtain rfl : e = ⟨t.store, version, remoteVersion, t.undo⟩ := by
    simpa [Pass.addProcessed, Pass.setBucket, hp] using he
  rfl

theorem separate_self (hp : p.processed = []) (db : Db) (events : List Event) :
    Separate t.store rec (p.buckets t.store.name) { p with db := db, events := events } :=
  ⟨.refl t.store rec.path _, by simp [hp]⟩

theorem operateTarget_separate {op : Operation} (hp : p.processed = []) :
    Separate t.store rec (p.buckets t.store.name) (operateTarget C cfg op rec t p).state := by
  have hself (db : Db) (events : List Event) : Separate t.store rec (p.buckets t.store.name)
      { p with db := db, events := events } := separate_self hp db events
  unfold operateTarget
  split
  · unfold uploadTarget
    split
    · exact hself p.db p.events
    · split
      · exact hself p.db _
      · have hlocal := @Store.local_upload t.store C rec (calcRemoteFileVersion p.db rec.path t.store.name) t.out
          (p.buckets t.store.name)
        dsimp only
        split
        · exact separate_setBucket hp hlocal
        · split
          · exact separate_setBucket hp hlocal
          · exact separate_addRows hp hlocal
  · unfold updateTarget
    split
    · exact hself p.db p.events
    · dsimp only
      split
      · exact hself p.db p.events
      · split
        · exact hself p.db p.events
        · split
          · exact hself p.db p.events
          · rename_i remoteVersion _
            obtain ⟨db, hdb⟩ := addRows_state t rec.jobUuid false rec
              (calcRemoteFileVersion p.db rec.path t.store.name) remoteVersion p
            rw [hdb]
            exact hself db p.events

theorem markTarget_separate {jobUuid : Str} (hp : p.processed = []) :
    Separate t.store rec (p.buckets t.store.name) (markTarget C jobUuid rec t p).state := by
  unfold markTarget
  split
  · exact separate_self hp p.db p.events
  · have hlocal := @Store.local_markDeleted t.store C rec (calcRemoteFileVersion p.db rec.path t.store.name)
      t.out.reply (p.buckets t.store.name)
    dsimp only
    split
    · exact separate_setBucket hp hlocal
    · split
      · exact separate_setBucket hp hlocal
      · exact separate_addRows hp hlocal

theorem finish_local {st : Store} {commitOk : Bool} {db : Db} {flow : Flow Pass Halt}
    (h : Separate st rec b flow.state) :
    st.Local rec.path b ((finish C rec commitOk db flow).world.buckets st.name) := by
  cases flow with
  | stop halt q => cases halt <;> exact h.cleanUp
  | next q => cases commitOk <;> exact h.bucket

theorem uploadAndUpdateDB_local (C : Cloud) (cfg : ConfigBackup) (op : Operation) (stmts : Statements) (t : Target)
    (rec : Record) (w : World) : t.store.Local rec.path (w.buckets t.store.name)
      ((uploadAndUpdateDB C cfg op stmts [t] rec w).world.buckets t.store.name) := by
  unfold uploadAndUpdateDB
  rw [countResult_world]
  split
  · exact .refl t.store rec.path _
  · split
    · exact .refl t.store rec.path _
    · rename_i db _
      refine finish_local ?_
      rw [forEach_singleton]
      exact operateTarget_separate (p := ⟨db, w.buckets, [], []⟩) rfl

theorem markDeleted_local (C : Cloud) (pathMatch : Str → Str → Option Bool) (cfg : ConfigBackup) (lstat : Lstat)
    (stmts : Statements) (t : Target) (jobUuid : Str) (rec : Record) (w : World) :
    t.store.Local rec.path (w.buckets t.store.name)
      ((markDeleted C pathMatch cfg lstat stmts [t] jobUuid rec w).world.buckets t.store.name) := by
  have hput : t.store.Local rec.path (w.buckets t.store.name)
      ((putMarkers C stmts [t] jobUuid rec w).world.buckets t.store.name) := by
    unfold putMarkers
    split
    · exact .refl t.store rec.path _
    · split
      · exact .refl t.store rec.path _
      · refine finish_local ?_
        rw [forEach_singleton]
        exact markTarget_separate (p := ⟨filesDelete w.db rec.path, w.buckets, [], []⟩) rfl
  unfold markDeleted
  split
  · split
    · exact .refl t.store rec.path _
    · exact .refl t.store rec.path _
    · exact hput
  · exact hput

end

section

variable {C : Cloud} {pathMatch : Str → Str → Option Bool} {cfg : ConfigBackup} {jobUuid : Str} {it : Item}
  {w : World}

theorem walkItem_buckets (C : Cloud) (cfg : ConfigBackup) (jobUuid : Str) (it : Item) (w : World) :
    (walkItem C cfg jobUuid it w).world.buckets = w.buckets ∨
      ∃ op rec, decideItem cfg jobUuid it w.db = .operate op rec ∧ (walkItem C cfg jobUuid it w).world.buckets =
        (uploadAndUpdateDB C cfg op it.stmts it.targets rec w).world.buckets := by
  have hworld : (walkItem C cfg jobUuid it w).world.buckets = (doItem C cfg jobUuid it w).world.buckets := by
    unfold walkItem
    dsimp only
    split <;> rfl
  rw [hworld]
  unfold doItem
  split
  · exact .inl rfl
  · split
    · exact .inl rfl
    · rename_i op rec hdecide
      exact .inr ⟨op, rec, hdecide, rfl⟩
    · exact .inl rfl

theorem markEntry_buckets (C : Cloud) (pathMatch : Str → Str → Option Bool) (cfg : ConfigBackup) (jobUuid : Str)
    (e : Entry) (w : World) :
    (markEntry C pathMatch cfg jobUuid e w).world.buckets = w.buckets ∨
      ∃ f ∈ w.db.files, f.path = e.path ∧ (markEntry C pathMatch cfg jobUuid e w).world.buckets =
        (markDeleted C pathMatch cfg e.lstat e.stmts e.targets jobUuid (recordOf f) w).world.buckets := by
  unfold markEntry
  split
  · exact .inl rfl
  · exact .inl rfl
  · rename_i rec hrec
    obtain ⟨f, hf, hpath, rfl⟩ := getBackedup_row hrec
    refine .inr ⟨f, hf, hpath, ?_⟩
    dsimp only
    split <;> rfl

/-- What a step with one target does to its bucket: older objects are still found, and
those of other paths are not touched. -/
structure Handles (C : Cloud) (st : Store) (path : Str) (db : Db) (b b' : Bucket) : Prop where
  retains : Retains C st path b.next (calcRemoteFileVersion db path st.name) b b'
  separate : st.Local path b b'

theorem Handles.refl (C : Cloud) (st : Store) (path : Str) (db : Db) (b : Bucket) : Handles C st path db b b :=
  ⟨.refl C st path le_rfl, .refl st path b⟩

theorem Handles.withEnc {st : Store} {e : EncryptionState} {path : Str} {db : Db} {b b' : Bucket}
    (h : Handles C { st with enc := e } path db b b') : Handles C st path db b b' :=
  ⟨h.retains.withEnc, h.separate⟩

theorem apply_handles (C : Cloud) (pathMatch : Str → Str → Option Bool) (w : World) {st : Store} {a : Action}
    {t : Target} (htargets : a.targets = [t])
    (hstore : t.store = { st with enc := t.store.enc }) :
    Handles C st a.path w.db (w.buckets st.name) ((a.apply C pathMatch w).buckets st.name) := by
  have hname : t.store.name = st.name := by rw [hstore]
  suffices h : Handles C t.store a.path w.db (w.buckets t.store.name)
      ((a.apply C pathMatch w).buckets t.store.name) by
    rw [hname, hstore] at h
    exact h.withEnc
  cases a with
  | walk cfg jobUuid it =>
      change Handles C t.store it.path w.db (w.buckets t.store.name)
        ((walkItem C cfg jobUuid it w).world.buckets t.store.name)
      rcases walkItem_buckets C cfg jobUuid it w with heq | ⟨op, rec, hdecide, heq⟩
      · rw [heq]
        exact .refl C t.store it.path w.db _
      · rw [heq, show it.targets = [t] from htargets, ← (decideItem_operate hdecide).path_eq]
        exact ⟨uploadAndUpdateDB_retains C cfg op it.stmts t rec w,
          uploadAndUpdateDB_local C cfg op it.stmts t rec w⟩
  | mark cfg jobUuid e =>
      change Handles C t.store e.path w.db (w.buckets t.store.name)
        ((markEntry C pathMatch cfg jobUuid e w).world.buckets t.store.name)
      rcases markEntry_buckets C pathMatch cfg jobUuid e w with heq | ⟨f, -, hpath, heq⟩
      · rw [heq]
        exact .refl C t.store e.path w.db _
      · rw [heq, show e.targets = [t] from htargets, ← hpath]
        exact ⟨markDeleted_retains C pathMatch cfg e.lstat e.stmts t jobUuid (recordOf f) w,
          markDeleted_local C pathMatch cfg e.lstat e.stmts t jobUuid (recordOf f) w⟩

end

/-! ### The rows that are there -/

section

variable {C : Cloud} {pathMatch : Str → Str → Option Bool} {st : Store} {a : Action} {l : Log} {r : RemoteFile}

theorem newUploads_version {w : World} {u : Upload} (hu : u ∈ newUploads C a w) :
    u.path = a.path ∧ u.version = calcRemoteFileVersion w.db u.path u.target := by
  cases a with
  | mark cfg jobUuid e => cases hu
  | walk cfg jobUuid it =>
      unfold newUploads at hu
      dsimp only at hu
      split at hu
      · rename_i op rec hdecide
        split at hu
        · obtain ⟨t, -, hsent⟩ := List.mem_filterMap.mp hu
          obtain ⟨-, hpath, htarget, hversion, -⟩ := sentTo_eq_some hsent
          exact ⟨hpath.trans (decideItem_operate hdecide).path_eq, by rw [hversion, hpath, htarget]⟩
        · cases hu
      · cases hu

/-- A row that was there leads to the same object after a step. -/
theorem Leads.step (h : Leads C st l r) (hr : r ∈ l.world.db.remoteFiles) (htarget : r.target = st.name)
    (hclean : IsClean r.localPath)
    (hpath : (a.apply C pathMatch l.world).buckets = l.world.buckets ∨ IsClean a.path)
    (hhandles : Handles C st a.path l.world.db (l.world.buckets st.name)
      ((a.apply C pathMatch l.world).buckets st.name)) : Leads C st (logStep C pathMatch a l) r := by
  obtain ⟨hold, u, hlast, hfind⟩ := h
  have hlt : r.version < calcRemoteFileVersion l.world.db r.localPath st.name :=
    version_lt_calc (List.mem_filter.mpr ⟨hr, by simp [htarget]⟩)
  obtain ⟨rows, new, hadds⟩ := apply_adds C pathMatch a l.world
  refine ⟨hold.mono hhandles.retains.1 (calcRemoteFileVersion_le hadds.remoteFiles _ _), u, ?_, ?_⟩
  · rw [← hlast]
    refine lastUpload_append_of_lt fun u' hu' hpath' htarget' => ?_
    rw [(newUploads_version hu').2, hpath', htarget']
    exact hlt
  · rw [← hfind]
    by_cases heq : a.path = r.localPath
    · rw [heq] at hhandles
      exact hhandles.retains.2 _ _ hold
    · rcases hpath with hsame | hpath
      · rw [show (logStep C pathMatch a l).world.buckets = l.world.buckets from hsame]
      · exact Store.find_congr (hhandles.separate.agree hpath hclean heq)

end

/-! ### The rows that are added -/

section

variable {C : Cloud} {rec : Record} {t : Target} {p p' : Pass} {jobUuid : Str}

/-- The row of a delete marker has the uuid that was drawn for it. -/
theorem markTarget_uuid (h : markTarget C jobUuid rec t p = .next p') :
    ∃ uuid remoteVersion, t.newV4 = some uuid ∧
      p'.db = addedRows p.db (nextRow uuid t jobUuid true rec remoteVersion p.db) := by
  unfold markTarget at h
  split at h
  · cases h
  · dsimp only at h
    split at h
    · cases h
    · split at h
      · cases h
      · rcases addRows_cases t jobUuid true rec (calcRemoteFileVersion p.db rec.path t.store.name) _ _ with
          ⟨-, e, db, hstop⟩ | ⟨-, uuid, huuid, -, hnext⟩
        · rw [hstop] at h
          cases h
        · rw [hnext] at h
          cases h
          exact ⟨uuid, _, huuid, rfl⟩

/-- The rows that a step adds have the uuids that were drawn for them. -/
theorem apply_uuids (C : Cloud) (pathMatch : Str → Str → Option Bool) (a : Action) (w : World) :
    ∀ r ∈ (a.apply C pathMatch w).db.remoteFiles,
      r ∈ w.db.remoteFiles ∨ ∃ t ∈ a.targets, t.newV4 = some r.uuid := by
  have hadded : ∀ {targets : List Target} {db : Db} {t : Target} {row : RemoteFile}, t ∈ targets →
      t.newV4 = some row.uuid → (∀ r ∈ db.remoteFiles, r ∈ w.db.remoteFiles ∨
        ∃ t ∈ targets, t.newV4 = some r.uuid) → ∀ r ∈ (addedRows db row).remoteFiles,
      r ∈ w.db.remoteFiles ∨ ∃ t ∈ targets, t.newV4 = some r.uuid := by
    intro targets db t row ht huuid hdb r hr
    rw [addedRows_remoteFiles] at hr
    rcases List.mem_append.mp hr with hr | hr
    · exact hdb r hr
    · obtain rfl := List.mem_singleton.mp hr
      exact .inr ⟨t, ht, huuid⟩
  have hsame : ∀ {targets : List Target} {db : Db}, db.remoteFiles = w.db.remoteFiles → ∀ r ∈ db.remoteFiles,
      r ∈ w.db.remoteFiles ∨ ∃ t ∈ targets, t.newV4 = some r.uuid := fun heq r hr => .inl (heq ▸ hr)
  cases a with
  | walk cfg jobUuid it =>
      change ∀ r ∈ (walkItem C cfg jobUuid it w).world.db.remoteFiles,
        r ∈ w.db.remoteFiles ∨ ∃ t ∈ it.targets, t.newV4 = some r.uuid
      rcases walkItem_cases C cfg jobUuid it w with
        ⟨-, hdb⟩ | ⟨-, -, hdb⟩ | ⟨rec, -, hr⟩ | ⟨op, rec, db, p, hdecide, hfiles, hloop, hr⟩
      · exact hsame (by rw [hdb])
      · obtain ⟨failed, hfailed⟩ := markItemAsFailed_cases it.failedFilesOk
          ⟨jobUuid, it.path, it.disk.fileType⟩ w.db
        exact hsame (by rw [hdb, hfailed])
      · exact hsame (by rw [hr]; exact (collectTarget_tables jobUuid it.path it.targets w.db).2.1)
      · rw [hr]
        refine forEach_next (I := fun (_ : List Target) (q : Pass) => ∀ r ∈ q.db.remoteFiles,
          r ∈ w.db.remoteFiles ∨ ∃ t ∈ it.targets, t.newV4 = some r.uuid)
          (hsame (filesEntry_files hfiles).2.1) ?_ hloop
        intro pre t post q q' hl hq hstep
        rcases operateTarget_uuid hstep with ⟨-, -, hdb⟩ | ⟨uuid, remoteVersion, huuid, hdb⟩
        · rw [hdb]
          exact hq
        · rw [hdb]
          exact hadded (by simp [hl]) huuid hq
  | mark cfg jobUuid e =>
      change ∀ r ∈ (markEntry C pathMatch cfg jobUuid e w).world.db.remoteFiles,
        r ∈ w.db.remoteFiles ∨ ∃ t ∈ e.targets, t.newV4 = some r.uuid
      rcases markEntry_cases C pathMatch cfg jobUuid e w with hdb | ⟨rec, p, -, hloop, hworld, -⟩
      · exact hsame (by rw [hdb])
      · rw [hworld]
        refine forEach_next (I := fun (_ : List Target) (q : Pass) => ∀ r ∈ q.db.remoteFiles,
          r ∈ w.db.remoteFiles ∨ ∃ t ∈ e.targets, t.newV4 = some r.uuid) (hsame rfl) ?_ hloop
        intro pre t post q q' hl hq hstep
        obtain ⟨uuid, remoteVersion, huuid, hdb⟩ := markTarget_uuid hstep
        rw [hdb]
        exact hadded (by simp [hl]) huuid hq

end

section

variable {C : Cloud} {keys : Str → Option (Bytes × Block keystoreUUIDSize)}
  {st : Store} {cfg : ConfigBackup} {jobUuid : Str} {it : Item} {l : Log} {rec : Record} {t : Target}
  {db : Db} {p : Pass}

/-- A metadata update follows a row whose content has not changed. -/
theorem decideItem_metadataUpdate {w : World} (h : decideItem cfg jobUuid it w.db = .operate .metadataUpdate rec) :
    ∃ f ∈ w.db.files, f.path = it.path ∧
      (contentChange it.disk f.props cfg.checksum cfg.encrypt).1 = false := by
  unfold decideItem at h
  split at h
  · cases h
  · cases (newRecord_operate h).1
  · rename_i dbRecord hread
    obtain ⟨f, hf, hpath, rfl⟩ := getBackedup_row hread
    rcases (existingRecord_operate h).2 with hop | ⟨-, hcontent⟩
    · cases hop
    · exact ⟨f, hf, hpath, hcontent⟩

/-- With the tables in step, a metadata update of a file finds the row of a file. -/
theorem Stocked.followsFile (h : Stocked C keys st l) (hreg : Regular keys st (.walk cfg jobUuid it) l.world) :
    FollowsFile (.walk cfg jobUuid it) l.world := by
  rintro cfg' job' it' rec ⟨⟩ hdecide hfile t ht r hnewest
  have hdesc := decideItem_operate hdecide
  obtain ⟨f, hf, hpath, hcontent⟩ := decideItem_metadataUpdate hdecide
  obtain ⟨t', htargets, hstore⟩ := hreg.target
  obtain rfl : t = t' := List.mem_singleton.mp (htargets ▸ ht)
  have hname : t.store.name = st.name := by rw [hstore]
  obtain ⟨r', hr', hmarker, hprops⟩ := h.inStep f hf st.name (List.mem_singleton.mpr rfl)
  rw [hdesc.path_eq, ← hpath, hname] at hnewest
  obtain rfl : r' = r := Option.some.inj (hr'.symm.trans hnewest)
  have hdisk : it.disk.fileType = .file := hdesc.type ▸ hfile
  have htype : f.props.type = it.disk.fileType := type_of_unchanged
    (hreg.walks cfg jobUuid it rfl).2 (h.kept.sums f hf) hcontent
  refine ⟨hprops.1.trans (htype.trans hdisk), hmarker, ?_⟩
  rw [hprops.2.2.2.2.2.2, (contentChange_eq_false hcontent).1 hdisk, hdesc.encrypted]

theorem VersionsCount.eq_of_version (h : VersionsCount db) {path target : Str} {r r' : RemoteFile}
    (hr : r ∈ versionsOf db path target) (hr' : r' ∈ versionsOf db path target) (heq : r.version = r'.version) :
    r = r' := by
  have hnodup : ((versionsOf db path target).map RemoteFile.version).Nodup := by
    rw [h path target]
    exact List.nodup_range' _
  exact List.inj_on_of_nodup_map hnodup hr hr' heq

/-- The row of an upload that has just gone through. -/
theorem leads_of_put {l' : Log} {r : RemoteFile} {u : Upload} {uploads : List Upload} {b : Bucket}
    (hpath : u.path = r.localPath) (htarget : u.target = st.name) (hversion : u.version = r.version)
    (huploads : l'.uploads = uploads ++ [u])
    (hbucket : l'.world.buckets st.name = (st.put C r.localPath r.version u.body b).2)
    (hremote : r.remoteVersion = (st.put C r.localPath r.version u.body b).1)
    (hcalc : calcRemoteFileVersion l'.world.db r.localPath st.name = r.version + 1) : Leads C st l' r := by
  unfold Leads
  rw [hbucket, hremote, hcalc, huploads]
  refine ⟨Store.old_put_self u.body, u, ?_, Store.find_put_self u.body⟩
  exact lastUpload_append_self (by simp [hpath, htarget, hversion])

/-- The row of a metadata update, which takes over the object of the row before. -/
theorem leads_of_update {l' : Log} {r m : RemoteFile} (hm : Leads C st l m)
    (hkind : st.kind = .awsS3 ∨ st.kind = .gcpStorage) (hpath : r.localPath = m.localPath)
    (hremote : r.remoteVersion = m.remoteVersion) (hversion : r.version = m.version + 1)
    (huploads : l'.uploads = l.uploads) (hbuckets : l'.world.buckets = l.world.buckets)
    (hbefore : ∀ u ∈ l.uploads, u.path = m.localPath → u.target = st.name → u.version < r.version) :
    Leads C st l' r := by
  obtain ⟨hold, u, hlast, hfind⟩ := hm
  unfold Leads
  rw [hbuckets, huploads, hpath, hremote]
  refine ⟨old_congr_version hkind hold, u, ?_, ?_⟩
  · rw [← hlast]
    exact lastUpload_congr hbefore (by omega) (by omega)
  · rw [← hfind]
    exact find_congr_version hkind _ _ _ _

/-- The path of a row that is added has the next version afterwards. -/
theorem calc_addedRows (db : Db) (uuid : Str) (t : Target) (jobUuid : Str) (deleteMarker : Bool) (rec : Record)
    (remoteVersion : Str) :
    calcRemoteFileVersion (addedRows db (nextRow uuid t jobUuid deleteMarker rec remoteVersion db)) rec.path
      t.store.name = calcRemoteFileVersion db rec.path t.store.name + 1 :=
  calcRemoteFileVersion_addedRows db (nextRow uuid t jobUuid deleteMarker rec remoteVersion db) rfl

/-- The pass of an upload has added a row, which leads to what was sent. -/
theorem uploadTarget_leads (hstore : t.store = { st with enc := t.store.enc })
    (hskip : preUploadCheck rec cfg t.store = none) (hdb : db.remoteFiles = l.world.db.remoteFiles)
    (hpass : uploadTarget C cfg rec t ⟨db, l.world.buckets, [], []⟩ = .next p) {l' : Log}
    (hworld : l'.world = ⟨p.db, p.buckets⟩)
    (huploads : rec.props.type = .file → l'.uploads = l.uploads ++ [t].filterMap (sentTo C cfg rec l.world.db)) :
    ∃ r, p.db = addedRows db r ∧ r.target = st.name ∧ r.localPath = rec.path ∧
      (r.props.type = .file → Leads C st l' r) := by
  have hname : t.store.name = st.name := by rw [hstore]
  -- the encryption of the store plays no part any more
  have hput : ∀ path version body b, t.store.put C path version body b = st.put C path version body b := by
    rw [hstore]
    exact fun _ _ _ _ => rfl
  rcases uploadTarget_next hpass with ⟨reason, hsome, -⟩ | ⟨-, sent, b, hup, hcan, herr, hb, -, uuid, -, hadd⟩
  · rw [hskip] at hsome
    cases hsome
  · refine ⟨_, hadd, hname, rfl, fun hfile => ?_⟩
    have hfile : rec.props.type = .file := hfile
    dsimp only at hup hb hadd
    rcases Store.upload_cases C t.store rec (calcRemoteFileVersion db rec.path t.store.name) t.out
      (l.world.buckets t.store.name) with ⟨hne, -⟩ | ⟨-, body, hbody, -, hgone⟩ | ⟨-, sent', b', hfailed, hfail, -⟩
    · exact absurd hfile hne
    · rw [hgone, hput] at hup
      cases hup
      have hsent : sentTo C cfg rec l.world.db t = some ⟨rec.path, t.store.name,
          calcRemoteFileVersion db rec.path t.store.name, t.out.content.1, body⟩ := by
        simp [sentTo, hskip, hbody, calcRemoteFileVersion_congr hdb]
      refine leads_of_put (b := l.world.buckets t.store.name) (u := ⟨rec.path, t.store.name,
        calcRemoteFileVersion db rec.path t.store.name, t.out.content.1, body⟩) rfl hname rfl
        (by rw [huploads hfile, List.filterMap_cons_some hsent, List.filterMap_nil]) ?_ rfl ?_
      · rw [hworld, ← hname]
        dsimp only
        rw [hb, Function.update_self]
        rfl
      · rw [hworld, hadd, ← hname]
        exact calc_addedRows db uuid t rec.jobUuid false rec _
    · rw [hfailed] at hup
      cases hup
      simp [hcan, herr] at hfail

/-- The pass of a metadata update has added a row, which leads where the row before does. -/
theorem Stocked.updateTarget_leads (h : Stocked C keys st l) (hstore : t.store = { st with enc := t.store.enc })
    (hkind : rec.props.type = .file → st.kind = .awsS3 ∨ st.kind = .gcpStorage)
    (hfollows : rec.props.type = .file → ∀ r, newest l.world.db rec.path t.store.name = some r →
      r.props.type = .file ∧ r.deleteMarker = false)
    (hdb : db.remoteFiles = l.world.db.remoteFiles)
    (hpass : updateTarget rec t ⟨db, l.world.buckets, [], []⟩ = .next p) {l' : Log}
    (hworld : l'.world = ⟨p.db, p.buckets⟩) (huploads : l'.uploads = l.uploads) :
    ∃ r, p.db = addedRows db r ∧ r.target = st.name ∧ r.localPath = rec.path ∧
      (r.props.type = .file → Leads C st l' r) := by
  have hname : t.store.name = st.name := by rw [hstore]
  obtain ⟨rv, hv, hget, hb, -, uuid, -, hadd⟩ := updateTarget_next hpass
  dsimp only at hv hget hb hadd
  refine ⟨_, hadd, hname, rfl, fun hfile => ?_⟩
  have hfile : rec.props.type = .file := hfile
  have hcalc := calcRemoteFileVersion_congr hdb rec.path t.store.name
  cases hnewest : newest l.world.db rec.path t.store.name with
  | none =>
      rw [hcalc, calcRemoteFileVersion, hnewest] at hv
      exact absurd hv (Nat.lt_irrefl 1)
  | some m =>
      obtain ⟨hm, hpath, htarget⟩ := newest_mem hnewest
      obtain ⟨hmfile, hmarker⟩ := hfollows hfile m hnewest
      have hversion : calcRemoteFileVersion db rec.path t.store.name = m.version + 1 := by
        rw [hcalc, calcRemoteFileVersion, hnewest]
      -- the remote version that is taken over is that of the newest row
      obtain ⟨m', hfind, hrv⟩ := Option.map_eq_some_iff.mp hget
      have hm' : m' ∈ versionsOf l.world.db rec.path t.store.name := by
        rw [← versionsOf_congr hdb]
        exact List.mem_of_find?_eq_some hfind
      have heq : m' = m := by
        refine h.count.eq_of_version hm' (List.mem_filter.mpr ⟨hm, by simp [hpath, htarget]⟩) ?_
        have hat := List.find?_some hfind
        rw [decide_eq_true_eq, hversion] at hat
        exact hat
      refine leads_of_update (h.leads m hm hmfile hmarker) (hkind hfile) hpath.symm ?_ hversion huploads ?_ ?_
      · rw [← heq]
        exact hrv.symm
      · rw [hworld]
        exact hb
      · intro u hu hupath hutarget
        have hlt := h.logged.versions u hu
        rw [hupath, hutarget, hpath, ← hname, ← hcalc] at hlt
        exact hlt

theorem Stocked.walk (pathMatch : Str → Str → Option Bool) (h : Stocked C keys st l)
    (hreg : Regular keys st (.walk cfg jobUuid it) l.world) :
    ∃ rows, (walkItem C cfg jobUuid it l.world).world.db.remoteFiles = l.world.db.remoteFiles ++ rows ∧
      ∀ r ∈ rows, r.target = st.name ∧ r.localPath = it.path ∧
        (r.props.type = .file → Leads C st (logStep C pathMatch (.walk cfg jobUuid it) l) r) := by
  obtain ⟨t, htargets, hstore⟩ := hreg.target
  have htargets : it.targets = [t] := htargets
  have hnothing : ∀ {db : Db}, db.remoteFiles = l.world.db.remoteFiles →
      ∃ rows, db.remoteFiles = l.world.db.remoteFiles ++ rows ∧ ∀ r ∈ rows, r.target = st.name ∧
        r.localPath = it.path ∧ (r.props.type = .file → Leads C st (logStep C pathMatch (.walk cfg jobUuid it) l) r) :=
    fun heq => ⟨[], by rw [heq, List.append_nil], fun _ hr => absurd hr List.not_mem_nil⟩
  rcases walkItem_cases C cfg jobUuid it l.world with
    ⟨-, hdb⟩ | ⟨-, -, hdb⟩ | ⟨rec, -, hr⟩ | ⟨op, rec, db, p, hdecide, hfiles, hloop, hr⟩
  · exact hnothing (by rw [hdb])
  · obtain ⟨rows, hrows⟩ := markItemAsFailed_cases it.failedFilesOk ⟨jobUuid, it.path, it.disk.fileType⟩ l.world.db
    exact hnothing (by rw [hdb, hrows])
  · exact hnothing (by rw [hr]; exact (collectTarget_tables jobUuid it.path it.targets l.world.db).2.1)
  · have hfdb := (filesEntry_files hfiles).2.1
    have hdesc := decideItem_operate hdecide
    have hworld : (logStep C pathMatch (.walk cfg jobUuid it) l).world = ⟨p.db, p.buckets⟩ := by
      change (walkItem C cfg jobUuid it l.world).world = _
      rw [hr]
    suffices hrow : ∃ r, p.db = addedRows db r ∧ r.target = st.name ∧ r.localPath = rec.path ∧
        (r.props.type = .file → Leads C st (logStep C pathMatch (.walk cfg jobUuid it) l) r) by
      obtain ⟨r, hadd, htarget, hpath, hleads⟩ := hrow
      refine ⟨[r], by rw [hr, hadd, ← hfdb]; rfl, fun r' hr' => ?_⟩
      obtain rfl := List.mem_singleton.mp hr'
      exact ⟨htarget, hpath.trans hdesc.path_eq, hleads⟩
    rw [htargets, forEach_singleton, operateTarget] at hloop
    by_cases hop : op.operationType = .upload
    · rw [if_pos hop] at hloop
      have hskip : preUploadCheck rec cfg t.store = none := by
        have hskips := hreg.skips
        simpa [skipsNone, hdecide, hop, htargets] using hskips
      refine uploadTarget_leads hstore hskip hfdb hloop hworld fun hfile => congrArg (l.uploads ++ ·) ?_
      simp only [newUploads, hdecide, hop, hfile, hr, htargets, and_self, if_true]
    · have hmeta : op = .metadataUpdate := by cases op <;> simp_all [Operation.operationType]
      subst hmeta
      rw [if_neg hop] at hloop
      have hfollows := h.followsFile hreg cfg jobUuid it rec rfl hdecide
      refine h.updateTarget_leads hstore (hreg.takesOver cfg jobUuid it rec rfl hdecide)
        (fun hfile r hnewest => ?_) hfdb hloop hworld ?_
      · obtain ⟨htype, hmarker, -⟩ := hfollows hfile t (by rw [htargets]; exact List.mem_singleton.mpr rfl) r hnewest
        exact ⟨htype, hmarker⟩
      · change l.uploads ++ newUploads C (.walk cfg jobUuid it) l.world = l.uploads
        rw [show newUploads C (.walk cfg jobUuid it) l.world = [] by simp [newUploads, hdecide, hop], List.append_nil]

/-- An item that is backed up has rows of its path. -/
theorem Stocked.isClean_of_file (h : Stocked C keys st l) {f : FilesRow} (hf : f ∈ l.world.db.files) :
    IsClean f.path := by
  obtain ⟨m, hm, -⟩ := h.inStep f hf st.name (List.mem_singleton.mpr rfl)
  obtain ⟨hmem, hpath, -⟩ := newest_mem hm
  exact hpath ▸ (h.mine m hmem).2

theorem Stocked.mark {e : Entry} (pathMatch : Str → Str → Option Bool) (h : Stocked C keys st l)
    (hreg : Regular keys st (.mark cfg jobUuid e) l.world) :
    ∃ rows, (markEntry C pathMatch cfg jobUuid e l.world).world.db.remoteFiles = l.world.db.remoteFiles ++ rows ∧
      ∀ r ∈ rows, r.target = st.name ∧ IsClean r.localPath ∧ r.deleteMarker = true := by
  obtain ⟨t, htargets, hstore⟩ := hreg.target
  have htargets : e.targets = [t] := htargets
  rcases markEntry_cases C pathMatch cfg jobUuid e l.world with hdb | ⟨rec, p, hrec, hloop, hworld, -⟩
  · exact ⟨[], by rw [hdb, List.append_nil], fun _ hr => absurd hr List.not_mem_nil⟩
  · rw [htargets, forEach_singleton] at hloop
    obtain ⟨sent, b, -, -, -, -, -, uuid, -, hadd⟩ := markTarget_next hloop
    refine ⟨[nextRow uuid t jobUuid true rec sent.remoteVersion (filesDelete l.world.db rec.path)],
      by rw [hworld, hadd]; rfl, fun r hr => ?_⟩
    obtain rfl := List.mem_singleton.mp hr
    refine ⟨by change t.store.name = st.name; rw [hstore], ?_, rfl⟩
    obtain ⟨f, hf, -, rfl⟩ := getBackedup_row hrec
    exact h.isClean_of_file hf

theorem Stocked.step {a : Action} (pathMatch : Str → Str → Option Bool) (h : Stocked C keys st l)
    (hreg : Regular keys st a l.world) :
    Stocked C keys st (logStep C pathMatch a l) := by
  obtain ⟨t, htargets, hstore⟩ := hreg.target
  have hhandles := apply_handles C pathMatch l.world htargets hstore
  have hover : a.Over [st.name] := by
    unfold Action.Over
    rw [htargets, List.map_singleton, hstore]
  have hcount : VersionsCount (logStep C pathMatch a l).world.db :=
    (apply_continues C pathMatch a l.world).count h.count
  have hinStep : TablesInStep [st.name] (logStep C pathMatch a l).world.db :=
    tablesInStep_step a l.world h.inStep hover hreg.skips
  have huuids : ∀ r ∈ (logStep C pathMatch a l).world.db.remoteFiles, r.uuid ≠ [] := by
    intro r hr
    rcases apply_uuids C pathMatch a l.world r hr with hr | ⟨t', ht', huuid⟩
    · exact h.uuids r hr
    · rintro hnil
      exact hreg.uuids t' ht' (hnil ▸ huuid)
  cases a with
  | walk cfg jobUuid it =>
      obtain ⟨hclean, -⟩ := hreg.walks cfg jobUuid it rfl
      obtain ⟨rows, hrows, hnew⟩ := h.walk pathMatch hreg
      have hrows : (logStep C pathMatch (.walk cfg jobUuid it) l).world.db.remoteFiles =
        l.world.db.remoteFiles ++ rows := hrows
      refine ⟨hinStep, h.kept.walk, hcount, logged_step h.logged hreg.keeping (h.followsFile hreg), huuids, ?_, ?_⟩
      · intro r hr
        rw [hrows] at hr
        rcases List.mem_append.mp hr with hr | hr
        · exact h.mine r hr
        · obtain ⟨htarget, hpath, -⟩ := hnew r hr
          exact ⟨htarget, hpath ▸ hclean⟩
      · intro r hr hfile hmarker
        rw [hrows] at hr
        rcases List.mem_append.mp hr with hr | hr
        · exact (h.leads r hr hfile hmarker).step hr (h.mine r hr).1 (h.mine r hr).2 (.inr hclean) hhandles
        · exact (hnew r hr).2.2 hfile
  | mark cfg jobUuid e =>
      obtain ⟨rows, hrows, hnew⟩ := h.mark pathMatch hreg
      have hrows : (logStep C pathMatch (.mark cfg jobUuid e) l).world.db.remoteFiles =
        l.world.db.remoteFiles ++ rows := hrows
      have hpath : ((Action.mark cfg jobUuid e).apply C pathMatch l.world).buckets = l.world.buckets ∨
          IsClean e.path := by
        refine (markEntry_buckets C pathMatch cfg jobUuid e l.world).imp_right ?_
        rintro ⟨f, hf, hpath, -⟩
        exact hpath ▸ h.isClean_of_file hf
      refine ⟨hinStep, h.kept.mark, hcount, logged_mark h.logged e, huuids, ?_, ?_⟩
      · intro r hr
        rw [hrows] at hr
        rcases List.mem_append.mp hr with hr | hr
        · exact h.mine r hr
        · exact ⟨(hnew r hr).1, (hnew r hr).2.1⟩
      · intro r hr hfile hmarker
        rw [hrows] at hr
        rcases List.mem_append.mp hr with hr | hr
        · exact (h.leads r hr hfile hmarker).step hr (h.mine r hr).1 (h.mine r hr).2 hpath hhandles
        · rw [(hnew r hr).2.2] at hmarker
          cases hmarker

end

theorem stocked_reaches {C : Cloud} {keys : Str → Option (Bytes × Block keystoreUUIDSize)} {st : Store}
    {pathMatch : Str → Str → Option Bool} {l : Log}
    (hrun : Reaches (fun a l => Regular keys st a l.world) (logStep C pathMatch) Log.empty l) :
    Stocked C keys st l := by
  refine hrun.invariant (I := Stocked C keys st) ?_ fun a l h hreg => h.step pathMatch hreg
  refine ⟨fun f hf => absurd hf List.not_mem_nil, wellKept_empty, versionsCount_empty, ?_,
    fun r hr => absurd hr List.not_mem_nil, fun r hr => absurd hr List.not_mem_nil,
    fun r hr => absurd hr List.not_mem_nil⟩
  exact ⟨fun r hr => absurd hr List.not_mem_nil, fun u hu => absurd hu List.not_mem_nil⟩

end CloudBackup.Backup
