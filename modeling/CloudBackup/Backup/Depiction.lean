import CloudBackup.Backup.StoredContents

/-!
The collection of a run as a picture of the disk. If nothing fails, every item that was
seen has one live row in the collection of the job and no other item has any; the row has
the type of the item and the target of a link, and leads to the contents of a file.

The contents are those of the day even where nothing was sent, if the detection of
changes can be relied on (`Detects`).
-/

namespace CloudBackup.Backup

open Cbcrypto Database ObjectStore Iteration UnixPath TreeWalk

def CollectedBy (db : Db) (jobUuid : Str) (r : RemoteFile) : Prop :=
  r ∈ db.remoteFiles ∧ ∃ c ∈ db.backupCollections, c.fileUuid = r.uuid ∧ c.jobId = jobUuid

def Holds (st : Store) (l : Log) (path : Str) (content : Bytes) : Prop :=
  ∀ r, newest l.world.db path st.name = some r →
    ∀ u, lastUpload l.uploads path st.name r.version = some u → u.content = content

section

variable (C : Cloud) (pathMatch : Str → Str → Option Bool) (cfg : ConfigBackup) (dereference : Bool) (v : Volume)
  (contents : Str → Bytes) (keys : Str → Option (Bytes × Block keystoreUUIDSize)) (st : Store) (jobUuid : Str)

/-- A file whose row shows no change has the content that was sent last. -/
def Detects (l : Log) : Prop :=
  ∀ path stat, Seen pathMatch cfg dereference v path stat → stat.fileType = .file →
    ∀ f ∈ l.world.db.files, f.path = path → (contentChange stat f.props cfg.checksum cfg.encrypt).1 = false →
      Holds st l path (contents path)

/-- The configured paths are absolute. What is seen above one of them is a directory,
and so is the root. -/
structure Rooted : Prop where
  abs : ∀ root ∈ cfg.paths, isAbs root = true
  above : ∀ root ∈ cfg.paths, ∀ path stat, Seen pathMatch cfg dereference v path stat →
    Below path (clean root) → stat.fileType = .dir
  top : ∀ path stat, Seen pathMatch cfg dereference v path stat → components path = [] → stat.fileType = .dir

/-- A flawless run for the store, which reads the contents of the disk. Its statements
go through, and it starts from where changes can be detected. -/
structure DepictingRun (lstat : Str → Lstat) (env : Surroundings) (rounds : ℕ → Round) (s t : Scanning)
    (m : Marking) (uploads : List Upload) : Prop where
  flawless : FlawlessRun C pathMatch cfg dereference v jobUuid env st.name rounds s t m
  enters : Enters st.name env
  visits : ∀ it w, Visits pathMatch cfg dereference v C jobUuid env s it w →
    Regular keys st (.walk cfg jobUuid it) w ∧ ∀ t ∈ it.targets, t.out.content.1 = contents it.path
  marks : ∀ k path w, Regular keys st (.mark cfg jobUuid { (rounds k).entry path with path := path }) w
  comparable : ∀ path stat, Seen pathMatch cfg dereference v path stat → Comparable cfg stat
  flags : ∀ path stat, Seen pathMatch cfg dereference v path stat → ∀ f ∈ s.world.db.files, f.path = path →
    FlagAgrees cfg stat f.props
  lstat : ∀ k path, ((rounds k).entry path).lstat = lstat path
  detects : Detects pathMatch cfg dereference v contents st ⟨s.world, uploads⟩

structure Depicting (l : Log) : Prop where
  stocked : Stocked C keys st l
  detects : Detects pathMatch cfg dereference v contents st l
  collected : ∀ r, CollectedBy l.world.db jobUuid r → r.deleteMarker = false ∧
    newest l.world.db r.localPath st.name = some r ∧
      ∃ stat, Seen pathMatch cfg dereference v r.localPath stat ∧ SettledAt cfg r.localPath stat l.world.db

structure PictureOf (l : Log) (r : RemoteFile) (stat : OnDisk) : Prop where
  type : r.props.type = stat.fileType
  known : stat.fileType ≠ .unknown
  linkTarget : stat.fileType = .symlink → stat.readlink = some r.props.linkTarget
  encrypted : stat.fileType = .file → r.props.encrypted = cfg.encrypt
  content : stat.fileType = .file → ∃ u, lastUpload l.uploads r.localPath st.name r.version = some u ∧
    u.content = contents r.localPath ∧ SentAs C.aead.toAead keys r u ∧
    st.find C r.localPath r.version r.remoteVersion (l.world.buckets st.name) = .ok u.body

structure Depicts (l : Log) : Prop where
  rows : ∀ r, CollectedBy l.world.db jobUuid r → r.deleteMarker = false → IsClean r.localPath ∧
    ∃ stat, Seen pathMatch cfg dereference v r.localPath stat ∧
      PictureOf C cfg contents keys st l r stat
  once : ∀ r r', CollectedBy l.world.db jobUuid r → r.deleteMarker = false → CollectedBy l.world.db jobUuid r' →
    r'.deleteMarker = false → r.localPath = r'.localPath → r = r'
  whole : ∀ path stat, Seen pathMatch cfg dereference v path stat →
    ∃ r, CollectedBy l.world.db jobUuid r ∧ r.deleteMarker = false ∧ r.localPath = path

end

/-! ### Paths -/

section

variable {pathMatch : Str → Str → Option Bool} {cfg : ConfigBackup} {dereference : Bool} {v : Volume}
  {path path' : Str} {stat stat' : OnDisk}

theorem Seen.scans (h : Seen pathMatch cfg dereference v path stat) (habs : ∀ root ∈ cfg.paths, isAbs root = true) :
    ∃ root ∈ cfg.paths, Scans v dereference (notExcluded pathMatch cfg) (clean root) path := by
  obtain ⟨root, hroot, hmem⟩ := h
  refine ⟨root, hroot, (mem_scanned (isClean_clean (habs root hroot)) path).mp ?_⟩
  exact List.mem_map.mpr ⟨_, List.mem_filter.mpr ⟨hmem, rfl⟩, rfl⟩

theorem Scans.dir_of_ne {passes : Str → Bool} (h : Scans v dereference passes path path') (hne : path ≠ path')
    (hexamine : v.examine dereference path = some stat) : stat.fileType = .dir := by
  obtain ⟨stat₀, stat₁, hexamine', hd⟩ := h
  obtain rfl : stat₀ = stat := Option.some.inj (hexamine'.symm.trans hexamine)
  rcases descends_iff.mp hd with heq | ⟨c, hc, -⟩
  · exact absurd (congrArg Sight.path heq) hne
  · obtain ⟨⟨stat₂, hfound, hdir⟩, -⟩ := mem_sightsIn.mp hc
    cases hfound
    exact hdir

theorem Rooted.dir_above (h : Rooted pathMatch cfg dereference v) (hseen : Seen pathMatch cfg dereference v path stat)
    (hclean : IsClean path) (hseen' : Seen pathMatch cfg dereference v path' stat') (hbelow : Below path path') :
    stat.fileType = .dir := by
  obtain ⟨root, hroot, hscans⟩ := hseen'.scans h.abs
  have hcleanRoot := isClean_clean (h.abs root hroot)
  rcases List.prefix_or_prefix_of_prefix (hscans.starts hcleanRoot) hbelow.1 with hpre | hpre
  · -- the path lies between the configured one and the other
    obtain ⟨-, hfrom⟩ := hscans.between hcleanRoot hclean hpre hbelow.1
    exact Scans.dir_of_ne hfrom (fun heq => hbelow.2 (congrArg components heq)) hseen.examined
  · by_cases heq : components path = components (clean root)
    · obtain rfl := hclean.ext hcleanRoot heq
      exact Scans.dir_of_ne hscans (fun heq' => hbelow.2 (congrArg components heq')) hseen.examined
    · exact h.above root hroot path stat hseen ⟨hpre, heq⟩

end

/-! ### Collections -/

section

variable {db db' : Db} {jobUuid path target : Str} {r row : RemoteFile}

/-- A delete marker apart, the newest row is the one that is collected. -/
theorem getNewestRemoteFileUuid_of_newest (hcount : VersionsCount db) (huuid : r.uuid ≠ [])
    (hnewest : newest db path target = some r) (hmarker : r.deleteMarker = false) :
    getNewestRemoteFileUuid db path target = some r.uuid := by
  have hr : r ∈ versionsOf db path target := List.argmax_mem (Option.mem_def.mpr hnewest)
  cases hlive : ((versionsOf db path target).filter (!·.deleteMarker)).argmax RemoteFile.version with
  | none =>
      rw [List.argmax_eq_none, List.filter_eq_nil_iff] at hlive
      exact absurd (by simp [hmarker]) (hlive r hr)
  | some m =>
      have hm : m ∈ versionsOf db path target := List.mem_of_mem_filter (List.argmax_mem (Option.mem_def.mpr hlive))
      -- both have the highest version
      have hle : m.version ≤ r.version := List.le_of_mem_argmax hm hnewest
      have hge : r.version ≤ m.version :=
        List.le_of_mem_argmax (List.mem_filter.mpr ⟨hr, by simp [hmarker]⟩) hlive
      obtain rfl := hcount.eq_of_version hm hr (le_antisymm hle hge)
      rw [getNewestRemoteFileUuid, hlive]
      exact if_neg huuid

theorem CollectedBy.mem_collectedPaths (h : CollectedBy db jobUuid r) (hkeyed : Keyed db) :
    r.localPath ∈ collectedPaths db jobUuid r.target := by
  obtain ⟨hr, c, hc, huuid, hjob⟩ := h
  obtain ⟨r', hr', huuid', htarget⟩ := hkeyed.rowOf c hc
  obtain rfl := List.inj_on_of_nodup_map hkeyed.uuids hr' hr (huuid'.trans huuid)
  refine List.mem_map.mpr ⟨r', List.mem_filter.mpr ⟨hr, List.any_eq_true.mpr ⟨c, hc, ?_⟩⟩, rfl⟩
  simp [huuid, hjob, htarget]

theorem exists_collectedBy (h : path ∈ collectedPaths db jobUuid target) :
    ∃ r, CollectedBy db jobUuid r ∧ r.localPath = path := by
  obtain ⟨r, hr, hpath⟩ := List.mem_map.mp h
  obtain ⟨hmem, hany⟩ := List.mem_filter.mp hr
  obtain ⟨c, hc, hmatch⟩ := List.any_eq_true.mp hany
  rw [decide_eq_true_eq] at hmatch
  exact ⟨r, ⟨hmem, c, hc, hmatch.1, hmatch.2.1⟩, hpath⟩

theorem CollectedBy.congr (h : CollectedBy db jobUuid r) (hrows : db'.remoteFiles = db.remoteFiles)
    (hcollections : db'.backupCollections = db.backupCollections) : CollectedBy db' jobUuid r := by
  unfold CollectedBy
  rw [hrows, hcollections]
  exact h

/-- What is in a collection with a new row was there before, or is the row. -/
theorem CollectedBy.of_addedRows (h : CollectedBy (addedRows db row) jobUuid r) (hkeyed : Keyed db)
    (hkeyed' : Keyed (addedRows db row)) : CollectedBy db jobUuid r ∨ r = row := by
  obtain ⟨hr, c, hc, huuid, hjob⟩ := h
  rw [addedRows_backupCollections] at hc
  rcases List.mem_append.mp hc with hc | hc
  · obtain ⟨r', hr', huuid', -⟩ := hkeyed.rowOf c hc
    obtain rfl := List.inj_on_of_nodup_map hkeyed'.uuids (List.mem_append_left _ hr') hr (huuid'.trans huuid)
    exact .inl ⟨hr', c, hc, huuid, hjob⟩
  · obtain rfl := List.mem_singleton.mp hc
    have hrow : row ∈ (addedRows db row).remoteFiles := by simp
    exact .inr (List.inj_on_of_nodup_map hkeyed'.uuids hr hrow huuid.symm)

/-- What is collected for one target: what was before, and its newest row. -/
theorem CollectedBy.of_collectTarget {t : Target} (hkeyed : Keyed db)
    (hnewest : getNewestRemoteFileUuid db path t.store.name = some row.uuid) (hrow : row ∈ db.remoteFiles)
    (h : CollectedBy (collectTarget jobUuid path db t) jobUuid r) : CollectedBy db jobUuid r ∨ r = row := by
  unfold collectTarget at h
  split at h
  · exact .inl h
  · rw [hnewest] at h
    dsimp only at h
    split at h
    · exact .inl h
    · obtain ⟨hr, c, hc, huuid, hjob⟩ := h
      rcases List.mem_append.mp hc with hc | hc
      · exact .inl ⟨hr, c, hc, huuid, hjob⟩
      · obtain rfl := List.mem_singleton.mp hc
        exact .inr (List.inj_on_of_nodup_map hkeyed.uuids hr hrow huuid.symm)

end

/-! ### What the rows lead to -/

section

variable {C : Cloud} {pathMatch : Str → Str → Option Bool} {cfg : ConfigBackup} {dereference : Bool} {v : Volume}
  {contents : Str → Bytes} {keys : Str → Option (Bytes × Block keystoreUUIDSize)} {st : Store} {jobUuid : Str}
  {l l' : Log} {it : Item} {op : Operation} {rec : Record} {t : Target} {path : Str} {content : Bytes}

theorem Holds.congr (h : Holds st l path content)
    (hnewest : newest l'.world.db path st.name = newest l.world.db path st.name)
    (huploads : ∀ k, lastUpload l'.uploads path st.name k = lastUpload l.uploads path st.name k) :
    Holds st l' path content := by
  unfold Holds
  simp only [hnewest, huploads]
  exact h

theorem lastUpload_newUploads {body : Bytes} (uploads : List Upload) (w : World)
    (hdecide : decideItem cfg jobUuid it w.db = .operate op rec) (hop : op.operationType = .upload)
    (hfile : rec.props.type = .file) (hcan : (walkItem C cfg jobUuid it w).cancelled = false)
    (herr : (walkItem C cfg jobUuid it w).err = none) (htargets : it.targets = [t])
    (hskip : preUploadCheck rec cfg t.store = none)
    (hbody : wireBody C.aead.toAead t.store.enc rec.skipEncryption t.out.content.1 t.out.rand = .ok body) :
    lastUpload (uploads ++ newUploads C (.walk cfg jobUuid it) w) rec.path t.store.name
      (calcRemoteFileVersion w.db rec.path t.store.name) = some ⟨rec.path, t.store.name,
        calcRemoteFileVersion w.db rec.path t.store.name, t.out.content.1, body⟩ := by
  have hsent : sentTo C cfg rec w.db t = some ⟨rec.path, t.store.name,
      calcRemoteFileVersion w.db rec.path t.store.name, t.out.content.1, body⟩ := by
    simp [sentTo, hskip, hbody]
  have hnew : newUploads C (.walk cfg jobUuid it) w = [t].filterMap (sentTo C cfg rec w.db) := by
    simp only [newUploads, hdecide, hop, hfile, hcan, herr, htargets, and_self, if_true]
  rw [hnew]
  exact lastUpload_append_self (filter_sentTo (by simp) (List.mem_singleton.mpr rfl) hsent)

theorem newUploads_of_not_operate {w : World} (h : ∀ op rec, decideItem cfg jobUuid it w.db ≠ .operate op rec) :
    newUploads C (.walk cfg jobUuid it) w = [] := by
  unfold newUploads
  dsimp only
  split
  · rename_i op rec hdecide
    exact absurd hdecide (h op rec)
  · rfl

theorem newUploads_of_cancelled {w : World} (h : (walkItem C cfg jobUuid it w).cancelled = true) :
    newUploads C (.walk cfg jobUuid it) w = [] := by
  unfold newUploads
  dsimp only
  split
  · rw [if_neg]
    simp [h]
  · rfl

structure Operated (C : Cloud) (cfg : ConfigBackup) (st : Store) (jobUuid : Str) (it : Item) (op : Operation)
    (rec : Record) (row : RemoteFile) (l l' : Log) : Prop where
  path : row.localPath = it.path
  target : row.target = st.name
  live : row.deleteMarker = false
  files : filesRow rec ∈ l'.world.db.files ∧ ∀ f ∈ l'.world.db.files, f = filesRow rec ∨
    f ∈ l.world.db.files ∧ it.path ≠ f.path
  newest : newest l'.world.db it.path st.name = some row ∧ ∀ path, path ≠ it.path →
    Database.newest l'.world.db path st.name = Database.newest l.world.db path st.name
  collected : ∀ r, CollectedBy l'.world.db jobUuid r → CollectedBy l.world.db jobUuid r ∨ r = row
  uploads : ∀ path, path ≠ it.path → ∀ k,
    lastUpload l'.uploads path st.name k = lastUpload l.uploads path st.name k
  sent : op.operationType = .upload → rec.props.type = .file → ∃ t ∈ it.targets, ∃ u,
    lastUpload l'.uploads it.path st.name row.version = some u ∧ u.content = t.out.content.1
  update : op.operationType ≠ .upload → l'.uploads = l.uploads ∧
    1 < row.version ∧ row.version = calcRemoteFileVersion l.world.db it.path st.name

theorem Stocked.operated (pathMatch : Str → Str → Option Bool) (h : Stocked C keys st l)
    (hreg : Regular keys st (.walk cfg jobUuid it) l.world)
    (hdecide : decideItem cfg jobUuid it l.world.db = .operate op rec) {db : Db} {p : Pass}
    (hfiles : filesEntry op it.stmts.filesOk rec l.world.db = some db)
    (hloop : forEach (operateTarget C cfg op rec) it.targets ⟨db, l.world.buckets, [], []⟩ = .next p)
    (hr : walkItem C cfg jobUuid it l.world = ⟨false, none, ⟨p.db, p.buckets⟩,
      p.events ++ updateCounters op.operationType rec.props.type rec.path false⟩) :
    ∃ row, Operated C cfg st jobUuid it op rec row l (logStep C pathMatch (.walk cfg jobUuid it) l) := by
  obtain ⟨t, htargets, hstore⟩ := hreg.target
  have htargets : it.targets = [t] := htargets
  have hname : t.store.name = st.name := by rw [hstore]
  have hdesc := decideItem_operate hdecide
  obtain ⟨hold, hrows, hcollections, -⟩ := filesEntry_files hfiles
  have hskip : op.operationType = .upload → preUploadCheck rec cfg t.store = none := by
    intro hop
    have hskips := hreg.skips
    simpa [skipsNone, hdecide, hop, htargets] using hskips
  have hpfiles := (operate_files hloop).1
  rw [htargets, forEach_singleton] at hloop
  have hcalc := calcRemoteFileVersion_congr hrows rec.path t.store.name
  have hkeyed' : Keyed (walkItem C cfg jobUuid it l.world).world.db := h.kept.walk.keyed
  rcases operateTarget_row hloop with ⟨hop, hne, -⟩ | ⟨row, hrow, hadd⟩
  · exact absurd (hskip hop) hne
  · obtain ⟨⟨uuid, rv, hrow⟩, hupload, hupdate⟩ := hrow
    rw [hcalc] at hrow hupdate
    have hpath : row.localPath = rec.path := by rw [hrow]; rfl
    have htarget : row.target = t.store.name := by rw [hrow]; rfl
    have hversion : row.version = calcRemoteFileVersion l.world.db rec.path t.store.name := by rw [hrow]; rfl
    have hworld : (logStep C pathMatch (.walk cfg jobUuid it) l).world.db = p.db := by
      change (walkItem C cfg jobUuid it l.world).world.db = _
      rw [hr]
    refine ⟨row, hpath.trans hdesc.path_eq, htarget.trans hname, by rw [hrow]; rfl, ?_, ?_, ?_, ?_, ?_, ?_⟩
    · rw [hworld, hpfiles]
      refine ⟨(filesEntry_mem hfiles).1, fun f hf => ?_⟩
      rw [← hdesc.path_eq]
      exact hold f hf
    · rw [hworld, hadd]
      refine ⟨?_, fun path hne => ?_⟩
      · rw [← hdesc.path_eq, ← hname, ← hpath, ← htarget]
        exact @newest_append_self db row (by rw [hpath, htarget, hcalc, hversion])
      · dsimp only
        rw [newest_addedRows_of_ne fun hc => hne (hc.1.symm.trans (hpath.trans hdesc.path_eq)), newest_congr hrows]
    · intro r hcollected
      rw [hworld, hadd] at hcollected
      rw [hr] at hkeyed'
      dsimp only at hkeyed' hadd
      rw [hadd] at hkeyed'
      have hkeyed : Keyed db := ⟨by rw [hrows]; exact h.kept.keyed.uuids, by
        rw [hrows, hcollections]; exact h.kept.keyed.rowOf⟩
      exact (hcollected.of_addedRows hkeyed hkeyed').imp_left fun hc => hc.congr hrows.symm hcollections.symm
    · intro path hne k
      refine lastUpload_append_of_lt fun u hu hupath _ => ?_
      exact absurd (hupath.symm.trans (newUploads_version hu).1) hne
    · intro hop hfile
      obtain ⟨hskip', body, hbody⟩ := hupload hop hfile
      refine ⟨t, by simp [htargets], ⟨rec.path, t.store.name, calcRemoteFileVersion l.world.db rec.path t.store.name,
        t.out.content.1, body⟩, ?_, rfl⟩
      rw [hversion, ← hdesc.path_eq, ← hname]
      exact lastUpload_newUploads l.uploads l.world hdecide hop hfile (by rw [hr]) (by rw [hr]) htargets hskip' hbody
    · intro hop
      refine ⟨?_, hversion ▸ hupdate hop, by rw [hversion, hdesc.path_eq, hname]⟩
      change l.uploads ++ newUploads C (.walk cfg jobUuid it) l.world = l.uploads
      rw [show newUploads C (.walk cfg jobUuid it) l.world = [] by simp [newUploads, hdecide, hop], List.append_nil]

/-! ### A visit -/

/-- The tables have changed in the collections only, if at all. -/
theorem Detects.congr (h : Detects pathMatch cfg dereference v contents st l)
    (hfiles : l'.world.db.files = l.world.db.files) (hrows : l'.world.db.remoteFiles = l.world.db.remoteFiles)
    (huploads : l'.uploads = l.uploads) : Detects pathMatch cfg dereference v contents st l' := by
  intro path stat hseen htype f hf hpath hcontent
  rw [hfiles] at hf
  exact (h path stat hseen htype f hf hpath hcontent).congr (newest_congr hrows path st.name) fun k => by rw [huploads]

/-- What was sent, or what there was to detect that nothing had to be. -/
theorem Detects.operated (h : Detects pathMatch cfg dereference v contents st l) (hlogged : Logged C.aead.toAead keys l)
    (hseen : Seen pathMatch cfg dereference v it.path it.disk)
    (hcontents : ∀ t ∈ it.targets, t.out.content.1 = contents it.path)
    (hdecide : decideItem cfg jobUuid it l.world.db = .operate op rec) {row : RemoteFile}
    (hop : Operated C cfg st jobUuid it op rec row l l') : Detects pathMatch cfg dereference v contents st l' := by
  intro path stat hseen' hfile f hf hpath hcontent
  by_cases hself : path = it.path
  · subst hself
    obtain rfl := hseen.unique hseen'
    have htype : rec.props.type = .file := (decideItem_operate hdecide).type.trans hfile
    intro r hr u hu
    obtain rfl : row = r := Option.some.inj (hop.newest.1.symm.trans hr)
    by_cases hupload : op.operationType = .upload
    · obtain ⟨t, ht, u', hu', hcontent'⟩ := hop.sent hupload htype
      obtain rfl : u' = u := Option.some.inj (hu'.symm.trans hu)
      exact hcontent'.trans (hcontents t ht)
    · -- the row before the update leads to the same upload
      obtain ⟨huploads, hlt, hversion⟩ := hop.update hupload
      have hmeta : op = .metadataUpdate := by cases op <;> simp_all [Operation.operationType]
      subst hmeta
      obtain ⟨f', hf', hpath', hcontent'⟩ := decideItem_metadataUpdate hdecide
      have hholds := h it.path it.disk hseen hfile f' hf' hpath' hcontent'
      cases hnewest : newest l.world.db it.path st.name with
      | none =>
          rw [hversion, calcRemoteFileVersion, hnewest] at hlt
          exact absurd hlt (lt_irrefl 1)
      | some m =>
          have hcalc : calcRemoteFileVersion l.world.db it.path st.name = m.version + 1 := by
            rw [calcRemoteFileVersion, hnewest]
          refine hholds m hnewest u ?_
          rw [← hu, huploads]
          refine lastUpload_congr (fun u' hu' hupath hutarget => ?_) le_rfl (by omega)
          have hbefore := hlogged.versions u' hu'
          rw [hupath, hutarget] at hbefore
          omega
  · have hold : f ∈ l.world.db.files := by
      rcases hop.files.2 f hf with rfl | ⟨hold, -⟩
      · exact absurd (hpath.symm.trans (decideItem_operate hdecide).path_eq) hself
      · exact hold
    exact (h path stat hseen' hfile f hold hpath hcontent).congr (hop.newest.2 path hself) (hop.uploads path hself)

variable {lstat : Str → Lstat} {env env' : Surroundings} {db₀ : Db}

/-- What is collected of an item that is up to date is its newest row. -/
theorem Depicting.upToDate (h : Depicting C pathMatch cfg dereference v contents keys st jobUuid l)
    (hreg : Regular keys st (.walk cfg jobUuid it) l.world) (hsettled : SettledAt cfg it.path it.disk l.world.db)
    (hseen : Seen pathMatch cfg dereference v it.path it.disk) {r : RemoteFile}
    (hr : CollectedBy (it.targets.foldl (collectTarget jobUuid it.path) l.world.db) jobUuid r) :
    r.deleteMarker = false ∧ newest l.world.db r.localPath st.name = some r ∧
      ∃ stat, Seen pathMatch cfg dereference v r.localPath stat ∧ SettledAt cfg r.localPath stat l.world.db := by
  obtain ⟨t, htargets, hstore⟩ := hreg.target
  have htargets : it.targets = [t] := htargets
  have hname : t.store.name = st.name := by rw [hstore]
  obtain ⟨f, hf, hpath, -⟩ := id hsettled
  obtain ⟨m, hm, hmarker, -⟩ := h.stocked.inStep f hf st.name (List.mem_singleton.mpr rfl)
  rw [hpath] at hm
  obtain ⟨hmem, hmpath, -⟩ := newest_mem hm
  have huuid := getNewestRemoteFileUuid_of_newest h.stocked.count (h.stocked.uuids m hmem) hm hmarker
  rw [htargets] at hr
  rw [← hname] at huuid
  rcases CollectedBy.of_collectTarget h.stocked.kept.keyed huuid hmem hr with hold | rfl
  · exact h.collected r hold
  · rw [hmpath]
    exact ⟨hmarker, hm, it.disk, hseen, hsettled⟩

theorem Depicting.visit (h : Depicting C pathMatch cfg dereference v contents keys st jobUuid l)
    (hrep : Repeatable pathMatch cfg dereference v lstat st.name env env' db₀)
    (hsettling : Settling pathMatch cfg dereference v jobUuid db₀ l.world.db)
    (hseen : Seen pathMatch cfg dereference v it.path it.disk)
    (hreg : Regular keys st (.walk cfg jobUuid it) l.world) (hquery : it.queryOk = true)
    (hcontents : ∀ t ∈ it.targets, t.out.content.1 = contents it.path)
    (herr : (walkItem C cfg jobUuid it l.world).err = none) :
    Depicting C pathMatch cfg dereference v contents keys st jobUuid
      (logStep C pathMatch (.walk cfg jobUuid it) l) := by
  have hstocked := h.stocked.step pathMatch hreg
  have hstays : ∀ path stat, Seen pathMatch cfg dereference v path stat → SettledAt cfg path stat l.world.db →
      SettledAt cfg path stat (walkItem C cfg jobUuid it l.world).world.db :=
    fun path stat hstat hat => hsettling.stays hrep hseen herr hstat hat
  have hdb : (logStep C pathMatch (.walk cfg jobUuid it) l).world.db = (walkItem C cfg jobUuid it l.world).world.db :=
    rfl
  have huploads : newUploads C (.walk cfg jobUuid it) l.world = [] →
      (logStep C pathMatch (.walk cfg jobUuid it) l).uploads = l.uploads := by
    intro hnil
    change l.uploads ++ _ = _
    rw [hnil, List.append_nil]
  rcases walkItem_cases C cfg jobUuid it l.world with
    ⟨hcan, hsame⟩ | ⟨-, hne, -⟩ | ⟨rec, hdecide, hr⟩ | ⟨op, rec, db, p, hdecide, hfiles, hloop, hr⟩
  · refine ⟨hstocked, h.detects.congr (by rw [hdb, hsame]) (by rw [hdb, hsame])
      (huploads (newUploads_of_cancelled hcan)), ?_⟩
    rw [hdb, hsame]
    exact h.collected
  · exact absurd herr hne
  · obtain ⟨htables, hrows, -⟩ := collectTarget_tables jobUuid it.path it.targets l.world.db
    have hafter : (walkItem C cfg jobUuid it l.world).world.db =
      it.targets.foldl (collectTarget jobUuid it.path) l.world.db := by rw [hr]
    have hsettled := settledAt_of_upToDate (hrep.comparable _ _ hseen) h.stocked.kept.sums hdecide
    refine ⟨hstocked, h.detects.congr (by rw [hdb, hafter, htables]) (by rw [hdb, hafter, hrows]) (huploads ?_), ?_⟩
    · exact newUploads_of_not_operate fun op rec' heq => by rw [hdecide] at heq; cases heq
    · intro r hcollected
      rw [hdb, hafter] at hcollected ⊢
      obtain ⟨hmarker, hnewest, stat, hstat, hat⟩ := h.upToDate hreg hsettled hseen hcollected
      rw [newest_congr hrows]
      exact ⟨hmarker, hnewest, stat, hstat, hafter ▸ hstays _ _ hstat hat⟩
  · obtain ⟨row, hoperated⟩ := h.stocked.operated pathMatch hreg hdecide hfiles hloop hr
    refine ⟨hstocked, h.detects.operated h.stocked.logged hseen hcontents hdecide hoperated, ?_⟩
    intro r hcollected
    rcases hoperated.collected r hcollected with hold | rfl
    · obtain ⟨hmarker, hnewest, stat, hstat, hat⟩ := h.collected r hold
      have hne : r.localPath ≠ it.path := by
        intro heq
        rw [heq] at hstat hat
        obtain rfl := hseen.unique hstat
        -- an item that is in the collection is up to date
        obtain ⟨f, hf, hfpath, hsettled⟩ := hat
        obtain ⟨rec', hupToDate⟩ : ∃ rec, decideItem cfg jobUuid it l.world.db = .upToDate rec :=
          decideItem_of_settled (hrep.comparable _ _ hseen) h.stocked.kept.nodup hf hfpath hsettled hquery
        rw [hdecide] at hupToDate
        cases hupToDate
      exact ⟨hmarker, by rw [hoperated.newest.2 _ hne]; exact hnewest, stat, hstat, hstays _ _ hstat hat⟩
    · rw [hoperated.path]
      exact ⟨hoperated.live, hoperated.newest.1, it.disk, hseen,
        hsettling.settles hrep hseen herr (by rw [hr])⟩

/-! ### A run -/

/-- What a run has collected stays as it is while it looks for deleted items. -/
structure Standing (C : Cloud) (keys : Str → Option (Bytes × Block keystoreUUIDSize)) (st : Store) (jobUuid : Str)
    (uploads : List Upload) (db₀ : Db) (w : World) : Prop where
  stocked : Stocked C keys st ⟨w, uploads⟩
  rows : ∀ r, CollectedBy w.db jobUuid r → r.deleteMarker = false → CollectedBy db₀ jobUuid r
  kept : ∀ r, CollectedBy db₀ jobUuid r → CollectedBy w.db jobUuid r ∧
    newest w.db r.localPath st.name = newest db₀ r.localPath st.name

theorem Standing.mark {uploads : List Upload} {w : World} {e : Entry} (pathMatch : Str → Str → Option Bool)
    (h : Standing C keys st jobUuid uploads db₀ w) (hkeyed : Keyed db₀)
    (hreg : Regular keys st (.mark cfg jobUuid e) w) (hcandidate : e.path ∉ collectedPaths db₀ jobUuid st.name) :
    Standing C keys st jobUuid uploads db₀ (markEntry C pathMatch cfg jobUuid e w).world := by
  have hstocked : Stocked C keys st ⟨(markEntry C pathMatch cfg jobUuid e w).world, uploads ++ []⟩ :=
    h.stocked.step pathMatch hreg
  rw [List.append_nil] at hstocked
  obtain ⟨t, htargets, -⟩ := hreg.target
  have htargets : e.targets = [t] := htargets
  refine ⟨hstocked, ?_, ?_⟩ <;>
    rcases markEntry_cases C pathMatch cfg jobUuid e w with hdb | ⟨rec, p, hrec, hloop, hworld, -⟩
  · rw [hdb]
    exact h.rows
  · rw [htargets, forEach_singleton] at hloop
    obtain ⟨sent, b, -, -, -, -, -, uuid, -, hadd⟩ := markTarget_next hloop
    have hkeyed' : Keyed (markEntry C pathMatch cfg jobUuid e w).world.db := hstocked.kept.keyed
    rw [hworld] at hkeyed' ⊢
    dsimp only at hkeyed' hadd ⊢
    rw [hadd] at hkeyed' ⊢
    intro r hr hlive
    have hkeyed : Keyed (filesDelete w.db rec.path) := ⟨h.stocked.kept.keyed.uuids, h.stocked.kept.keyed.rowOf⟩
    rcases hr.of_addedRows hkeyed hkeyed' with hold | rfl
    · exact h.rows r hold hlive
    · cases hlive
  · rw [hdb]
    exact h.kept
  · rw [htargets, forEach_singleton] at hloop
    obtain ⟨sent, b, -, -, -, -, -, uuid, -, hadd⟩ := markTarget_next hloop
    obtain ⟨f, hf, hfpath, rfl⟩ := getBackedup_row hrec
    rw [hworld]
    dsimp only at hadd ⊢
    rw [hadd]
    intro r hr
    obtain ⟨⟨hmem, c, hc, huuid, hjob⟩, hnewest⟩ := h.kept r hr
    refine ⟨⟨List.mem_append_left _ hmem, c, List.mem_append_left _ hc, huuid, hjob⟩, ?_⟩
    rw [newest_addedRows_of_ne ?_, newest_congr rfl]
    · exact hnewest
    · -- the marker is for another path
      rintro ⟨hpath, -⟩
      have hcollected := hr.mem_collectedPaths hkeyed
      rw [(h.stocked.mine r hmem).1, ← hpath] at hcollected
      exact hcandidate (hfpath ▸ hcollected)

variable {rounds : ℕ → Round} {s t' : Scanning} {m : Marking} {uploads : List Upload}

theorem Stocked.sentIfKnown (h : Stocked C keys st l) (path : Str) : SentIfKnown st.name path l.world.db := by
  rintro ⟨f, hf, rfl⟩
  obtain ⟨m, hm, hmarker, -⟩ := h.inStep f hf st.name (List.mem_singleton.mpr rfl)
  rw [getNewestRemoteFileUuid_of_newest h.count (h.uuids m (newest_mem hm).1) hm hmarker]
  rfl

theorem DepictingRun.repeatable
    (hrun : DepictingRun C pathMatch cfg dereference v contents keys st jobUuid lstat env rounds s t' m uploads)
    (hstocked : Stocked C keys st ⟨s.world, uploads⟩) :
    Repeatable pathMatch cfg dereference v lstat st.name env env s.world.db := by
  exact ⟨hrun.comparable, hrun.flags, fun path stat _ rec _ _ _ => ⟨hrun.enters, hrun.enters,
    fun f hf hpath => hstocked.sentIfKnown path ⟨f, hf, hpath⟩⟩⟩

theorem DepictingRun.depicting
    (hrun : DepictingRun C pathMatch cfg dereference v contents keys st jobUuid lstat env rounds s t' m uploads)
    (hstocked : Stocked C keys st ⟨s.world, uploads⟩) :
    ∃ uploads', Depicting C pathMatch cfg dereference v contents keys st jobUuid ⟨t'.world, uploads'⟩ := by
  have hrep := hrun.repeatable hstocked
  obtain ⟨-, hsettling⟩ := hrun.flawless.settling hstocked.kept hrep
  have hvisits : ∀ it w, Visits pathMatch cfg dereference v C jobUuid env s it w →
      (∃ uploads', Depicting C pathMatch cfg dereference v contents keys st jobUuid ⟨w, uploads'⟩) →
      ∃ uploads', Depicting C pathMatch cfg dereference v contents keys st jobUuid
        ⟨(walkItem C cfg jobUuid it w).world, uploads'⟩ := by
    rintro it w hvisit ⟨uploads', h⟩
    obtain ⟨hreg, hcontents⟩ := hrun.visits it w hvisit
    obtain ⟨turn, hitem⟩ := hvisit.item
    have hquery : it.queryOk = true := by
      rw [hitem]
      exact (hrun.enters turn).1
    exact ⟨_, h.visit hrep (hsettling it w hvisit) hvisit.seen hreg hquery hcontents
      (hrun.flawless.items it w hvisit).1⟩
  have hend := (visits_invariant
    (I := fun w => ∃ uploads', Depicting C pathMatch cfg dereference v contents keys st jobUuid ⟨w, uploads'⟩)
    ⟨uploads, hstocked, hrun.detects, ?_⟩ hvisits).1
  · rw [hrun.flawless.scan] at hend
    exact hend
  · rintro r ⟨-, c, hc, -, hjob⟩
    exact absurd hjob (hrun.flawless.collections c hc)

theorem DepictingRun.standing
    (hrun : DepictingRun C pathMatch cfg dereference v contents keys st jobUuid lstat env rounds s t' m uploads)
    (hstocked : Stocked C keys st ⟨s.world, uploads⟩) {uploads' : List Upload}
    (hscanned : Stocked C keys st ⟨t'.world, uploads'⟩) :
    Searching pathMatch cfg dereference v jobUuid t'.world.db m.world.db ∧
      Standing C keys st jobUuid uploads' t'.world.db m.world := by
  have hrep := hrun.repeatable hstocked
  obtain ⟨fuel, hmark⟩ := hrun.flawless.mark
  refine untilStop_invariant (I := fun m' : Marking =>
    Searching pathMatch cfg dereference v jobUuid t'.world.db m'.world.db ∧
      Standing C keys st jobUuid uploads' t'.world.db m'.world) ?_ ?_ hmark
  · rintro k m' ⟨hsearch, hstanding⟩
    refine ⟨hrun.flawless.searching hstocked.kept hrep hrun.lstat k hsearch, ?_⟩
    refine call_invariant (I := Standing C keys st jobUuid uploads' t'.world.db) hstanding ?_
    intro path hpath w hw
    have hcandidate := hsearch.since.candidates (mem_foundEntries hpath)
    exact hw.mark pathMatch hscanned.kept.keyed (hrun.marks k path w) (mem_candidates.mp hcandidate).2.1
  · exact ⟨hrun.flawless.searching_start hstocked.kept hrep, hscanned, fun r hr _ => hr, fun r hr => ⟨hr, rfl⟩⟩

theorem Stocked.pictureOf {uploads : List Upload} {w : World} (h : Stocked C keys st ⟨w, uploads⟩) {r : RemoteFile}
    {stat : OnDisk} (hmem : r ∈ w.db.remoteFiles) (hlive : r.deleteMarker = false)
    (hnewest : newest w.db r.localPath st.name = some r) (hsettled : SettledAt cfg r.localPath stat w.db)
    (hholds : stat.fileType = .file → ∀ u, lastUpload uploads r.localPath st.name r.version = some u →
      u.content = contents r.localPath) :
    PictureOf C cfg contents keys st ⟨w, uploads⟩ r stat := by
  obtain ⟨f, hf, hfpath, hf'⟩ := hsettled
  obtain ⟨r', hr', -, hprops⟩ := h.inStep f hf st.name (List.mem_singleton.mpr rfl)
  rw [hfpath] at hr'
  obtain rfl : r' = r := Option.some.inj (hr'.symm.trans hnewest)
  obtain ⟨htype, -, -, -, hlink, -, hencrypted⟩ := hprops
  have htarget := (h.mine r' hmem).1
  refine ⟨htype.trans hf'.type, hf'.type ▸ h.kept.known f hf, ?_, ?_, ?_⟩
  · intro hsym
    have hmetadata := hf'.metadata
    unfold metadataChange at hmetadata
    split at hmetadata
    · cases hmetadata
    · rw [decide_eq_false_iff_not, not_and, not_not] at hmetadata
      rw [hlink]
      exact hmetadata hsym
  · intro hfile
    rw [hencrypted]
    exact hf'.encrypted hfile
  · intro hfile
    have hrfile : r'.props.type = .file := htype.trans (hf'.type.trans hfile)
    obtain ⟨u, hlast, hsent⟩ := h.logged.rows r' hmem hrfile hlive
    obtain ⟨-, u', hlast', hfind⟩ := h.leads r' hmem hrfile hlive
    rw [htarget] at hlast
    obtain rfl : u = u' := Option.some.inj (hlast.symm.trans hlast')
    exact ⟨u, hlast, hholds hfile u hlast, hsent, hfind⟩

/-- The collection of a run that nothing disturbs is the picture of what it has seen. -/
theorem DepictingRun.depicts
    (hrun : DepictingRun C pathMatch cfg dereference v contents keys st jobUuid lstat env rounds s t' m uploads)
    (hstocked : Stocked C keys st ⟨s.world, uploads⟩) :
    ∃ uploads', Stocked C keys st ⟨m.world, uploads'⟩ ∧
      Depicts C pathMatch cfg dereference v contents keys st jobUuid ⟨m.world, uploads'⟩ := by
  have hrep := hrun.repeatable hstocked
  obtain ⟨uploads', hscan⟩ := hrun.depicting hstocked
  obtain ⟨hsearch, hstanding⟩ := hrun.standing hstocked hscan.stocked
  have hrow : ∀ r, CollectedBy m.world.db jobUuid r → r.deleteMarker = false →
      newest m.world.db r.localPath st.name = some r := by
    intro r hr hlive
    have hbefore := hstanding.rows r hr hlive
    rw [(hstanding.kept r hbefore).2]
    exact (hscan.collected r hbefore).2.1
  refine ⟨uploads', hstanding.stocked, ?_, ?_, ?_⟩
  · intro r hr hlive
    have hbefore := hstanding.rows r hr hlive
    obtain ⟨-, hnewest, stat, hseen, hat⟩ := hscan.collected r hbefore
    refine ⟨(hstanding.stocked.mine r hr.1).2, stat, hseen, ?_⟩
    refine hstanding.stocked.pictureOf hr.1 hlive (hrow r hr hlive) (hsearch.settled _ _ hseen) fun hfile => ?_
    obtain ⟨f, hf, hfpath, hsettled⟩ := hat
    exact hscan.detects r.localPath stat hseen hfile f hf hfpath hsettled.content r hnewest
  · intro r r' hr hlive hr' hlive' heq
    have hnewest := hrow r hr hlive
    rw [heq, hrow r' hr' hlive'] at hnewest
    exact (Option.some.inj hnewest).symm
  · intro path stat hseen
    have hcollected := (hrun.flawless.collected hstocked.kept hrep hrun.enters hseen (hstocked.sentIfKnown path)).1
    obtain ⟨r, hr, hpath⟩ := exists_collectedBy hcollected
    exact ⟨r, (hstanding.kept r hr).1, (hscan.collected r hr).1, hpath⟩

/-! ### After the run -/

theorem CollectedBy.apply_iff {a : Action} {w : World} (hkeyed : Keyed w.db) (hjob : a.jobUuid ≠ jobUuid)
    {r : RemoteFile} : CollectedBy (a.apply C pathMatch w).db jobUuid r ↔ CollectedBy w.db jobUuid r := by
  obtain ⟨rows, new, hadds⟩ := apply_adds C pathMatch a w
  unfold CollectedBy
  rw [hadds.remoteFiles, hadds.backupCollections]
  constructor
  · rintro ⟨hr, c, hc, huuid, hcjob⟩
    rcases List.mem_append.mp hc with hc | hc
    · refine ⟨?_, c, hc, huuid, hcjob⟩
      obtain ⟨r', hr', huuid', -⟩ := hkeyed.rowOf c hc
      rcases List.mem_append.mp hr with hr | hr
      · exact hr
      · exact absurd (List.mem_map.mpr ⟨r', hr', huuid'.trans huuid⟩) (hadds.fresh r hr)
    · exact absurd ((hadds.rowOf c hc).1.symm.trans hcjob) hjob
  · rintro ⟨hr, c, hc, huuid, hcjob⟩
    exact ⟨List.mem_append_left _ hr, c, List.mem_append_left _ hc, huuid, hcjob⟩

theorem Depicts.step {a : Action} (h : Depicts C pathMatch cfg dereference v contents keys st jobUuid l)
    (hstocked : Stocked C keys st l) (hreg : Regular keys st a l.world) (hjob : a.jobUuid ≠ jobUuid) :
    Depicts C pathMatch cfg dereference v contents keys st jobUuid (logStep C pathMatch a l) := by
  have hiff : ∀ r, CollectedBy (logStep C pathMatch a l).world.db jobUuid r ↔ CollectedBy l.world.db jobUuid r :=
    fun r => CollectedBy.apply_iff hstocked.kept.keyed hjob
  have hafter := hstocked.step pathMatch hreg
  refine ⟨?_, fun r r' hr hlive hr' => ?_, fun path stat hseen => ?_⟩
  · intro r hr hlive
    obtain ⟨hclean, stat, hseen, hpicture⟩ := h.rows r ((hiff r).mp hr) hlive
    refine ⟨hclean, stat, hseen, hpicture.type, hpicture.known, hpicture.linkTarget, hpicture.encrypted, ?_⟩
    intro hfile
    obtain ⟨u, hlast, hcontent, hsent, -⟩ := hpicture.content hfile
    obtain ⟨-, u', hlast', hfind⟩ := hafter.leads r hr.1 (hpicture.type.trans hfile) hlive
    have hmem := ((hiff r).mp hr).1
    have hlt : r.version < calcRemoteFileVersion l.world.db r.localPath st.name :=
      version_lt_calc (List.mem_filter.mpr ⟨hmem, by simp [(hstocked.mine r hmem).1]⟩)
    have hsame : lastUpload (logStep C pathMatch a l).uploads r.localPath st.name r.version =
        lastUpload l.uploads r.localPath st.name r.version := by
      refine lastUpload_append_of_lt fun u' hu' hpath htarget => ?_
      rw [(newUploads_version hu').2, hpath, htarget]
      exact hlt
    obtain rfl : u = u' := Option.some.inj (hlast.symm.trans (hsame.symm.trans hlast'))
    exact ⟨u, hlast', hcontent, hsent, hfind⟩
  · exact h.once r r' ((hiff r).mp hr) hlive ((hiff r').mp hr')
  · obtain ⟨r, hr, hlive, hpath⟩ := h.whole path stat hseen
    exact ⟨r, (hiff r).mpr hr, hlive, hpath⟩

/-- Whatever other jobs do afterwards, the collection stays the same picture. -/
theorem Depicts.reaches {uploads : List Upload} {w w' : World}
    (h : Depicts C pathMatch cfg dereference v contents keys st jobUuid ⟨w, uploads⟩)
    (hstocked : Stocked C keys st ⟨w, uploads⟩)
    (hlater : Reaches (fun a w => Regular keys st a w ∧ a.jobUuid ≠ jobUuid) (Action.apply C pathMatch) w w') :
    ∃ uploads', Depicts C pathMatch cfg dereference v contents keys st jobUuid ⟨w', uploads'⟩ ∧
      Stocked C keys st ⟨w', uploads'⟩ ∧ ∀ r, CollectedBy w'.db jobUuid r ↔ CollectedBy w.db jobUuid r := by
  refine hlater.invariant (I := fun w' => ∃ uploads',
    Depicts C pathMatch cfg dereference v contents keys st jobUuid ⟨w', uploads'⟩ ∧
      Stocked C keys st ⟨w', uploads'⟩ ∧ ∀ r, CollectedBy w'.db jobUuid r ↔ CollectedBy w.db jobUuid r)
    ⟨uploads, h, hstocked, fun _ => Iff.rfl⟩ ?_
  rintro a w' ⟨uploads', hd, hs, hiff⟩ ⟨hreg, hjob⟩
  exact ⟨_, hd.step hs hreg hjob, hs.step pathMatch hreg,
    fun r => (CollectedBy.apply_iff hs.kept.keyed hjob).trans (hiff r)⟩

end

end CloudBackup.Backup
