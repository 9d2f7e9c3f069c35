import CloudBackup.Backup.Agreement
import CloudBackup.Backup.Entries

/-!
Fixed points of the detection of changes. A row of `files` is `Settled` if
`needsUpload` sees no change against the disk, and most branches of `Do` leave such a
row behind. The exception is a file whose flag `encrypted` differs from the
configuration: its checksum is not calculated, and the row that is stored has none. If
checksums are compared, the next run takes that for another change.

The second part is about the tables along any history of runs: what a row of `files`
can look like at all.
-/

namespace CloudBackup.Backup

open Database ObjectStore Iteration

/-! ### Rows that show no change -/

/-- What the file system says of an item can be compared with what is stored of it: the
times fit into the database, the checksum can be calculated, and a link reads the
same twice. -/
structure Comparable (cfg : ConfigBackup) (disk : OnDisk) : Prop where
  modTime : 0 < disk.modTime ∧ disk.modTime < 2 ^ 63
  getCtime : ∃ c, disk.getCtime = some c ∧ 0 < c ∧ c < 2 ^ 63
  getFileMD5Sum : cfg.checksum = true → disk.fileType = .file →
    ∃ sum, disk.getFileMD5Sum = some sum ∧ sum ≠ []
  readlink : disk.fileType = .symlink → disk.readlink = disk.readlinkAgain

/-- `needsUpload` finds no change, and the row can be read. -/
structure Settled (cfg : ConfigBackup) (disk : OnDisk) (props : Props) : Prop where
  content : (contentChange disk props cfg.checksum cfg.encrypt).1 = false
  metadata : metadataChange disk props = false
  mtime : 0 < props.mtime
  ctime : 0 < props.ctime
  type : props.type = disk.fileType

theorem unixNano_of_pos {t : ℤ} (hpos : 0 < t) (hlt : t < 2 ^ 63) : unixNano t = t := by
  unfold unixNano
  rw [Int.bmod_eq_of_le] <;> omega

section

variable {cfg : ConfigBackup} {disk : OnDisk} {props : Props}

theorem Settled.encrypted (h : Settled cfg disk props) (hfile : disk.fileType = .file) :
    props.encrypted = cfg.encrypt := by
  by_contra hne
  have hcontent := h.content
  rw [contentChange, if_pos ⟨hne, hfile⟩] at hcontent
  cases hcontent

/-- A record that has the checksum, if there is to be one, shows no change. -/
theorem settled_of_prepare {path checksum jobUuid : Str} {ctime : ℤ} {rec : Record}
    (hdisk : Comparable cfg disk) (hctime : disk.getCtime = some ctime)
    (hsum : cfg.checksum = true → disk.fileType = .file → disk.getFileMD5Sum = some checksum)
    (h : prepareFileRecord path disk cfg ctime checksum jobUuid = some rec) :
    Settled cfg disk (toRow rec.props) := by
  obtain ⟨c, hc, hcpos, hclt⟩ := hdisk.getCtime
  obtain rfl : ctime = c := Option.some.inj (hctime.symm.trans hc)
  have hmtime : unixNano disk.modTime = disk.modTime := unixNano_of_pos hdisk.modTime.1 hdisk.modTime.2
  have hctime' : unixNano ctime = ctime := unixNano_of_pos hcpos hclt
  -- what the three branches of `PrepareFileRecord` have in common
  have hsettled : ∀ props : Props, props.type = disk.fileType → (props.type ≠ .dir → props.size = disk.size) →
      props.mtime = disk.modTime → props.ctime = ctime → props.checksum = checksum →
      props.encrypted = cfg.encrypt →
      (disk.fileType = .symlink → disk.readlinkAgain = some props.linkTarget) → Settled cfg disk (toRow props) := by
    intro props htype hsize hm hct hcs henc hlink
    refine ⟨?_, ?_, ?_, ?_, htype⟩
    · unfold contentChange toRow
      dsimp only
      rw [if_neg (by simp [henc])]
      split
      · rename_i hcompare
        rw [hsum hcompare.1 hcompare.2]
        simp [hcs]
      · rw [if_neg (by rintro ⟨hdir, hne⟩; exact hne (hsize hdir).symm), hm, hmtime, if_neg (by simp),
          if_neg (by simp [htype])]
    · unfold metadataChange toRow
      dsimp only
      rw [hct, hctime', if_neg (by simp [hctime])]
      rw [decide_eq_false_iff_not]
      rintro ⟨hsym, hne⟩
      exact hne (by rw [hdisk.readlink hsym, hlink hsym])
    · rw [toRow, hm, hmtime]
      exact hdisk.modTime.1
    · rw [toRow, hct, hctime']
      exact hcpos
  unfold prepareFileRecord at h
  dsimp only at h
  split at h
  · rename_i htype
    obtain ⟨target, htarget, rfl⟩ := Option.map_eq_some_iff.mp h
    exact hsettled _ rfl (fun _ => rfl) rfl rfl rfl rfl fun _ => htarget
  · rename_i htype
    cases h
    refine hsettled _ rfl (fun hdir => absurd htype hdir) rfl rfl rfl rfl fun hsym => ?_
    rw [htype] at hsym
    cases hsym
  · rename_i hsym _
    cases h
    exact hsettled _ rfl (fun _ => rfl) rfl rfl rfl rfl fun hsym' => absurd hsym' hsym

/-- The comparisons that were made if no content has changed: the checksum of a
file, or else the size, the time and the type. -/
theorem contentChange_eq_false {compareChecksum encrypt : Bool}
    (h : (contentChange disk props compareChecksum encrypt).1 = false) :
    (disk.fileType = .file → props.encrypted = encrypt) ∧
      ((compareChecksum = true ∧ disk.fileType = .file ∧ disk.getFileMD5Sum = some props.checksum) ∨
        ((props.type ≠ .dir → disk.size = props.size) ∧ disk.modTime = props.mtime ∧
          disk.fileType = props.type)) := by
  unfold contentChange at h
  split at h
  · cases h
  · rename_i hflag
    refine ⟨fun hfile => by_contra fun hne => hflag ⟨hne, hfile⟩, ?_⟩
    split at h
    · rename_i hcompare
      left
      cases hsum : disk.getFileMD5Sum with
      | none => simp [hsum] at h
      | some sum =>
          have heq : sum = props.checksum := by simpa [hsum] using h
          exact ⟨hcompare.1, hcompare.2, by rw [heq]⟩
    · right
      split at h
      · cases h
      · rename_i hsize
        split at h
        · cases h
        · rename_i htime
          split at h
          · cases h
          · rename_i htype
            exact ⟨fun hdir => by_contra fun hne => hsize ⟨hdir, hne⟩, not_not.mp htime,
              not_not.mp htype⟩

/-- A row of the other type is a change, as only files have a checksum. -/
theorem type_of_unchanged {compareChecksum encrypt : Bool}
    (hmd5 : compareChecksum = true → disk.fileType = .file → disk.getFileMD5Sum ≠ some [])
    (hsums : props.checksum ≠ [] → props.type = .file)
    (h : (contentChange disk props compareChecksum encrypt).1 = false) :
    props.type = disk.fileType := by
  rcases (contentChange_eq_false h).2 with ⟨hcompare, hfile, hsum⟩ | ⟨-, -, htype⟩
  · rw [hfile]
    refine hsums fun hnil => hmd5 hcompare hfile ?_
    rw [hsum, hnil]
  · exact htype.symm

end

/-! ### What `Do` decides -/

section

variable {cfg : ConfigBackup} {jobUuid : Str} {it : Item} {w : World}

theorem newRecord_settled (hdisk : Comparable cfg it.disk) {op : Operation} {rec : Record}
    (h : newRecord cfg jobUuid it = .operate op rec) : Settled cfg it.disk (toRow rec.props) := by
  obtain ⟨c, hc, -⟩ := hdisk.getCtime
  have hwith : ∀ checksum, (cfg.checksum = true → it.disk.fileType = .file →
      it.disk.getFileMD5Sum = some checksum) → newRecordWith cfg jobUuid it checksum = .operate op rec →
      Settled cfg it.disk (toRow rec.props) := by
    intro checksum hsum hrec
    unfold newRecordWith at hrec
    rw [hc] at hrec
    split at hrec
    · cases hrec
    · rename_i rec' hprepare
      split at hrec
      · cases hrec
      · cases hrec
        exact settled_of_prepare hdisk hc hsum hprepare
  unfold newRecord at h
  split at h
  · rename_i hcompare
    obtain ⟨sum, hsum, -⟩ := hdisk.getFileMD5Sum hcompare.1 hcompare.2
    rw [hsum] at h
    exact hwith sum (fun _ _ => hsum) h
  · rename_i hcompare
    exact hwith [] (fun hchecksum hfile => absurd ⟨hchecksum, hfile⟩ hcompare) h

/-- The flag does not keep `needsUpload` from the checksum. -/
def FlagAgrees (cfg : ConfigBackup) (disk : OnDisk) (props : Props) : Prop :=
  cfg.checksum = true → disk.fileType = .file → props.encrypted = cfg.encrypt

theorem existingRecord_settled (hdisk : Comparable cfg it.disk) {props : Props}
    (hflag : FlagAgrees cfg it.disk props) {op : Operation} {rec : Record}
    (h : existingRecord cfg jobUuid it props = .operate op rec) : Settled cfg it.disk (toRow rec.props) := by
  obtain ⟨c, hc, -⟩ := hdisk.getCtime
  have hsum : cfg.checksum = true → it.disk.fileType = .file →
      it.disk.getFileMD5Sum = some (needsUpload it.disk props cfg.checksum cfg.encrypt).checksum := by
    intro hchecksum hfile
    obtain ⟨sum, hsum, -⟩ := hdisk.getFileMD5Sum hchecksum hfile
    have hchange : (contentChange it.disk props cfg.checksum cfg.encrypt).2 = sum := by
      rw [contentChange, if_neg fun hne => hne.1 (hflag hchecksum hfile), if_pos ⟨hchecksum, hfile⟩, hsum]
    rw [hsum, needsUpload]
    exact congrArg some hchange.symm
  have hctime : (needsUpload it.disk props cfg.checksum cfg.encrypt).ctime = c := by
    rw [needsUpload, hc]
    rfl
  unfold existingRecord at h
  dsimp only at h
  rw [hctime] at h
  split at h
  · cases h
  · rename_i rec' hprepare
    have hsettled := settled_of_prepare hdisk hc hsum hprepare
    split at h
    · split at h
      · cases h
      · cases h
        exact hsettled
    · split at h
      · split at h
        · cases h
        · cases h
          exact hsettled
      · cases h

theorem existingRecord_upToDate {props : Props} {rec : Record}
    (h : existingRecord cfg jobUuid it props = .upToDate rec) :
    (contentChange it.disk props cfg.checksum cfg.encrypt).1 = false ∧ metadataChange it.disk props = false := by
  unfold existingRecord at h
  dsimp only at h
  split at h
  · cases h
  · split at h
    · split at h <;> cases h
    · rename_i hcontent
      split at h
      · split at h <;> cases h
      · rename_i hmetadata
        exact ⟨Bool.eq_false_iff.mpr hcontent, Bool.eq_false_iff.mpr hmetadata⟩

theorem getBackedup_times {queryOk : Bool} {db : Db} {path : Str} {rec : Record}
    (h : getBackedupObjectPropertiesFromDb queryOk db path = .ok (some rec)) :
    0 < rec.props.mtime ∧ 0 < rec.props.ctime := by
  unfold getBackedupObjectPropertiesFromDb at h
  split at h
  · cases h
  · split at h
    · cases h
    · split at h
      · cases h
      · rename_i hmtime
        split at h
        · cases h
        · rename_i hctime
          split at h
          · cases h
          · cases h
            exact ⟨not_le.mp hmtime, not_le.mp hctime⟩

def SettledAt (cfg : ConfigBackup) (path : Str) (disk : OnDisk) (db : Db) : Prop :=
  ∃ f ∈ db.files, f.path = path ∧ Settled cfg disk f.props

/-- An item that is up to date has a settled row. -/
theorem settledAt_of_upToDate (hdisk : Comparable cfg it.disk)
    (hsums : ∀ f ∈ w.db.files, f.props.checksum ≠ [] → f.props.type = .file) {rec : Record}
    (h : decideItem cfg jobUuid it w.db = .upToDate rec) : SettledAt cfg it.path it.disk w.db := by
  have hnew : ∀ checksum, newRecordWith cfg jobUuid it checksum ≠ .upToDate rec := by
    intro checksum hrec
    unfold newRecordWith at hrec
    split at hrec
    · cases hrec
    · split at hrec <;> cases hrec
  unfold decideItem at h
  split at h
  · cases h
  · unfold newRecord at h
    split at h
    · split at h
      · exact absurd h (hnew _)
      · exact absurd h (hnew _)
      · cases h
    · exact absurd h (hnew _)
  · rename_i dbRecord hread
    obtain ⟨hmtime, hctime⟩ := getBackedup_times hread
    obtain ⟨f, hf, hpath, rfl⟩ := getBackedup_row hread
    obtain ⟨hcontent, hmetadata⟩ := existingRecord_upToDate h
    refine ⟨f, hf, hpath, hcontent, hmetadata, hmtime, hctime,
      type_of_unchanged (fun hcompare hfile => ?_) (hsums f hf) hcontent⟩
    obtain ⟨sum, hsum, hne⟩ := hdisk.getFileMD5Sum hcompare hfile
    rw [hsum]
    exact fun heq => hne (Option.some.inj heq)

/-- What is stored of an item is settled, unless the flag has come in between. -/
theorem settled_of_operate (hdisk : Comparable cfg it.disk)
    (hflag : ∀ f ∈ w.db.files, f.path = it.path → FlagAgrees cfg it.disk f.props) {op : Operation}
    {rec : Record} (h : decideItem cfg jobUuid it w.db = .operate op rec) :
    Settled cfg it.disk (toRow rec.props) := by
  unfold decideItem at h
  split at h
  · cases h
  · exact newRecord_settled hdisk h
  · rename_i dbRecord hread
    obtain ⟨f, hf, hpath, rfl⟩ := getBackedup_row hread
    exact existingRecord_settled hdisk (hflag f hf hpath) h

theorem filter_path_eq {rows : List FilesRow} {f : FilesRow} (hnodup : (rows.map FilesRow.path).Nodup)
    (hf : f ∈ rows) : rows.filter (·.path = f.path) = [f] := by
  induction rows with
  | nil => cases hf
  | cons g rows ih =>
      obtain ⟨hg, hrows⟩ := List.nodup_cons.mp hnodup
      rcases List.mem_cons.mp hf with rfl | hf
      · have hnone : rows.filter (·.path = f.path) = [] := by
          rw [List.filter_eq_nil_iff]
          intro h hh heq
          exact hg (List.mem_map.mpr ⟨h, hh, of_decide_eq_true heq⟩)
        rw [List.filter_cons_of_pos (by simp), hnone]
      · have hne : g.path ≠ f.path := fun heq => hg (heq ▸ List.mem_map_of_mem hf)
        rw [List.filter_cons_of_neg (by simpa using hne)]
        exact ih hrows hf

theorem decideItem_of_settled (hdisk : Comparable cfg it.disk) {f : FilesRow}
    (hnodup : (w.db.files.map FilesRow.path).Nodup) (hf : f ∈ w.db.files) (hpath : f.path = it.path)
    (hsettled : Settled cfg it.disk f.props) (hquery : it.queryOk = true) :
    ∃ rec, decideItem cfg jobUuid it w.db = .upToDate rec := by
  have hone : filesQuery w.db it.path = [f] := by
    rw [← hpath]
    exact filter_path_eq hnodup hf
  have hread : getBackedupObjectPropertiesFromDb it.queryOk w.db it.path = .ok (some (recordOf f)) := by
    rw [getBackedupObjectPropertiesFromDb, hquery, hone]
    simp [not_le.mpr hsettled.mtime, not_le.mpr hsettled.ctime, recordOf]
  have hprepare : ∃ rec, prepareFileRecord it.path it.disk cfg
      (needsUpload it.disk f.props cfg.checksum cfg.encrypt).ctime
      (needsUpload it.disk f.props cfg.checksum cfg.encrypt).checksum jobUuid = some rec := by
    unfold prepareFileRecord
    dsimp only
    split
    · rename_i hsym
      -- the link could be read before, so it can be read again
      have hmetadata := hsettled.metadata
      unfold metadataChange at hmetadata
      split at hmetadata
      · cases hmetadata
      · rw [decide_eq_false_iff_not, not_and, not_not] at hmetadata
        rw [← hdisk.readlink hsym, hmetadata hsym]
        exact ⟨_, rfl⟩
    · exact ⟨_, rfl⟩
    · exact ⟨_, rfl⟩
  obtain ⟨rec, hrec⟩ := hprepare
  refine ⟨rec, ?_⟩
  rw [decideItem, hread]
  dsimp only [recordOf]
  rw [existingRecord, hrec]
  simp [needsUpload, hsettled.content, hsettled.metadata]

/-- The checksum of a record is that of its file, if the one handed in was. -/
theorem prepare_checksum {ctime : ℤ} {checksum : Str} {rec : Record}
    (hrec : prepareFileRecord it.path it.disk cfg ctime checksum jobUuid = some rec)
    (hsum : checksum ≠ [] → it.disk.fileType = .file) (hne : rec.props.checksum ≠ []) :
    rec.props.type = .file := by
  rw [(describes_of_prepareFileRecord hrec).type]
  apply hsum
  unfold prepareFileRecord at hrec
  dsimp only at hrec
  split at hrec
  · obtain ⟨target, -, rfl⟩ := Option.map_eq_some_iff.mp hrec
    exact hne
  · cases hrec
    exact hne
  · cases hrec
    exact hne

theorem contentChange_checksum {props : Props}
    (hne : (contentChange it.disk props cfg.checksum cfg.encrypt).2 ≠ []) : it.disk.fileType = .file := by
  unfold contentChange at hne
  split at hne
  · exact absurd rfl hne
  · split at hne
    · rename_i hcompare
      exact hcompare.2
    · split at hne
      · exact absurd rfl hne
      · split at hne
        · exact absurd rfl hne
        · split at hne <;> exact absurd rfl hne

theorem newRecordWith_row {op : Operation} {rec : Record} {checksum : Str}
    (hsum : checksum ≠ [] → it.disk.fileType = .file)
    (h : newRecordWith cfg jobUuid it checksum = .operate op rec) :
    rec.props.type ≠ .unknown ∧ (rec.props.checksum ≠ [] → rec.props.type = .file) := by
  unfold newRecordWith at h
  split at h
  · cases h
  · rename_i rec' hrec'
    split at h
    · cases h
    · rename_i htype
      cases h
      exact ⟨htype, prepare_checksum hrec' hsum⟩

theorem newRecord_row {op : Operation} {rec : Record} (h : newRecord cfg jobUuid it = .operate op rec) :
    rec.props.type ≠ .unknown ∧ (rec.props.checksum ≠ [] → rec.props.type = .file) := by
  unfold newRecord at h
  split at h
  · rename_i hcompare
    split at h
    · exact newRecordWith_row (fun _ => hcompare.2) h
    · exact newRecordWith_row (fun _ => hcompare.2) h
    · cases h
  · exact newRecordWith_row (fun hne => absurd rfl hne) h

theorem existingRecord_row {op : Operation} {rec : Record} {stored : Props}
    (h : existingRecord cfg jobUuid it stored = .operate op rec) :
    rec.props.type ≠ .unknown ∧ (rec.props.checksum ≠ [] → rec.props.type = .file) := by
  unfold existingRecord at h
  dsimp only at h
  split at h
  · cases h
  · rename_i rec' hrec'
    split at h
    · split at h
      · cases h
      · rename_i htype
        cases h
        exact ⟨htype, prepare_checksum hrec' contentChange_checksum⟩
    · split at h
      · split at h
        · cases h
        · rename_i htype
          cases h
          exact ⟨htype, prepare_checksum hrec' contentChange_checksum⟩
      · cases h

/-- What is stored is of a known type, and has a checksum only if it is a file. -/
theorem decideItem_row {op : Operation} {rec : Record}
    (h : decideItem cfg jobUuid it w.db = .operate op rec) :
    rec.props.type ≠ .unknown ∧ (rec.props.checksum ≠ [] → rec.props.type = .file) := by
  unfold decideItem at h
  split at h
  · cases h
  · exact newRecord_row h
  · exact existingRecord_row h

end

/-! ### The tables along any history -/

structure WellKept (db : Db) : Prop where
  nodup : (db.files.map FilesRow.path).Nodup
  known : ∀ f ∈ db.files, f.props.type ≠ .unknown
  sums : ∀ f ∈ db.files, f.props.checksum ≠ [] → f.props.type = .file
  keyed : Keyed db

theorem wellKept_empty : WellKept Db.empty := ⟨List.nodup_nil, nofun, nofun, keyed_empty⟩

section

variable {C : Cloud} {pathMatch : Str → Str → Option Bool} {cfg : ConfigBackup} {jobUuid : Str} {it : Item}
  {w : World} {op : Operation} {ok : Bool} {rec : Record} {db db' : Db}

theorem WellKept.of_sublist (h : WellKept db) (hfiles : db'.files.Sublist db.files) (hkeyed : Keyed db') :
    WellKept db' :=
  ⟨h.nodup.sublist (hfiles.map _), fun f hf => h.known f (hfiles.subset hf),
    fun f hf => h.sums f (hfiles.subset hf), hkeyed⟩

theorem WellKept.eq_of_path (h : WellKept db) {f g : FilesRow} (hf : f ∈ db.files) (hg : g ∈ db.files)
    (hpath : f.path = g.path) : f = g :=
  List.inj_on_of_nodup_map h.nodup hf hg hpath

/-- The row of the record is there afterwards, and the rows of other paths stay. -/
theorem filesEntry_mem (h : filesEntry op ok rec db = some db') :
    filesRow rec ∈ db'.files ∧ (∀ f ∈ db.files, f.path ≠ rec.path → f ∈ db'.files) ∧
      ((db.files.map FilesRow.path).Nodup → (db'.files.map FilesRow.path).Nodup) := by
  unfold filesEntry at h
  split at h
  · cases h
  · split at h
    · obtain ⟨hmem, rfl⟩ := filesInsert_eq_some h
      refine ⟨by simp, fun f hf _ => List.mem_append_left _ hf, fun hnodup => ?_⟩
      rw [List.map_append, List.nodup_append]
      refine ⟨hnodup, by simp, ?_⟩
      rintro path hpath path' hpath' rfl
      obtain rfl : path = (filesRow rec).path := by simpa using hpath'
      exact hmem hpath
    · split at h
      · cases h
      · rename_i hcount
        cases h
        have hpaths : ((filesUpdate db (filesRow rec)).2.files.map FilesRow.path) =
            db.files.map FilesRow.path := by
          simp only [filesUpdate, List.map_map]
          apply List.map_congr_left
          intro f _
          simp only [Function.comp_apply]
          split
          · rename_i heq
            exact heq.symm
          · rfl
        refine ⟨?_, ?_, fun hnodup => by rw [hpaths]; exact hnodup⟩
        · have hone : (filesQuery db (filesRow rec).path).length = 1 := not_not.mp hcount
          obtain ⟨g, hg⟩ := List.length_eq_one_iff.mp hone
          have hmem : g ∈ filesQuery db (filesRow rec).path := by simp [hg]
          obtain ⟨hgmem, hgpath⟩ := List.mem_filter.mp hmem
          exact List.mem_map.mpr ⟨g, hgmem, if_pos (of_decide_eq_true hgpath)⟩
        · intro f hf hne
          exact List.mem_map.mpr ⟨f, hf, if_neg hne⟩

theorem WellKept.walk (h : WellKept w.db) : WellKept (walkItem C cfg jobUuid it w).world.db := by
  obtain ⟨rows, new, hadds⟩ := apply_adds C (fun _ _ => none) (.walk cfg jobUuid it) w
  have hkeyed : Keyed (walkItem C cfg jobUuid it w).world.db := h.keyed.adds hadds
  have hsame : (walkItem C cfg jobUuid it w).world.db.files = w.db.files →
      WellKept (walkItem C cfg jobUuid it w).world.db :=
    fun heq => h.of_sublist (by rw [heq]) hkeyed
  rcases walkItem_cases C cfg jobUuid it w with
    ⟨-, hdb⟩ | ⟨-, -, hdb⟩ | ⟨rec, -, hr⟩ | ⟨op, rec, db, p, hdecide, hfiles, hloop, hr⟩
  · exact hsame (by rw [hdb])
  · obtain ⟨failed, hfailed⟩ := markItemAsFailed_cases it.failedFilesOk
      ⟨jobUuid, it.path, it.disk.fileType⟩ w.db
    exact hsame (by rw [hdb, hfailed])
  · apply hsame
    rw [hr]
    exact (collectTarget_tables jobUuid it.path it.targets w.db).1
  · obtain ⟨htype, hsum⟩ := decideItem_row hdecide
    have hdbfiles : (walkItem C cfg jobUuid it w).world.db.files = db.files := by
      rw [hr]
      exact (operate_files hloop).1
    have hrow : ∀ f ∈ db.files, f = filesRow rec ∨ f ∈ w.db.files :=
      fun f hf => ((filesEntry_files hfiles).1 f hf).imp_right And.left
    refine ⟨?_, ?_, ?_, hkeyed⟩
    · rw [hdbfiles]
      exact (filesEntry_mem hfiles).2.2 h.nodup
    · intro f hf
      rw [hdbfiles] at hf
      rcases hrow f hf with rfl | hold
      · exact htype
      · exact h.known f hold
    · intro f hf
      rw [hdbfiles] at hf
      rcases hrow f hf with rfl | hold
      · exact hsum
      · exact h.sums f hold

theorem WellKept.mark {e : Entry} (h : WellKept w.db) :
    WellKept (markEntry C pathMatch cfg jobUuid e w).world.db := by
  obtain ⟨rows, new, hadds⟩ := apply_adds C pathMatch (.mark cfg jobUuid e) w
  refine h.of_sublist ?_ (h.keyed.adds hadds)
  cases hmarks : marks C pathMatch cfg jobUuid e w with
  | false => rw [markEntry_of_not_marks hmarks]
  | true =>
      rw [(markEntry_of_marks hmarks).2.files]
      exact List.filter_sublist

theorem wellKept_reaches (h : Reaches (fun _ _ => True) (Action.apply C pathMatch) World.empty w) :
    WellKept w.db := by
  refine h.invariant (I := fun w => WellKept w.db) wellKept_empty ?_
  intro a w hw _
  cases a with
  | walk cfg jobUuid it => exact hw.walk
  | mark cfg jobUuid e => exact hw.mark

end

end CloudBackup.Backup
