import CloudBackup.Backup.Settled

/-!
What a row of `files` is worth to later runs.

If `needsUpload` reports no change, then everything it could compare is as it
was recorded. That rests on what the operations on items store: only files have
a checksum, so an item that has become a file cannot be taken for one by its
missing checksum.

A row can only be compared if it can be read. The times of a record are written
as they are, and the zero time if there was none, but read back only if they
are after the beginning of 1970.
-/

namespace CloudBackup.Backup

open Database ObjectStore Iteration

/-! ### Comparing -/

theorem metadataChange_eq_false {disk : OnDisk} {props : Props}
    (h : metadataChange disk props = false) :
    disk.getCtime = some props.ctime ∧
      (disk.fileType = .symlink → disk.readlink = some props.linkTarget) := by
  unfold metadataChange at h
  split at h
  · cases h
  · rename_i hctime
    rw [decide_eq_false_iff_not, not_and, not_not] at h
    exact ⟨not_not.mp hctime, h⟩

/-- If `needsUpload` finds no change against a row that some run has written,
then none of what it compares has changed. -/
theorem needsUpload_misses_nothing (C : Cloud) (pathMatch : Str → Str → Option Bool) (w : World)
    (hw : Reaches (fun _ _ => True) (Action.apply C pathMatch) World.empty w) (f : FilesRow)
    (hf : f ∈ w.db.files) (disk : OnDisk) (hmd5 : disk.getFileMD5Sum ≠ some [])
    (compareChecksum encrypt : Bool)
    (hcontent : (needsUpload disk f.props compareChecksum encrypt).contentChanged = false)
    (hmetadata : (needsUpload disk f.props compareChecksum encrypt).metadataChanged = false) :
    disk.fileType = f.props.type ∧
      disk.getCtime = some f.props.ctime ∧
      (disk.fileType = .symlink → disk.readlink = some f.props.linkTarget) ∧
      (disk.fileType = .file → f.props.encrypted = encrypt) ∧
      (((disk.fileType ≠ .dir → disk.size = f.props.size) ∧ disk.modTime = f.props.mtime) ∨
        (compareChecksum = true ∧ disk.getFileMD5Sum = some f.props.checksum)) := by
  have hsums := (wellKept_reaches hw).sums f hf
  obtain ⟨hctime, hlink⟩ := metadataChange_eq_false hmetadata
  obtain ⟨hflag, hcompared⟩ := contentChange_eq_false hcontent
  have htype := type_of_unchanged (fun _ _ => hmd5) hsums hcontent
  refine ⟨htype.symm, hctime, hlink, hflag, ?_⟩
  rcases hcompared with ⟨hcompare, -, hsum⟩ | ⟨hsize, htime, -⟩
  · exact Or.inr ⟨hcompare, hsum⟩
  · refine Or.inl ⟨fun hdir => hsize ?_, htime⟩
    rwa [htype]

def firstRow : FilesRow :=
  ⟨"/file".toList, ⟨.file, [], 1, 1, 1, [], [], [], [], false⟩, "job".toList⟩

theorem needsUpload_misses_nothing_firstUpload :
    (smallFile 1 1).fileType = firstRow.props.type ∧
      (smallFile 1 1).getCtime = some firstRow.props.ctime ∧
      ((smallFile 1 1).fileType = .symlink →
        (smallFile 1 1).readlink = some firstRow.props.linkTarget) ∧
      ((smallFile 1 1).fileType = .file → firstRow.props.encrypted = false) ∧
      ((((smallFile 1 1).fileType ≠ .dir → (smallFile 1 1).size = firstRow.props.size) ∧
          (smallFile 1 1).modTime = firstRow.props.mtime) ∨
        (false = true ∧ (smallFile 1 1).getFileMD5Sum = some firstRow.props.checksum)) := by
  have hfiles : (firstUpload.apply plainCloud (fun _ _ => none) World.empty).db.files =
      [firstRow] := by decide
  exact needsUpload_misses_nothing plainCloud (fun _ _ => none) _ (.step firstUpload .refl trivial)
    firstRow (by rw [hfiles]; exact List.mem_singleton.mpr rfl) (smallFile 1 1) (by decide) false
    false (by decide) (by decide)

/-! ### Reading back -/

/-- A time that is an `int64` of nanoseconds. -/
def Representable (t : ℤ) : Prop := -2 ^ 63 ≤ t ∧ t < 2 ^ 63

theorem unixNano_of_representable {t : ℤ} (h : Representable t) : unixNano t = t := by
  obtain ⟨hge, hlt⟩ := h
  rw [unixNano, Int.bmod_eq_of_le] <;> omega

/-- The record of a path is read without an error, and is the one that was
written. -/
def ReadsBack (db : Db) (rec : Record) : Prop :=
  ∃ r, getBackedupObjectPropertiesFromDb true db rec.path = .ok (some r) ∧
    r.props.type = rec.props.type ∧ r.props.linkTarget = rec.props.linkTarget ∧
    r.props.size = rec.props.size ∧ r.props.mtime = rec.props.mtime ∧
    r.props.ctime = rec.props.ctime ∧ r.props.checksum = rec.props.checksum ∧
    r.props.encrypted = rec.props.encrypted

section

variable {C : Cloud} {cfg : ConfigBackup} {jobUuid : Str} {it : Item} {w : World} {op : Operation}
  {rec : Record}

theorem prepareFileRecord_times {path : Str} {disk : OnDisk} {ctime : ℤ} {checksum : Str}
    (h : prepareFileRecord path disk cfg ctime checksum jobUuid = some rec) :
    rec.props.mtime = disk.modTime ∧ rec.props.ctime = ctime := by
  unfold prepareFileRecord at h
  dsimp only at h
  split at h
  · obtain ⟨target, -, rfl⟩ := Option.map_eq_some_iff.mp h
    exact ⟨rfl, rfl⟩
  · cases h
    exact ⟨rfl, rfl⟩
  · cases h
    exact ⟨rfl, rfl⟩

/-- A committed operation leaves the row of its record, and no other for its path. -/
theorem filesQuery_of_committed (hwell : WellKept w.db)
    (hdecide : decideItem cfg jobUuid it w.db = .operate op rec)
    (hcancelled : (walkItem C cfg jobUuid it w).cancelled = false)
    (herr : (walkItem C cfg jobUuid it w).err = none) :
    filesQuery (walkItem C cfg jobUuid it w).world.db rec.path = [filesRow rec] := by
  rcases walkItem_cases C cfg jobUuid it w with
    ⟨hc, -⟩ | ⟨-, he, -⟩ | ⟨rec', hd, -⟩ | ⟨op', rec', db, p, hd, hfiles, hloop, hr⟩
  · simp [hcancelled] at hc
  · exact absurd herr he
  · simp [hdecide] at hd
  · rw [hdecide] at hd
    obtain ⟨rfl, rfl⟩ : op = op' ∧ rec = rec' := by simpa using hd
    obtain ⟨hmem, -, hnodup⟩ := filesEntry_mem hfiles
    have hdb : (walkItem C cfg jobUuid it w).world.db.files = db.files := by
      rw [hr]
      exact (operate_files hloop).1
    rw [filesQuery, hdb]
    exact filter_path_eq (hnodup hwell.nodup) hmem

theorem getBackedup_of_row {db : Db} {path : Str} {row : FilesRow}
    (h : filesQuery db path = [row]) :
    getBackedupObjectPropertiesFromDb true db path =
      if row.props.mtime ≤ 0 then .error .mtime
      else if row.props.ctime ≤ 0 then .error .ctime
      else .ok (some (recordOf row)) := by
  simp [getBackedupObjectPropertiesFromDb, h, recordOf]

/-- The row of a record says what the record says, apart from times that do not
fit into it. -/
theorem readsBack_iff_unixNano {db : Db} (h : filesQuery db rec.path = [filesRow rec]) :
    ReadsBack db rec ↔
      (0 < rec.props.mtime ∧ unixNano rec.props.mtime = rec.props.mtime) ∧
        0 < rec.props.ctime ∧ unixNano rec.props.ctime = rec.props.ctime := by
  have hread := getBackedup_of_row h
  have hm : (filesRow rec).props.mtime = unixNano rec.props.mtime := rfl
  have hc : (filesRow rec).props.ctime = unixNano rec.props.ctime := rfl
  constructor
  · rintro ⟨r, hr, -, -, -, hmtime, hctime, -, -⟩
    rw [hread] at hr
    split at hr
    · cases hr
    · rename_i hmpos
      split at hr
      · cases hr
      · rename_i hcpos
        cases hr
        rw [hm] at hmpos
        rw [hc] at hcpos
        have hmtime' : unixNano rec.props.mtime = rec.props.mtime := hmtime
        have hctime' : unixNano rec.props.ctime = rec.props.ctime := hctime
        exact ⟨⟨by omega, hmtime'⟩, by omega, hctime'⟩
  · rintro ⟨⟨hmpos, hmtime⟩, hcpos, hctime⟩
    rw [if_neg (by omega), if_neg (by omega)] at hread
    exact ⟨_, hread, rfl, rfl, rfl, hmtime, hctime, rfl, rfl⟩

/-- A record that an operation on an item commits is read back exactly if both
its times could be read, and are after the beginning of 1970. -/
theorem readsBack_iff (C : Cloud) (pathMatch : Str → Str → Option Bool) (cfg : ConfigBackup)
    (jobUuid : Str) (it : Item) (w : World)
    (hw : Reaches (fun _ _ => True) (Action.apply C pathMatch) World.empty w) (op : Operation)
    (rec : Record) (hdecide : decideItem cfg jobUuid it w.db = .operate op rec)
    (hcancelled : (walkItem C cfg jobUuid it w).cancelled = false)
    (herr : (walkItem C cfg jobUuid it w).err = none)
    (hmtime : Representable it.disk.modTime)
    (hctime : ∀ c, it.disk.getCtime = some c → Representable c) :
    ReadsBack (walkItem C cfg jobUuid it w).world.db rec ↔
      0 < it.disk.modTime ∧ ∃ c, it.disk.getCtime = some c ∧ 0 < c := by
  obtain ⟨checksum, hrec⟩ := decideItem_prepared hdecide
  obtain ⟨hrm, hrc⟩ := prepareFileRecord_times hrec
  rw [readsBack_iff_unixNano
    (filesQuery_of_committed (wellKept_reaches hw) hdecide hcancelled herr), hrm, hrc]
  refine and_congr (and_iff_left (unixNano_of_representable hmtime)) ?_
  cases hc : it.disk.getCtime with
  | none => simp [zeroTime]
  | some c => simpa using fun _ => unixNano_of_representable (hctime c hc)

def newItem (disk : OnDisk) : Item :=
  smoothItem "/file" disk [smoothTarget (plainStore .awsS3) 7 "uuid"]

def newFileRecord (modTime ctime : ℤ) : Record :=
  ⟨"/file".toList, ⟨.file, [], 1, modTime, ctime, [], [], [], [], false⟩, "job".toList, false⟩

theorem readsBack_iff_firstUpload :
    ReadsBack (walkItem plainCloud plainConfig "job".toList (newItem (smallFile 1 1))
      World.empty).world.db (newFileRecord 1 1) ↔
      0 < (1 : ℤ) ∧ ∃ c, some (1 : ℤ) = some c ∧ 0 < c :=
  readsBack_iff plainCloud (fun _ _ => none) plainConfig "job".toList (newItem (smallFile 1 1))
    World.empty .refl .new (newFileRecord 1 1) rfl (by decide) (by decide)
    ⟨by decide, by decide⟩ (fun c hc => Option.some.inj hc ▸ ⟨by decide, by decide⟩)

/-- A file from before 1970 is backed up and committed, and so is one whose ctime
could not be read. Neither record can be read afterwards. -/
theorem not_readsBack_old_or_unread :
    (walkItem plainCloud plainConfig "job".toList (newItem (smallFile (-1) 1))
      World.empty).err = none ∧
    ¬ ReadsBack (walkItem plainCloud plainConfig "job".toList (newItem (smallFile (-1) 1))
      World.empty).world.db (newFileRecord (-1) 1) ∧
    (walkItem plainCloud plainConfig "job".toList
      (newItem { smallFile 1 1 with getCtime := none }) World.empty).err = none ∧
    ¬ ReadsBack (walkItem plainCloud plainConfig "job".toList
      (newItem { smallFile 1 1 with getCtime := none }) World.empty).world.db
      (newFileRecord 1 zeroTime) := by
  refine ⟨by decide, ?_, by decide, ?_⟩
  · rw [readsBack_iff_unixNano (by decide)]
    decide
  · rw [readsBack_iff_unixNano (by decide)]
    decide

end

end CloudBackup.Backup
