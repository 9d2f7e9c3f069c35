import CloudBackup.ObjectStore.Store

/-!
How an item on disk is compared with its row of `files`, and what `Do` makes of
it: the record to store, the checks before an upload, and the counters.

The calls to the file system that `Do` makes for one item are collected in
`OnDisk`. A time is its number of nanoseconds since 1970; only its low 64 bits
reach the database.
-/

namespace CloudBackup.Backup

open Cbcrypto Database ObjectStore

/-- The part of `ConfigBackup` that decides about items. `DereferenceEnabled` is
only passed on to `GetCtime`, whose result is part of `OnDisk`. -/
structure ConfigBackup where
  checksum : Bool
  encrypt : Bool
  paths : List Str
  exclusions : List Str
  deriving DecidableEq, Repr

/-- What the file system says about an item during one call of `Do`. The
symlink may be read twice, with two results. A result is `none` if the call
failed; `uuid` stands in for a checksum that could not be calculated. -/
structure OnDisk where
  fileType : FileType
  size : ℤ
  modTime : ℤ
  getFileMD5Sum : Option Str
  getCtime : Option ℤ
  owner : Str
  permissions : Str
  readlink : Option Str
  readlinkAgain : Option Str
  newV4 : Option Str
  deriving DecidableEq, Repr

/-! ### Times -/

def zeroTime : ℤ := -62135596800 * 10 ^ 9

def unixNano (t : ℤ) : ℤ := Int.bmod t (2 ^ 64)

def toRow (p : Props) : Props := { p with mtime := unixNano p.mtime, ctime := unixNano p.ctime }

def filesRow (rec : Record) : FilesRow := ⟨rec.path, toRow rec.props, rec.jobUuid⟩

/-! ### Reading a row -/

inductive ReadErr
  | query
  | duplicateRecord
  | mtime
  | ctime
  deriving DecidableEq, Repr

def getBackedupObjectPropertiesFromDb (queryOk : Bool) (db : Db) (path : Str) :
    Except ReadErr (Option Record) :=
  if !queryOk then .error .query
  else
    match filesQuery db path with
    | [] => .ok none
    | row :: rows =>
        if row.props.mtime ≤ 0 then .error .mtime
        else if row.props.ctime ≤ 0 then .error .ctime
        else if rows ≠ [] then .error .duplicateRecord
        else .ok (some ⟨row.path, row.props, row.jobId, false⟩)

/-! ### Detecting a change -/

/-- What `needsUpload` returns. -/
structure Change where
  contentChanged : Bool
  metadataChanged : Bool
  ctime : ℤ
  checksum : Str
  deriving DecidableEq, Repr

/-- The chain of comparisons at the start of `needsUpload`: if the content has
changed, and the checksum as far as it was calculated. -/
def contentChange (disk : OnDisk) (db : Props) (compareChecksum encrypt : Bool) : Bool × Str :=
  if db.encrypted ≠ encrypt ∧ disk.fileType = .file then (true, [])
  else if compareChecksum ∧ disk.fileType = .file then
    match disk.getFileMD5Sum with
    | none => (true, [])
    | some checksum => (decide (checksum ≠ db.checksum), checksum)
  else if db.type ≠ .dir ∧ disk.size ≠ db.size then (true, [])
  else if disk.modTime ≠ db.mtime then (true, [])
  else if disk.fileType ≠ db.type then (true, [])
  else (false, [])

/-- The rest of `needsUpload`. An error counts as a change. -/
def metadataChange (disk : OnDisk) (db : Props) : Bool :=
  if disk.getCtime ≠ some db.ctime then true
  else decide (disk.fileType = .symlink ∧ disk.readlink ≠ some db.linkTarget)

def needsUpload (disk : OnDisk) (db : Props) (compareChecksum encrypt : Bool) : Change :=
  let content := contentChange disk db compareChecksum encrypt
  ⟨content.1, metadataChange disk db, disk.getCtime.getD zeroTime, content.2⟩

def md5 : Str := "md5".toList

def prepareFileRecord (path : Str) (disk : OnDisk) (cfg : ConfigBackup) (ctime : ℤ) (checksum : Str)
    (jobUuid : Str) : Option Record :=
  let props : Props :=
    { type := disk.fileType
      linkTarget := []
      size := disk.size
      mtime := disk.modTime
      ctime := ctime
      owner := disk.owner
      permissions := disk.permissions
      checksum := checksum
      checksumType := if checksum ≠ [] then md5 else []
      encrypted := cfg.encrypt }
  match disk.fileType with
  | .symlink => disk.readlinkAgain.map fun target =>
      ⟨path, { props with linkTarget := target }, jobUuid, false⟩
  | .dir => some ⟨path, { props with size := 0 }, jobUuid, false⟩
  | _ => some ⟨path, props, jobUuid, false⟩

structure Describes (path : Str) (disk : OnDisk) (cfg : ConfigBackup) (jobUuid : Str)
    (rec : Record) : Prop where
  path_eq : rec.path = path
  jobUuid_eq : rec.jobUuid = jobUuid
  skipEncryption : rec.skipEncryption = false
  encrypted : rec.props.encrypted = cfg.encrypt
  type : rec.props.type = disk.fileType

theorem describes_of_prepareFileRecord {path : Str} {disk : OnDisk} {cfg : ConfigBackup} {ctime : ℤ}
    {checksum jobUuid : Str} {rec : Record}
    (h : prepareFileRecord path disk cfg ctime checksum jobUuid = some rec) :
    Describes path disk cfg jobUuid rec := by
  unfold prepareFileRecord at h
  dsimp only at h
  split at h
  · obtain ⟨target, -, rfl⟩ := Option.map_eq_some_iff.mp h
    exact ⟨rfl, rfl, rfl, rfl, rfl⟩
  · cases h
    exact ⟨rfl, rfl, rfl, rfl, rfl⟩
  · cases h
    exact ⟨rfl, rfl, rfl, rfl, rfl⟩

/-! ### Checks before an upload -/

inductive SkipReason
  | skippedReservedPath
  | skippedTooLargeForTarget
  deriving DecidableEq, Repr

def reservedPathSegment : Str := ".cbcrypt".toList

def preUploadReservedPathCheck (rec : Record) : Bool :=
  (rec.path.splitOn '/').contains reservedPathSegment

def preUploadSizeCheck (rec : Record) (cfg : ConfigBackup) (st : Store) : Bool :=
  if rec.props.type ≠ .file then false
  else
    let encrypted := cfg.encrypt && !rec.skipEncryption
    let wireSize := if encrypted then encryptedSize rec.props.size else rec.props.size
    decide (st.maxObjectSize encrypted < wireSize)

def preUploadCheck (rec : Record) (cfg : ConfigBackup) (st : Store) : Option SkipReason :=
  if preUploadReservedPathCheck rec then some .skippedReservedPath
  else if preUploadSizeCheck rec cfg st then some .skippedTooLargeForTarget
  else none

/-! ### Counters -/

inductive OperationType
  | upload
  | update
  | upToDate
  | markDeleted
  deriving DecidableEq, Repr

inductive Counter
  | failedToUpload (type : FileType)
  | uploaded (type : FileType)
  | failedToUpdateMetadata (type : FileType)
  | updatedMetadata (type : FileType)
  | upToDate (type : FileType)
  | failedToMarkDeleted (type : FileType)
  | markedDeleted (type : FileType)
  | failedToFindDeleted
  /-- The loop over the targets was at `target`. -/
  | skipped (reason : SkipReason) (target : Str)
  deriving DecidableEq, Repr

structure Event where
  counter : Counter
  path : Str
  deriving DecidableEq, Repr

/-- `updateCounters`. For an item of unknown type there is only a counter for
the failure to upload it. -/
def updateCounters (op : OperationType) (type : FileType) (path : Str) (failed : Bool) :
    List Event :=
  match op, failed with
  | .upload, true => [⟨.failedToUpload type, path⟩]
  | .upload, false => if type = .unknown then [] else [⟨.uploaded type, path⟩]
  | .update, true => if type = .unknown then [] else [⟨.failedToUpdateMetadata type, path⟩]
  | .update, false => if type = .unknown then [] else [⟨.updatedMetadata type, path⟩]
  | .upToDate, _ => if type = .unknown then [] else [⟨.upToDate type, path⟩]
  | .markDeleted, true => if type = .unknown then [] else [⟨.failedToMarkDeleted type, path⟩]
  | .markDeleted, false => if type = .unknown then [] else [⟨.markedDeleted type, path⟩]

end CloudBackup.Backup
