import Mathlib.Algebra.Order.Ring.Int
import Mathlib.Algebra.Order.Ring.Nat
import Mathlib.Data.Int.Notation
import Mathlib.Data.List.MinMax
import Mathlib.Tactic.Common

/-!
The tables of a backup's database and the statements of package `dbops` on
them. A table is the list of its rows in the order of insertion. An `INSERT`
that hits a primary key returns `none`, as the statement then fails.

The columns `parent` and `upload_date` of `remote_files`, and the tables
`targets`, `jobs` and `top_items`, are left out: nothing here reads them.
-/

namespace CloudBackup

abbrev Str := List Char

namespace Database

inductive FileType
  | file
  | dir
  | symlink
  | unknown
  deriving DecidableEq, Repr

/-- The columns that `files` and `remote_files` share. The two times are
nanoseconds, as the database stores them. -/
structure Props where
  type : FileType
  linkTarget : Str
  size : ℤ
  mtime : ℤ
  ctime : ℤ
  owner : Str
  permissions : Str
  checksum : Str
  checksumType : Str
  encrypted : Bool
  deriving DecidableEq, Repr

structure FilesRow where
  path : Str
  props : Props
  jobId : Str
  deriving DecidableEq, Repr

structure RemoteFile where
  uuid : Str
  localPath : Str
  target : Str
  jobId : Str
  deleteMarker : Bool
  version : ℕ
  remoteVersion : Str
  props : Props
  deriving DecidableEq, Repr

/-- A row of `backup_collections`. `target` is the text that is inserted. What the column
keeps of it goes by the type of the column (`collectedTargetType`), and that is what a
statement compares; the names of the targets are compared here, which is the same unless two
of them read as one number. -/
structure Collected where
  fileUuid : Str
  jobId : Str
  target : Str
  deriving DecidableEq, Repr

def collectedTargetType : Str := "TEST".toList

structure FailedFile where
  jobId : Str
  path : Str
  type : FileType
  deriving DecidableEq, Repr

structure Db where
  files : List FilesRow
  remoteFiles : List RemoteFile
  backupCollections : List Collected
  failedFiles : List FailedFile
  deriving DecidableEq, Repr

def Db.empty : Db := ⟨[], [], [], []⟩

/-! ### Statements -/

def filesQuery (db : Db) (path : Str) : List FilesRow := db.files.filter (·.path = path)

def filesInsert (db : Db) (row : FilesRow) : Option Db :=
  if row.path ∈ db.files.map FilesRow.path then none
  else some { db with files := db.files ++ [row] }

def filesUpdate (db : Db) (row : FilesRow) : ℕ × Db :=
  ((filesQuery db row.path).length,
    { db with files := db.files.map fun f => if f.path = row.path then row else f })

def filesDelete (db : Db) (path : Str) : Db :=
  { db with files := db.files.filter (·.path ≠ path) }

def remoteFilesInsert (db : Db) (row : RemoteFile) : Option Db :=
  if row.uuid ∈ db.remoteFiles.map RemoteFile.uuid then none
  else some { db with remoteFiles := db.remoteFiles ++ [row] }

def backupCollectionsInsert (db : Db) (row : Collected) : Db :=
  { db with backupCollections := db.backupCollections ++ [row] }

def failedFilesInsert (db : Db) (row : FailedFile) : Option Db :=
  if (row.jobId, row.path) ∈ db.failedFiles.map (fun f => (f.jobId, f.path)) then none
  else some { db with failedFiles := db.failedFiles ++ [row] }

def hasAnyEncryptedFiles (db : Db) : Bool := db.files.any (·.props.encrypted)

def versionsOf (db : Db) (path target : Str) : List RemoteFile :=
  db.remoteFiles.filter fun r => r.localPath = path ∧ r.target = target

def newest (db : Db) (path target : Str) : Option RemoteFile :=
  (versionsOf db path target).argmax RemoteFile.version

/-- `RemoteFilesQueryNewestVersion`, with what `calcRemoteFileVersion` makes of
it: one more than the highest version, or one. -/
def calcRemoteFileVersion (db : Db) (path target : Str) : ℕ :=
  match newest db path target with
  | some r => r.version + 1
  | none => 1

/-- `RemoteFilesQueryRemoteVersion`; the first match is used. -/
def getRemoteVersionForVersion (db : Db) (path target : Str) (version : ℕ) : Option Str :=
  ((versionsOf db path target).find? (·.version = version)).map RemoteFile.remoteVersion

/-- `RemoteFilesQueryNewestVersionUuid`, with what `getNewestRemoteFileUuid`
makes of it: an empty uuid is an error as well. -/
def getNewestRemoteFileUuid (db : Db) (path target : Str) : Option Str :=
  match ((versionsOf db path target).filter (!·.deleteMarker)).argmax RemoteFile.version with
  | some r => if r.uuid = [] then none else some r.uuid
  | none => none

/-- The paths that job `jobId` has in its collection for a target. -/
def collectedPaths (db : Db) (jobId target : Str) : List Str :=
  (db.remoteFiles.filter fun r =>
    db.backupCollections.any fun c => c.fileUuid = r.uuid ∧ c.jobId = jobId ∧ c.target = target).map
    RemoteFile.localPath

def deletionCandidates (db : Db) (jobId target : Str) : List Str :=
  (db.files.map FilesRow.path).filter fun p =>
    p ∉ collectedPaths db jobId target ∧
      p ∉ (db.failedFiles.filter (·.jobId = jobId)).map FailedFile.path

def findDeletedItems (db : Db) (jobId target : Str) (limit : ℕ) : List Str :=
  (deletionCandidates db jobId target).take limit

/-! ### The newest row -/

theorem newest_mem {db : Db} {path target : Str} {r : RemoteFile} (h : newest db path target = some r) :
    r ∈ db.remoteFiles ∧ r.localPath = path ∧ r.target = target := by
  have := List.argmax_mem (Option.mem_def.mpr h)
  simpa [versionsOf] using this

theorem version_lt_calc {db : Db} {path target : Str} {r : RemoteFile}
    (hr : r ∈ versionsOf db path target) : r.version < calcRemoteFileVersion db path target := by
  unfold calcRemoteFileVersion
  cases hn : newest db path target with
  | none =>
      rw [newest, List.argmax_eq_none] at hn
      simp [hn] at hr
  | some m => exact Nat.lt_succ_of_le (List.le_of_mem_argmax hr hn)

/-- What a new row adds to the versions of a path and a target. -/
theorem versionsOf_append (db : Db) (row : RemoteFile) (path target : Str) :
    versionsOf { db with remoteFiles := db.remoteFiles ++ [row] } path target =
      versionsOf db path target ++ if row.localPath = path ∧ row.target = target then [row] else [] := by
  unfold versionsOf
  rw [List.filter_append]
  by_cases h : row.localPath = path ∧ row.target = target <;> simp [h]

/-- A row with the next version is the newest of its path and target. -/
theorem newest_append_self {db : Db} {row : RemoteFile}
    (h : row.version = calcRemoteFileVersion db row.localPath row.target) :
    newest { db with remoteFiles := db.remoteFiles ++ [row] } row.localPath row.target =
      some row := by
  rw [newest, versionsOf_append, if_pos ⟨rfl, rfl⟩, List.argmax_concat]
  cases hn : List.argmax RemoteFile.version (versionsOf db row.localPath row.target) with
  | none => rfl
  | some m =>
      have hlt : m.version < row.version := by
        rw [h]
        exact version_lt_calc (List.argmax_mem hn)
      simp [hlt]

theorem newest_append_of_ne {db : Db} {row : RemoteFile} {path target : Str}
    (h : ¬ (row.localPath = path ∧ row.target = target)) :
    newest { db with remoteFiles := db.remoteFiles ++ [row] } path target =
      newest db path target := by
  rw [newest, versionsOf_append, if_neg h, List.append_nil, newest]

@[simp] theorem newest_backupCollectionsInsert (db : Db) (c : Collected) (path target : Str) :
    newest (backupCollectionsInsert db c) path target = newest db path target := rfl

theorem filesInsert_eq_some {db db' : Db} {row : FilesRow} (h : filesInsert db row = some db') :
    row.path ∉ db.files.map FilesRow.path ∧ db' = { db with files := db.files ++ [row] } := by
  unfold filesInsert at h
  split at h
  · simp at h
  · rename_i hmem
    exact ⟨hmem, (Option.some.inj h).symm⟩

end Database

end CloudBackup
