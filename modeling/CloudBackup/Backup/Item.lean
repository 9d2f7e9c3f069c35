import CloudBackup.Backup.Record
import CloudBackup.Library.Iteration

/-!
The operations on one item: `UploadAndUpdateDB`, `markDeleted` and `Do`. Each of
the first two is a transaction on the database around a loop over the targets.
The loop works on a copy of the database, which takes the place of the original
when the transaction is committed; the buckets change at once, and are changed
back with `Delete` if the loop stops.
-/

namespace CloudBackup.Backup

open Cbcrypto Database ObjectStore Iteration

/-- The database of a backup, and the buckets of its targets by name. -/
structure World where
  db : Db
  buckets : Str → Bucket

def World.empty : World := ⟨Db.empty, fun _ => Bucket.empty⟩

/-- A target in the loop of one item, with what happens outside the program
during its pass: the replies of the store, and if the statements succeed. The
first query is for the newest version, or for the newest uuid. `undo` is the
reply to the `Delete` of a rollback. -/
structure Target where
  store : Store
  queryOk : Bool
  out : Outgoing
  remoteVersionOk : Bool
  newV4 : Option Str
  remoteFilesOk : Bool
  collectionsOk : Bool
  undo : Reply

structure Statements where
  beginOk : Bool
  filesOk : Bool
  commitOk : Bool
  deriving DecidableEq, Repr

inductive ItemErr
  | query (e : ReadErr)
  | newV4
  | prepare
  | unsupportedFileType
  | begin
  | files
  | version
  | store (e : StoreErr)
  | remoteVersion
  | noPreviousVersion
  | remoteFiles
  | collections
  | commit
  /-- `FileExists` uses the properties of a file it could not examine. -/
  | nilDereference
  deriving DecidableEq, Repr

/-- What an operation returns and leaves behind, with the counters it increments. -/
structure Result where
  cancelled : Bool
  err : Option ItemErr
  world : World
  events : List Event

inductive Halt
  | cancelled
  | error (e : ItemErr)
  deriving DecidableEq, Repr

structure SuccessfullyProcessed where
  store : Store
  version : ℕ
  remoteVersion : Str
  undo : Reply

structure Pass where
  db : Db
  buckets : Str → Bucket
  processed : List SuccessfullyProcessed
  events : List Event

/-! ### Rows -/

def remoteFile (uuid : Str) (target : Str) (jobUuid : Str) (deleteMarker : Bool) (rec : Record)
    (version : ℕ) (remoteVersion : Str) : RemoteFile :=
  ⟨uuid, rec.path, target, jobUuid, deleteMarker, version, remoteVersion, toRow rec.props⟩

def addDbEntryToRemoteFiles (t : Target) (jobUuid : Str) (deleteMarker : Bool) (rec : Record)
    (version : ℕ) (remoteVersion : Str) (db : Db) : Except ItemErr (Str × Db) :=
  match t.newV4 with
  | none => .error .newV4
  | some uuid =>
      if !t.remoteFilesOk then .error .remoteFiles
      else
        match remoteFilesInsert db
          (remoteFile uuid t.store.name jobUuid deleteMarker rec version remoteVersion) with
        | none => .error .remoteFiles
        | some db' => .ok (uuid, db')

def addRows (t : Target) (jobUuid : Str) (deleteMarker : Bool) (rec : Record) (version : ℕ)
    (remoteVersion : Str) (p : Pass) : Flow Pass Halt :=
  match addDbEntryToRemoteFiles t jobUuid deleteMarker rec version remoteVersion p.db with
  | .error e => .stop (.error e) p
  | .ok (uuid, db) =>
      if !t.collectionsOk then .stop (.error .collections) { p with db := db }
      else .next { p with db := backupCollectionsInsert db ⟨uuid, jobUuid, t.store.name⟩ }

/-! ### Uploads and updates -/

inductive Operation
  | new
  | contentUpdate
  | metadataUpdate
  deriving DecidableEq, Repr

def Operation.operationType : Operation → OperationType
  | .new => .upload
  | .contentUpdate => .upload
  | .metadataUpdate => .update

/-- `addDbEntryToFiles` or `updateDbEntryInFiles`. -/
def filesEntry (op : Operation) (filesOk : Bool) (rec : Record) (db : Db) : Option Db :=
  if !filesOk then none
  else if op = .new then filesInsert db (filesRow rec)
  else if (filesUpdate db (filesRow rec)).1 ≠ 1 then none
  else some (filesUpdate db (filesRow rec)).2

def Pass.setBucket (p : Pass) (target : Str) (b : Bucket) : Pass :=
  { p with buckets := Function.update p.buckets target b }

def Pass.addProcessed (p : Pass) (t : Target) (version : ℕ) (remoteVersion : Str) : Pass :=
  { p with processed := p.processed ++ [⟨t.store, version, remoteVersion, t.undo⟩] }

def uploadTarget (C : Cloud) (cfg : ConfigBackup) (rec : Record) (t : Target) (p : Pass) :
    Flow Pass Halt :=
  if !t.queryOk then .stop (.error .version) p
  else
    match preUploadCheck rec cfg t.store with
    | some reason =>
        .next { p with events := p.events ++ [⟨.skipped reason t.store.name, rec.path⟩] }
    | none =>
        let version := calcRemoteFileVersion p.db rec.path t.store.name
        let sent := t.store.upload C rec version t.out (p.buckets t.store.name)
        let p := p.setBucket t.store.name sent.2
        if sent.1.cancelled then .stop .cancelled p
        else
          match sent.1.err with
          | some e => .stop (.error (.store e)) p
          | none =>
              addRows t rec.jobUuid false rec version sent.1.remoteVersion
                (p.addProcessed t version sent.1.remoteVersion)

/-- A pass of the loop of `UploadAndUpdateDB` that sends nothing: the row takes
over the remote version of the one before. -/
def updateTarget (rec : Record) (t : Target) (p : Pass) : Flow Pass Halt :=
  if !t.queryOk then .stop (.error .version) p
  else
    let version := calcRemoteFileVersion p.db rec.path t.store.name
    if version ≤ 1 then .stop (.error .noPreviousVersion) p
    else if !t.remoteVersionOk then .stop (.error .remoteVersion) p
    else
      match getRemoteVersionForVersion p.db rec.path t.store.name (version - 1) with
      | none => .stop (.error .remoteVersion) p
      | some remoteVersion => addRows t rec.jobUuid false rec version remoteVersion p

def operateTarget (C : Cloud) (cfg : ConfigBackup) (op : Operation) (rec : Record) :
    Target → Pass → Flow Pass Halt :=
  if op.operationType = .upload then uploadTarget C cfg rec else updateTarget rec

/-- `Delete` for everything that was processed. -/
def cleanUp (C : Cloud) (rec : Record) (p : Pass) : Str → Bucket :=
  p.processed.foldl (fun buckets e =>
    Function.update buckets e.store.name
      (e.store.delete C rec e.version e.remoteVersion e.undo (buckets e.store.name))) p.buckets

def finish (C : Cloud) (rec : Record) (commitOk : Bool) (db : Db) : Flow Pass Halt → Result
  | .stop .cancelled p => ⟨true, none, ⟨db, cleanUp C rec p⟩, p.events⟩
  | .stop (.error e) p => ⟨false, some e, ⟨db, cleanUp C rec p⟩, p.events⟩
  | .next p =>
      if !commitOk then ⟨false, some .commit, ⟨db, p.buckets⟩, p.events⟩
      else ⟨false, none, ⟨p.db, p.buckets⟩, p.events⟩

/-- The call of `updateCounters` at the end of `UploadAndUpdateDB`. There is none
if the job was cancelled or the commit failed. -/
def countResult (op : OperationType) (rec : Record) (r : Result) : Result :=
  if r.cancelled ∨ r.err = some .commit then r
  else { r with events := r.events ++ updateCounters op rec.props.type rec.path r.err.isSome }

def uploadAndUpdateDB (C : Cloud) (cfg : ConfigBackup) (op : Operation) (stmts : Statements)
    (targets : List Target) (rec : Record) (w : World) : Result :=
  countResult op.operationType rec <|
    if !stmts.beginOk then ⟨false, some .begin, w, []⟩
    else
      match filesEntry op stmts.filesOk rec w.db with
      | none => ⟨false, some .files, w, []⟩
      | some db =>
          finish C rec stmts.commitOk w.db
            (forEach (operateTarget C cfg op rec) targets ⟨db, w.buckets, [], []⟩)

/-! ### Delete markers -/

/-- What `os.Lstat` finds at a path. -/
inductive Lstat
  | notExist
  | failed
  | found (type : FileType)
  deriving DecidableEq, Repr

/-- `strings.TrimSuffix(path, "/")`. -/
def trimSlash (path : Str) : Str :=
  if path.getLast? = some '/' then path.dropLast else path

def isPathIncluded (includedPaths : List Str) (path : Str) : Bool :=
  includedPaths.any fun incPath =>
    path = incPath || path = trimSlash incPath || trimSlash path = incPath ||
      (trimSlash incPath ++ ['/']).isPrefixOf path

/-- `IsPathExcluded`, given `doublestar.PathMatch`. A bad pattern ends the search
without a match. -/
def isPathExcluded (pathMatch : Str → Str → Option Bool) (exclusions : List Str) (path : Str) :
    Bool :=
  match exclusions with
  | [] => false
  | excludedPath :: rest =>
      match pathMatch excludedPath path with
      | none => false
      | some true => true
      | some false => isPathExcluded pathMatch rest path

/-- `DirExists` or `FileExists`, after the type of the record: `true` if the item
is still there. The second one fails badly if the path cannot be examined. -/
def stillExists (type : FileType) (lstat : Lstat) : Except ItemErr Bool :=
  match type, lstat with
  | .dir, .found t => .ok (decide (t = .dir))
  | .dir, _ => .ok false
  | _, .found t => .ok (decide (t = .symlink ∨ t = .file))
  | _, .notExist => .ok false
  | _, .failed => .error .nilDereference

def markTarget (C : Cloud) (jobUuid : Str) (rec : Record) (t : Target) (p : Pass) :
    Flow Pass Halt :=
  if !t.queryOk then .stop (.error .version) p
  else
    let version := calcRemoteFileVersion p.db rec.path t.store.name
    let sent := t.store.markDeleted C rec version t.out.reply (p.buckets t.store.name)
    let p := p.setBucket t.store.name sent.2
    match sent.1.err with
    | some e => .stop (.error (.store e)) p
    | none =>
        if sent.1.cancelled then .stop .cancelled p
        else
          addRows t jobUuid true rec version sent.1.remoteVersion
            (p.addProcessed t version sent.1.remoteVersion)

def putMarkers (C : Cloud) (stmts : Statements) (targets : List Target) (jobUuid : Str)
    (rec : Record) (w : World) : Result :=
  if !stmts.beginOk then ⟨false, some .begin, w, []⟩
  else if !stmts.filesOk then ⟨false, some .files, w, []⟩
  else
    finish C rec stmts.commitOk w.db
      (forEach (markTarget C jobUuid rec) targets ⟨filesDelete w.db rec.path, w.buckets, [], []⟩)

def markDeleted (C : Cloud) (pathMatch : Str → Str → Option Bool) (cfg : ConfigBackup)
    (lstat : Lstat) (stmts : Statements) (targets : List Target) (jobUuid : Str) (rec : Record)
    (w : World) : Result :=
  if !isPathExcluded pathMatch cfg.exclusions rec.path && isPathIncluded cfg.paths rec.path then
    match stillExists rec.props.type lstat with
    | .error e => ⟨false, some e, w, []⟩
    | .ok true => ⟨false, none, w, []⟩
    | .ok false => putMarkers C stmts targets jobUuid rec w
  else putMarkers C stmts targets jobUuid rec w

/-! ### Backing up an item -/

/-- The surroundings of one call of `Do`. -/
structure Item where
  path : Str
  disk : OnDisk
  ctxDone : Bool
  queryOk : Bool
  stmts : Statements
  targets : List Target
  failedFilesOk : Bool

inductive Verdict
  | fail (e : ItemErr) (events : List Event)
  | operate (op : Operation) (rec : Record)
  | upToDate (rec : Record)

def Verdict.operation : Verdict → Option Operation
  | .operate op _ => some op
  | _ => none

def newRecordWith (cfg : ConfigBackup) (jobUuid : Str) (it : Item) (checksum : Str) : Verdict :=
  match prepareFileRecord it.path it.disk cfg (it.disk.getCtime.getD zeroTime) checksum jobUuid with
  | none => .fail .prepare (updateCounters .upload it.disk.fileType it.path true)
  | some rec =>
      if rec.props.type = .unknown then
        .fail .unsupportedFileType (updateCounters .upload .unknown it.path true)
      else .operate .new rec

def newRecord (cfg : ConfigBackup) (jobUuid : Str) (it : Item) : Verdict :=
  if cfg.checksum ∧ it.disk.fileType = .file then
    match it.disk.getFileMD5Sum, it.disk.newV4 with
    | some checksum, _ => newRecordWith cfg jobUuid it checksum
    | none, some uuid => newRecordWith cfg jobUuid it uuid
    | none, none => .fail .newV4 []
  else newRecordWith cfg jobUuid it []

/-- What `Do` makes of an item that has a row in `files`. -/
def existingRecord (cfg : ConfigBackup) (jobUuid : Str) (it : Item) (db : Props) : Verdict :=
  let change := needsUpload it.disk db cfg.checksum cfg.encrypt
  match prepareFileRecord it.path it.disk cfg change.ctime change.checksum jobUuid with
  | none => .fail .prepare (updateCounters .upload it.disk.fileType it.path true)
  | some rec =>
      if change.contentChanged then
        if rec.props.type = .unknown then
          .fail .unsupportedFileType (updateCounters .upload .unknown it.path true)
        else .operate .contentUpdate rec
      else if change.metadataChanged then
        if rec.props.type = .unknown then
          .fail .unsupportedFileType (updateCounters .update .unknown it.path true)
        else .operate .metadataUpdate rec
      else .upToDate rec

/-- The decision that `Do` takes before it changes anything. -/
def decideItem (cfg : ConfigBackup) (jobUuid : Str) (it : Item) (db : Db) : Verdict :=
  match getBackedupObjectPropertiesFromDb it.queryOk db it.path with
  | .error e => .fail (.query e) (updateCounters .upload it.disk.fileType it.path true)
  | .ok none => newRecord cfg jobUuid it
  | .ok (some dbRecord) => existingRecord cfg jobUuid it dbRecord.props

/-- A pass of the loop of `Do` for an item that is up to date. An error is
logged, and the loop goes on. -/
def collectTarget (jobUuid path : Str) (db : Db) (t : Target) : Db :=
  if !t.queryOk then db
  else
    match getNewestRemoteFileUuid db path t.store.name with
    | none => db
    | some uuid =>
        if !t.collectionsOk then db
        else backupCollectionsInsert db ⟨uuid, jobUuid, t.store.name⟩

/-- `Do`. -/
def doItem (C : Cloud) (cfg : ConfigBackup) (jobUuid : Str) (it : Item) (w : World) : Result :=
  if it.ctxDone then ⟨true, none, w, []⟩
  else
    match decideItem cfg jobUuid it w.db with
    | .fail e events => ⟨false, some e, w, events⟩
    | .operate op rec => uploadAndUpdateDB C cfg op it.stmts it.targets rec w
    | .upToDate rec =>
        ⟨false, none, { w with db := it.targets.foldl (collectTarget jobUuid it.path) w.db },
          updateCounters .upToDate rec.props.type it.path false⟩

def markItemAsFailed (ok : Bool) (row : FailedFile) (db : Db) : Db :=
  if !ok then db else (failedFilesInsert db row).getD db

/-- What `walk` does with an item: an error of `Do` is noted in `failed_files`. -/
def walkItem (C : Cloud) (cfg : ConfigBackup) (jobUuid : Str) (it : Item) (w : World) : Result :=
  let r := doItem C cfg jobUuid it w
  if r.cancelled ∨ r.err = none then r
  else
    { r with world := { r.world with
        db := markItemAsFailed it.failedFilesOk ⟨jobUuid, it.path, it.disk.fileType⟩ r.world.db } }

/-! ### Marking an item as deleted -/

structure Entry where
  path : Str
  queryOk : Bool
  lstat : Lstat
  stmts : Statements
  targets : List Target

def markEntry (C : Cloud) (pathMatch : Str → Str → Option Bool) (cfg : ConfigBackup)
    (jobUuid : Str) (e : Entry) (w : World) : Result :=
  match getBackedupObjectPropertiesFromDb e.queryOk w.db e.path with
  | .error err => ⟨false, some (.query err), w, [⟨.failedToFindDeleted, e.path⟩]⟩
  | .ok none => ⟨false, none, w, [⟨.failedToFindDeleted, e.path⟩]⟩
  | .ok (some rec) =>
      let r := markDeleted C pathMatch cfg e.lstat e.stmts e.targets jobUuid rec w
      if r.cancelled ∨ r.err = some .nilDereference then r
      else { r with events := r.events ++
        updateCounters .markDeleted rec.props.type rec.path r.err.isSome }

/-! ### Runs without trouble -/

def smoothTarget (st : Store) (byte : UInt8) (uuid : String) : Target :=
  ⟨st, true,
    ⟨⟨[byte], by simp⟩, ⟨⟨List.replicate cekSize 0, by simp⟩, ⟨List.replicate nonceSize 0, by simp⟩,
      ⟨List.replicate noncePrefixSize 0, by simp⟩⟩, .ok⟩, true, some uuid.toList, true, true, .ok⟩

def smallFile (modTime ctime : ℤ) : OnDisk :=
  ⟨.file, 1, modTime, none, some ctime, [], [], none, none, none⟩

def smoothItem (path : String) (disk : OnDisk) (targets : List Target) : Item :=
  ⟨path.toList, disk, false, true, ⟨true, true, true⟩, targets, true⟩

def plainConfig : ConfigBackup := ⟨false, false, ["/".toList], []⟩

def encryptingTarget (uuid : String) : Target :=
  smoothTarget { plainStore .awsS3 with enc :=
    ⟨true, [], List.replicate kekSize 5, ⟨List.replicate keystoreUUIDSize 1, by simp⟩, true⟩ } 7 uuid

def encryptingConfig : ConfigBackup := { plainConfig with encrypt := true }

/-! ### What a pass does to the database -/

/-- A row of `remote_files` together with its entry in the collection of its job. -/
def addedRows (db : Db) (row : RemoteFile) : Db :=
  backupCollectionsInsert { db with remoteFiles := db.remoteFiles ++ [row] }
    ⟨row.uuid, row.jobId, row.target⟩

@[simp] theorem addedRows_files (db : Db) (row : RemoteFile) : (addedRows db row).files = db.files :=
  rfl

@[simp] theorem addedRows_remoteFiles (db : Db) (row : RemoteFile) :
    (addedRows db row).remoteFiles = db.remoteFiles ++ [row] := rfl

@[simp] theorem addedRows_backupCollections (db : Db) (row : RemoteFile) :
    (addedRows db row).backupCollections =
      db.backupCollections ++ [⟨row.uuid, row.jobId, row.target⟩] := rfl

@[simp] theorem filesDelete_remoteFiles (db : Db) (path : Str) :
    (filesDelete db path).remoteFiles = db.remoteFiles := rfl

section Passes

variable {C : Cloud} {cfg : ConfigBackup} {rec : Record} {jobUuid : Str} {t : Target} {p p' : Pass}

def nextRow (uuid : Str) (t : Target) (jobUuid : Str) (deleteMarker : Bool) (rec : Record)
    (remoteVersion : Str) (db : Db) : RemoteFile :=
  remoteFile uuid t.store.name jobUuid deleteMarker rec
    (calcRemoteFileVersion db rec.path t.store.name) remoteVersion

/-- A pass adds the next row of its target, with a uuid that is not in use. -/
def AddsRow (t : Target) (jobUuid : Str) (deleteMarker : Bool) (rec : Record)
    (remoteVersion : Str) (db db' : Db) : Prop :=
  ∃ uuid, uuid ∉ db.remoteFiles.map RemoteFile.uuid ∧
    db' = addedRows db (nextRow uuid t jobUuid deleteMarker rec remoteVersion db)

def rowsOk (used : List Str) (t : Target) : Bool :=
  t.newV4.any (fun uuid => !used.contains uuid) && t.remoteFilesOk && t.collectionsOk

theorem addRows_cases (t : Target) (jobUuid : Str) (deleteMarker : Bool) (rec : Record)
    (version : ℕ) (remoteVersion : Str) (p : Pass) :
    (rowsOk (p.db.remoteFiles.map RemoteFile.uuid) t = false ∧
      ∃ e db, addRows t jobUuid deleteMarker rec version remoteVersion p =
        .stop (.error e) { p with db := db }) ∨
    (rowsOk (p.db.remoteFiles.map RemoteFile.uuid) t = true ∧
      ∃ uuid, t.newV4 = some uuid ∧ uuid ∉ p.db.remoteFiles.map RemoteFile.uuid ∧
        addRows t jobUuid deleteMarker rec version remoteVersion p = .next { p with
          db := addedRows p.db
            (remoteFile uuid t.store.name jobUuid deleteMarker rec version remoteVersion) }) := by
  unfold addRows addDbEntryToRemoteFiles rowsOk
  cases hu : t.newV4 with
  | none => exact .inl ⟨by simp, .newV4, p.db, rfl⟩
  | some uuid =>
      by_cases hr : t.remoteFilesOk
      · by_cases hmem : uuid ∈ p.db.remoteFiles.map RemoteFile.uuid
        · exact .inl ⟨by simp only [Option.any_some, List.contains_eq_mem, hmem, decide_true,
              Bool.not_true, Bool.false_and], .remoteFiles, p.db,
            by simp [hr, remoteFilesInsert, remoteFile, hmem]⟩
        · by_cases hc : t.collectionsOk
          · refine .inr ⟨by simp only [Option.any_some, List.contains_eq_mem, hmem, decide_false, hr, hc,
              Bool.not_false, Bool.and_self], uuid, rfl, hmem, ?_⟩
            simp [hr, remoteFilesInsert, remoteFile, hmem, hc, addedRows]
          · exact .inl ⟨by simp [hc], .collections, { p.db with remoteFiles := p.db.remoteFiles ++
              [remoteFile uuid t.store.name jobUuid deleteMarker rec version remoteVersion] },
              by simp [hr, remoteFilesInsert, remoteFile, hmem, hc]⟩
      · exact .inl ⟨by simp [hr], .remoteFiles, p.db, by simp [hr]⟩

theorem addRows_state (t : Target) (jobUuid : Str) (deleteMarker : Bool) (rec : Record)
    (version : ℕ) (remoteVersion : Str) (p : Pass) :
    ∃ db, (addRows t jobUuid deleteMarker rec version remoteVersion p).state = { p with db := db } := by
  rcases addRows_cases t jobUuid deleteMarker rec version remoteVersion p with
    ⟨-, e, db, hstop⟩ | ⟨-, uuid, -, -, hnext⟩
  · exact ⟨db, by rw [hstop]; rfl⟩
  · exact ⟨_, by rw [hnext]; rfl⟩

theorem addRows_stop {deleteMarker : Bool} {version : ℕ} {remoteVersion : Str} {halt : Halt}
    (h : addRows t jobUuid deleteMarker rec version remoteVersion p = .stop halt p') :
    halt = .error .newV4 ∨ halt = .error .remoteFiles ∨ halt = .error .collections := by
  unfold addRows at h
  split at h
  · rename_i e he
    cases h
    unfold addDbEntryToRemoteFiles at he
    split at he
    · cases he
      exact .inl rfl
    · split at he
      · cases he
        exact .inr (.inl rfl)
      · split at he
        · cases he
          exact .inr (.inl rfl)
        · cases he
  · split at h
    · cases h
      exact .inr (.inr rfl)
    · cases h

theorem addRows_next {deleteMarker : Bool} {version : ℕ} {remoteVersion : Str}
    (h : addRows t jobUuid deleteMarker rec version remoteVersion p = .next p') :
    ∃ uuid, uuid ∉ p.db.remoteFiles.map RemoteFile.uuid ∧ p' = { p with
      db := addedRows p.db
        (remoteFile uuid t.store.name jobUuid deleteMarker rec version remoteVersion) } := by
  rcases addRows_cases t jobUuid deleteMarker rec version remoteVersion p with
    ⟨-, e, db, hstop⟩ | ⟨-, uuid, -, hmem, hnext⟩
  · rw [hstop] at h
    cases h
  · rw [hnext] at h
    cases h
    exact ⟨uuid, hmem, rfl⟩

/-- A pass that sends an item and goes on has either skipped its target or added
a row for what was sent. -/
theorem uploadTarget_next (h : uploadTarget C cfg rec t p = .next p') :
    (∃ reason, preUploadCheck rec cfg t.store = some reason ∧ p' = { p with
      events := p.events ++ [⟨.skipped reason t.store.name, rec.path⟩] }) ∨
    (preUploadCheck rec cfg t.store = none ∧ ∃ sent b,
      t.store.upload C rec (calcRemoteFileVersion p.db rec.path t.store.name) t.out
        (p.buckets t.store.name) = (sent, b) ∧ sent.cancelled = false ∧ sent.err = none ∧
      p'.buckets = Function.update p.buckets t.store.name b ∧ p'.events = p.events ∧
      AddsRow t rec.jobUuid false rec sent.remoteVersion p.db p'.db) := by
  unfold uploadTarget at h
  split at h
  · cases h
  · split at h
    · rename_i reason hskip
      cases h
      exact .inl ⟨reason, hskip, rfl⟩
    · rename_i hskip
      rcases hs : t.store.upload C rec (calcRemoteFileVersion p.db rec.path t.store.name) t.out
        (p.buckets t.store.name) with ⟨sent, b⟩
      simp only [hs] at h
      split at h
      · cases h
      · rename_i hcan
        split at h
        · cases h
        · rename_i herr
          obtain ⟨uuid, hmem, rfl⟩ := addRows_next h
          exact .inr ⟨hskip, sent, b, rfl, by simpa using hcan, herr, rfl, rfl, uuid, hmem, rfl⟩

theorem updateTarget_next (h : updateTarget rec t p = .next p') :
    ∃ remoteVersion, 1 < calcRemoteFileVersion p.db rec.path t.store.name ∧
      getRemoteVersionForVersion p.db rec.path t.store.name
        (calcRemoteFileVersion p.db rec.path t.store.name - 1) = some remoteVersion ∧
      p'.buckets = p.buckets ∧ p'.events = p.events ∧
      AddsRow t rec.jobUuid false rec remoteVersion p.db p'.db := by
  unfold updateTarget at h
  split at h
  · cases h
  · dsimp only at h
    split at h
    · cases h
    · rename_i hv
      split at h
      · cases h
      · split at h
        · cases h
        · rename_i remoteVersion hget
          obtain ⟨uuid, hmem, rfl⟩ := addRows_next h
          exact ⟨remoteVersion, Nat.lt_of_not_le hv, hget, rfl, rfl, uuid, hmem, rfl⟩

theorem markTarget_next (h : markTarget C jobUuid rec t p = .next p') :
    ∃ sent b, t.store.markDeleted C rec (calcRemoteFileVersion p.db rec.path t.store.name)
        t.out.reply (p.buckets t.store.name) = (sent, b) ∧ sent.cancelled = false ∧
      sent.err = none ∧ p'.buckets = Function.update p.buckets t.store.name b ∧
      p'.events = p.events ∧ AddsRow t jobUuid true rec sent.remoteVersion p.db p'.db := by
  unfold markTarget at h
  split at h
  · cases h
  · rcases hs : t.store.markDeleted C rec (calcRemoteFileVersion p.db rec.path t.store.name)
      t.out.reply (p.buckets t.store.name) with ⟨sent, b⟩
    simp only [hs] at h
    split at h
    · cases h
    · rename_i herr
      split at h
      · cases h
      · rename_i hcan
        obtain ⟨uuid, hmem, rfl⟩ := addRows_next h
        exact ⟨sent, b, rfl, by simpa using hcan, herr, rfl, rfl, uuid, hmem, rfl⟩

/-- The part of the last two lemmas that speaks of the database. -/
theorem operateTarget_next {op : Operation} (h : operateTarget C cfg op rec t p = .next p') :
    (op.operationType = .upload ∧ ∃ reason, preUploadCheck rec cfg t.store = some reason ∧
      p'.db = p.db ∧ p'.events = p.events ++ [⟨.skipped reason t.store.name, rec.path⟩]) ∨
    (p'.events = p.events ∧
      ∃ remoteVersion, AddsRow t rec.jobUuid false rec remoteVersion p.db p'.db) := by
  unfold operateTarget at h
  split at h
  · rename_i hop
    rcases uploadTarget_next h with ⟨reason, hskip, rfl⟩ | ⟨-, sent, b, -, -, -, -, hev, hadd⟩
    · exact .inl ⟨hop, reason, hskip, rfl, rfl⟩
    · exact .inr ⟨hev, _, hadd⟩
  · obtain ⟨remoteVersion, -, -, -, hev, hadd⟩ := updateTarget_next h
    exact .inr ⟨hev, _, hadd⟩

end Passes

/-! ### What an operation does to the database -/

@[simp] theorem countResult_world (op : OperationType) (rec : Record) (r : Result) :
    (countResult op rec r).world = r.world := by
  unfold countResult
  split <;> rfl

@[simp] theorem countResult_cancelled (op : OperationType) (rec : Record) (r : Result) :
    (countResult op rec r).cancelled = r.cancelled := by
  unfold countResult
  split <;> rfl

@[simp] theorem countResult_err (op : OperationType) (rec : Record) (r : Result) :
    (countResult op rec r).err = r.err := by
  unfold countResult
  split <;> rfl

/-- A transaction that does not go through leaves the database as it was. -/
theorem finish_cases (C : Cloud) (rec : Record) (commitOk : Bool) (db : Db) (flow : Flow Pass Halt) :
    let r := finish C rec commitOk db flow
    (r.world.db = db ∧ (r.cancelled = true ∨ r.err ≠ none)) ∨
    ∃ p, flow = .next p ∧ r = ⟨false, none, ⟨p.db, p.buckets⟩, p.events⟩ := by
  cases flow with
  | stop halt p =>
      cases halt with
      | cancelled => exact .inl ⟨rfl, .inl rfl⟩
      | error e => exact .inl ⟨rfl, .inr (by simp [finish])⟩
  | next p =>
      cases commitOk with
      | true => exact .inr ⟨p, rfl, rfl⟩
      | false => exact .inl ⟨rfl, .inr (by simp [finish])⟩

theorem uploadAndUpdateDB_cases (C : Cloud) (cfg : ConfigBackup) (op : Operation)
    (stmts : Statements) (targets : List Target) (rec : Record) (w : World) :
    let r := uploadAndUpdateDB C cfg op stmts targets rec w
    (r.world.db = w.db ∧ (r.cancelled = true ∨ r.err ≠ none)) ∨
    ∃ db p, filesEntry op stmts.filesOk rec w.db = some db ∧
      forEach (operateTarget C cfg op rec) targets ⟨db, w.buckets, [], []⟩ = .next p ∧
      r = ⟨false, none, ⟨p.db, p.buckets⟩,
        p.events ++ updateCounters op.operationType rec.props.type rec.path false⟩ := by
  unfold uploadAndUpdateDB
  split
  · exact .inl ⟨by simp, .inr (by simp)⟩
  · split
    · exact .inl ⟨by simp, .inr (by simp)⟩
    · rename_i db hfiles
      rcases finish_cases C rec stmts.commitOk w.db (forEach (operateTarget C cfg op rec) targets
        ⟨db, w.buckets, [], []⟩) with ⟨hdb, hfail⟩ | ⟨p, hloop, hr⟩
      · exact .inl ⟨by simpa using hdb, by simpa using hfail⟩
      · refine .inr ⟨db, p, hfiles, hloop, ?_⟩
        rw [hr]
        simp [countResult]

/-- The same for `markDeleted`. An item that still exists changes nothing either. -/
theorem markDeleted_cases (C : Cloud) (pathMatch : Str → Str → Option Bool) (cfg : ConfigBackup)
    (lstat : Lstat) (stmts : Statements) (targets : List Target) (jobUuid : Str) (rec : Record)
    (w : World) :
    let r := markDeleted C pathMatch cfg lstat stmts targets jobUuid rec w
    r.world.db = w.db ∨
    ∃ p, forEach (markTarget C jobUuid rec) targets
        ⟨filesDelete w.db rec.path, w.buckets, [], []⟩ = .next p ∧
      r = ⟨false, none, ⟨p.db, p.buckets⟩, p.events⟩ := by
  have hput : (putMarkers C stmts targets jobUuid rec w).world.db = w.db ∨
      ∃ p, forEach (markTarget C jobUuid rec) targets
          ⟨filesDelete w.db rec.path, w.buckets, [], []⟩ = .next p ∧
        putMarkers C stmts targets jobUuid rec w = ⟨false, none, ⟨p.db, p.buckets⟩, p.events⟩ := by
    unfold putMarkers
    split
    · exact .inl rfl
    · split
      · exact .inl rfl
      · exact (finish_cases C rec stmts.commitOk w.db _).imp_left And.left
  unfold markDeleted
  split
  · split
    · exact .inl rfl
    · exact .inl rfl
    · exact hput
  · exact hput

/-- The item of a record is gone, or no longer wanted. -/
def gone (pathMatch : Str → Str → Option Bool) (cfg : ConfigBackup) (lstat : Lstat) (rec : Record) :
    Bool :=
  isPathExcluded pathMatch cfg.exclusions rec.path || !isPathIncluded cfg.paths rec.path ||
    decide (stillExists rec.props.type lstat = .ok false)

section

variable {C : Cloud} {pathMatch : Str → Str → Option Bool} {cfg : ConfigBackup} {lstat : Lstat}
  {stmts : Statements} {targets : List Target} {jobUuid : Str} {rec : Record} {w : World}

theorem markDeleted_of_gone (h : gone pathMatch cfg lstat rec = true) :
    markDeleted C pathMatch cfg lstat stmts targets jobUuid rec w =
      putMarkers C stmts targets jobUuid rec w := by
  unfold markDeleted
  split
  · rename_i hwanted
    obtain ⟨hexcluded, hincluded⟩ : isPathExcluded pathMatch cfg.exclusions rec.path = false ∧
        isPathIncluded cfg.paths rec.path = true := by simpa using hwanted
    have hstill : stillExists rec.props.type lstat = .ok false := by
      simpa [gone, hexcluded, hincluded] using h
    rw [hstill]
  · rfl

theorem markDeleted_of_not_gone (h : gone pathMatch cfg lstat rec = false) :
    ∃ err, markDeleted C pathMatch cfg lstat stmts targets jobUuid rec w = ⟨false, err, w, []⟩ := by
  simp only [gone, Bool.or_eq_false_iff, Bool.not_eq_false', decide_eq_false_iff_not] at h
  simp only [markDeleted, h.1.1, h.1.2, Bool.not_false, Bool.true_and, if_true]
  cases hstill : stillExists rec.props.type lstat with
  | error e => exact ⟨some e, rfl⟩
  | ok there =>
      cases there with
      | true => exact ⟨none, rfl⟩
      | false => exact absurd hstill h.2

end

/-! ### What `Do` decides -/

section

variable {cfg : ConfigBackup} {jobUuid : Str} {it : Item}

/-- The record was made from the item, with the zero time if its ctime could not
be read. -/
def Prepared (cfg : ConfigBackup) (jobUuid : Str) (it : Item) (rec : Record) : Prop :=
  ∃ checksum, prepareFileRecord it.path it.disk cfg (it.disk.getCtime.getD zeroTime) checksum
    jobUuid = some rec

theorem newRecordWith_operate {checksum : Str} {op : Operation} {rec : Record}
    (h : newRecordWith cfg jobUuid it checksum = .operate op rec) :
    op = .new ∧ Prepared cfg jobUuid it rec := by
  unfold newRecordWith at h
  split at h
  · cases h
  · rename_i rec' hrec
    split at h
    · cases h
    · cases h
      exact ⟨rfl, checksum, hrec⟩

theorem newRecord_operate {op : Operation} {rec : Record}
    (h : newRecord cfg jobUuid it = .operate op rec) :
    op = .new ∧ Prepared cfg jobUuid it rec := by
  unfold newRecord at h
  split at h
  · split at h
    · exact newRecordWith_operate h
    · exact newRecordWith_operate h
    · cases h
  · exact newRecordWith_operate h

theorem existingRecord_operate {db : Props} {op : Operation} {rec : Record}
    (h : existingRecord cfg jobUuid it db = .operate op rec) :
    Prepared cfg jobUuid it rec ∧
      (op = .contentUpdate ∨ op = .metadataUpdate ∧
        (needsUpload it.disk db cfg.checksum cfg.encrypt).contentChanged = false) := by
  unfold existingRecord at h
  dsimp only at h
  split at h
  · cases h
  · rename_i rec' hrec
    split at h
    · split at h
      · cases h
      · cases h
        exact ⟨⟨_, hrec⟩, .inl rfl⟩
    · rename_i hcontent
      split at h
      · split at h
        · cases h
        · cases h
          exact ⟨⟨_, hrec⟩, .inr ⟨rfl, by simpa using hcontent⟩⟩
      · cases h

theorem decideItem_prepared {db : Db} {op : Operation} {rec : Record}
    (h : decideItem cfg jobUuid it db = .operate op rec) : Prepared cfg jobUuid it rec := by
  unfold decideItem at h
  split at h
  · cases h
  · exact (newRecord_operate h).2
  · exact (existingRecord_operate h).1

theorem decideItem_operate {db : Db} {op : Operation} {rec : Record}
    (h : decideItem cfg jobUuid it db = .operate op rec) :
    Describes it.path it.disk cfg jobUuid rec := by
  obtain ⟨checksum, hrec⟩ := decideItem_prepared h
  exact describes_of_prepareFileRecord hrec

end

/-! ### Runs -/

inductive Action
  | walk (cfg : ConfigBackup) (jobUuid : Str) (it : Item)
  | mark (cfg : ConfigBackup) (jobUuid : Str) (e : Entry)

namespace Action

def targets : Action → List Target
  | .walk _ _ it => it.targets
  | .mark _ _ e => e.targets

def jobUuid : Action → Str
  | .walk _ jobUuid _ => jobUuid
  | .mark _ jobUuid _ => jobUuid

def run (C : Cloud) (pathMatch : Str → Str → Option Bool) : Action → World → Result
  | .walk cfg jobUuid it, w => walkItem C cfg jobUuid it w
  | .mark cfg jobUuid e, w => markEntry C pathMatch cfg jobUuid e w

def apply (C : Cloud) (pathMatch : Str → Str → Option Bool) (a : Action) (w : World) : World :=
  (a.run C pathMatch w).world

/-- The step works on the targets with these names. -/
def Over (names : List Str) (a : Action) : Prop := a.targets.map (·.store.name) = names

end Action

def encryptedUpload : Action :=
  .walk encryptingConfig "first".toList
    (smoothItem "/file" (smallFile 1 1) [encryptingTarget "first"])

theorem markItemAsFailed_cases (ok : Bool) (row : FailedFile) (db : Db) :
    ∃ rows, markItemAsFailed ok row db = { db with failedFiles := rows } := by
  unfold markItemAsFailed failedFilesInsert
  split
  · exact ⟨db.failedFiles, rfl⟩
  · split
    · exact ⟨db.failedFiles, rfl⟩
    · exact ⟨_, rfl⟩

/-- What `walk` does with an item. It is cancelled, or noted as failed, and the
database stays as it was otherwise; or it is up to date; or it is backed up. -/
theorem walkItem_cases (C : Cloud) (cfg : ConfigBackup) (jobUuid : Str) (it : Item) (w : World) :
    let r := walkItem C cfg jobUuid it w
    (r.cancelled = true ∧ r.world.db = w.db) ∨
    (r.cancelled = false ∧ r.err ≠ none ∧ r.world.db =
      markItemAsFailed it.failedFilesOk ⟨jobUuid, it.path, it.disk.fileType⟩ w.db) ∨
    (∃ rec, decideItem cfg jobUuid it w.db = .upToDate rec ∧
      r = ⟨false, none, { w with db := it.targets.foldl (collectTarget jobUuid it.path) w.db },
        updateCounters .upToDate rec.props.type it.path false⟩) ∨
    ∃ op rec db p, decideItem cfg jobUuid it w.db = .operate op rec ∧
      filesEntry op it.stmts.filesOk rec w.db = some db ∧
      forEach (operateTarget C cfg op rec) it.targets ⟨db, w.buckets, [], []⟩ = .next p ∧
      r = ⟨false, none, ⟨p.db, p.buckets⟩,
        p.events ++ updateCounters op.operationType rec.props.type rec.path false⟩ := by
  -- an error of `Do` leaves the database alone, so only the note of it remains
  have hfail : ∀ r : Result, r.world.db = w.db → r.cancelled = true ∨ r.err ≠ none →
      let r' := if r.cancelled ∨ r.err = none then r else { r with world := { r.world with
        db := markItemAsFailed it.failedFilesOk ⟨jobUuid, it.path, it.disk.fileType⟩ r.world.db } }
      (r'.cancelled = true ∧ r'.world.db = w.db) ∨ (r'.cancelled = false ∧ r'.err ≠ none ∧
        r'.world.db =
          markItemAsFailed it.failedFilesOk ⟨jobUuid, it.path, it.disk.fileType⟩ w.db) := by
    intro r hdb hr
    cases hcan : r.cancelled with
    | true => exact .inl (by simp [hcan, hdb])
    | false =>
        have herr : r.err ≠ none := by simpa [hcan] using hr
        exact .inr (by simp [herr, hdb])
  unfold walkItem doItem
  split
  · exact .inl (by simp)
  · split
    · rename_i e events _
      exact (hfail ⟨false, some e, w, events⟩ rfl (.inr (by simp))).imp_right .inl
    · rename_i op rec hdecide
      rcases uploadAndUpdateDB_cases C cfg op it.stmts it.targets rec w with
        ⟨hdb, hr⟩ | ⟨db, p, hfiles, hloop, hr⟩
      · exact (hfail _ hdb hr).imp_right .inl
      · refine .inr (.inr (.inr ⟨op, rec, db, p, hdecide, hfiles, hloop, ?_⟩))
        rw [hr]
        simp
    · rename_i rec hdecide
      exact .inr (.inr (.inl ⟨rec, hdecide, by simp⟩))

/-- What `FindAndMarkDeleted` does with a path, as far as the database goes. -/
theorem markEntry_cases (C : Cloud) (pathMatch : Str → Str → Option Bool) (cfg : ConfigBackup)
    (jobUuid : Str) (e : Entry) (w : World) :
    let r := markEntry C pathMatch cfg jobUuid e w
    r.world.db = w.db ∨
    ∃ rec p, getBackedupObjectPropertiesFromDb e.queryOk w.db e.path = .ok (some rec) ∧
      forEach (markTarget C jobUuid rec) e.targets
        ⟨filesDelete w.db rec.path, w.buckets, [], []⟩ = .next p ∧
      r.world = ⟨p.db, p.buckets⟩ ∧ r.cancelled = false ∧ r.err = none ∧
      r.events = p.events ++ updateCounters .markDeleted rec.props.type rec.path false := by
  unfold markEntry
  split
  · exact .inl rfl
  · exact .inl rfl
  · rename_i rec hrec
    have hworld : ∀ r : Result, (if r.cancelled ∨ r.err = some .nilDereference then r else
        { r with events := r.events ++
          updateCounters .markDeleted rec.props.type rec.path r.err.isSome }).world = r.world := by
      intro r
      split <;> rfl
    rcases markDeleted_cases C pathMatch cfg e.lstat e.stmts e.targets jobUuid rec w with
      hdb | ⟨p, hloop, hr⟩
    · exact .inl (by rw [hworld, hdb])
    · exact .inr ⟨rec, p, hrec, hloop, by rw [hworld, hr], by simp [hr], by simp [hr], by simp [hr]⟩

end CloudBackup.Backup
