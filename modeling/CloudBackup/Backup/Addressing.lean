import CloudBackup.Backup.TablesInStep
import CloudBackup.ObjectStore.Lookup
import Mathlib.Data.List.Nodup

/-!
The rows of one path and one target, and the objects they stand for. Every row
of a file should lead `Get` to the content that was sent last at its version or
before.

A row of a metadata update is new, but its object is the one of the row before.
S3 and GCP find it by the remote version, which the row takes over; Azure and the
test store look for an object of the new version, and there is none. And what is
taken over is only right if the row before stands for a file with the same
encryption. `rows_addressContent` says that these are the only obstacles.
-/

namespace CloudBackup.Backup

open Cbcrypto Database ObjectStore Iteration

/-- An operation on one item with a single target. -/
inductive ItemOp
  | operate (cfg : ConfigBackup) (op : Operation) (stmts : Statements) (t : Target) (rec : Record)
  | markDeleted (cfg : ConfigBackup) (lstat : Lstat) (stmts : Statements) (t : Target)
      (jobUuid : Str) (rec : Record)

/-- The world, and the contents of the files that were sent for good, with their
versions. -/
structure History where
  world : World
  sent : List (ℕ × Bytes)

def History.empty : History := ⟨World.empty, []⟩

def lastSent (sent : List (ℕ × Bytes)) (version : ℕ) : Option Bytes :=
  ((sent.filter (·.1 ≤ version)).getLast?).map Prod.snd

namespace ItemOp

def target : ItemOp → Target
  | .operate _ _ _ t _ => t
  | .markDeleted _ _ _ t _ _ => t

def record : ItemOp → Record
  | .operate _ _ _ _ rec => rec
  | .markDeleted _ _ _ _ _ rec => rec

def step (C : Cloud) (pathMatch : Str → Str → Option Bool) : ItemOp → History → History
  | .operate cfg op stmts t rec, h =>
      let r := uploadAndUpdateDB C cfg op stmts [t] rec h.world
      ⟨r.world,
        if op.operationType = .upload ∧ rec.props.type = .file ∧
            preUploadCheck rec cfg t.store = none ∧ r.cancelled = false ∧ r.err = none then
          h.sent ++ [(calcRemoteFileVersion h.world.db rec.path t.store.name, t.out.content.1)]
        else h.sent⟩
  | .markDeleted cfg lstat stmts t jobUuid rec, h =>
      ⟨(Backup.markDeleted C pathMatch cfg lstat stmts [t] jobUuid rec h.world).world, h.sent⟩

/-- The operation is about the path and the target of the run, and the target
encrypts with the key of the run if it encrypts at all. A record is marked as
encrypted if its target encrypts. -/
structure At (st : Store) (path : Str) (o : ItemOp) : Prop where
  path_eq : o.record.path = path
  store_eq : o.target.store = { st with enc := o.target.store.enc }
  keys : o.target.store.enc.enabled = true → o.target.store.enc.kek = st.enc.kek ∧
    o.target.store.enc.keystoreUUID = st.enc.keystoreUUID ∧ st.enc.kek.length = kekSize
  encrypted : ∀ cfg op stmts t rec, o = .operate cfg op stmts t rec →
    rec.props.encrypted = t.store.enc.enabled ∧ rec.skipEncryption = false

/-- A metadata update of a file finds the row of a file before it, with the same
encryption, at a store that goes by the remote version. -/
def followsFile (st : Store) (path : Str) (o : ItemOp) (h : History) : Prop :=
  ∀ cfg stmts t rec, o = .operate cfg .metadataUpdate stmts t rec → rec.props.type = .file →
    ∀ r, newest h.world.db path st.name = some r →
      (st.kind = .awsS3 ∨ st.kind = .gcpStorage) ∧ r.props.type = .file ∧
        r.deleteMarker = false ∧ r.props.encrypted = rec.props.encrypted

end ItemOp

def restoreRecord (r : RemoteFile) : Record :=
  ⟨r.localPath, { r.props with mtime := zeroTime, ctime := zeroTime }, [], false⟩

/-- Every row of a file leads to the content that was sent last. -/
def RowsAddressContent (C : Cloud) (st : Store) (h : History) : Prop :=
  ∀ r ∈ h.world.db.remoteFiles, r.props.type = .file → r.deleteMarker = false →
    ∃ content, lastSent h.sent r.version = some content ∧
      st.get C (restoreRecord r) r.version r.remoteVersion (h.world.buckets st.name) =
        .ok (some content)

/-! ### What an operation leaves of the bucket -/

def Retains (C : Cloud) (st : Store) (path : Str) (k v : ℕ) (b b' : Bucket) : Prop :=
  k ≤ b'.next ∧ ∀ u rv, st.Old C k v u rv → st.find C path u rv b' = st.find C path u rv b

theorem Retains.refl (C : Cloud) (st : Store) (path : Str) {k v : ℕ} {b : Bucket} (hk : k ≤ b.next) :
    Retains C st path k v b b :=
  ⟨hk, fun _ _ _ => rfl⟩

theorem Retains.trans {C : Cloud} {st : Store} {path : Str} {k v : ℕ} {b b' b'' : Bucket}
    (h : Retains C st path k v b b') (h' : Retains C st path k v b' b'') :
    Retains C st path k v b b'' :=
  ⟨h'.1, fun u rv hold => (h'.2 u rv hold).trans (h.2 u rv hold)⟩

theorem Retains.withEnc {C : Cloud} {st : Store} {e : EncryptionState} {path : Str} {k v : ℕ}
    {b b' : Bucket} (h : Retains C { st with enc := e } path k v b b') : Retains C st path k v b b' :=
  ⟨h.1, fun u rv hold => h.2 u rv hold⟩

/-- What a pass leaves in its state: the bucket retains, and what is processed
can be taken back without harm. -/
structure Harmless (C : Cloud) (st : Store) (rec : Record) (k v : ℕ) (b : Bucket) (p : Pass) :
    Prop where
  retains : Retains C st rec.path k v b (p.buckets st.name)
  undo : ∀ e ∈ p.processed, e.store.name = st.name ∧ ∀ b' : Bucket, k ≤ b'.next →
    Retains C st rec.path k v b' (e.store.delete C rec e.version e.remoteVersion e.undo b')

section

variable {C : Cloud} {rec : Record} {k v : ℕ} {b : Bucket} {p : Pass}

theorem Harmless.cleanUp {st : Store} (h : Harmless C st rec k v b p) :
    Retains C st rec.path k v b (Backup.cleanUp C rec p st.name) := by
  obtain ⟨hret, hundo⟩ := h
  unfold Backup.cleanUp
  generalize p.buckets = buckets at hret
  generalize p.processed = processed at hundo
  induction processed generalizing buckets with
  | nil => exact hret
  | cons e processed ih =>
      obtain ⟨hname, hdel⟩ := hundo e (by simp)
      refine ih _ ?_ fun e' he' => hundo e' (List.mem_cons_of_mem e he')
      change Retains C st rec.path k v b (Function.update buckets e.store.name
        (e.store.delete C rec e.version e.remoteVersion e.undo (buckets e.store.name)) st.name)
      rw [hname, Function.update_self]
      exact hret.trans (hdel _ hret.1)

theorem retains_delete {st : Store} {rv : Str} (hlater : rec.props.type = .file → st.Later C k rv)
    (hk : k ≤ b.next) (undo : Reply) :
    Retains C st rec.path k v b (st.delete C rec v rv undo b) := by
  by_cases htype : rec.props.type = .file
  · exact ⟨by rw [Store.next_delete]; exact hk,
      fun u rv' hold => Store.find_delete_of_old hold (hlater htype) undo⟩
  · rw [show st.delete C rec v rv undo b = b by simp [Store.delete, htype]]
    exact .refl C st rec.path hk

variable {cfg : ConfigBackup} {t : Target}

/-- A request that retains older objects, before its rows are added. -/
theorem harmless_setBucket (hp : p.processed = [])
    (hb : Retains C t.store rec.path k v (p.buckets t.store.name) b) :
    Harmless C t.store rec k v (p.buckets t.store.name) (p.setBucket t.store.name b) := by
  refine ⟨?_, by simp [Pass.setBucket, hp]⟩
  rw [show (p.setBucket t.store.name b).buckets t.store.name = b by simp [Pass.setBucket]]
  exact hb

theorem harmless_addRows {rv : Str} {jobUuid : Str} {deleteMarker : Bool} (hp : p.processed = [])
    (hb : Retains C t.store rec.path k v (p.buckets t.store.name) b)
    (hlater : rec.props.type = .file → t.store.Later C k rv) :
    Harmless C t.store rec k v (p.buckets t.store.name)
      (addRows t jobUuid deleteMarker rec v rv
        ((p.setBucket t.store.name b).addProcessed t v rv)).state := by
  obtain ⟨db, hdb⟩ := addRows_state t jobUuid deleteMarker rec v rv
    ((p.setBucket t.store.name b).addProcessed t v rv)
  rw [hdb]
  refine ⟨(harmless_setBucket hp hb).retains, ?_⟩
  intro e he
  obtain rfl : e = ⟨t.store, v, rv, t.undo⟩ := by
    simpa [Pass.addProcessed, Pass.setBucket, hp] using he
  exact ⟨rfl, fun b' hk' => retains_delete hlater hk' t.undo⟩

theorem uploadTarget_harmless (hp : p.processed = []) (hk : k ≤ (p.buckets t.store.name).next) :
    Harmless C t.store rec k (calcRemoteFileVersion p.db rec.path t.store.name)
      (p.buckets t.store.name) (uploadTarget C cfg rec t p).state := by
  have hself : Harmless C t.store rec k (calcRemoteFileVersion p.db rec.path t.store.name)
      (p.buckets t.store.name) p := ⟨.refl C t.store rec.path hk, by simp [hp]⟩
  unfold uploadTarget
  split
  · exact hself
  · split
    · exact ⟨hself.retains, hself.undo⟩
    · rcases hs : t.store.upload C rec (calcRemoteFileVersion p.db rec.path t.store.name) t.out
        (p.buckets t.store.name) with ⟨sent, b⟩
      have hret : Retains C t.store rec.path k (calcRemoteFileVersion p.db rec.path t.store.name)
          (p.buckets t.store.name) b := by
        rw [show b = (t.store.upload C rec (calcRemoteFileVersion p.db rec.path t.store.name) t.out
          (p.buckets t.store.name)).2 by rw [hs]]
        exact ⟨hk.trans (Store.next_upload_le t.out),
          fun u rv hold => Store.find_upload_of_old hold hk t.out⟩
      simp only [hs]
      split
      · exact harmless_setBucket hp hret
      · rename_i hcan
        split
        · exact harmless_setBucket hp hret
        · rename_i herr
          exact harmless_addRows hp hret fun htype =>
            Store.later_upload htype hk hs (by simpa using hcan) herr

theorem updateTarget_harmless (hp : p.processed = []) (hk : k ≤ (p.buckets t.store.name).next) :
    Harmless C t.store rec k v (p.buckets t.store.name) (updateTarget rec t p).state := by
  have hself : ∀ db, Harmless C t.store rec k v (p.buckets t.store.name) { p with db := db } :=
    fun db => ⟨.refl C t.store rec.path hk, by simp [hp]⟩
  unfold updateTarget
  split
  · exact hself p.db
  · dsimp only
    split
    · exact hself p.db
    · split
      · exact hself p.db
      · split
        · exact hself p.db
        · rename_i rv _
          obtain ⟨db, hdb⟩ := addRows_state t rec.jobUuid false rec
            (calcRemoteFileVersion p.db rec.path t.store.name) rv p
          rw [hdb]
          exact hself db

theorem operateTarget_harmless {op : Operation} (hp : p.processed = [])
    (hk : k ≤ (p.buckets t.store.name).next) :
    Harmless C t.store rec k (calcRemoteFileVersion p.db rec.path t.store.name)
      (p.buckets t.store.name) (operateTarget C cfg op rec t p).state := by
  unfold operateTarget
  split
  · exact uploadTarget_harmless hp hk
  · exact updateTarget_harmless hp hk

theorem markTarget_harmless {jobUuid : Str} (hp : p.processed = [])
    (hk : k ≤ (p.buckets t.store.name).next) :
    Harmless C t.store rec k (calcRemoteFileVersion p.db rec.path t.store.name)
      (p.buckets t.store.name) (markTarget C jobUuid rec t p).state := by
  unfold markTarget
  split
  · exact ⟨.refl C t.store rec.path hk, by simp [hp]⟩
  · rcases hs : t.store.markDeleted C rec (calcRemoteFileVersion p.db rec.path t.store.name)
      t.out.reply (p.buckets t.store.name) with ⟨sent, b⟩
    have hret : Retains C t.store rec.path k (calcRemoteFileVersion p.db rec.path t.store.name)
        (p.buckets t.store.name) b := by
      rw [show b = (t.store.markDeleted C rec (calcRemoteFileVersion p.db rec.path t.store.name)
        t.out.reply (p.buckets t.store.name)).2 by rw [hs]]
      exact ⟨hk.trans (Store.next_markDeleted_le t.out.reply),
        fun u rv hold => Store.find_markDeleted_of_old hold hk t.out.reply⟩
    simp only [hs]
    split
    · exact harmless_setBucket hp hret
    · rename_i herr
      split
      · exact harmless_setBucket hp hret
      · exact harmless_addRows hp hret fun htype => Store.later_markDeleted htype hk hs herr

theorem finish_retains {st : Store} {commitOk : Bool} {db : Db} {flow : Flow Pass Halt}
    (h : Harmless C st rec k v b flow.state) :
    Retains C st rec.path k v b ((finish C rec commitOk db flow).world.buckets st.name) := by
  cases flow with
  | stop halt q => cases halt <;> exact h.cleanUp
  | next q => cases commitOk <;> exact h.retains

theorem calcRemoteFileVersion_congr {db db' : Db} (h : db'.remoteFiles = db.remoteFiles)
    (path target : Str) :
    calcRemoteFileVersion db' path target = calcRemoteFileVersion db path target := by
  rw [calcRemoteFileVersion, calcRemoteFileVersion, newest_congr h]

theorem uploadAndUpdateDB_retains (C : Cloud) (cfg : ConfigBackup) (op : Operation)
    (stmts : Statements) (t : Target) (rec : Record) (w : World) :
    Retains C t.store rec.path (w.buckets t.store.name).next
      (calcRemoteFileVersion w.db rec.path t.store.name) (w.buckets t.store.name)
      ((uploadAndUpdateDB C cfg op stmts [t] rec w).world.buckets t.store.name) := by
  unfold uploadAndUpdateDB
  rw [countResult_world]
  split
  · exact .refl C t.store rec.path le_rfl
  · split
    · exact .refl C t.store rec.path le_rfl
    · rename_i db hfiles
      rw [← calcRemoteFileVersion_congr (filesEntry_files hfiles).2.1]
      refine finish_retains ?_
      rw [forEach_singleton]
      exact operateTarget_harmless (p := ⟨db, w.buckets, [], []⟩) rfl le_rfl

theorem markDeleted_retains (C : Cloud) (pathMatch : Str → Str → Option Bool) (cfg : ConfigBackup)
    (lstat : Lstat) (stmts : Statements) (t : Target) (jobUuid : Str) (rec : Record) (w : World) :
    Retains C t.store rec.path (w.buckets t.store.name).next
      (calcRemoteFileVersion w.db rec.path t.store.name) (w.buckets t.store.name)
      ((markDeleted C pathMatch cfg lstat stmts [t] jobUuid rec w).world.buckets t.store.name) := by
  have hput : Retains C t.store rec.path (w.buckets t.store.name).next
      (calcRemoteFileVersion w.db rec.path t.store.name) (w.buckets t.store.name)
      ((putMarkers C stmts [t] jobUuid rec w).world.buckets t.store.name) := by
    unfold putMarkers
    split
    · exact .refl C t.store rec.path le_rfl
    · split
      · exact .refl C t.store rec.path le_rfl
      · rw [← calcRemoteFileVersion_congr (filesDelete_remoteFiles w.db rec.path)]
        refine finish_retains ?_
        rw [forEach_singleton]
        exact markTarget_harmless (p := ⟨filesDelete w.db rec.path, w.buckets, [], []⟩) rfl le_rfl
  unfold markDeleted
  split
  · split
    · exact .refl C t.store rec.path le_rfl
    · exact .refl C t.store rec.path le_rfl
    · exact hput
  · exact hput

end

/-! ### The rows of a run -/

theorem calcRemoteFileVersion_addedRows (db : Db) (row : RemoteFile)
    (h : row.version = calcRemoteFileVersion db row.localPath row.target) :
    calcRemoteFileVersion (addedRows db row) row.localPath row.target = row.version + 1 := by
  have hnew : newest (addedRows db row) row.localPath row.target = some row := newest_append_self h
  rw [calcRemoteFileVersion, hnew]

structure Addressed (C : Cloud) (st : Store) (path : Str) (h : History) : Prop where
  mine : ∀ r ∈ h.world.db.remoteFiles, r.localPath = path ∧ r.target = st.name
  sorted : h.world.db.remoteFiles.Pairwise (·.version < ·.version)
  sent_lt : ∀ e ∈ h.sent, e.1 < calcRemoteFileVersion h.world.db path st.name
  found : ∀ r ∈ h.world.db.remoteFiles, r.props.type = .file → r.deleteMarker = false →
    st.Old C (h.world.buckets st.name).next (calcRemoteFileVersion h.world.db path st.name)
      r.version r.remoteVersion ∧
    ∃ content body, lastSent h.sent r.version = some content ∧
      st.find C path r.version r.remoteVersion (h.world.buckets st.name) = .ok body ∧
      decode C.aead.toAead st.enc r.props.encrypted body = .ok content

section

variable {C : Cloud} {st : Store} {path : Str} {h : History}

theorem Addressed.version_lt (ha : Addressed C st path h) {r : RemoteFile}
    (hr : r ∈ h.world.db.remoteFiles) :
    r.version < calcRemoteFileVersion h.world.db path st.name :=
  version_lt_calc (List.mem_filter.mpr ⟨hr, by simpa using ha.mine r hr⟩)

theorem Addressed.rowsAddressContent (ha : Addressed C st path h) : RowsAddressContent C st h := by
  intro r hr htype hdm
  obtain ⟨-, content, body, hlast, hfind, hdecode⟩ := ha.found r hr htype hdm
  refine ⟨content, hlast, ?_⟩
  rw [← (ha.mine r hr).1] at hfind
  simp [Store.get, restoreRecord, htype, hfind, hdecode, Except.map]

theorem Addressed.of_db_eq (ha : Addressed C st path h) {w : World}
    (hdb : w.db.remoteFiles = h.world.db.remoteFiles)
    (hret : Retains C st path (h.world.buckets st.name).next
      (calcRemoteFileVersion h.world.db path st.name) (h.world.buckets st.name)
      (w.buckets st.name)) : Addressed C st path ⟨w, h.sent⟩ := by
  have hcalc := calcRemoteFileVersion_congr hdb path st.name
  refine ⟨?_, ?_, ?_, ?_⟩
  · intro r hr
    rw [hdb] at hr
    exact ha.mine r hr
  · rw [hdb]
    exact ha.sorted
  · intro e he
    rw [hcalc]
    exact ha.sent_lt e he
  · intro r hr htype hdm
    rw [hdb] at hr
    obtain ⟨hold, content, body, hlast, hfind, hdecode⟩ := ha.found r hr htype hdm
    rw [hcalc]
    exact ⟨hold.mono hret.1 le_rfl, content, body, hlast, (hret.2 _ _ hold).trans hfind, hdecode⟩

theorem lastSent_append_of_lt {sent : List (ℕ × Bytes)} {e : ℕ × Bytes} {version : ℕ}
    (hlt : version < e.1) : lastSent (sent ++ [e]) version = lastSent sent version := by
  simp [lastSent, List.filter_append, Nat.not_le_of_lt hlt]

theorem lastSent_append_self (sent : List (ℕ × Bytes)) (version : ℕ) (content : Bytes) :
    lastSent (sent ++ [(version, content)]) version = some content := by
  simp [lastSent, List.filter_append]

theorem lastSent_of_lt {sent : List (ℕ × Bytes)} {v u : ℕ} (hsent : ∀ e ∈ sent, e.1 < v)
    (hv : v ≤ u + 1) : lastSent sent u = (sent.getLast?).map Prod.snd := by
  rw [lastSent, List.filter_eq_self.mpr]
  intro e he
  have := hsent e he
  simp only [decide_eq_true_eq]
  omega

theorem Addressed.addsRow (ha : Addressed C st path h) {w : World} {row : RemoteFile}
    {sent : List (ℕ × Bytes)} (hpath : row.localPath = path) (htarget : row.target = st.name)
    (hversion : row.version = calcRemoteFileVersion h.world.db path st.name)
    (hdb : w.db.remoteFiles = h.world.db.remoteFiles ++ [row])
    (hret : Retains C st path (h.world.buckets st.name).next
      (calcRemoteFileVersion h.world.db path st.name) (h.world.buckets st.name)
      (w.buckets st.name))
    (hsent : sent = h.sent ∨ ∃ content, sent = h.sent ++ [(row.version, content)])
    (hrow : row.props.type = .file → row.deleteMarker = false →
      st.Old C (w.buckets st.name).next (row.version + 1) row.version row.remoteVersion ∧
      ∃ content body, lastSent sent row.version = some content ∧
        st.find C path row.version row.remoteVersion (w.buckets st.name) = .ok body ∧
        decode C.aead.toAead st.enc row.props.encrypted body = .ok content) :
    Addressed C st path ⟨w, sent⟩ := by
  have hcalc : calcRemoteFileVersion w.db path st.name = row.version + 1 := by
    have hself := calcRemoteFileVersion_addedRows h.world.db row (by rw [hpath, htarget, hversion])
    rw [hpath, htarget] at hself
    rw [← hself]
    exact calcRemoteFileVersion_congr hdb path st.name
  have hlt : ∀ r ∈ h.world.db.remoteFiles, r.version < row.version := by
    intro r hr
    rw [hversion]
    exact ha.version_lt hr
  refine ⟨?_, ?_, ?_, ?_⟩
  · intro r hr
    rw [hdb] at hr
    rcases List.mem_append.mp hr with hr | hr
    · exact ha.mine r hr
    · obtain rfl := List.mem_singleton.mp hr
      exact ⟨hpath, htarget⟩
  · -- the new version is above all of the others
    rw [hdb, List.pairwise_append]
    refine ⟨ha.sorted, List.pairwise_singleton _ _, ?_⟩
    intro r hr r' hr'
    obtain rfl := List.mem_singleton.mp hr'
    exact hlt r hr
  · intro e he
    rw [hcalc, hversion]
    rcases hsent with rfl | ⟨content, rfl⟩
    · exact (ha.sent_lt e he).trans (Nat.lt_succ_self _)
    · rcases List.mem_append.mp he with he | he
      · exact (ha.sent_lt e he).trans (Nat.lt_succ_self _)
      · obtain rfl := List.mem_singleton.mp he
        rw [hversion]
        exact Nat.lt_succ_self _
  · intro r hr htype hdm
    rw [hcalc]
    rw [hdb] at hr
    rcases List.mem_append.mp hr with hr | hr
    · -- an older row still leads to its object, and no later content has its version
      obtain ⟨hold, content, body, hlast, hfind, hdecode⟩ := ha.found r hr htype hdm
      refine ⟨hold.mono hret.1 (by omega), content, body, ?_, (hret.2 _ _ hold).trans hfind, hdecode⟩
      rcases hsent with rfl | ⟨content', rfl⟩
      · exact hlast
      · rw [← hlast]
        exact lastSent_append_of_lt (hlt r hr)
    · obtain rfl := List.mem_singleton.mp hr
      exact hrow htype hdm

/-- The store of an operation differs from that of the run only in its encryption. -/
theorem ItemOp.At.name_eq {o : ItemOp} (hat : o.At st path) : o.target.store.name = st.name := by
  rw [hat.store_eq]

theorem ItemOp.At.retains {o : ItemOp} (hat : o.At st path) {k v : ℕ} {b b' : Bucket}
    (hret : Retains C o.target.store o.record.path k v b b') : Retains C st path k v b b' := by
  rw [hat.path_eq, hat.store_eq] at hret
  exact hret.withEnc

theorem upload_found {cfg : ConfigBackup} {op : Operation} {stmts : Statements} {t : Target}
    {rec : Record} (hat : (ItemOp.operate cfg op stmts t rec).At st path)
    (htype : rec.props.type = .file) {v : ℕ} {b b' : Bucket} {sent : Sent}
    (hup : t.store.upload C rec v t.out b = (sent, b')) (hcan : sent.cancelled = false)
    (herr : sent.err = none) :
    st.Old C b'.next (v + 1) v sent.remoteVersion ∧
      ∃ body, st.find C path v sent.remoteVersion b' = .ok body ∧
        decode C.aead.toAead st.enc rec.props.encrypted body = .ok t.out.content.1 := by
  have hfits : Fits 0 t.out.content.1 := by
    have := t.out.content.2
    simp only [Fits, chunkSize]
    omega
  obtain ⟨henc, hskip⟩ := hat.encrypted cfg op stmts t rec rfl
  rcases Store.upload_cases C t.store rec v t.out b with ⟨hne, -⟩ | ⟨-, body, hbody, -, hput⟩ |
    ⟨-, sent', b'', hfailed, hfail, -⟩
  · exact absurd htype hne
  · rw [hput] at hup
    cases hup
    obtain ⟨body', hwire, hdecode⟩ := decode_wireBody C.aead hat.keys hfits t.out.rand
    obtain rfl : body' = body := by
      rw [hskip] at hbody
      exact Except.ok.inj (hwire.symm.trans hbody)
    have hpath : rec.path = path := hat.path_eq
    have hstore : t.store = { st with enc := t.store.enc } := hat.store_eq
    rw [henc, ← hpath, hstore]
    exact ⟨Store.old_put_self body', body', Store.find_put_self body', hdecode⟩
  · rw [hfailed] at hup
    cases hup
    simp [hcan, herr] at hfail

theorem Addressed.previous (ha : Addressed C st path h) {rv : Str}
    (hv : 1 < calcRemoteFileVersion h.world.db path st.name)
    (hget : getRemoteVersionForVersion h.world.db path st.name
      (calcRemoteFileVersion h.world.db path st.name - 1) = some rv) :
    ∃ r ∈ h.world.db.remoteFiles, newest h.world.db path st.name = some r ∧ r.remoteVersion = rv ∧
      r.version + 1 = calcRemoteFileVersion h.world.db path st.name := by
  cases hnew : newest h.world.db path st.name with
  | none => simp [calcRemoteFileVersion, hnew] at hv
  | some r =>
      have hcalc : calcRemoteFileVersion h.world.db path st.name = r.version + 1 := by
        rw [calcRemoteFileVersion, hnew]
      obtain ⟨r', hfind, hrv⟩ := Option.map_eq_some_iff.mp hget
      have hmem : r' ∈ h.world.db.remoteFiles :=
        (List.mem_filter.mp (List.mem_of_find?_eq_some hfind)).1
      have hversion : r'.version = r.version := by
        have := List.find?_some hfind
        simp only [hcalc, Nat.add_sub_cancel, decide_eq_true_eq] at this
        exact this
      have hr : r ∈ h.world.db.remoteFiles := (newest_mem hnew).1
      have hnodup : (h.world.db.remoteFiles.map RemoteFile.version).Nodup :=
        List.pairwise_map.mpr (ha.sorted.imp fun hlt => Nat.ne_of_lt hlt)
      obtain rfl : r' = r := List.inj_on_of_nodup_map hnodup hmem hr hversion
      exact ⟨r', hmem, rfl, hrv, hcalc.symm⟩

/-- At a store that goes by the remote version, the version plays no part. -/
theorem find_congr_version (hkind : st.kind = .awsS3 ∨ st.kind = .gcpStorage) (u u' : ℕ) (rv : Str)
    (b : Bucket) : st.find C path u rv b = st.find C path u' rv b := by
  rcases hkind with hkind | hkind <;> simp [Store.find, Store.key, hkind]

theorem old_congr_version (hkind : st.kind = .awsS3 ∨ st.kind = .gcpStorage) {k v v' u u' : ℕ}
    {rv : Str} (hold : st.Old C k v u rv) : st.Old C k v' u' rv := by
  rcases hkind with hkind | hkind <;> simpa only [Store.Old, hkind] using hold

theorem Addressed.update (ha : Addressed C st path h) {cfg : ConfigBackup} {stmts : Statements}
    {t : Target} {rec : Record} (hat : (ItemOp.operate cfg .metadataUpdate stmts t rec).At st path)
    (hfollows : (ItemOp.operate cfg .metadataUpdate stmts t rec).followsFile st path h)
    {db : Db} {p : Pass} (hdb : db.remoteFiles = h.world.db.remoteFiles)
    (hpass : updateTarget rec t ⟨db, h.world.buckets, [], []⟩ = .next p) :
    Addressed C st path ⟨⟨p.db, p.buckets⟩, h.sent⟩ := by
  have hname : t.store.name = st.name := hat.name_eq
  have hpath : rec.path = path := hat.path_eq
  obtain ⟨rv, hv, hget, hb, -, uuid, -, hadd⟩ := updateTarget_next hpass
  have hcalc : calcRemoteFileVersion db rec.path t.store.name =
      calcRemoteFileVersion h.world.db path st.name := by
    rw [hname, hpath, calcRemoteFileVersion_congr hdb]
  have hget' : getRemoteVersionForVersion h.world.db path st.name
      (calcRemoteFileVersion h.world.db path st.name - 1) = some rv := by
    rw [← hget, ← hcalc, hpath, hname, getRemoteVersionForVersion, getRemoteVersionForVersion,
      versionsOf, versionsOf, hdb]
  obtain ⟨r, hr, hnew, hrv, hversion⟩ := ha.previous (by rw [← hcalc]; exact hv) hget'
  refine ha.addsRow hpath hname hcalc (by rw [hadd, ← hdb]; rfl) ?_ (.inl rfl) ?_
  · rw [show p.buckets = h.world.buckets from hb]
    exact .refl C st path le_rfl
  · intro htype _
    obtain ⟨hkind, hrtype, hrdm, hrenc⟩ := hfollows cfg stmts t rec rfl htype r hnew
    obtain ⟨hold, content, body, hlast, hfind, hdecode⟩ := ha.found r hr hrtype hrdm
    rw [hrv] at hold hfind
    refine ⟨?_, content, body, ?_, ?_, ?_⟩
    · rw [show p.buckets = h.world.buckets from hb]
      exact old_congr_version hkind hold
    · rw [← hlast, lastSent_of_lt ha.sent_lt hversion.ge]
      refine lastSent_of_lt ha.sent_lt ?_
      change _ ≤ calcRemoteFileVersion db rec.path t.store.name + 1
      omega
    · rw [show p.buckets = h.world.buckets from hb, ← hfind]
      exact find_congr_version hkind _ _ rv _
    · rw [← hdecode, hrenc]
      rfl

theorem Addressed.upload (ha : Addressed C st path h) {cfg : ConfigBackup} {op : Operation}
    {stmts : Statements} {t : Target} {rec : Record}
    (hat : (ItemOp.operate cfg op stmts t rec).At st path) {db : Db} {p : Pass}
    (hdb : db.remoteFiles = h.world.db.remoteFiles)
    (hpass : uploadTarget C cfg rec t ⟨db, h.world.buckets, [], []⟩ = .next p)
    (hret : Retains C st path (h.world.buckets st.name).next
      (calcRemoteFileVersion h.world.db path st.name) (h.world.buckets st.name)
      (p.buckets st.name)) :
    Addressed C st path ⟨⟨p.db, p.buckets⟩,
      if rec.props.type = .file ∧ preUploadCheck rec cfg t.store = none then
        h.sent ++ [(calcRemoteFileVersion h.world.db rec.path t.store.name, t.out.content.1)]
      else h.sent⟩ := by
  have hname : t.store.name = st.name := hat.name_eq
  have hpath : rec.path = path := hat.path_eq
  rcases uploadTarget_next hpass with ⟨reason, hskip, rfl⟩ | ⟨hskip, sent, b, hup, hcan, herr, hb, -,
    uuid, -, hadd⟩
  · rw [if_neg (by simp [hskip])]
    exact ha.of_db_eq hdb hret
  · have hcalc : calcRemoteFileVersion db rec.path t.store.name =
        calcRemoteFileVersion h.world.db path st.name := by
      rw [hname, hpath, calcRemoteFileVersion_congr hdb]
    have hrows : p.db.remoteFiles = h.world.db.remoteFiles ++
        [nextRow uuid t rec.jobUuid false rec sent.remoteVersion db] := by
      rw [hadd, ← hdb]
      rfl
    rw [show calcRemoteFileVersion h.world.db rec.path t.store.name =
      calcRemoteFileVersion db rec.path t.store.name by rw [hcalc, hname, hpath]]
    by_cases htype : rec.props.type = .file
    · rw [if_pos ⟨htype, hskip⟩]
      refine ha.addsRow hpath hname hcalc hrows hret (.inr ⟨_, rfl⟩) ?_
      intro _ _
      obtain ⟨hold, body, hfind, hdecode⟩ := upload_found hat htype hup hcan herr
      obtain rfl : p.buckets st.name = b := by
        rw [hb, hname]
        exact Function.update_self _ _ _
      exact ⟨hold, t.out.content.1, body, lastSent_append_self _ _ _, hfind, hdecode⟩
    · rw [if_neg (by simp [htype])]
      exact ha.addsRow hpath hname hcalc hrows hret (.inl rfl) fun hfile => absurd hfile htype

theorem addressed_step (pathMatch : Str → Str → Option Bool) (o : ItemOp) (ha : Addressed C st path h)
    (hat : o.At st path) (hfollows : o.followsFile st path h) :
    Addressed C st path (o.step C pathMatch h) := by
  cases o with
  | operate cfg op stmts t rec =>
      have hname : t.store.name = st.name := hat.name_eq
      have hpath : rec.path = path := hat.path_eq
      have hret := hat.retains (uploadAndUpdateDB_retains C cfg op stmts t rec h.world)
      simp only [hname, hpath] at hret
      rcases uploadAndUpdateDB_cases C cfg op stmts [t] rec h.world with
        ⟨hdb, hfail⟩ | ⟨db, p, hfiles, hloop, hr⟩
      · have hsent : (ItemOp.operate cfg op stmts t rec).step C pathMatch h =
            ⟨(uploadAndUpdateDB C cfg op stmts [t] rec h.world).world, h.sent⟩ := by
          simp only [ItemOp.step]
          rw [if_neg]
          rintro ⟨-, -, -, hcan, herr⟩
          simp [hcan, herr] at hfail
        rw [hsent]
        exact ha.of_db_eq (by rw [hdb]) hret
      · have hfdb := (filesEntry_files hfiles).2.1
        rw [forEach_singleton] at hloop
        simp only [ItemOp.step, hr] at hret ⊢
        by_cases hop : op.operationType = .upload
        · rw [operateTarget, if_pos hop] at hloop
          simp only [hop, true_and, and_true]
          exact ha.upload hat hfdb hloop hret
        · have hmeta : op = .metadataUpdate := by cases op <;> simp_all [Operation.operationType]
          subst hmeta
          rw [operateTarget, if_neg hop] at hloop
          rw [if_neg (by simp [Operation.operationType])]
          exact ha.update hat hfollows hfdb hloop
  | markDeleted cfg lstat stmts t jobUuid rec =>
      have hname : t.store.name = st.name := hat.name_eq
      have hpath : rec.path = path := hat.path_eq
      have hret := hat.retains (markDeleted_retains C pathMatch cfg lstat stmts t jobUuid rec h.world)
      simp only [hname, hpath] at hret
      rcases markDeleted_cases C pathMatch cfg lstat stmts [t] jobUuid rec h.world with
        hdb | ⟨p, hloop, hr⟩
      · exact ha.of_db_eq (by rw [hdb]) hret
      · rw [forEach_singleton] at hloop
        obtain ⟨sent, b, -, -, -, -, -, uuid, -, hadd⟩ := markTarget_next hloop
        rw [ItemOp.step]
        simp only [hr] at hret ⊢
        refine ha.addsRow hpath hname ?_ (by rw [hadd]; rfl) hret (.inl rfl) ?_
        · change calcRemoteFileVersion _ rec.path t.store.name = _
          rw [hname, hpath]
          exact calcRemoteFileVersion_congr rfl path st.name
        · intro _ hdm
          cases hdm

end

/-- The rows of a run address their content, if every metadata update of a file
follows the row of a file. -/
theorem rows_addressContent (C : Cloud) (pathMatch : Str → Str → Option Bool) (st : Store)
    (path : Str) {h : History}
    (hrun : Reaches (fun o h => ItemOp.At st path o ∧ o.followsFile st path h)
      (ItemOp.step C pathMatch) History.empty h) : RowsAddressContent C st h := by
  refine (hrun.invariant (I := Addressed C st path) ?_ ?_).rowsAddressContent
  · exact ⟨by simp [History.empty, World.empty, Db.empty], by simp [History.empty, World.empty, Db.empty],
      by simp [History.empty], by simp [History.empty, World.empty, Db.empty]⟩
  · intro o h ha ho
    exact addressed_step pathMatch o ha ho.1 ho.2

def firstOp (kind : StoreKind) : ItemOp :=
  .operate plainConfig .new ⟨true, true, true⟩ (smoothTarget (plainStore kind) 7 "first")
    ⟨"/file".toList, ⟨.file, [], 1, 1, 1, [], [], [], [], false⟩, "job".toList, false⟩

def updateOp (kind : StoreKind) : ItemOp :=
  .operate plainConfig .metadataUpdate ⟨true, true, true⟩ (smoothTarget (plainStore kind) 8 "second")
    ⟨"/file".toList, ⟨.file, [], 1, 1, 2, [], [], [], [], false⟩, "job".toList, false⟩

theorem firstOp_at (kind : StoreKind) : (firstOp kind).At (plainStore kind) "/file".toList :=
  ⟨rfl, rfl, fun h => absurd h (by simp [firstOp, ItemOp.target, smoothTarget, plainStore]), by
    rintro cfg op stmts t rec ⟨⟩
    exact ⟨rfl, rfl⟩⟩

theorem updateOp_at (kind : StoreKind) : (updateOp kind).At (plainStore kind) "/file".toList :=
  ⟨rfl, rfl, fun h => absurd h (by simp [updateOp, ItemOp.target, smoothTarget, plainStore]), by
    rintro cfg op stmts t rec ⟨⟩
    exact ⟨rfl, rfl⟩⟩

def updateRun (kind : StoreKind) : History :=
  (updateOp kind).step plainCloud (fun _ _ => none)
    ((firstOp kind).step plainCloud (fun _ _ => none) History.empty)

/-- Both rows of the file lead to its content at S3. -/
theorem rows_addressContent_update :
    RowsAddressContent plainCloud (plainStore .awsS3) (updateRun .awsS3) := by
  refine rows_addressContent plainCloud (fun _ _ => none) (plainStore .awsS3) "/file".toList
    (.step _ (.step _ .refl ⟨firstOp_at .awsS3, ?_⟩) ⟨updateOp_at .awsS3, ?_⟩)
  · rintro cfg stmts t rec ⟨⟩
  · rintro cfg stmts t rec ⟨⟩ - r hr
    have hnew : newest ((firstOp .awsS3).step plainCloud (fun _ _ => none) History.empty).world.db
        "/file".toList "target".toList = some ⟨"first".toList, "/file".toList, "target".toList,
          "job".toList, false, 1, "0".toList, ⟨.file, [], 1, 1, 1, [], [], [], [], false⟩⟩ := by
      decide
    obtain rfl := Option.some.inj (hnew.symm.trans hr)
    exact ⟨.inl rfl, rfl, rfl, rfl⟩

/-- The second row of the file leads nowhere at Azure. -/
theorem rows_addressContent_azure : ¬ ∀ h : History,
    Reaches (fun o _ => ItemOp.At (plainStore .azureBlob) "/file".toList o)
      (ItemOp.step plainCloud fun _ _ => none) History.empty h →
    RowsAddressContent plainCloud (plainStore .azureBlob) h := by
  intro hall
  have hrows : RowsAddressContent plainCloud (plainStore .azureBlob) (updateRun .azureBlob) :=
    hall _ (.step _ (.step _ .refl (firstOp_at .azureBlob)) (updateOp_at .azureBlob))
  have hmem : (⟨"second".toList, "/file".toList, "target".toList, "job".toList, false, 2, "v1".toList,
      ⟨.file, [], 1, 1, 2, [], [], [], [], false⟩⟩ : RemoteFile) ∈
      (updateRun .azureBlob).world.db.remoteFiles := by
    decide
  obtain ⟨content, -, hget⟩ := hrows _ hmem rfl rfl
  have hmissing : ((updateRun .azureBlob).world.buckets "target".toList).blobs
      (calculateAzureStorageRemotePath "prefix".toList "/file".toList 2 false) = none := by
    decide
  have hfind : (plainStore .azureBlob).find plainCloud "/file".toList 2 "v1".toList
      ((updateRun .azureBlob).world.buckets "target".toList) = .error .notFound := by
    simp only [Store.find, plainStore]
    rw [show (decide ("v1".toList.head? = some 'd')) = false by decide, hmissing]
  simp only [Store.get, restoreRecord, ne_eq, not_true_eq_false, if_false] at hget
  rw [show (plainStore .azureBlob).name = "target".toList from rfl, hfind] at hget
  cases hget

end CloudBackup.Backup
