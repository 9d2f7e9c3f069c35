import CloudBackup.Backup.Addressing
import CloudBackup.ObjectStore.BringUp

/-!
The uploads behind the rows of `remote_files`. A log is kept beside the world: for
every upload of a file that went through, what the file held and what was sent.
The row of a metadata update has no upload of its own; it stands for the one
before.

If every metadata update of a file follows the row of a file with the same
encryption, each row of a file belongs to an upload that was encrypted as the row
says, with the keys of its target.
-/

namespace CloudBackup.Backup

open Cbcrypto Keystore Database ObjectStore Iteration

structure Upload where
  path : Str
  target : Str
  version : ℕ
  content : Bytes
  body : Bytes
  deriving DecidableEq

structure Log where
  world : World
  uploads : List Upload

def Log.empty : Log := ⟨World.empty, []⟩

/-- The newest upload of a path to a target, at a version or before. -/
def lastUpload (uploads : List Upload) (path target : Str) (version : ℕ) : Option Upload :=
  (uploads.filter fun u => u.path = path ∧ u.target = target ∧ u.version ≤ version).getLast?

def sentTo (C : Cloud) (cfg : ConfigBackup) (rec : Record) (db : Db) (t : Target) : Option Upload :=
  if preUploadCheck rec cfg t.store ≠ none then none
  else
    match wireBody C.aead.toAead t.store.enc rec.skipEncryption t.out.content.1 t.out.rand with
    | .error _ => none
    | .ok body => some ⟨rec.path, t.store.name, calcRemoteFileVersion db rec.path t.store.name,
        t.out.content.1, body⟩

def newUploads (C : Cloud) (a : Action) (w : World) : List Upload :=
  match a with
  | .mark _ _ _ => []
  | .walk cfg jobUuid it =>
      match decideItem cfg jobUuid it w.db with
      | .operate op rec =>
          let r := walkItem C cfg jobUuid it w
          if op.operationType = .upload ∧ rec.props.type = .file ∧ r.cancelled = false ∧ r.err = none then
            it.targets.filterMap (sentTo C cfg rec w.db)
          else []
      | _ => []

def logStep (C : Cloud) (pathMatch : Str → Str → Option Bool) (a : Action) (l : Log) : Log :=
  ⟨a.apply C pathMatch l.world, l.uploads ++ newUploads C a l.world⟩

/-! ### Keys -/

/-- The keys of a target: those that the password gets from the sidecar. -/
def targetKeys (K : Codec) (password : Bytes) (sidecars : Str → Option Bytes) (target : Str) :
    Option (Bytes × Block keystoreUUIDSize) :=
  (sidecars target).bind (keysOf K password)

/-- The targets of a step have names of their own, and encrypt if the
configuration says so, each with its keys. -/
def InKeeping (keys : Str → Option (Bytes × Block keystoreUUIDSize)) : Action → Prop
  | .mark _ _ _ => True
  | .walk cfg _ it => (it.targets.map (·.store.name)).Nodup ∧
      ∀ t ∈ it.targets, t.store.enc.enabled = cfg.encrypt ∧
        (t.store.enc.enabled = true →
          keys t.store.name = some (t.store.enc.kek, t.store.enc.keystoreUUID))

/-- A metadata update of a file finds, at every target, the row of a file before
it, with the same encryption. -/
def FollowsFile (a : Action) (w : World) : Prop :=
  ∀ cfg jobUuid it rec, a = .walk cfg jobUuid it →
    decideItem cfg jobUuid it w.db = .operate .metadataUpdate rec → rec.props.type = .file →
    ∀ t ∈ it.targets, ∀ r, newest w.db rec.path t.store.name = some r →
      r.props.type = .file ∧ r.deleteMarker = false ∧ r.props.encrypted = rec.props.encrypted

def SentAs (A : Aead) (keys : Str → Option (Bytes × Block keystoreUUIDSize)) (r : RemoteFile)
    (u : Upload) : Prop :=
  ∃ es rand, es.enabled = r.props.encrypted ∧
    (es.enabled = true → keys r.target = some (es.kek, es.keystoreUUID)) ∧
    Fits 0 u.content ∧ wireBody A es false u.content rand = .ok u.body

structure Logged (A : Aead) (keys : Str → Option (Bytes × Block keystoreUUIDSize)) (l : Log) : Prop where
  rows : ∀ r ∈ l.world.db.remoteFiles, r.props.type = .file → r.deleteMarker = false →
    ∃ u, lastUpload l.uploads r.localPath r.target r.version = some u ∧ SentAs A keys r u
  versions : ∀ u ∈ l.uploads, u.version < calcRemoteFileVersion l.world.db u.path u.target

/-! ### The newest upload -/

section

variable {uploads new : List Upload} {path target : Str} {v v' k : ℕ}

theorem lastUpload_append_of_lt (h : ∀ u ∈ new, u.path = path → u.target = target → v < u.version) :
    lastUpload (uploads ++ new) path target v = lastUpload uploads path target v := by
  have hnone : new.filter (fun u => u.path = path ∧ u.target = target ∧ u.version ≤ v) = [] := by
    rw [List.filter_eq_nil_iff]
    intro u hu hmatch
    obtain ⟨hpath, htarget, hle⟩ := of_decide_eq_true hmatch
    exact absurd (h u hu hpath htarget) (Nat.not_lt.mpr hle)
  rw [lastUpload, lastUpload, List.filter_append, hnone, List.append_nil]

theorem lastUpload_congr (h : ∀ u ∈ uploads, u.path = path → u.target = target → u.version < k)
    (hv : k ≤ v + 1) (hv' : k ≤ v' + 1) :
    lastUpload uploads path target v = lastUpload uploads path target v' := by
  unfold lastUpload
  refine congrArg List.getLast? (List.filter_congr fun u hu => ?_)
  refine decide_eq_decide.mpr ⟨?_, ?_⟩
  · rintro ⟨hpath, htarget, -⟩
    have := h u hu hpath htarget
    exact ⟨hpath, htarget, by omega⟩
  · rintro ⟨hpath, htarget, -⟩
    have := h u hu hpath htarget
    exact ⟨hpath, htarget, by omega⟩

theorem lastUpload_append_self {u : Upload}
    (h : new.filter (fun u => u.path = path ∧ u.target = target ∧ u.version ≤ v) = [u]) :
    lastUpload (uploads ++ new) path target v = some u := by
  rw [lastUpload, List.filter_append, h, List.getLast?_append_of_ne_nil _ (by simp)]
  rfl

end

theorem calcRemoteFileVersion_le {db db' : Db} {rows : List RemoteFile}
    (h : db'.remoteFiles = db.remoteFiles ++ rows) (path target : Str) :
    calcRemoteFileVersion db path target ≤ calcRemoteFileVersion db' path target := by
  have hpos : 1 ≤ calcRemoteFileVersion db' path target := by
    unfold calcRemoteFileVersion
    split <;> omega
  rw [calcRemoteFileVersion]
  cases hnew : newest db path target with
  | none => exact hpos
  | some m =>
      obtain ⟨hmem, hpath, htarget⟩ := newest_mem hnew
      have hm : m ∈ versionsOf db' path target := by
        simp [versionsOf, h, hmem, hpath, htarget]
      exact version_lt_calc hm

/-! ### The rows of an operation -/

structure RowOf (C : Cloud) (cfg : ConfigBackup) (op : Operation) (rec : Record) (db : Db) (t : Target)
    (r : RemoteFile) : Prop where
  row : ∃ uuid rv, r = remoteFile uuid t.store.name rec.jobUuid false rec
    (calcRemoteFileVersion db rec.path t.store.name) rv
  upload : op.operationType = .upload → rec.props.type = .file → preUploadCheck rec cfg t.store = none ∧
    ∃ body, wireBody C.aead.toAead t.store.enc rec.skipEncryption t.out.content.1 t.out.rand = .ok body
  update : op.operationType ≠ .upload → 1 < calcRemoteFileVersion db rec.path t.store.name

section

variable {C : Cloud} {cfg : ConfigBackup} {op : Operation} {rec : Record} {t : Target}

theorem RowOf.congr {db db' : Db} {r : RemoteFile} (h : RowOf C cfg op rec db t r)
    (hcalc : calcRemoteFileVersion db rec.path t.store.name =
      calcRemoteFileVersion db' rec.path t.store.name) : RowOf C cfg op rec db' t r :=
  ⟨by rw [← hcalc]; exact h.row, h.upload, by rw [← hcalc]; exact h.update⟩

theorem uploadTarget_row {p p' : Pass} (hop : op.operationType = .upload)
    (h : uploadTarget C cfg rec t p = .next p') :
    (preUploadCheck rec cfg t.store ≠ none ∧ p'.db = p.db) ∨
      ∃ r, RowOf C cfg op rec p.db t r ∧ p'.db = addedRows p.db r := by
  rcases uploadTarget_next h with ⟨reason, hskip, rfl⟩ | ⟨hskip, sent, b, hup, hcan, herr, -, -, uuid,
    -, hdb⟩
  · exact .inl ⟨by simp [hskip], rfl⟩
  · refine .inr ⟨_, ⟨⟨uuid, sent.remoteVersion, rfl⟩, fun _ htype => ⟨hskip, ?_⟩,
      fun hne => absurd hop hne⟩, hdb⟩
    rcases Store.upload_cases C t.store rec (calcRemoteFileVersion p.db rec.path t.store.name) t.out
      (p.buckets t.store.name) with ⟨hne, -⟩ | ⟨-, body, hbody, -⟩ | ⟨-, sent', b', hup', hfail, -⟩
    · exact absurd htype hne
    · exact ⟨body, hbody⟩
    · rw [hup'] at hup
      cases hup
      simp [hcan, herr] at hfail

theorem operateTarget_row {p p' : Pass} (h : operateTarget C cfg op rec t p = .next p') :
    (op.operationType = .upload ∧ preUploadCheck rec cfg t.store ≠ none ∧ p'.db = p.db) ∨
      ∃ r, RowOf C cfg op rec p.db t r ∧ p'.db = addedRows p.db r := by
  unfold operateTarget at h
  split at h
  · rename_i hop
    exact (uploadTarget_row hop h).imp_left fun hskip => ⟨hop, hskip⟩
  · rename_i hop
    obtain ⟨rv, hv, -, -, -, uuid, -, hdb⟩ := updateTarget_next h
    exact .inr ⟨_, ⟨⟨uuid, rv, rfl⟩, fun hup => absurd hup hop, fun _ => hv⟩, hdb⟩

/-- The rows that the loop has added for the targets it has passed: each target has its
row unless it skips the item, and the versions of the others are what they were. -/
structure RowsFor (C : Cloud) (cfg : ConfigBackup) (op : Operation) (rec : Record) (db : Db)
    (pre : List Target) (q : Pass) (rows : List RemoteFile) : Prop where
  remoteFiles : q.db.remoteFiles = db.remoteFiles ++ rows
  ofTarget : ∀ r ∈ rows, ∃ t ∈ pre, RowOf C cfg op rec db t r
  forTarget : ∀ t ∈ pre, (op.operationType = .upload → preUploadCheck rec cfg t.store = none) →
    ∃ r ∈ rows, RowOf C cfg op rec db t r
  others : ∀ n, n ∉ pre.map (·.store.name) →
    calcRemoteFileVersion q.db rec.path n = calcRemoteFileVersion db rec.path n

theorem RowsFor.skip {db : Db} {pre : List Target} {q q' : Pass} {rows : List RemoteFile}
    (h : RowsFor C cfg op rec db pre q rows) (hop : op.operationType = .upload)
    (hskip : preUploadCheck rec cfg t.store ≠ none) (hdb : q'.db = q.db) :
    RowsFor C cfg op rec db (pre ++ [t]) q' rows := by
  refine ⟨by rw [hdb, h.remoteFiles], ?_, ?_, ?_⟩
  · intro r hr
    obtain ⟨t', ht', hrow⟩ := h.ofTarget r hr
    exact ⟨t', List.mem_append_left _ ht', hrow⟩
  · intro t' ht' hnone
    rcases List.mem_append.mp ht' with ht' | ht'
    · exact h.forTarget t' ht' hnone
    · obtain rfl := List.mem_singleton.mp ht'
      exact absurd (hnone hop) hskip
  · intro n hn
    rw [hdb]
    exact h.others n fun hmem => hn (by rw [List.map_append]; exact List.mem_append_left _ hmem)

theorem RowsFor.add {db : Db} {pre : List Target} {q q' : Pass} {rows : List RemoteFile} {r : RemoteFile}
    (h : RowsFor C cfg op rec db pre q rows) (hfresh : t.store.name ∉ pre.map (·.store.name))
    (hr : RowOf C cfg op rec q.db t r) (hdb : q'.db = addedRows q.db r) :
    RowsFor C cfg op rec db (pre ++ [t]) q' (rows ++ [r]) := by
  have hrow : RowOf C cfg op rec db t r := hr.congr (h.others _ hfresh)
  refine ⟨by rw [hdb, addedRows_remoteFiles, h.remoteFiles, List.append_assoc], ?_, ?_, ?_⟩
  · intro r' hr'
    rcases List.mem_append.mp hr' with hr' | hr'
    · obtain ⟨t', ht', hrow'⟩ := h.ofTarget r' hr'
      exact ⟨t', List.mem_append_left _ ht', hrow'⟩
    · obtain rfl := List.mem_singleton.mp hr'
      exact ⟨t, by simp, hrow⟩
  · intro t' ht' hnone
    rcases List.mem_append.mp ht' with ht' | ht'
    · obtain ⟨r', hr', hrow'⟩ := h.forTarget t' ht' hnone
      exact ⟨r', List.mem_append_left _ hr', hrow'⟩
    · obtain rfl := List.mem_singleton.mp ht'
      exact ⟨r, by simp, hrow⟩
  · intro n hn
    obtain ⟨uuid, rv, rfl⟩ := hr.row
    have hne : t.store.name ≠ n := fun heq => hn (by simp [heq])
    rw [hdb, calcRemoteFileVersion, newest_addedRows_of_ne fun hc => hne hc.2]
    exact h.others n fun hmem => hn (by rw [List.map_append]; exact List.mem_append_left _ hmem)

theorem operate_rows {targets : List Target} (hnodup : (targets.map (·.store.name)).Nodup) {db : Db}
    {buckets : Str → Bucket} {p : Pass}
    (h : forEach (operateTarget C cfg op rec) targets ⟨db, buckets, [], []⟩ = .next p) :
    ∃ rows, RowsFor C cfg op rec db targets p rows := by
  refine forEach_next (I := fun (pre : List Target) (q : Pass) => ∃ rows, RowsFor C cfg op rec db pre q rows)
    ⟨[], by simp, by simp, by simp, fun _ _ => rfl⟩ ?_ h
  rintro pre t post q q' hl ⟨rows, hrows⟩ hbody
  have hfresh : t.store.name ∉ pre.map (·.store.name) := by
    rw [hl, List.map_append, List.map_cons] at hnodup
    exact fun hmem => (List.nodup_append.mp hnodup).2.2 _ hmem _ (List.mem_cons_self) rfl
  rcases operateTarget_row hbody with ⟨hop, hskip, hdb⟩ | ⟨r, hr, hdb⟩
  · exact ⟨rows, hrows.skip hop hskip hdb⟩
  · exact ⟨rows ++ [r], hrows.add hfresh hr hdb⟩

end

/-! ### Throughout a run -/

section

variable {C : Cloud} {keys : Str → Option (Bytes × Block keystoreUUIDSize)} {l : Log} {w : World}

/-- Rows were added, and uploads with versions of their own. -/
theorem Logged.extend {A : Aead} (hl : Logged A keys l) {rows : List RemoteFile} {new : List Upload}
    (hdb : w.db.remoteFiles = l.world.db.remoteFiles ++ rows)
    (hnew : ∀ u ∈ new, u.version = calcRemoteFileVersion l.world.db u.path u.target ∧
      u.version < calcRemoteFileVersion w.db u.path u.target)
    (hrows : ∀ r ∈ rows, r.props.type = .file → r.deleteMarker = false →
      ∃ u, lastUpload (l.uploads ++ new) r.localPath r.target r.version = some u ∧ SentAs A keys r u) :
    Logged A keys ⟨w, l.uploads ++ new⟩ := by
  refine ⟨?_, ?_⟩
  · intro r hr htype hdm
    rw [hdb] at hr
    rcases List.mem_append.mp hr with hr | hr
    · have hlt : r.version < calcRemoteFileVersion l.world.db r.localPath r.target :=
        version_lt_calc (List.mem_filter.mpr ⟨hr, by simp⟩)
      obtain ⟨u, hlast, hsent⟩ := hl.rows r hr htype hdm
      refine ⟨u, ?_, hsent⟩
      rw [← hlast]
      refine lastUpload_append_of_lt fun u' hu' hpath htarget => ?_
      rw [(hnew u' hu').1, hpath, htarget]
      exact hlt
    · exact hrows r hr htype hdm
  · intro u hu
    rcases List.mem_append.mp hu with hu | hu
    · exact (hl.versions u hu).trans_le (calcRemoteFileVersion_le hdb u.path u.target)
    · exact (hnew u hu).2

theorem Logged.of_db_eq {A : Aead} (hl : Logged A keys l)
    (hdb : w.db.remoteFiles = l.world.db.remoteFiles) : Logged A keys ⟨w, l.uploads⟩ := by
  have hrows : w.db.remoteFiles = l.world.db.remoteFiles ++ [] := by rw [hdb, List.append_nil]
  have hext : Logged A keys ⟨w, l.uploads ++ []⟩ := hl.extend hrows (by simp) (by simp)
  rwa [List.append_nil] at hext

variable {cfg : ConfigBackup} {rec : Record} {db : Db}

theorem sentTo_eq_some {t : Target} {u : Upload} (h : sentTo C cfg rec db t = some u) :
    preUploadCheck rec cfg t.store = none ∧ u.path = rec.path ∧ u.target = t.store.name ∧
      u.version = calcRemoteFileVersion db rec.path t.store.name ∧ u.content = t.out.content.1 ∧
      wireBody C.aead.toAead t.store.enc rec.skipEncryption t.out.content.1 t.out.rand = .ok u.body := by
  unfold sentTo at h
  split at h
  · cases h
  · rename_i hskip
    split at h
    · cases h
    · rename_i body hbody
      cases h
      exact ⟨by simpa using hskip, rfl, rfl, rfl, rfl, hbody⟩

theorem filter_sentTo {targets : List Target} (hnodup : (targets.map (·.store.name)).Nodup) {t : Target}
    (ht : t ∈ targets) {u : Upload} (hu : sentTo C cfg rec db t = some u) :
    (targets.filterMap (sentTo C cfg rec db)).filter (fun u' =>
      u'.path = rec.path ∧ u'.target = t.store.name ∧
        u'.version ≤ calcRemoteFileVersion db rec.path t.store.name) = [u] := by
  induction targets with
  | nil => cases ht
  | cons t' targets ih =>
      rw [List.map_cons, List.nodup_cons] at hnodup
      rcases List.mem_cons.mp ht with rfl | ht
      · have hrest : (targets.filterMap (sentTo C cfg rec db)).filter (fun u' =>
            u'.path = rec.path ∧ u'.target = t.store.name ∧
              u'.version ≤ calcRemoteFileVersion db rec.path t.store.name) = [] := by
          rw [List.filter_eq_nil_iff]
          intro u' hu' hmatch
          obtain ⟨t', ht', hsent⟩ := List.mem_filterMap.mp hu'
          obtain ⟨-, htarget, -⟩ := of_decide_eq_true hmatch
          have hname := (sentTo_eq_some hsent).2.2.1
          exact hnodup.1 (List.mem_map.mpr ⟨t', ht', hname.symm.trans htarget⟩)
        obtain ⟨-, hpath, htarget, hversion, -⟩ := sentTo_eq_some hu
        rw [List.filterMap_cons_some hu, List.filter_cons_of_pos, hrest]
        simp [hpath, htarget, hversion]
      · have hne : t'.store.name ≠ t.store.name := fun heq =>
          hnodup.1 (List.mem_map.mpr ⟨t, ht, heq.symm⟩)
        have htail := ih hnodup.2 ht
        cases hsent : sentTo C cfg rec db t' with
        | none => rw [List.filterMap_cons_none hsent, htail]
        | some u' =>
            have hname := (sentTo_eq_some hsent).2.2.1
            rw [List.filterMap_cons_some hsent, List.filter_cons_of_neg, htail]
            simp [hname, hne]

theorem Logged.uploads (hl : Logged C.aead.toAead keys l) {jobUuid : Str} {it : Item} {op : Operation}
    (hkeep : InKeeping keys (.walk cfg jobUuid it))
    (hrec : Describes it.path it.disk cfg jobUuid rec) (hop : op.operationType = .upload)
    (htype : rec.props.type = .file) {rows : List RemoteFile}
    (hdb : w.db.remoteFiles = l.world.db.remoteFiles ++ rows)
    (hof : ∀ r ∈ rows, ∃ t ∈ it.targets, RowOf C cfg op rec l.world.db t r)
    (hfor : ∀ t ∈ it.targets, (op.operationType = .upload → preUploadCheck rec cfg t.store = none) →
      ∃ r ∈ rows, RowOf C cfg op rec l.world.db t r) :
    Logged C.aead.toAead keys ⟨w, l.uploads ++ it.targets.filterMap (sentTo C cfg rec l.world.db)⟩ := by
  obtain ⟨hnodup, henc⟩ := hkeep
  refine hl.extend hdb ?_ ?_
  · intro u hu
    obtain ⟨t, ht, hsent⟩ := List.mem_filterMap.mp hu
    obtain ⟨hskip, hpath, htarget, hversion, -⟩ := sentTo_eq_some hsent
    obtain ⟨r, hr, hrow⟩ := hfor t ht fun _ => hskip
    obtain ⟨uuid, rv, rfl⟩ := hrow.row
    rw [hpath, htarget]
    refine ⟨hversion, ?_⟩
    rw [hversion]
    -- the row of the upload has its version
    have hmem : remoteFile uuid t.store.name rec.jobUuid false rec
        (calcRemoteFileVersion l.world.db rec.path t.store.name) rv ∈
        versionsOf w.db rec.path t.store.name :=
      List.mem_filter.mpr ⟨by rw [hdb]; exact List.mem_append_right _ hr, by simp [remoteFile]⟩
    exact version_lt_calc hmem
  · intro r hr _ _
    obtain ⟨t, ht, hrow⟩ := hof r hr
    obtain ⟨uuid, rv, rfl⟩ := hrow.row
    obtain ⟨hskip, body, hbody⟩ := hrow.upload hop htype
    have hsent : sentTo C cfg rec l.world.db t = some ⟨rec.path, t.store.name,
        calcRemoteFileVersion l.world.db rec.path t.store.name, t.out.content.1, body⟩ := by
      simp [sentTo, hskip, hbody]
    refine ⟨_, lastUpload_append_self (filter_sentTo hnodup ht hsent), t.store.enc, t.out.rand, ?_,
      (henc t ht).2, ?_, ?_⟩
    · exact (henc t ht).1.trans hrec.encrypted.symm
    · have := t.out.content.2
      simp only [Fits, chunkSize]
      omega
    · rw [← hbody, hrec.skipEncryption]

theorem Logged.update {A : Aead} (hl : Logged A keys l) {it : Item}
    (hfollows : rec.props.type = .file → ∀ t ∈ it.targets, ∀ r,
      newest l.world.db rec.path t.store.name = some r → r.props.type = .file ∧
        r.deleteMarker = false ∧ r.props.encrypted = rec.props.encrypted)
    {rows : List RemoteFile} (hdb : w.db.remoteFiles = l.world.db.remoteFiles ++ rows)
    (hof : ∀ r ∈ rows, ∃ t ∈ it.targets, RowOf C cfg .metadataUpdate rec l.world.db t r) :
    Logged A keys ⟨w, l.uploads⟩ := by
  rw [← List.append_nil l.uploads]
  refine hl.extend hdb (by simp) ?_
  intro r hr htype _
  obtain ⟨t, ht, hrow⟩ := hof r hr
  have hv := hrow.update (by simp [Operation.operationType])
  obtain ⟨uuid, rv, rfl⟩ := hrow.row
  cases hnew : newest l.world.db rec.path t.store.name with
  | none => simp [calcRemoteFileVersion, hnew] at hv
  | some r =>
      obtain ⟨hrtype, hrdm, hrenc⟩ := hfollows htype t ht r hnew
      obtain ⟨hmem, hpath, htarget⟩ := newest_mem hnew
      obtain ⟨u, hlast, es, rand, hen, hkeys, hfits, hbody⟩ := hl.rows r hmem hrtype hrdm
      have hcalc : calcRemoteFileVersion l.world.db rec.path t.store.name = r.version + 1 := by
        rw [calcRemoteFileVersion, hnew]
      refine ⟨u, ?_, es, rand, hen.trans hrenc, ?_, hfits, hbody⟩
      · rw [← hlast, List.append_nil, hpath, htarget]
        refine lastUpload_congr (k := r.version + 1) ?_ ?_ le_rfl
        · intro u' hu' hpath' htarget'
          have hlt := hl.versions u' hu'
          rw [hpath', htarget'] at hlt
          exact hlt.trans_eq hcalc
        · change r.version + 1 ≤ calcRemoteFileVersion l.world.db rec.path t.store.name + 1
          omega
      · rw [htarget] at hkeys
        exact hkeys

theorem Logged.noFiles {A : Aead} (hl : Logged A keys l) {rows : List RemoteFile}
    (hdb : w.db.remoteFiles = l.world.db.remoteFiles ++ rows)
    (hrows : ∀ r ∈ rows, r.props.type = .file → r.deleteMarker = true) :
    Logged A keys ⟨w, l.uploads⟩ := by
  rw [← List.append_nil l.uploads]
  refine hl.extend hdb (by simp) ?_
  intro r hr htype hdm
  rw [hrows r hr htype] at hdm
  cases hdm

theorem mark_rows {jobUuid : Str} {targets : List Target} {buckets : Str → Bucket} {p : Pass}
    (h : forEach (markTarget C jobUuid rec) targets ⟨db, buckets, [], []⟩ = .next p) :
    ∃ rows, p.db.remoteFiles = db.remoteFiles ++ rows ∧ ∀ r ∈ rows, r.deleteMarker = true := by
  refine forEach_next (I := fun (_ : List Target) (q : Pass) =>
    ∃ rows, q.db.remoteFiles = db.remoteFiles ++ rows ∧ ∀ r ∈ rows, r.deleteMarker = true)
    ⟨[], by simp, by simp⟩ ?_ h
  rintro pre t post q q' - ⟨rows, hrows, hdm⟩ hbody
  obtain ⟨sent, b, -, -, -, -, -, uuid, -, hadd⟩ := markTarget_next hbody
  refine ⟨rows ++ [_], by rw [hadd, addedRows_remoteFiles, hrows, List.append_assoc], ?_⟩
  intro r hr
  rcases List.mem_append.mp hr with hr | hr
  · exact hdm r hr
  · obtain rfl := List.mem_singleton.mp hr
    rfl

end

theorem newUploads_of_failed {C : Cloud} {cfg : ConfigBackup} {jobUuid : Str} {it : Item} {w : World}
    (h : (walkItem C cfg jobUuid it w).cancelled = true ∨ (walkItem C cfg jobUuid it w).err ≠ none) :
    newUploads C (.walk cfg jobUuid it) w = [] := by
  unfold newUploads
  dsimp only
  split
  · rw [if_neg]
    rintro ⟨-, -, hcan, herr⟩
    simp [hcan, herr] at h
  · rfl

section

variable {C : Cloud} {pathMatch : Str → Str → Option Bool}
  {keys : Str → Option (Bytes × Block keystoreUUIDSize)} {l : Log} {cfg : ConfigBackup} {jobUuid : Str}

theorem logged_mark (hl : Logged C.aead.toAead keys l) (e : Entry) :
    Logged C.aead.toAead keys (logStep C pathMatch (.mark cfg jobUuid e) l) := by
  rw [show logStep C pathMatch (.mark cfg jobUuid e) l =
    ⟨(markEntry C pathMatch cfg jobUuid e l.world).world, l.uploads⟩ by simp [logStep, newUploads,
      Action.apply, Action.run]]
  rcases markEntry_cases C pathMatch cfg jobUuid e l.world with hdb | ⟨rec, p, -, hloop, hworld, -⟩
  · exact hl.of_db_eq (by rw [hdb])
  · obtain ⟨rows, hrows, hdm⟩ := mark_rows hloop
    rw [hworld]
    exact hl.noFiles hrows fun r hr _ => hdm r hr

theorem logged_walk {it : Item} (hl : Logged C.aead.toAead keys l) (hkeep : InKeeping keys (.walk cfg jobUuid it))
    (hfollows : FollowsFile (.walk cfg jobUuid it) l.world) :
    Logged C.aead.toAead keys (logStep C pathMatch (.walk cfg jobUuid it) l) := by
  change Logged C.aead.toAead keys ⟨(walkItem C cfg jobUuid it l.world).world,
    l.uploads ++ newUploads C (.walk cfg jobUuid it) l.world⟩
  rcases walkItem_cases C cfg jobUuid it l.world with ⟨hcan, hdb⟩ | ⟨-, herr, hdb⟩ |
    ⟨rec, hdecide, hr⟩ | ⟨op, rec, db, p, hdecide, hfiles, hloop, hr⟩
  · rw [newUploads_of_failed (.inl hcan), List.append_nil]
    exact hl.of_db_eq (by rw [hdb])
  · rw [newUploads_of_failed (.inr herr), List.append_nil]
    refine hl.of_db_eq ?_
    obtain ⟨rows, hrows⟩ := markItemAsFailed_cases it.failedFilesOk
      ⟨jobUuid, it.path, it.disk.fileType⟩ l.world.db
    rw [hdb, hrows]
  · rw [show newUploads C (.walk cfg jobUuid it) l.world = [] by simp [newUploads, hdecide],
      List.append_nil, hr]
    exact hl.of_db_eq (collectTarget_tables jobUuid it.path it.targets l.world.db).2.1
  · have hfdb := (filesEntry_files hfiles).2.1
    have hrec := decideItem_operate hdecide
    obtain ⟨rows, hrows⟩ := operate_rows hkeep.1 hloop
    have hremote := hrows.remoteFiles
    rw [hfdb] at hremote
    have hcongr : ∀ {t r}, RowOf C cfg op rec db t r → RowOf C cfg op rec l.world.db t r :=
      fun hrow => hrow.congr (calcRemoteFileVersion_congr hfdb _ _)
    have hof : ∀ r ∈ rows, ∃ t ∈ it.targets, RowOf C cfg op rec l.world.db t r := by
      intro r hr
      obtain ⟨t, ht, hrow⟩ := hrows.ofTarget r hr
      exact ⟨t, ht, hcongr hrow⟩
    rw [hr]
    by_cases hop : op.operationType = .upload
    · by_cases htype : rec.props.type = .file
      · -- every new row has its upload in the log
        rw [show newUploads C (.walk cfg jobUuid it) l.world =
          it.targets.filterMap (sentTo C cfg rec l.world.db) by
            simp [newUploads, hdecide, hop, htype, hr]]
        refine hl.uploads hkeep hrec hop htype hremote hof ?_
        intro t ht hskip
        obtain ⟨r, hr, hrow⟩ := hrows.forTarget t ht hskip
        exact ⟨r, hr, hcongr hrow⟩
      · rw [show newUploads C (.walk cfg jobUuid it) l.world = [] by
          simp [newUploads, hdecide, htype], List.append_nil]
        refine hl.noFiles hremote ?_
        intro r hr hfile
        obtain ⟨t, -, hrow⟩ := hof r hr
        obtain ⟨uuid, rv, rfl⟩ := hrow.row
        exact absurd hfile htype
    · -- nothing is sent, and the row before has an upload that this one shares
      have hmeta : op = .metadataUpdate := by cases op <;> simp_all [Operation.operationType]
      subst hmeta
      rw [show newUploads C (.walk cfg jobUuid it) l.world = [] by
        simp [newUploads, hdecide, hop], List.append_nil]
      exact hl.update (fun htype => hfollows cfg jobUuid it rec rfl hdecide htype) hremote hof

end

theorem logged_step {C : Cloud} {pathMatch : Str → Str → Option Bool}
    {keys : Str → Option (Bytes × Block keystoreUUIDSize)} {a : Action} {l : Log}
    (hl : Logged C.aead.toAead keys l) (hkeep : InKeeping keys a) (hfollows : FollowsFile a l.world) :
    Logged C.aead.toAead keys (logStep C pathMatch a l) := by
  cases a with
  | mark cfg jobUuid e => exact logged_mark hl e
  | walk cfg jobUuid it => exact logged_walk hl hkeep hfollows

/-- Every row of a file has its upload, throughout a run. -/
theorem logged_reaches {C : Cloud} {pathMatch : Str → Str → Option Bool}
    {keys : Str → Option (Bytes × Block keystoreUUIDSize)} {l : Log}
    (hrun : Reaches (fun a l => InKeeping keys a ∧ FollowsFile a l.world) (logStep C pathMatch)
      Log.empty l) : Logged C.aead.toAead keys l := by
  refine hrun.invariant (I := Logged C.aead.toAead keys) ?_ ?_
  · exact ⟨by simp [Log.empty, World.empty, Db.empty], by simp [Log.empty]⟩
  · intro a l hl ha
    exact logged_step hl ha.1 ha.2

end CloudBackup.Backup
