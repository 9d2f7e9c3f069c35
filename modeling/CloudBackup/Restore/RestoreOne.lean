import CloudBackup.Backup.UploadLog
import CloudBackup.ObjectStore.Bootstrap

/-!
Restoring the files of a job. A restore opens the store of the chosen target under
the configuration of the day: without encryption there is no key, and no row that
is marked as encrypted can be restored, whatever the password and the sidecar.

`restoresFiles_iff` says when every file of a job comes back as it was sent.
-/

namespace CloudBackup.Restore

open Cbcrypto Keystore Database ObjectStore Backup Iteration

/-- The start of a restore: the configuration, the chosen target, and what happens
outside the program. -/
structure Start where
  encrypt : Bool
  encryptPass : Bytes
  target : Store
  queryOk : Bool
  requests : Requests
  rand : Draws

inductive RestoreErr
  | database
  | initEncryption (e : InitErr)
  deriving DecidableEq, Repr

/-- The store that `Do` reads from. A restore never creates a sidecar. -/
def openStore (K : Codec) (s : Start) (sidecar : Option Bytes) (db : Db) : Except RestoreErr Store :=
  if !s.queryOk then .error .database
  else
    match (bringUp K (newEncryptionState s.encrypt s.encryptPass) ⟨hasAnyEncryptedFiles db, false⟩
      s.rand s.requests sidecar).1 with
    | (some e, _) => .error (.initEncryption e)
    | (none, es) => .ok { s.target with enc := es }

/-- What an item meets outside the program: if its directory can be made and its
link or its file be written, and if the restore is cancelled before it is there. -/
structure Surroundings where
  mkdirOk : Bool
  symlinkOk : Bool
  fileOk : Bool
  ctxDone : Bool
  deriving DecidableEq, Repr

/-- The end of `restoreOne`, with what it has written to a file. -/
inductive Outcome
  | done (written : Option Bytes)
  | failed
  | cancelled
  deriving DecidableEq, Repr

def restoreOne (C : Cloud) (st : Store) (item : RemoteFile) (b : Bucket) (env : Surroundings) : Outcome :=
  match item.props.type with
  | .dir => if env.mkdirOk then .done none else .failed
  | .symlink => if env.mkdirOk && env.symlinkOk then .done none else .failed
  | .file =>
      if !env.mkdirOk then .failed
      else if env.ctxDone then .cancelled
      else
        match st.get C (restoreRecord item) item.version item.remoteVersion b with
        | .error _ => .failed
        | .ok written => if env.fileOk then .done written else .failed
  | .unknown => .failed

/-- The rows that `fetchItems` joins for a job; the target plays no part. -/
def jobItems (db : Db) (jobId : Str) : List RemoteFile :=
  db.remoteFiles.flatMap fun r =>
    (db.backupCollections.filter fun c => c.fileUuid = r.uuid ∧ c.jobId = jobId).map fun _ => r

theorem mem_jobItems {db : Db} {jobId : Str} {r : RemoteFile} (h : r ∈ jobItems db jobId) :
    r ∈ db.remoteFiles := by
  obtain ⟨r', hr', hmap⟩ := List.mem_flatMap.mp h
  obtain ⟨_, -, rfl⟩ := List.mem_map.mp hmap
  exact hr'

/-- A file that the restore of a job has to bring back: its row, and the upload
behind it, which the store returns. -/
structure Returned (C : Cloud) (s : Start) (jobId : Str) (l : Log) (r : RemoteFile) (u : Upload) : Prop where
  item : r ∈ jobItems l.world.db jobId
  type : r.props.type = .file
  deleteMarker : r.deleteMarker = false
  upload : lastUpload l.uploads r.localPath r.target r.version = some u
  find : s.target.find C r.localPath r.version r.remoteVersion (l.world.buckets s.target.name) = .ok u.body

/-- Every file row of the job stands for an upload, and is restored with its
content if the store returns what was sent. -/
def RestoresFiles (C : Cloud) (K : Codec) (sidecars : Str → Option Bytes) (s : Start) (jobId : Str)
    (env : RemoteFile → Surroundings) (l : Log) : Prop :=
  (∀ r ∈ jobItems l.world.db jobId, r.props.type = .file → r.deleteMarker = false →
    ∃ u, lastUpload l.uploads r.localPath r.target r.version = some u) ∧
  ∀ r u, Returned C s jobId l r u → ∃ st, openStore K s (sidecars s.target.name) l.world.db = .ok st ∧
    restoreOne C st r (l.world.buckets s.target.name) (env r) = .done (some u.content)

/-- The store has what it takes for a row: no key is needed, or the one of the
keystore that the row was encrypted with. -/
def HasKeyFor (K : Codec) (sidecars : Str → Option Bytes) (s : Start) (r : RemoteFile) : Prop :=
  if s.encrypt then
    s.encryptPass ≠ [] ∧ s.requests.fetchOk = true ∧
      ∃ keys, targetKeys K s.encryptPass sidecars s.target.name = some keys ∧
        (r.props.encrypted = true →
          (targetKeys K s.encryptPass sidecars r.target).map Prod.snd = some keys.2)
  else r.props.encrypted = false

/-- The uuid of a keystore, which is drawn at random, belongs to one key. -/
def UniqueKeystores (K : Codec) (password : Bytes) (sidecars : Str → Option Bytes) : Prop :=
  ∀ t t' kek kek' uuid, targetKeys K password sidecars t = some (kek, uuid) →
    targetKeys K password sidecars t' = some (kek', uuid) → kek = kek'

/-- Nothing stands in the way of a file. -/
def Surroundings.clear (env : Surroundings) : Prop :=
  env.mkdirOk = true ∧ env.ctxDone = false ∧ env.fileOk = true

/-! ### What was sent -/

section

variable {A : LawfulAead} {keys : Str → Option (Bytes × Block keystoreUUIDSize)} {r : RemoteFile}
  {u : Upload}

/-- With the keys of its target, or if none are needed, a file can be read. -/
theorem decode_sentAs (hsent : SentAs A.toAead keys r u) {es : EncryptionState}
    (hkeys : r.props.encrypted = true → keys r.target = some (es.kek, es.keystoreUUID) ∧
      es.kek.length = kekSize) :
    decode A.toAead es r.props.encrypted u.body = .ok u.content := by
  obtain ⟨es', rand, hen, hkeys', hfits, hbody⟩ := hsent
  have hsame : es'.enabled = true → es'.kek = es.kek ∧ es'.keystoreUUID = es.keystoreUUID ∧
      es.kek.length = kekSize := by
    intro henabled
    obtain ⟨hkey, hlen⟩ := hkeys (hen ▸ henabled)
    have heq := Option.some.inj ((hkeys' henabled).symm.trans hkey)
    exact ⟨congrArg Prod.fst heq, congrArg Prod.snd heq, hlen⟩
  obtain ⟨body, hwire, hdecode⟩ := decode_wireBody A hsame hfits rand
  obtain rfl : body = u.body := Except.ok.inj (hwire.symm.trans hbody)
  rw [← hen]
  exact hdecode

theorem decode_sentAs_error (hsent : SentAs A.toAead keys r u)
    (hlen : ∀ t kek uuid, keys t = some (kek, uuid) → kek.length = kekSize)
    (henc : r.props.encrypted = true) (es : EncryptionState)
    (hne : (keys r.target).map Prod.snd ≠ some es.keystoreUUID) :
    ∃ e, decode A.toAead es r.props.encrypted u.body = .error e := by
  obtain ⟨es', rand, hen, hkeys, hfits, hbody⟩ := hsent
  have henabled : es'.enabled = true := hen.trans henc
  have hkey := hkeys henabled
  obtain ⟨wrappedCEK, -, hwire⟩ := wireBody_encrypted A henabled (hlen _ _ _ hkey) hfits rand
  obtain hstream := Except.ok.inj (hbody.symm.trans hwire)
  rw [henc, hstream]
  refine decode_otherKeystore A.toAead ?_ rand.wrapNonce wrappedCEK rand.cek.1 rand.noncePrefix u.content
  intro heq
  exact hne (by rw [hkey, ← heq]; rfl)

end

/-! ### The store and the item -/

section

variable {C : Cloud} {K : Codec} {sidecars : Str → Option Bytes} {s : Start} {db : Db} {st : Store}

theorem targetKeys_eq_some {password : Bytes} {target : Str} {keys : Bytes × Block keystoreUUIDSize}
    (h : targetKeys K password sidecars target = some keys) :
    ∃ body, sidecars target = some body ∧ keysOf K password body = some keys :=
  Option.bind_eq_some_iff.mp h

theorem openStore_off (hencrypt : s.encrypt = false) :
    openStore K s (sidecars s.target.name) db = .ok st ↔
      s.queryOk = true ∧ st = { s.target with enc := newEncryptionState false s.encryptPass } := by
  cases hquery : s.queryOk with
  | false => simp [openStore, hquery]
  | true =>
      simp only [openStore, hquery, hencrypt, bringUp_disabled, Bool.not_true, Bool.false_eq_true,
        if_false, Except.ok.injEq, true_and]
      exact eq_comm

theorem openStore_on (hencrypt : s.encrypt = true) :
    openStore K s (sidecars s.target.name) db = .ok st ↔
      s.queryOk = true ∧ s.encryptPass ≠ [] ∧ s.requests.fetchOk = true ∧
        ∃ keys, targetKeys K s.encryptPass sidecars s.target.name = some keys ∧
          st = { s.target with enc := ⟨true, [], keys.1, keys.2, true⟩ } := by
  cases hquery : s.queryOk with
  | false => simp [openStore, hquery]
  | true =>
      simp only [openStore, hquery, hencrypt, Bool.not_true, Bool.false_eq_true, if_false, true_and]
      by_cases hpassword : s.encryptPass = []
      · simp [hpassword, bringUp_emptyPassword]
      · cases hfetch : s.requests.fetchOk with
        | false => simp [bringUp_fetchFailed hpassword hfetch]
        | true =>
            cases hside : sidecars s.target.name with
            | none => simp [bringUp_missing hpassword hfetch, targetKeys, hside]
            | some body =>
                cases hkeys : keysOf K s.encryptPass body with
                | none =>
                    obtain ⟨e, -, hup⟩ := @bringUp_notOpened K s.encryptPass s.rand s.requests hpassword
                      hfetch ⟨hasAnyEncryptedFiles db, false⟩ body hkeys
                    simp [hup, targetKeys, hside, hkeys]
                | some keys =>
                    rw [bringUp_found hpassword hfetch _ hkeys]
                    simp only [hpassword, ne_eq, not_false_eq_true, targetKeys, hside, Option.bind_some,
                      hkeys, Option.some.injEq, exists_eq_left', true_and, Except.ok.injEq]
                    exact eq_comm

theorem restoreOne_file {r : RemoteFile} {b : Bucket} {env : Surroundings} {body content : Bytes}
    (htype : r.props.type = .file)
    (hfind : st.find C r.localPath r.version r.remoteVersion b = .ok body) :
    restoreOne C st r b env = .done (some content) ↔
      env.clear ∧ decode C.aead.toAead st.enc r.props.encrypted body = .ok content := by
  have hget : st.get C (restoreRecord r) r.version r.remoteVersion b =
      (decode C.aead.toAead st.enc r.props.encrypted body).map some := by
    simp [Store.get, restoreRecord, htype, hfind]
  simp only [restoreOne, htype, hget, Surroundings.clear]
  cases env.mkdirOk <;> cases env.ctxDone <;> cases env.fileOk <;>
    cases decode C.aead.toAead st.enc r.props.encrypted body <;> simp [Except.map]

end

theorem restores_iff {C : Cloud} {K : Codec} {sidecars : Str → Option Bytes} {s : Start} {db : Db}
    {r : RemoteFile} {u : Upload} {b : Bucket} {env : Surroundings}
    (hsent : SentAs C.aead.toAead (targetKeys K s.encryptPass sidecars) r u)
    (hunique : UniqueKeystores K s.encryptPass sidecars)
    (htype : r.props.type = .file)
    (hfind : s.target.find C r.localPath r.version r.remoteVersion b = .ok u.body) :
    (∃ st, openStore K s (sidecars s.target.name) db = .ok st ∧
      restoreOne C st r b env = .done (some u.content)) ↔
    env.clear ∧ s.queryOk = true ∧ HasKeyFor K sidecars s r := by
  have hlen : ∀ t kek uuid, targetKeys K s.encryptPass sidecars t = some (kek, uuid) →
      kek.length = kekSize := by
    intro t kek uuid hkeys
    obtain ⟨body, -, hkeysOf⟩ := targetKeys_eq_some hkeys
    exact length_keysOf hkeysOf
  cases hencrypt : s.encrypt with
  | false =>
      simp only [HasKeyFor, hencrypt, Bool.false_eq_true, if_false]
      constructor
      · rintro ⟨st, hopen, hdone⟩
        obtain ⟨hquery, rfl⟩ := (openStore_off hencrypt).mp hopen
        obtain ⟨henv, hdecode⟩ := (restoreOne_file htype (by exact hfind)).mp hdone
        refine ⟨henv, hquery, ?_⟩
        rw [← Bool.not_eq_true]
        intro henc
        rw [henc] at hdecode
        obtain ⟨e, herr⟩ := decode_noKey C.aead.toAead
          (length_kek_newEncryptionState false s.encryptPass) u.body
        cases hdecode.symm.trans herr
      · rintro ⟨henv, hquery, henc⟩
        refine ⟨_, (openStore_off hencrypt).mpr ⟨hquery, rfl⟩, ?_⟩
        refine (restoreOne_file htype (by exact hfind)).mpr ⟨henv, decode_sentAs hsent ?_⟩
        simp [henc]
  | true =>
      simp only [HasKeyFor, hencrypt, if_true]
      constructor
      · rintro ⟨st, hopen, hdone⟩
        obtain ⟨hquery, hpassword, hfetch, keys, hkeys, rfl⟩ := (openStore_on hencrypt).mp hopen
        obtain ⟨henv, hdecode⟩ := (restoreOne_file htype (by exact hfind)).mp hdone
        refine ⟨henv, hquery, hpassword, hfetch, keys, hkeys, ?_⟩
        intro henc
        by_contra hne
        obtain ⟨e, herr⟩ := decode_sentAs_error hsent hlen henc ⟨true, [], keys.1, keys.2, true⟩ hne
        cases hdecode.symm.trans herr
      · rintro ⟨henv, hquery, hpassword, hfetch, keys, hkeys, hsame⟩
        refine ⟨_, (openStore_on hencrypt).mpr ⟨hquery, hpassword, hfetch, keys, hkeys, rfl⟩, ?_⟩
        refine (restoreOne_file htype (by exact hfind)).mpr ⟨henv, decode_sentAs hsent ?_⟩
        intro henc
        refine ⟨?_, hlen _ _ _ hkeys⟩
        obtain ⟨⟨kek, uuid⟩, hkeys', huuid⟩ := Option.map_eq_some_iff.mp (hsame henc)
        obtain rfl : uuid = keys.2 := huuid
        rw [hkeys', hunique _ _ _ _ _ hkeys' hkeys]

/-- The files of a job are restored, if the store has the keys for them and
nothing else stands in the way; and only then. -/
theorem restoresFiles_iff (C : Cloud) (K : Codec) (pathMatch : Str → Str → Option Bool)
    (sidecars : Str → Option Bytes) (s : Start) (jobId : Str) (env : RemoteFile → Surroundings) {l : Log}
    (hrun : Reaches (fun a l => InKeeping (targetKeys K s.encryptPass sidecars) a ∧
      FollowsFile a l.world) (logStep C pathMatch) Log.empty l)
    (hunique : UniqueKeystores K s.encryptPass sidecars) :
    RestoresFiles C K sidecars s jobId env l ↔
      ∀ r u, Returned C s jobId l r u → (env r).clear ∧ s.queryOk = true ∧ HasKeyFor K sidecars s r := by
  have hlog := logged_reaches hrun
  have hsent : ∀ r u, Returned C s jobId l r u →
      SentAs C.aead.toAead (targetKeys K s.encryptPass sidecars) r u := by
    intro r u hret
    obtain ⟨u', hlast, hsent⟩ := hlog.rows r (mem_jobItems hret.item) hret.type hret.deleteMarker
    obtain rfl : u' = u := Option.some.inj (hlast.symm.trans hret.upload)
    exact hsent
  constructor
  · rintro ⟨-, hall⟩ r u hret
    exact (restores_iff (hsent r u hret) hunique hret.type hret.find).mp (hall r u hret)
  · intro hall
    refine ⟨?_, ?_⟩
    · intro r hr htype hdm
      obtain ⟨u, hlast, -⟩ := hlog.rows r (mem_jobItems hr) htype hdm
      exact ⟨u, hlast⟩
    · intro r u hret
      exact (restores_iff (hsent r u hret) hunique hret.type hret.find).mpr (hall r u hret)

def oneSidecar : Str → Option Bytes := fun _ => some [1]

def smoothStart (encrypt : Bool) : Start :=
  ⟨encrypt, [5], plainStore .awsS3, true, ⟨true, true⟩, constDraws 1⟩

def smooth : Surroundings := ⟨true, true, true, false⟩

theorem targetKeys_oneSidecar (target : Str) : targetKeys plainCodec [5] oneSidecar target =
    some (List.replicate kekSize 5, ⟨List.replicate keystoreUUIDSize 1, by simp⟩) := by
  change keysOf plainCodec [5] [1] = _
  decide

theorem encryptedUpload_inKeeping : InKeeping (targetKeys plainCodec [5] oneSidecar) encryptedUpload := by
  refine ⟨by simp [smoothItem], ?_⟩
  intro t ht
  obtain rfl := List.mem_singleton.mp ht
  exact ⟨rfl, fun _ => targetKeys_oneSidecar _⟩

def switchedOff : Action :=
  .walk plainConfig "second".toList
    (smoothItem "/file" (smallFile 1 1) [smoothTarget (plainStore .awsS3) 8 "second"])

theorem switchedOff_inKeeping : InKeeping (targetKeys plainCodec [5] oneSidecar) switchedOff := by
  refine ⟨by simp [smoothItem], ?_⟩
  intro t ht
  obtain rfl := List.mem_singleton.mp ht
  exact ⟨rfl, nofun⟩

def switchedLog : Log :=
  logStep plainCloud (fun _ _ => none) switchedOff
    (logStep plainCloud (fun _ _ => none) encryptedUpload Log.empty)

/-- The file of the first backup is restored if encryption is on again. -/
theorem restoresFiles_switchedOn :
    RestoresFiles plainCloud plainCodec oneSidecar (smoothStart true) "first".toList (fun _ => smooth)
      switchedLog := by
  refine (restoresFiles_iff plainCloud plainCodec (fun _ _ => none) oneSidecar (smoothStart true)
    "first".toList (fun _ => smooth) (.step _ (.step _ .refl ⟨encryptedUpload_inKeeping, ?_⟩)
      ⟨switchedOff_inKeeping, ?_⟩) ?_).mpr ?_
  · rintro cfg jobUuid it rec ⟨⟩ hdecide
    cases hdecide
  · rintro cfg jobUuid it rec ⟨⟩ hdecide
    -- the content is sent again
    have hcontent : (decideItem plainConfig "second".toList (smoothItem "/file" (smallFile 1 1)
        [smoothTarget (plainStore .awsS3) 8 "second"])
        (logStep plainCloud (fun _ _ => none) encryptedUpload Log.empty).world.db).operation =
          some .contentUpdate := by
      decide +kernel
    rw [hdecide] at hcontent
    cases hcontent
  · intro t t' kek kek' uuid hkeys hkeys'
    cases hkeys.symm.trans (targetKeys_oneSidecar t)
    cases hkeys'.symm.trans (targetKeys_oneSidecar t')
    rfl
  · intro r u _
    refine ⟨⟨rfl, rfl, rfl⟩, rfl, ?_⟩
    simp only [HasKeyFor, smoothStart, if_true]
    refine ⟨by simp, trivial, _, targetKeys_oneSidecar _, fun _ => ?_⟩
    rw [targetKeys_oneSidecar]
    rfl

def encryptedRow : RemoteFile :=
  ⟨"first".toList, "/file".toList, "target".toList, "first".toList, false, 1, "0".toList,
    ⟨.file, [], 1, 1, 1, [], [], [], [], true⟩⟩

/-- It is not restored as long as encryption is off. -/
theorem restoresFiles_switchedOff : ¬ ∀ (encrypt : Bool) (l : Log),
    Reaches (fun a _ => InKeeping (targetKeys plainCodec [5] oneSidecar) a)
      (logStep plainCloud fun _ _ => none) Log.empty l →
    RestoresFiles plainCloud plainCodec oneSidecar (smoothStart encrypt) "first".toList (fun _ => smooth) l := by
  intro hall
  obtain ⟨huploads, hfiles⟩ := hall false switchedLog
    (.step _ (.step _ .refl encryptedUpload_inKeeping) switchedOff_inKeeping)
  have hitem : encryptedRow ∈ jobItems switchedLog.world.db "first".toList := by decide +kernel
  obtain ⟨u, hlast⟩ := huploads encryptedRow hitem rfl rfl
  have hbody : (lastUpload switchedLog.uploads encryptedRow.localPath encryptedRow.target
        encryptedRow.version).map Upload.body =
      ((smoothStart false).target.find plainCloud encryptedRow.localPath encryptedRow.version
        encryptedRow.remoteVersion (switchedLog.world.buckets (smoothStart false).target.name)).toOption := by
    decide +kernel
  rw [hlast] at hbody
  cases hfind : (smoothStart false).target.find plainCloud encryptedRow.localPath encryptedRow.version
      encryptedRow.remoteVersion (switchedLog.world.buckets (smoothStart false).target.name) with
  | error e =>
      rw [hfind] at hbody
      cases hbody
  | ok body =>
      rw [hfind] at hbody
      obtain rfl : u.body = body := Option.some.inj hbody
      obtain ⟨st, hopen, hdone⟩ := hfiles encryptedRow u ⟨hitem, rfl, rfl, hlast, hfind⟩
      obtain ⟨-, rfl⟩ := (openStore_off rfl).mp hopen
      obtain ⟨-, hdecode⟩ := (restoreOne_file rfl (by exact hfind)).mp hdone
      obtain ⟨e, herr⟩ := decode_noKey plainCloud.aead.toAead
        (length_kek_newEncryptionState false [5]) u.body
      cases hdecode.symm.trans herr

end CloudBackup.Restore
