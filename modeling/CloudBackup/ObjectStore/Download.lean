import CloudBackup.Library.FileWrites
import CloudBackup.ObjectStore.Store
import Mathlib.Data.UInt

/-!
`Get` of the four stores, call by call. `Store.get` says which bytes a download is about;
here is what happens to the file at the restore path on the way: when it is created, what
is written and what is left of it when something goes wrong. Every store writes to the
restore path itself, and none removes the file or brings the old one back.

The outside of a call is its `Incoming`. The body of an object is any `Source`, so it may
be cut off or changed, and it may break off with an error. What `Get` does to the file does
not depend on what is in it, so a call is its list of operations with what it returns.
-/

namespace CloudBackup.ObjectStore

open ByteStream Cbcrypto Database FileWrites

inductive DownloadErr
  | badVersion
  | request
  | create
  | header (e : GetErr)
  | write
  | read (e : CryptoErr)
  deriving DecidableEq, Repr

/-- `(cancelled, err)`. -/
structure GetResult where
  cancelled : Bool
  err : Option DownloadErr
  deriving DecidableEq, Repr

namespace GetResult

def done : GetResult := ⟨false, none⟩

def stopped : GetResult := ⟨true, none⟩

def failed (e : DownloadErr) : GetResult := ⟨false, some e⟩

def Unsuccessful (ret : GetResult) : Prop := ret.cancelled = true ∨ ret.err ≠ none

theorem not_unsuccessful_done : ¬ done.Unsuccessful := by
  rintro (h | h)
  · cases h
  · exact h rfl

end GetResult

/-- The answer to the request for an object. Only the test store tells an object that is
missing from a failure. -/
inductive Response
  | failed
  | missing
  | body (src : Source UInt8)

/-- The outside of one `Get`: if the pacing of the test store is cancelled, the answer to
the request, if the file can be created and how much of it can be written (`none` if all
of it), the number of calls of `Read` that we look at, the writes of the S3 download manager
and if it succeeds, and if the context is cancelled by the time an error is looked at. -/
structure Incoming where
  throttled : Bool
  response : Response
  createOk : Bool
  room : Option ℕ
  calls : ℕ
  parts : List (ℕ × Bytes)
  downloadOk : Bool
  ctxCanceled : Bool

/-- What `Get` does to the file, and what it returns unless it is still copying. -/
abbrev Attempt := List (FileOp UInt8) × Option GetResult

/-! ### The body of an object -/

inductive Body
  | plain (src : Source UInt8)
  | decrypting (dr : DecryptingReader)

section

variable (A : Aead)

def Body.read : Body → ℕ → Bytes × Option CryptoErr × Body
  | .plain src, n => ((src.read n).1, (src.read n).2.1.map .ofRead, .plain (src.read n).2.2)
  | .decrypting dr, n => ((dr.read A n).1, (dr.read A n).2.1, .decrypting (dr.read A n).2.2)

def openBody (es : EncryptionState) (encrypted : Bool) (src : Source UInt8) : Except GetErr Body :=
  if !encrypted then .ok (.plain src)
  else
    match newDecryptingReader src es.kek with
    | .error e => .error (.wrap e)
    | .ok dr =>
        match dr.peekHeader A with
        | (.error e, _) => .error (.parseHeader e)
        | (.ok hdr, dr) =>
            if hdr.map (·.keystoreUUID) ≠ some es.keystoreUUID then .error .keystoreMismatch
            else .ok (.decrypting dr)

inductive CopyEnd
  | eof
  | write
  | read (e : CryptoErr)
  deriving DecidableEq, Repr

def cut (room : Option ℕ) (c : Bytes) : Bytes := c.take (room.getD c.length)

/-- `Write`, which is only called if something was read. -/
def writeOps (off : ℕ) (c : Bytes) : List (FileOp UInt8) := if c.isEmpty then [] else [.writeAt off c]

/-- `io.Copy`, or the loop of Azure: from the offset on, with a buffer of length `n`. A
write that fails has written what there was room for. -/
def copyBody (n : ℕ) (room : Option ℕ) : ℕ → ℕ → Body → List (FileOp UInt8) × Option CopyEnd
  | 0, _, _ => ([], none)
  | calls + 1, off, body =>
      let c := (body.read A n).1
      let fit := c.take (room.getD (off + c.length) - off)
      if fit.length < c.length then (writeOps off fit, some .write)
      else
        match (body.read A n).2.1 with
        | some .eof => (writeOps off c, some .eof)
        | some e => (writeOps off c, some (.read e))
        | none =>
            let rest := copyBody n room calls (off + c.length) (body.read A n).2.2
            (writeOps off c ++ rest.1, rest.2)

def restoreBody (es : EncryptionState) (encrypted : Bool) (n : ℕ) (inc : Incoming) (src : Source UInt8)
    (onEnd : CopyEnd → GetResult) : Attempt :=
  match openBody A es encrypted src with
  | .error e => ([], some (.failed (.header e)))
  | .ok body =>
      let copied := copyBody A n inc.room inc.calls 0 body
      (copied.1, copied.2.map onEnd)

/-! ### The stores -/

def Incoming.unlessCanceled (inc : Incoming) (e : DownloadErr) : GetResult :=
  if inc.ctxCanceled then .stopped else .failed e

def Incoming.copyEnd (inc : Incoming) : CopyEnd → GetResult
  | .eof => .done
  | .write => inc.unlessCanceled .write
  | .read e => inc.unlessCanceled (.read e)

def Incoming.azureEnd (inc : Incoming) : CopyEnd → GetResult
  | .eof => .done
  | .write => .failed .write
  | .read e => inc.unlessCanceled (.read e)

def testNullEnd : CopyEnd → GetResult
  | .eof => .done
  | .write => .failed .write
  | .read e => .failed (.read e)

def azureBufferSize : ℕ := 1024 * 1024

/-- `os.Create`, and what comes after it if it succeeds. -/
def createThen (inc : Incoming) (next : Attempt) : Attempt :=
  if inc.createOk then (.create :: next.1, next.2) else ([], some (.failed .create))

def downloadMultipart (inc : Incoming) : Attempt :=
  (inc.parts.map fun part => .writeAt part.1 part.2,
    some (if inc.downloadOk then .done else inc.unlessCanceled .request))

def downloadEncrypted (es : EncryptionState) (inc : Incoming) : Attempt :=
  match inc.response with
  | .body src => restoreBody A es true copyBufferSize inc src inc.copyEnd
  | _ => ([], some (inc.unlessCanceled .request))

/-- `Get` of S3: the file is created before anything is asked for. -/
def getAwsS3 (es : EncryptionState) (rec : Record) (inc : Incoming) : Attempt :=
  if rec.props.type ≠ .file then ([], some .done)
  else
    createThen inc
      (if rec.props.encrypted then downloadEncrypted A es inc else downloadMultipart inc)

/-- `Get` of GCP. A request that fails is an error even if the context is cancelled. -/
def getGcpStorage (es : EncryptionState) (rec : Record) (remoteVersion : Str) (inc : Incoming) :
    Attempt :=
  if rec.props.type ≠ .file then ([], some .done)
  else
    match parseInt remoteVersion, inc.response with
    | none, _ => ([], some (.failed .badVersion))
    | some _, .body src =>
        createThen inc (restoreBody A es rec.props.encrypted copyBufferSize inc src inc.copyEnd)
    | some _, _ => ([], some (.failed .request))

/-- `Get` of Azure. -/
def getAzureBlob (es : EncryptionState) (rec : Record) (inc : Incoming) : Attempt :=
  if rec.props.type ≠ .file then ([], some .done)
  else
    match inc.response with
    | .body src =>
        createThen inc (restoreBody A es rec.props.encrypted azureBufferSize inc src inc.azureEnd)
    | _ => ([], some (inc.unlessCanceled .request))

/-- `Get` of the test store. -/
def getTestNull (es : EncryptionState) (rec : Record) (inc : Incoming) : Attempt :=
  if rec.props.type ≠ .file then ([], some .done)
  else if inc.throttled then ([], some .stopped)
  else
    match inc.response with
    | .failed => ([], some (.failed .request))
    | .missing => ([], some .done)
    | .body src =>
        createThen inc (restoreBody A es rec.props.encrypted copyBufferSize inc src testNullEnd)

/-- `Get`, with what it does to the file at the restore path. -/
def Store.download (st : Store) (rec : Record) (remoteVersion : Str) (inc : Incoming) : Attempt :=
  match st.kind with
  | .awsS3 => getAwsS3 A st.enc rec inc
  | .gcpStorage => getGcpStorage A st.enc rec remoteVersion inc
  | .azureBlob => getAzureBlob A st.enc rec inc
  | .testNull => getTestNull A st.enc rec inc

/-! ### What is left of the file -/

theorem runOps_writeOps (x c : Bytes) : runOps (writeOps x.length c) (some x) = some (x ++ c) := by
  unfold writeOps
  split
  · rename_i hc
    simp [List.isEmpty_iff.mp hc]
  · rw [runOps_cons, run_writeAt, overlay_length, runOps_nil]

theorem cut_of_length_le {room : Option ℕ} {x : Bytes} (h : x.length ≤ room.getD x.length) :
    cut room x = x :=
  List.take_of_length_le h

/-- Of a chunk that does not fit, and of what follows it, the file takes what there is room
for. -/
theorem cut_append_of_full {k : ℕ} {x c : Bytes} (hx : x.length ≤ k) (hfull : k - x.length ≤ c.length)
    (d : Bytes) : cut (some k) (x ++ (c ++ d)) = x ++ c.take (k - x.length) := by
  rw [cut, Option.getD_some, List.take_append, List.take_of_length_le hx,
    List.take_append_of_le_length hfull]

/-- The file holds what it held before, and then what was read as far as it could be
written. -/
theorem runOps_copyBody (n : ℕ) (room : Option ℕ) (calls : ℕ) {x : Bytes}
    (hx : x.length ≤ room.getD x.length) (body : Body) :
    runOps (copyBody A n room calls x.length body).1 (some x) =
      some (cut room (x ++ (drive (Body.read A) (List.replicate calls n) body).1)) := by
  induction calls generalizing x body with
  | zero => simp [copyBody, drive, cut_of_length_le hx]
  | succ calls ih =>
      rcases hread : body.read A n with ⟨c, e, body'⟩
      simp only [copyBody, hread, List.replicate_succ, drive]
      split
      · -- the write that fails: the file is full
        rename_i hshort
        rw [List.length_take] at hshort
        obtain ⟨k, rfl⟩ : ∃ k, room = some k := by
          cases room with
          | none => simp at hshort
          | some k => exact ⟨k, rfl⟩
        simp only [Option.getD_some] at hx hshort ⊢
        have htake := cut_append_of_full hx (c := c) (by omega)
        rw [runOps_writeOps]
        cases e with
        | none => rw [htake]
        | some e => rw [← htake [], List.append_nil]
      · rename_i hfit
        have hfull : (x ++ c).length ≤ room.getD (x ++ c).length := by
          cases room with
          | none => simp
          | some k =>
              simp only [Option.getD_some, List.length_take, List.length_append] at hfit hx ⊢
              omega
        cases e with
        | none =>
            have hrest := ih hfull body'
            rw [List.length_append] at hrest
            simp only [runOps_append, runOps_writeOps, hrest, List.append_assoc]
        | some e =>
            cases e <;> simp only [runOps_writeOps, cut_of_length_le hfull]

def plaintext (es : EncryptionState) (encrypted : Bool) (n calls : ℕ) (src : Source UInt8) : Bytes :=
  match openBody A es encrypted src with
  | .error _ => []
  | .ok body => (drive (Body.read A) (List.replicate calls n) body).1

theorem runOps_restoreBody (es : EncryptionState) (encrypted : Bool) (n : ℕ) (inc : Incoming)
    (src : Source UInt8) (onEnd : CopyEnd → GetResult) :
    runOps (restoreBody A es encrypted n inc src onEnd).1 (some []) =
      some (cut inc.room (plaintext A es encrypted n inc.calls src)) := by
  unfold restoreBody plaintext
  cases openBody A es encrypted src with
  | error e => simp [cut]
  | ok body => exact runOps_copyBody A n inc.room inc.calls (x := []) (by simp) body

def Response.src? : Response → Option (Source UInt8)
  | .body src => some src
  | _ => none

def Incoming.streamed (inc : Incoming) (es : EncryptionState) (encrypted : Bool) (n : ℕ) : Bytes :=
  match inc.response with
  | .body src => cut inc.room (plaintext A es encrypted n inc.calls src)
  | _ => []

def StoreKind.bufferSize : StoreKind → ℕ
  | .azureBlob => azureBufferSize
  | _ => copyBufferSize

namespace Store

variable (st : Store) (rec : Record) (remoteVersion : Str) (inc : Incoming)

/-- `Get` gives up before the file is created, or cannot create it. S3 asks for nothing
before that. -/
def StopsBeforeCreate : Prop :=
  match st.kind with
  | .awsS3 => inc.createOk = false
  | .gcpStorage =>
      parseInt remoteVersion = none ∨ inc.response.src?.isNone = true ∨ inc.createOk = false
  | .azureBlob => inc.response.src?.isNone = true ∨ inc.createOk = false
  | .testNull =>
      inc.throttled = true ∨ inc.response.src?.isNone = true ∨ inc.createOk = false

/-- What arrives at the restore path: the parts of the S3 manager, or the plaintext of the
body that the request is answered with. -/
def arrived : Bytes :=
  if st.kind = .awsS3 ∧ rec.props.encrypted = false then
    inc.parts.foldl (fun x part => overlay x part.1 part.2) []
  else inc.streamed A st.enc rec.props.encrypted st.kind.bufferSize

end Store

/-- The attempt leaves the file alone if it stops before it creates it, and otherwise the
bytes `left` in it. -/
def LeavesUnless (stops : Prop) (left : Bytes) (attempt : Attempt) : Prop :=
  ∀ before, (stops → runOps attempt.1 before = before) ∧
    (¬ stops → runOps attempt.1 before = some left)

theorem leavesUnless_createThen {inc : Incoming} {next : Attempt} {left : Bytes}
    (h : runOps next.1 (some []) = some left) :
    LeavesUnless (inc.createOk = false) left (createThen inc next) := by
  intro before
  unfold createThen
  cases inc.createOk with
  | false => exact ⟨fun _ => rfl, fun hcreate => absurd rfl hcreate⟩
  | true =>
      refine ⟨fun hcreate => absurd hcreate (by simp), fun _ => ?_⟩
      rw [if_pos rfl, runOps_cons, run_create, h]

theorem LeavesUnless.or {p q : Prop} {left : Bytes} {attempt : Attempt} (hp : p → attempt.1 = [])
    (hq : ¬ p → LeavesUnless q left attempt) : LeavesUnless (p ∨ q) left attempt := by
  intro before
  by_cases h : p
  · exact ⟨fun _ => by rw [hp h, runOps_nil], fun hnot => absurd (.inl h) hnot⟩
  · rw [or_iff_right h]
    exact hq h before

/-- A store that streams creates the file once the request is answered. -/
theorem leavesUnless_streamed {es : EncryptionState} {encrypted : Bool} {n : ℕ} {inc : Incoming}
    {attempt : Attempt} (onEnd : CopyEnd → GetResult)
    (hbody : ∀ src, inc.response = .body src →
      attempt = createThen inc (restoreBody A es encrypted n inc src onEnd))
    (hnone : inc.response.src?.isNone = true → attempt.1 = []) :
    LeavesUnless (inc.response.src?.isNone = true ∨ inc.createOk = false)
      (inc.streamed A es encrypted n) attempt := by
  refine .or hnone fun hsome => ?_
  unfold Incoming.streamed
  cases hresp : inc.response with
  | body src =>
      rw [hbody src hresp]
      exact leavesUnless_createThen (runOps_restoreBody A es encrypted n inc src onEnd)
  | failed => simp [hresp, Response.src?] at hsome
  | missing => simp [hresp, Response.src?] at hsome

theorem runOps_parts (parts : List (ℕ × Bytes)) (x : Bytes) :
    runOps (parts.map fun part => .writeAt part.1 part.2) (some x) =
      some (parts.foldl (fun x part => overlay x part.1 part.2) x) := by
  induction parts generalizing x with
  | nil => rfl
  | cons part parts ih => exact ih _

theorem runOps_downloadEncrypted (es : EncryptionState) (inc : Incoming) :
    runOps (downloadEncrypted A es inc).1 (some []) = some (inc.streamed A es true copyBufferSize) := by
  unfold downloadEncrypted Incoming.streamed
  cases inc.response with
  | body src => exact runOps_restoreBody A es true copyBufferSize inc src inc.copyEnd
  | failed => rfl
  | missing => rfl

namespace Store

variable (st : Store) (rec : Record) (remoteVersion : Str) (inc : Incoming)

theorem leavesUnless_download (hfile : rec.props.type = .file) :
    LeavesUnless (st.StopsBeforeCreate remoteVersion inc) (st.arrived A rec inc)
      (st.download A rec remoteVersion inc) := by
  obtain ⟨kind, name, storePrefix, enc⟩ := st
  have hget : ¬ rec.props.type ≠ .file := not_not.mpr hfile
  cases kind with
  | awsS3 =>
      simp only [download, getAwsS3, if_neg hget, StopsBeforeCreate, arrived, true_and]
      cases rec.props.encrypted with
      | false => exact leavesUnless_createThen (runOps_parts inc.parts [])
      | true => exact leavesUnless_createThen (runOps_downloadEncrypted A enc inc)
  | gcpStorage =>
      simp only [download, getGcpStorage, if_neg hget, StopsBeforeCreate]
      refine .or (fun hparse => by rw [hparse]) fun hparse => ?_
      obtain ⟨g, hparse⟩ := Option.ne_none_iff_exists'.mp hparse
      refine leavesUnless_streamed A inc.copyEnd (fun src hresp => by rw [hparse, hresp]; rfl) fun hnone => ?_
      cases hresp : inc.response with
      | body src => simp [hresp, Response.src?] at hnone
      | failed | missing => rw [hparse]
  | azureBlob =>
      simp only [download, getAzureBlob, if_neg hget, StopsBeforeCreate]
      refine leavesUnless_streamed A inc.azureEnd (fun src hresp => by rw [hresp]; rfl) fun hnone => ?_
      cases hresp : inc.response with
      | body src => simp [hresp, Response.src?] at hnone
      | failed | missing => rfl
  | testNull =>
      simp only [download, getTestNull, if_neg hget, StopsBeforeCreate]
      refine .or (fun hthrottled => by rw [if_pos hthrottled]) fun hthrottled => ?_
      rw [if_neg hthrottled]
      refine leavesUnless_streamed A testNullEnd (fun src hresp => by rw [hresp]; rfl) fun hnone => ?_
      cases hresp : inc.response with
      | body src => simp [hresp, Response.src?] at hnone
      | failed | missing => rfl

/-- What is not a file is not downloaded, and that is no error. -/
theorem download_of_ne_file (hfile : rec.props.type ≠ .file) :
    st.download A rec remoteVersion inc = ([], some .done) := by
  unfold download
  cases st.kind with
  | awsS3 => rw [getAwsS3, if_pos hfile]
  | gcpStorage => rw [getGcpStorage, if_pos hfile]
  | azureBlob => rw [getAzureBlob, if_pos hfile]
  | testNull => rw [getTestNull, if_pos hfile]

/-- A `Get` that does not succeed leaves the file as it was if it has not come to create
it, or if there was already what it has left. -/
theorem download_leaves_iff {ret : GetResult}
    (hret : (st.download A rec remoteVersion inc).2 = some ret) (hfail : ret.Unsuccessful)
    (before : Option Bytes) :
    runOps (st.download A rec remoteVersion inc).1 before = before ↔
      st.StopsBeforeCreate remoteVersion inc ∨ before = some (st.arrived A rec inc) := by
  by_cases hfile : rec.props.type = .file
  · obtain ⟨hstops, hcreates⟩ := st.leavesUnless_download A rec remoteVersion inc hfile before
    constructor
    · intro hsame
      by_cases hstop : st.StopsBeforeCreate remoteVersion inc
      · exact .inl hstop
      · right
        rw [← hcreates hstop, hsame]
    · rintro (hstop | hbefore)
      · exact hstops hstop
      · by_cases hstop : st.StopsBeforeCreate remoteVersion inc
        · exact hstops hstop
        · rw [hcreates hstop, hbefore]
  · rw [st.download_of_ne_file A rec remoteVersion inc hfile] at hret
    cases hret
    exact absurd hfail GetResult.not_unsuccessful_done

end Store

end

def plainRecord : Record :=
  ⟨"/file".toList, ⟨.file, [], 3, 1, 1, [], [], [], [], false⟩, "job".toList, false⟩

def undisturbed (body : Bytes) : Incoming where
  throttled := false
  response := .body (onePiece body)
  createOk := true
  room := none
  calls := body.length + 1
  parts := [(0, body)]
  downloadOk := true
  ctxCanceled := false

def broken : Incoming :=
  { undisturbed [1, 2, 3] with response := .body ⟨[[1, 2]], .source, true⟩ }

def unanswered : Incoming :=
  { undisturbed [] with response := .missing, parts := [], downloadOk := false }

/-- S3 creates the file before it asks for the object, so one that is not there leaves an
empty file. -/
theorem download_leaves_iff_unanswered :
    runOps ((plainStore .awsS3).download clearAead.toAead plainRecord "7".toList unanswered).1
      (some [9, 9]) ≠ some [9, 9] := by
  have hret : ((plainStore .awsS3).download clearAead.toAead plainRecord "7".toList unanswered).2 =
      some (.failed .request) := by decide
  rw [ne_eq, Store.download_leaves_iff _ _ _ _ _ hret (.inr (by decide))]
  rintro (hstop | hbefore)
  · cases hstop
  · exact absurd hbefore (by decide)

/-- A download that breaks off is reported as an error, and leaves the bytes that came before
in place of the old file. -/
theorem not_download_leaves_broken :
    ¬ ∀ (st : Store) (rec : Record) (remoteVersion : Str) (inc : Incoming) (ret : GetResult)
      (before : Option Bytes),
      (st.download clearAead.toAead rec remoteVersion inc).2 = some ret → ret.Unsuccessful →
        runOps (st.download clearAead.toAead rec remoteVersion inc).1 before = before := by
  intro h
  have hleft := h (plainStore .azureBlob) plainRecord "v1".toList broken
    (.failed (.read (.source .source))) (some [9, 9]) (by decide) (.inr (by decide))
  have hsplit : runOps ((plainStore .azureBlob).download clearAead.toAead plainRecord "v1".toList
      broken).1 (some [9, 9]) = some [1, 2] := by decide
  rw [hsplit] at hleft
  exact absurd hleft (by decide)

end CloudBackup.ObjectStore
