import CloudBackup.Database.Tables
import CloudBackup.ObjectStore.Wire
import Mathlib.Logic.Function.Basic

/-!
The four object stores. `Bucket` is what a provider keeps: the versions and
delete markers of S3, the generations of GCP, and the plain blobs of Azure and
of the test store. `Store` is a target of a run, with the operations of the
interface `ObjectStore` for files (the flag `metadata` is always `false` here).

A request has a `Reply` that the outside world decides. Only what the providers
document is built in: S3 and GCP give every object a number of its own, S3 puts
a delete marker on top of the versions, GCP has none and just retires the live
generation, Azure and the test store overwrite. Paths are those of Unix, where
`filepath.ToSlash` does nothing.
-/

namespace CloudBackup.ObjectStore

open Cbcrypto Database

/-! ### Names of objects -/

def formatInt (n : ℕ) : Str := Nat.toDigits 10 n

/-- `strconv.ParseInt(s, 10, 64)`, for a text without a sign and a number that
is not too large. -/
def parseInt (s : Str) : Option ℕ :=
  if s ≠ [] ∧ s.all Char.isDigit then some (Nat.ofDigitChars 10 s 0) else none

def squashForwardSlashes : Str → Str
  | '/' :: '/' :: cs => squashForwardSlashes ('/' :: cs)
  | c :: cs => c :: squashForwardSlashes cs
  | [] => []

def dataPrepend : Str := "data".toList

def remoteName (storePrefix path : Str) : Str := storePrefix ++ '/' :: dataPrepend ++ '/' :: path

def calculateRemotePath (storePrefix path : Str) : Str :=
  squashForwardSlashes (remoteName storePrefix path)

def azureVersion (version : ℕ) (deleteMarker : Bool) : Str :=
  (if deleteMarker then 'd' else 'v') :: formatInt version

def calculateAzureStorageRemotePath (storePrefix path : Str) (version : ℕ) (deleteMarker : Bool) :
    Str :=
  squashForwardSlashes (remoteName storePrefix path ++ '.' :: azureVersion version deleteMarker)

def objectKey (storePrefix path : Str) (version : ℕ) : Str :=
  remoteName storePrefix path ++ '@' :: 'v' :: formatInt version

def deleteMarkerSuffix : Str := "_delete_marker".toList

theorem parseInt_formatInt (n : ℕ) : parseInt (formatInt n) = some n := by
  have hof : Nat.ofDigitChars 10 (Nat.toDigits 10 n) 0 = n := Nat.ofDigitChars_ten_toDigits
  have hdig : (Nat.toDigits 10 n).all Char.isDigit = true := by
    rw [List.all_eq_true]
    exact fun c hc => Nat.isDigit_of_mem_toDigits (by decide) (by decide) hc
  rw [parseInt, formatInt, if_pos ⟨Nat.toDigits_ne_nil, hdig⟩, hof]

theorem formatInt_injective {m n : ℕ} (h : formatInt m = formatInt n) : m = n := by
  have := congrArg (fun s => Nat.ofDigitChars 10 s 0) h
  simpa [formatInt, Nat.ofDigitChars_ten_toDigits] using this

theorem notMem_formatInt {c : Char} (hc : c.isDigit = false) (n : ℕ) : c ∉ formatInt n := by
  intro h
  rw [Nat.isDigit_of_mem_toDigits (by decide) (by decide) h] at hc
  cases hc

theorem slash_notMem_formatInt (n : ℕ) : '/' ∉ formatInt n := notMem_formatInt (by decide) n

/-- A number does not look like the version of a delete marker. -/
theorem deleteMarkerSuffix_formatInt (n : ℕ) :
    deleteMarkerSuffix.isSuffixOf (formatInt n) = false := by
  rw [Bool.eq_false_iff]
  intro h
  have hmem : '_' ∈ formatInt n :=
    (List.isSuffixOf_iff_suffix.mp h).subset (by decide)
  exact notMem_formatInt (by decide) n hmem

theorem squashForwardSlashes_append (a : Str) {s : Str} (hs : '/' ∉ s) :
    squashForwardSlashes (a ++ s) = squashForwardSlashes a ++ s := by
  have hself : ∀ {t : Str}, '/' ∉ t → squashForwardSlashes t = t := by
    intro t ht
    induction t with
    | nil => rfl
    | cons c cs ih =>
        have hc : c ≠ '/' := fun h => ht (by simp [h])
        rw [squashForwardSlashes.eq_2 _ _ (by intro cs' h; exact absurd h hc),
          ih (fun h => ht (by simp [h]))]
  fun_induction squashForwardSlashes a with
  | case1 cs ih => simpa [squashForwardSlashes] using ih
  | case2 c cs hne ih =>
      cases cs with
      | nil =>
          cases s with
          | nil => simp [squashForwardSlashes]
          | cons d ds =>
              have hd : d ≠ '/' := fun h => hs (by simp [h])
              simp only [List.cons_append, List.nil_append, squashForwardSlashes]
              rw [squashForwardSlashes.eq_2 c (d :: ds) (by
                intro cs' _ h
                exact absurd (List.cons.inj h).1 hd), hself hs]
      | cons d ds =>
          rw [List.cons_append, squashForwardSlashes.eq_2 c ((d :: ds) ++ s) (by
            intro cs' hc h
            exact hne ds hc (by rw [(List.cons.inj h).1])), ih, List.cons_append]
  | case3 => simpa using hself hs

theorem calculateAzureStorageRemotePath_eq (storePrefix path : Str) (version : ℕ) (dm : Bool) :
    calculateAzureStorageRemotePath storePrefix path version dm =
      calculateRemotePath storePrefix path ++ '.' :: azureVersion version dm := by
  refine squashForwardSlashes_append _ ?_
  intro h
  rcases List.mem_cons.mp h with h | h
  · simp at h
  · rcases List.mem_cons.mp h with h | h
    · cases dm <;> simp at h
    · exact slash_notMem_formatInt version h

/-- The name of a blob tells its version and if it is a marker. -/
theorem calculateAzureStorageRemotePath_injective {storePrefix path : Str} {v v' : ℕ}
    {dm dm' : Bool} (h : calculateAzureStorageRemotePath storePrefix path v dm =
      calculateAzureStorageRemotePath storePrefix path v' dm') : v = v' ∧ dm = dm' := by
  rw [calculateAzureStorageRemotePath_eq, calculateAzureStorageRemotePath_eq,
    List.append_cancel_left_eq] at h
  simp only [azureVersion, List.cons.injEq, true_and] at h
  refine ⟨formatInt_injective h.2, ?_⟩
  cases dm <;> cases dm' <;> simp at h ⊢

theorem objectKey_injective {storePrefix path : Str} {v v' : ℕ}
    (h : objectKey storePrefix path v = objectKey storePrefix path v') : v = v' := by
  rw [objectKey, objectKey, List.append_cancel_left_eq] at h
  simp only [List.cons.injEq, true_and] at h
  exact formatInt_injective h

/-! ### Buckets -/

/-- A version of an S3 object. A delete marker is a version without a body. -/
structure S3Version where
  n : ℕ
  body : Option Bytes
  deriving DecidableEq

structure GcpObject where
  generations : List (ℕ × Bytes)
  live : Option ℕ
  deriving DecidableEq

/-- What a provider keeps for a target. A store uses the part of its own kind;
`next` numbers the versions and generations. -/
structure Bucket where
  versions : Str → List S3Version
  generations : Str → GcpObject
  blobs : Str → Option Bytes
  next : ℕ

def Bucket.empty : Bucket := ⟨fun _ => [], fun _ => ⟨[], none⟩, fun _ => none, 0⟩

/-- What the providers and the cipher bring along: a text for each S3 version
and a number for each GCP generation, none of them twice. -/
structure Cloud where
  aead : LawfulAead
  versionId : ℕ → Str
  versionId_injective : Function.Injective versionId
  generation : ℕ → ℕ
  generation_injective : Function.Injective generation

inductive StoreKind
  | awsS3
  | gcpStorage
  | azureBlob
  | testNull
  deriving DecidableEq, Repr

/-- An object store of a run: a target, with the state of its encryption. -/
structure Store where
  kind : StoreKind
  name : Str
  storePrefix : Str
  enc : EncryptionState

/-- What happens to a request. A failed request may still have stored its
object, as when the answer has no version or is lost; a request whose context
is cancelled has not. -/
inductive Reply
  | ok
  | failed (stored : Bool)
  | cancelled
  deriving DecidableEq, Repr

inductive StoreErr
  | cancelled
  | failed
  | encrypt (e : CryptoErr)
  | objectNotExist
  | badVersion
  deriving DecidableEq, Repr

structure Sent where
  remoteVersion : Str
  cancelled : Bool
  err : Option StoreErr
  deriving DecidableEq, Repr

abbrev Content := { b : Bytes // b.length < 2 ^ 63 }

/-- The outside of one `Upload`: what the file holds by then, the random values
of its encryption, and the reply. -/
structure Outgoing where
  content : Content
  rand : Nonces
  reply : Reply

/-- `BackedUpFileProperties`. The two times are not yet cut to the range of the
database. -/
structure Record where
  path : Str
  props : Props
  jobUuid : Str
  skipEncryption : Bool
  deriving DecidableEq, Repr

namespace Store

variable (C : Cloud) (st : Store)

def localVersion (version : ℕ) : Str :=
  match st.kind with
  | .azureBlob => azureVersion version false
  | _ => formatInt version

/-- The name of the object that `Upload` and `Get` use. -/
def key (path : Str) (version : ℕ) : Str :=
  match st.kind with
  | .azureBlob => calculateAzureStorageRemotePath st.storePrefix path version false
  | .testNull => objectKey st.storePrefix path version
  | _ => calculateRemotePath st.storePrefix path

def put (path : Str) (version : ℕ) (body : Bytes) (b : Bucket) : Str × Bucket :=
  let k := st.key path version
  match st.kind with
  | .awsS3 =>
      (C.versionId b.next, { b with
        versions := Function.update b.versions k (⟨b.next, some body⟩ :: b.versions k)
        next := b.next + 1 })
  | .gcpStorage =>
      let g := C.generation b.next
      (formatInt g, { b with
        generations := Function.update b.generations k ⟨(g, body) :: (b.generations k).generations, some g⟩
        next := b.next + 1 })
  | _ => (st.localVersion version, { b with blobs := Function.update b.blobs k (some body) })

def upload (rec : Record) (version : ℕ) (out : Outgoing) (b : Bucket) : Sent × Bucket :=
  if rec.props.type ≠ .file then (⟨st.localVersion version, false, none⟩, b)
  else
    match wireBody C.aead.toAead st.enc rec.skipEncryption out.content.1 out.rand with
    | .error e => (⟨st.localVersion version, false, some (.encrypt e)⟩, b)
    | .ok body =>
        match out.reply with
        | .ok => (⟨(st.put C rec.path version body b).1, false, none⟩, (st.put C rec.path version body b).2)
        | .failed stored =>
            (⟨st.localVersion version, false, some .failed⟩,
              if stored then (st.put C rec.path version body b).2 else b)
        | .cancelled => (⟨st.localVersion version, true, some .cancelled⟩, b)

def markerVersion (path : Str) (version : ℕ) : Str :=
  match st.kind with
  | .azureBlob => calculateAzureStorageRemotePath st.storePrefix path version true
  | _ => formatInt version

/-- `MarkDeleted` of S3: a delete without a version puts a marker on top. -/
def markDeletedS3 (path : Str) (reply : Reply) (b : Bucket) : Sent × Bucket :=
  let k := calculateRemotePath st.storePrefix path
  let b' : Bucket := { b with
    versions := Function.update b.versions k (⟨b.next, none⟩ :: b.versions k)
    next := b.next + 1 }
  match reply with
  | .ok => (⟨C.versionId b.next, false, none⟩, b')
  | .failed stored => (⟨formatInt 0, false, some .failed⟩, if stored then b' else b)
  | .cancelled => (⟨formatInt 0, false, some .cancelled⟩, b)

/-- `MarkDeleted` of GCP: the live generation is retired, and it is an error if
there is none. -/
def markDeletedGcp (path : Str) (version : ℕ) (reply : Reply) (b : Bucket) : Sent × Bucket :=
  let k := calculateRemotePath st.storePrefix path
  let b' : Bucket := { b with
    generations := Function.update b.generations k { b.generations k with live := none } }
  match reply with
  | .ok =>
      if (b.generations k).live = none then
        (⟨formatInt version ++ deleteMarkerSuffix, false, some .objectNotExist⟩, b)
      else (⟨formatInt version ++ deleteMarkerSuffix, false, none⟩, b')
  | .failed stored => (⟨formatInt 0, false, some .failed⟩, if stored then b' else b)
  | .cancelled => (⟨formatInt 0, false, some .cancelled⟩, b)

/-- `MarkDeleted` of Azure: an empty blob is the marker. -/
def markDeletedAzure (path : Str) (version : ℕ) (reply : Reply) (b : Bucket) : Sent × Bucket :=
  let k := calculateAzureStorageRemotePath st.storePrefix path version true
  let b' : Bucket := { b with blobs := Function.update b.blobs k (some []) }
  match reply with
  | .ok => (⟨azureVersion version true, false, none⟩, b')
  | .failed stored => (⟨azureVersion version true, false, some .failed⟩, if stored then b' else b)
  | .cancelled => (⟨azureVersion version true, true, some .cancelled⟩, b)

def markDeleted (rec : Record) (version : ℕ) (reply : Reply) (b : Bucket) : Sent × Bucket :=
  match st.kind with
  | .testNull => (⟨formatInt version, false, none⟩, b)
  | kind =>
      if rec.props.type ≠ .file then (⟨st.markerVersion rec.path version, false, none⟩, b)
      else
        match kind with
        | .awsS3 => st.markDeletedS3 C rec.path reply b
        | .gcpStorage => st.markDeletedGcp rec.path version reply b
        | _ => st.markDeletedAzure rec.path version reply b

def deleteObject (path : Str) (version : ℕ) (remoteVersion : Str) (b : Bucket) : Bucket :=
  match st.kind with
  | .awsS3 =>
      let k := calculateRemotePath st.storePrefix path
      let versions := (b.versions k).filter fun v => C.versionId v.n ≠ remoteVersion
      { b with versions := Function.update b.versions k versions }
  | .gcpStorage =>
      let k := calculateRemotePath st.storePrefix path
      if deleteMarkerSuffix.isSuffixOf remoteVersion then b
      else
        match parseInt remoteVersion with
        | none => b
        | some g =>
            let obj : GcpObject := ⟨(b.generations k).generations.filter (·.1 ≠ g),
              if (b.generations k).live = some g then none else (b.generations k).live⟩
            { b with generations := Function.update b.generations k obj }
  | .azureBlob =>
      let k := calculateAzureStorageRemotePath st.storePrefix path version
        (remoteVersion.head? = some 'd')
      { b with blobs := Function.update b.blobs k none }
  | .testNull => b

def delete (rec : Record) (version : ℕ) (remoteVersion : Str) (reply : Reply) (b : Bucket) :
    Bucket :=
  if rec.props.type ≠ .file then b
  else
    match reply with
    | .ok => st.deleteObject C rec.path version remoteVersion b
    | .failed stored => if stored then st.deleteObject C rec.path version remoteVersion b else b
    | .cancelled => b

def find (path : Str) (version : ℕ) (remoteVersion : Str) (b : Bucket) : Except GetErr Bytes :=
  match st.kind with
  | .awsS3 =>
      match (b.versions (st.key path version)).find? fun v => C.versionId v.n = remoteVersion with
      | some ⟨_, some body⟩ => .ok body
      | _ => .error .notFound
  | .gcpStorage =>
      match parseInt remoteVersion with
      | none => .error .badVersion
      | some g =>
          match (b.generations (st.key path version)).generations.find? (·.1 = g) with
          | some (_, body) => .ok body
          | none => .error .notFound
  | .azureBlob =>
      match b.blobs (calculateAzureStorageRemotePath st.storePrefix path version
        (remoteVersion.head? = some 'd')) with
      | some body => .ok body
      | none => .error .notFound
  | .testNull =>
      match b.blobs (st.key path version) with
      | some body => .ok body
      | none => .error .notFound

/-- `Get`: what is written at the restore path, `none` if nothing is. The test
store is content with an object that does not exist. -/
def get (rec : Record) (version : ℕ) (remoteVersion : Str) (b : Bucket) :
    Except GetErr (Option Bytes) :=
  if rec.props.type ≠ .file then .ok none
  else
    match st.find C rec.path version remoteVersion b with
    | .error e => if st.kind = .testNull then .ok none else .error e
    | .ok body => (decode C.aead.toAead st.enc rec.props.encrypted body).map some

def maxObjectSize (encrypted : Bool) : ℤ :=
  match st.kind with
  | .awsS3 => if encrypted then 5 * 1024 ^ 3 else 5 * 1024 ^ 4
  | .gcpStorage => 5 * 1024 ^ 4
  | .azureBlob => 190 * 1024 ^ 4
  | .testNull => 2 ^ 63 - 1

end Store

def plainCloud : Cloud where
  aead := clearAead
  versionId := formatInt
  versionId_injective _ _ h := formatInt_injective h
  generation := id
  generation_injective := Function.injective_id

def plainStore (kind : StoreKind) : Store :=
  ⟨kind, "target".toList, "prefix".toList, newEncryptionState false []⟩

end CloudBackup.ObjectStore
