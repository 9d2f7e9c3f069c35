import CloudBackup.Library.ByteStream
import Mathlib.Data.Int.Notation

/-!
The file format of package `cbcrypto`: the constants, the header with its binary
form, the nonce of a chunk, and the size of an encrypted stream.

AES-256-GCM is not modelled. `Aead` is the pair of functions that the package
uses, and `LawfulAead` adds the two facts that are true of it: what was sealed
opens again, and sealing adds a tag of 16 bytes.
-/

namespace CloudBackup

abbrev Bytes := List UInt8

abbrev Block (n : ℕ) := { b : Bytes // b.length = n }

namespace Cbcrypto

open ByteStream

def magicV1 : Bytes := [67, 66, 69, 49]

def headerSize : ℕ := 92

def chunkSize : ℕ := 64 * 1024

def tagSize : ℕ := 16

def nonceSize : ℕ := 12

def noncePrefixSize : ℕ := 4

def keystoreUUIDSize : ℕ := 16

def kekSize : ℕ := 32

def cekSize : ℕ := 32

def wrappedCEKSize : ℕ := cekSize + tagSize

def maxChunkCounter : ℕ := 2 ^ 56 - 1

def maxHeaderChunkSize : ℕ := 64 * 1024 * 1024

/-- The errors of the package. `eof` is `io.EOF`, the end of a stream; the rest
are named after what the message says. -/
inductive CryptoErr
  | eof
  | source (e : ReadErr)
  | kekLength (n : ℕ)
  | cekLength (n : ℕ)
  | wrappedCEKLength (n : ℕ)
  | headerBufferLength (n : ℕ)
  | ciphertextTooShort (e : ReadErr)
  | invalidMagic (found : Bytes)
  | unsupportedVersion (v : UInt8)
  | chunkSizeZero
  | chunkSizeOutOfRange (n : ℕ)
  | cipherKeyLength (n : ℕ)
  | openFailed
  | unwrapCEK (e : CryptoErr)
  | chunkTruncated (counter n : ℕ)
  | counterExceedsMax (counter : ℕ)
  | decryptChunk (counter : ℕ) (last : Bool)
  deriving DecidableEq, Repr

/-- The authenticated cipher: `sealed key nonce plaintext` and
`open? key nonce ciphertext`, with no associated data. -/
structure Aead where
  sealed : Bytes → Bytes → Bytes → Bytes
  open? : Bytes → Bytes → Bytes → Option Bytes

structure LawfulAead extends Aead where
  open_seal : ∀ k n m, open? k n (sealed k n m) = some m
  length_seal : ∀ k n m, (sealed k n m).length = m.length + tagSize

/-- `aes.NewCipher` refuses keys that are not 16, 24 or 32 bytes long. -/
def cipherKeyOk (key : Bytes) : Bool :=
  key.length == 16 || key.length == 24 || key.length == 32

def wrapCEK (A : Aead) (kek cek : Bytes) (wrapNonce : Block nonceSize) :
    Except CryptoErr (Block wrappedCEKSize) :=
  if kek.length ≠ kekSize then .error (.kekLength kek.length)
  else if cek.length ≠ cekSize then .error (.cekLength cek.length)
  else
    if h : (A.sealed kek wrapNonce.1 cek).length = wrappedCEKSize then
      .ok ⟨A.sealed kek wrapNonce.1 cek, h⟩
    else .error (.wrappedCEKLength (A.sealed kek wrapNonce.1 cek).length)

def unwrapCEK (A : Aead) (kek : Bytes) (wrapNonce : Block nonceSize)
    (wrappedCEK : Block wrappedCEKSize) : Except CryptoErr Bytes :=
  if kek.length ≠ kekSize then .error (.kekLength kek.length)
  else
    match A.open? kek wrapNonce.1 wrappedCEK.1 with
    | some cek => .ok cek
    | none => .error .openFailed

/-! ### The header -/

/-- The parsed form of the header; `chunkSize` is an unsigned 32-bit number. -/
structure Header where
  version : UInt8
  keystoreUUID : Block keystoreUUIDSize
  wrapNonce : Block nonceSize
  wrappedCEK : Block wrappedCEKSize
  noncePrefix : Block noncePrefixSize
  chunkSize : ℕ
  deriving DecidableEq

def putUint32 (n : ℕ) : Bytes :=
  [UInt8.ofNat (n >>> 24), UInt8.ofNat (n >>> 16), UInt8.ofNat (n >>> 8), UInt8.ofNat n]

def uint32 : Bytes → ℕ
  | a :: b :: c :: d :: _ => a.toNat * 2 ^ 24 + b.toNat * 2 ^ 16 + c.toNat * 2 ^ 8 + d.toNat
  | _ => 0

def Header.marshalBinary (h : Header) : Bytes :=
  magicV1 ++ [h.version] ++ [0, 0, 0] ++ h.keystoreUUID.1 ++ h.wrapNonce.1 ++
    h.wrappedCEK.1 ++ h.noncePrefix.1 ++ putUint32 h.chunkSize

/-- The bytes `i .. i + n` of a buffer that is long enough. -/
def slice (buf : Bytes) (i n : ℕ) (h : i + n ≤ buf.length) : Block n :=
  ⟨(buf.drop i).take n, by simp only [List.length_take, List.length_drop]; omega⟩

def headerFields (buf : Bytes) (h : headerSize ≤ buf.length) : Header where
  version := buf.getD 4 0
  keystoreUUID := slice buf 8 keystoreUUIDSize (by simp only [headerSize, keystoreUUIDSize] at *; omega)
  wrapNonce := slice buf 24 nonceSize (by simp only [headerSize, nonceSize] at *; omega)
  wrappedCEK := slice buf 36 wrappedCEKSize
    (by simp only [headerSize, wrappedCEKSize, cekSize, tagSize] at *; omega)
  noncePrefix := slice buf 84 noncePrefixSize (by simp only [headerSize, noncePrefixSize] at *; omega)
  chunkSize := uint32 (buf.drop 88)

def unmarshalHeader (buf : Bytes) : Except CryptoErr Header :=
  if h : buf.length < headerSize then .error (.headerBufferLength buf.length)
  else if buf.take 4 ≠ magicV1 then .error (.invalidMagic (buf.take 4))
  else if buf.getD 4 0 ≠ 1 then .error (.unsupportedVersion (buf.getD 4 0))
  else if uint32 (buf.drop 88) = 0 then .error .chunkSizeZero
  else .ok (headerFields buf (Nat.not_lt.mp h))

@[simp] theorem Header.length_marshalBinary (h : Header) :
    h.marshalBinary.length = headerSize := by
  have h1 := h.keystoreUUID.2
  have h2 := h.wrapNonce.2
  have h3 := h.wrappedCEK.2
  have h4 := h.noncePrefix.2
  simp only [Header.marshalBinary, List.length_append, h1, h2, h3, h4]
  rfl

@[simp] theorem Header.take_marshalBinary_append (h : Header) (s : Bytes) :
    (h.marshalBinary ++ s).take headerSize = h.marshalBinary := by
  rw [← h.length_marshalBinary, List.take_left]

@[simp] theorem Header.drop_marshalBinary_append (h : Header) (s : Bytes) :
    (h.marshalBinary ++ s).drop headerSize = s := by
  rw [← h.length_marshalBinary, List.drop_left]

theorem slice_append {a b c : Bytes} {n : ℕ} (hb : b.length = n) :
    ((a ++ (b ++ c)).drop a.length).take n = b := by
  rw [List.drop_left, ← hb, List.take_left]

/-- The header read back from its binary form, for the version and the chunk
sizes that the format allows. -/
theorem unmarshalHeader_marshalBinary (h : Header) (hv : h.version = 1)
    (hc : uint32 (putUint32 h.chunkSize) = h.chunkSize) (hpos : h.chunkSize ≠ 0) :
    unmarshalHeader h.marshalBinary = .ok h := by
  obtain ⟨v, ⟨u, hu⟩, ⟨wn, hwn⟩, ⟨wc, hwc⟩, ⟨np, hnp⟩, cs⟩ := h
  simp only at hv hc hpos
  subst hv
  have hlen : headerSize ≤ (Header.marshalBinary
      ⟨1, ⟨u, hu⟩, ⟨wn, hwn⟩, ⟨wc, hwc⟩, ⟨np, hnp⟩, cs⟩).length := by
    exact Nat.le_of_eq (Header.length_marshalBinary _).symm
  have hbuf : Header.marshalBinary ⟨1, ⟨u, hu⟩, ⟨wn, hwn⟩, ⟨wc, hwc⟩, ⟨np, hnp⟩, cs⟩ =
      [67, 66, 69, 49, 1, 0, 0, 0] ++ (u ++ (wn ++ (wc ++ (np ++ putUint32 cs)))) := by
    simp [Header.marshalBinary, magicV1]
  generalize Header.marshalBinary ⟨1, ⟨u, hu⟩, ⟨wn, hwn⟩, ⟨wc, hwc⟩, ⟨np, hnp⟩, cs⟩ = buf at *
  have hfields : headerFields buf hlen = ⟨1, ⟨u, hu⟩, ⟨wn, hwn⟩, ⟨wc, hwc⟩, ⟨np, hnp⟩, cs⟩ := by
    subst hbuf
    simp only [headerFields, slice, Header.mk.injEq, Subtype.mk.injEq]
    refine ⟨rfl, ?_, ?_, ?_, ?_, ?_⟩
    · exact slice_append (a := [67, 66, 69, 49, 1, 0, 0, 0]) hu
    · have := slice_append (a := [67, 66, 69, 49, 1, 0, 0, 0] ++ u)
        (c := wc ++ (np ++ putUint32 cs)) hwn
      simpa [hu, keystoreUUIDSize] using this
    · have := slice_append (a := [67, 66, 69, 49, 1, 0, 0, 0] ++ (u ++ wn))
        (c := np ++ putUint32 cs) hwc
      simpa [hu, hwn, keystoreUUIDSize, nonceSize] using this
    · have := slice_append (a := [67, 66, 69, 49, 1, 0, 0, 0] ++ (u ++ (wn ++ wc)))
        (c := putUint32 cs) hnp
      simpa [hu, hwn, hwc, keystoreUUIDSize, nonceSize, wrappedCEKSize, cekSize, tagSize] using this
    · have hd : (([67, 66, 69, 49, 1, 0, 0, 0] : Bytes) ++
          (u ++ (wn ++ (wc ++ np)))).length = 88 := by
        simp only [List.length_append, hu, hwn, hwc, hnp]
        rfl
      have : ([67, 66, 69, 49, 1, 0, 0, 0] ++ (u ++ (wn ++ (wc ++ (np ++ putUint32 cs))))).drop 88 =
          putUint32 cs := by
        rw [← hd]
        simp
      rw [this, hc]
  have h4 : buf.take 4 = magicV1 := by
    subst hbuf
    rfl
  have hv : buf.getD 4 0 = 1 := by
    subst hbuf
    rfl
  have hcs : uint32 (buf.drop 88) = cs := congrArg Header.chunkSize hfields
  rw [unmarshalHeader, dif_neg (Nat.not_lt.mpr hlen), if_neg (by simp [h4]),
    if_neg (fun hne => hne hv), if_neg (by rw [hcs]; exact hpos), hfields]

/-! ### The nonce of a chunk -/

/-- The bytes of a chunk's nonce: the prefix, the counter in seven bytes with
the highest first, and the last flag. -/
def chunkNonce (pre : Block noncePrefixSize) (counter : ℕ) (last : Bool) : Bytes :=
  pre.1 ++ [UInt8.ofNat (counter >>> 48), UInt8.ofNat (counter >>> 40),
    UInt8.ofNat (counter >>> 32), UInt8.ofNat (counter >>> 24), UInt8.ofNat (counter >>> 16),
    UInt8.ofNat (counter >>> 8), UInt8.ofNat counter, if last then 1 else 0]

def buildChunkNonce (pre : Block noncePrefixSize) (counter : ℕ) (last : Bool) :
    Except CryptoErr Bytes :=
  if maxChunkCounter < counter then .error (.counterExceedsMax counter)
  else .ok (chunkNonce pre counter last)

theorem buildChunkNonce_eq_ok {pre : Block noncePrefixSize} {counter : ℕ} {last : Bool}
    {nonce : Bytes} :
    buildChunkNonce pre counter last = .ok nonce ↔
      counter ≤ maxChunkCounter ∧ nonce = chunkNonce pre counter last := by
  unfold buildChunkNonce
  split
  · simp
    omega
  · simp [eq_comm]
    omega

/-- A nonce determines the prefix, the counter and the flag it was built from. -/
theorem chunkNonce_injective {pre pre' : Block noncePrefixSize} {i j : ℕ} {last last' : Bool}
    (hi : i ≤ maxChunkCounter) (hj : j ≤ maxChunkCounter)
    (h : chunkNonce pre i last = chunkNonce pre' j last') :
    pre = pre' ∧ i = j ∧ last = last' := by
  obtain ⟨hp, hs⟩ := List.append_inj h (by rw [pre.2, pre'.2])
  simp only [List.cons.injEq, and_true] at hs
  obtain ⟨h0, h1, h2, h3, h4, h5, h6, hl⟩ := hs
  refine ⟨Subtype.ext hp, ?_, ?_⟩
  · simp only [← UInt8.toNat_inj, UInt8.toNat_ofNat', Nat.shiftRight_eq_div_pow] at h0 h1 h2 h3 h4 h5 h6
    simp only [maxChunkCounter] at hi hj
    omega
  · cases last <;> cases last' <;> simp at hl ⊢

/-! ### The size of an encrypted stream -/

def encryptedSize (plaintextSize : ℤ) : ℤ :=
  if plaintextSize < 0 then 0
  else if plaintextSize = 0 then headerSize + tagSize
  else
    Int.bmod (headerSize + plaintextSize +
      (plaintextSize / chunkSize + if plaintextSize % chunkSize ≠ 0 then 1 else 0) * tagSize)
      (2 ^ 64)

end Cbcrypto

end CloudBackup
