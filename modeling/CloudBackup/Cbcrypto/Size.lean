import CloudBackup.Cbcrypto.RoundTrip

/-!
The size of an encrypted stream. `streamSize` is the number of bytes that the
encrypting reader delivers; `EncryptedSize` computes the same number from the
size of the plaintext, as long as it is an `int64`. The store for S3 announces
it as the length of the object before the first byte is sealed.
-/

namespace CloudBackup.Cbcrypto

open ByteStream

/-- The number of chunks of a plaintext of `n` bytes. There is at least one. -/
def chunkCount (n : ℕ) : ℕ := max 1 ((n + (chunkSize - 1)) / chunkSize)

/-- The header, the plaintext, and one tag for each chunk. -/
def streamSize (n : ℕ) : ℕ := headerSize + n + chunkCount n * tagSize

theorem chunkCount_of_le {n : ℕ} (h : n ≤ chunkSize) : chunkCount n = 1 := by
  have hle : (n + (chunkSize - 1)) / chunkSize ≤ 1 := by
    simp only [chunkSize] at *
    omega
  exact Nat.max_eq_left hle

/-- A full chunk that is not the last counts for one. -/
theorem chunkCount_of_lt {n : ℕ} (h : chunkSize < n) :
    chunkCount n = chunkCount (n - chunkSize) + 1 := by
  simp only [chunkCount, chunkSize] at *
  omega

/-- The formula of `EncryptedSize` counts the chunks with a division that rounds
down, and one more for a remainder. -/
theorem chunkCount_eq {n : ℕ} (h : n ≠ 0) :
    chunkCount n = n / chunkSize + if n % chunkSize ≠ 0 then 1 else 0 := by
  by_cases hmod : n % chunkSize = 0
  · rw [if_neg (not_not.mpr hmod)]
    simp only [chunkCount, chunkSize] at *
    omega
  · rw [if_pos hmod]
    simp only [chunkCount, chunkSize] at *
    omega

/-- Chunk `k` is the last one exactly if it reaches the end of the plaintext. -/
theorem chunkCount_le_succ_iff (n k : ℕ) : chunkCount n ≤ k + 1 ↔ n ≤ (k + 1) * chunkSize := by
  simp only [chunkCount, chunkSize]
  omega

theorem le_streamSize (n : ℕ) : n ≤ streamSize n := by
  simp only [streamSize]
  omega

/-- What the cipher makes of the chunks of `q` is longer by a tag for each. -/
theorem length_sealBody (A : LawfulAead) (cek : Bytes) (pre : Block noncePrefixSize) (i : ℕ)
    (q : Bytes) :
    (sealBody A.toAead cek pre i q).length = q.length + chunkCount q.length * tagSize := by
  fun_induction sealBody A.toAead cek pre i q with
  | case1 i q hq => rw [A.length_seal, chunkCount_of_le hq, Nat.one_mul]
  | case2 i q hq ih =>
      have hlt : chunkSize < q.length := Nat.lt_of_not_le hq
      rw [List.length_append, A.length_seal, ih, List.length_take, List.length_drop,
        Nat.min_eq_left (Nat.le_of_lt hlt), chunkCount_of_lt hlt, Nat.add_mul]
      omega

theorem length_encryptedStream (A : LawfulAead) (keystoreUUID : Block keystoreUUIDSize)
    (wrapNonce : Block nonceSize) (wrappedCEK : Block wrappedCEKSize) (cek : Bytes)
    (noncePrefix : Block noncePrefixSize) (p : Bytes) :
    (encryptedStream A.toAead keystoreUUID wrapNonce wrappedCEK cek noncePrefix p).length =
      streamSize p.length := by
  rw [encryptedStream, List.length_append, Header.length_marshalBinary, length_sealBody, streamSize,
    Nat.add_assoc]

theorem encryptedSize_eq_bmod (n : ℕ) :
    encryptedSize n = Int.bmod (streamSize n) (2 ^ 64) := by
  by_cases hn : n = 0
  · subst hn
    decide
  · have hpos : ¬ (n : ℤ) < 0 := by omega
    have hcast : ((n : ℤ) / chunkSize + if (n : ℤ) % chunkSize ≠ 0 then 1 else 0) =
        (chunkCount n : ℤ) := by
      rw [chunkCount_eq hn]
      by_cases hmod : n % chunkSize = 0
      · have hmod' : (n : ℤ) % chunkSize = 0 := by exact_mod_cast hmod
        simp [hmod, hmod']
      · have hmod' : ¬ (n : ℤ) % chunkSize = 0 := by exact_mod_cast hmod
        simp [hmod, hmod']
    rw [encryptedSize, if_neg hpos, if_neg (by exact_mod_cast hn), hcast, streamSize]
    push_cast
    rfl

theorem encryptedSize_eq {n : ℕ} (h : streamSize n < 2 ^ 63) :
    encryptedSize n = streamSize n := by
  rw [encryptedSize_eq_bmod]
  exact Int.bmod_eq_of_le (by omega) (by omega)

/-- A plaintext whose stream has a size that is an `int64` does not use up the
counter. -/
theorem fits_of_streamSize {p : Bytes} (h : streamSize p.length < 2 ^ 63) : Fits 0 p := by
  have := le_streamSize p.length
  simp only [Fits, chunkSize]
  omega

end CloudBackup.Cbcrypto

namespace CloudBackup.ObjectStore

open ByteStream Cbcrypto

structure PutObjectInput where
  body : EncryptingReader
  contentLength : ℤ

/-- `uploadEncrypted` of `StoreAwsS3`, up to the request: `size` is what the
record says of the file. -/
def uploadEncrypted (A : Aead) (body : Source UInt8) (kek : Bytes)
    (keystoreUUID : Block keystoreUUIDSize) (cek : Block cekSize) (wrapNonce : Block nonceSize)
    (noncePrefix : Block noncePrefixSize) (size : ℤ) : Except CryptoErr PutObjectInput := do
  let er ← newEncryptingReader A body kek keystoreUUID cek wrapNonce noncePrefix
  return { body := er, contentLength := encryptedSize size }

/-- However the plaintext comes in and however the stream is read, it has as many
bytes as `EncryptedSize` says, and S3 was told so. -/
theorem length_read_eq_encryptedSize (A : LawfulAead) (kek : Block kekSize)
    (keystoreUUID : Block keystoreUUIDSize) (cek : Block cekSize) (wrapNonce : Block nonceSize)
    (noncePrefix : Block noncePrefixSize) (p : Bytes) (hp : streamSize p.length < 2 ^ 63)
    (src : Source UInt8) (hsrc : src.Splits p) :
    ∃ enc stream,
      newEncryptingReader A.toAead src kek.1 keystoreUUID cek wrapNonce noncePrefix = .ok enc ∧
      Delivers (EncryptingReader.read A.toAead) CryptoErr.eof enc stream ∧
      (stream.length : ℤ) = encryptedSize p.length ∧
      uploadEncrypted A.toAead src kek.1 keystoreUUID cek wrapNonce noncePrefix p.length =
        .ok { body := enc, contentLength := stream.length } := by
  obtain ⟨wrappedCEK, enc, -, hnew, henc⟩ := newEncryptingReader_delivers kek keystoreUUID cek
    wrapNonce noncePrefix A (fits_of_streamSize hp) hsrc
  have hlen : ((encryptedStream A.toAead keystoreUUID wrapNonce wrappedCEK cek.1 noncePrefix
      p).length : ℤ) = encryptedSize p.length := by
    rw [length_encryptedStream, encryptedSize_eq hp]
  refine ⟨enc, _, hnew, (encryptingReader_drains A).delivers henc, hlen, ?_⟩
  rw [uploadEncrypted, hnew, hlen]
  rfl

theorem length_read_eq_encryptedSize_three :
    streamSize ([1, 2, 3] : Bytes).length < 2 ^ 63 ∧ encryptedSize 3 = 111 ∧
    ∃ enc stream,
      newEncryptingReader clearAead.toAead ⟨[[1], [], [2, 3]], .eof, true⟩
        (List.replicate kekSize 7) ⟨List.replicate 16 1, rfl⟩ ⟨List.replicate 32 2, rfl⟩
        ⟨List.replicate 12 3, rfl⟩ ⟨List.replicate 4 4, rfl⟩ = .ok enc ∧
      Delivers (EncryptingReader.read clearAead.toAead) CryptoErr.eof enc stream ∧
      (stream.length : ℤ) = encryptedSize (3 : ℕ) ∧
      uploadEncrypted clearAead.toAead ⟨[[1], [], [2, 3]], .eof, true⟩
        (List.replicate kekSize 7) ⟨List.replicate 16 1, rfl⟩ ⟨List.replicate 32 2, rfl⟩
        ⟨List.replicate 12 3, rfl⟩ ⟨List.replicate 4 4, rfl⟩ (3 : ℕ) =
        .ok { body := enc, contentLength := stream.length } := by
  refine ⟨by decide, by decide, ?_⟩
  refine length_read_eq_encryptedSize clearAead ⟨List.replicate kekSize 7, rfl⟩ _ _ _ _
    [1, 2, 3] (by decide) _ ⟨rfl, rfl, ?_⟩
  intro k hk
  simp [maxConsecutiveEmptyReads]

end CloudBackup.ObjectStore
