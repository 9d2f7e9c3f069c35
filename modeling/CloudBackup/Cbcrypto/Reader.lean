import CloudBackup.Cbcrypto.Format

/-!
The two readers of package `cbcrypto`. `EncryptingReader` turns a stream of
plaintext into the header followed by sealed chunks, `DecryptingReader` goes
the other way. Both are state machines behind an `io.Reader`: a call of `Read`
drains what is pending, and works on the next chunk when nothing is.

The random values that `NewEncryptingReader` draws are its arguments here.
-/

namespace CloudBackup.Cbcrypto

open ByteStream

variable (A : Aead)

/-! ### What both readers do with their source -/

def readFullOrEOF (src : BufReader UInt8) (n : ℕ) :
    Except ReadErr (Bytes × Bool) × BufReader UInt8 :=
  match src.readFull n with
  | (c, none, src') => (.ok (c, false), src')
  | (c, some .eof, src') => (.ok (c, true), src')
  | (c, some .unexpectedEOF, src') => (.ok (c, true), src')
  | (_, some e, src') => (.error e, src')

/-- The `isLast` of `encryptNextChunk` and `decryptNextChunk`: after a full read
it is left to `Peek(1)`. -/
def isLast (src : BufReader UInt8) (eof : Bool) : Except ReadErr Bool × BufReader UInt8 :=
  if eof then (.ok true, src)
  else
    match src.peek with
    | (none, src') => (.ok false, src')
    | (some .eof, src') => (.ok true, src')
    | (some e, src') => (.error e, src')

def CryptoErr.ofRead : ReadErr → CryptoErr
  | .eof => .eof
  | e => .source e

/-- Neither helper reports the end of the source as an error. -/
theorem ofRead_ne_eof {e : ReadErr} (h : e ≠ .eof) : CryptoErr.ofRead e ≠ .eof := by
  cases e <;> simp [CryptoErr.ofRead] at h ⊢

theorem readFullOrEOF_ne_eof {src src' : BufReader UInt8} {n : ℕ} {e : ReadErr}
    (h : readFullOrEOF src n = (.error e, src')) : e ≠ .eof := by
  unfold readFullOrEOF at h
  split at h <;> simp only [Prod.mk.injEq, Except.error.injEq, reduceCtorEq, false_and] at h
  rename_i hne _ _
  obtain ⟨rfl, -⟩ := h
  exact hne

theorem isLast_ne_eof {src src' : BufReader UInt8} {eof : Bool} {e : ReadErr}
    (h : isLast src eof = (.error e, src')) : e ≠ .eof := by
  unfold isLast at h
  split at h
  · simp at h
  · split at h <;> simp only [Prod.mk.injEq, Except.error.injEq, reduceCtorEq, false_and] at h
    rename_i hne _
    obtain ⟨rfl, -⟩ := h
    exact hne

/-- The measure of the loop in `Read`: each round reads from the source or is
the last one. -/
def roundsLeft (src : BufReader UInt8) (last : Bool) : ℕ :=
  if last then 0 else src.size + 1

theorem readFullOrEOF_size {src src' : BufReader UInt8} {n : ℕ} {c : Bytes} {eof : Bool}
    (h : readFullOrEOF src n = (.ok (c, eof), src')) :
    src'.size ≤ src.size ∧ (eof = false → src'.size + n ≤ src.size) := by
  have hsize := src.readFull_size n
  have hlen := @BufReader.readFull_length _ src n
  unfold readFullOrEOF at h
  split at h <;> rename_i hr <;> simp only [hr] at hsize hlen <;>
    simp only [Prod.mk.injEq, Except.ok.injEq, reduceCtorEq, false_and] at h
  · obtain ⟨⟨rfl, rfl⟩, rfl⟩ := h
    have := hlen trivial
    exact ⟨by omega, fun _ => by omega⟩
  · obtain ⟨⟨rfl, rfl⟩, rfl⟩ := h
    exact ⟨by omega, by simp⟩
  · obtain ⟨⟨rfl, rfl⟩, rfl⟩ := h
    exact ⟨by omega, by simp⟩

theorem isLast_size (src : BufReader UInt8) (eof : Bool) :
    (isLast src eof).2.size ≤ src.size ∧ ((isLast src eof).1 = .ok false → eof = false) := by
  have := src.peek_size
  unfold isLast
  split
  · simp
  · split <;> rename_i hp <;> rw [hp] at this <;> simp_all

theorem roundsLeft_lt {src src₁ src₂ : BufReader UInt8} {n : ℕ} {c : Bytes} {eof last : Bool}
    (hn : 0 < n) (hread : readFullOrEOF src n = (.ok (c, eof), src₁))
    (hlast : isLast src₁ eof = (.ok last, src₂)) :
    roundsLeft src₂ last < roundsLeft src false := by
  obtain ⟨hle, hlt⟩ := readFullOrEOF_size hread
  obtain ⟨hle', hof⟩ := isLast_size src₁ eof
  rw [hlast] at hle' hof
  cases last with
  | true => simp [roundsLeft]
  | false =>
      have := hlt (hof rfl)
      simp only [roundsLeft, Bool.false_eq_true, if_false] at *
      omega

/-- Over a clean source, a round takes the next `n` bytes and knows if they are
the last. -/
theorem readFullOrEOF_isLast {src : BufReader UInt8} (n : ℕ) (hs : src.Clean) :
    ∃ eof src₁ src₂, readFullOrEOF src n = (.ok (src.rest.take n, eof), src₁) ∧
      isLast src₁ eof = (.ok (decide (src.rest.length ≤ n)), src₂) ∧
      src₂.Clean ∧ src₂.rest = src.rest.drop n := by
  obtain ⟨src₁, hc₁, hrest₁, hread⟩ := src.readFull_eq n hs
  by_cases hn : n ≤ src.rest.length
  · obtain ⟨src₂, hc₂, hrest₂, hpeek⟩ := src₁.peek_eq hc₁
    refine ⟨false, src₁, src₂, ?_, ?_, hc₂, by rw [hrest₂, hrest₁]⟩
    · simp [readFullOrEOF, hread, hn]
    · have hiff : src₁.rest = [] ↔ src.rest.length ≤ n := by
        rw [hrest₁, List.drop_eq_nil_iff]
      by_cases hz : src.rest.length ≤ n
      · simp [isLast, hpeek, hiff.mpr hz, hz]
      · have : src₁.rest ≠ [] := fun h => hz (hiff.mp h)
        simp [isLast, hpeek, this, hz]
  · refine ⟨true, src₁, src₁, ?_, ?_, hc₁, hrest₁⟩
    · rw [if_neg hn] at hread
      rw [readFullOrEOF, hread]
      by_cases hz : src.rest.take n = []
      · simp [shortErr, hz]
      · simp [shortErr, hz]
    · have : src.rest.length ≤ n := by omega
      simp [isLast, this]

/-! ### The encrypting reader -/

structure EncryptingReader where
  src : BufReader UInt8
  cek : Bytes
  noncePrefix : Block noncePrefixSize
  counter : ℕ
  header : Bytes
  headerEmitted : Bool
  pendingOut : Bytes
  lastEmitted : Bool

def newHeader (keystoreUUID : Block keystoreUUIDSize) (wrapNonce : Block nonceSize)
    (wrappedCEK : Block wrappedCEKSize) (noncePrefix : Block noncePrefixSize) : Header where
  version := 1
  keystoreUUID := keystoreUUID
  wrapNonce := wrapNonce
  wrappedCEK := wrappedCEK
  noncePrefix := noncePrefix
  chunkSize := chunkSize

def EncryptingReader.start (src : Source UInt8) (cek : Bytes) (hdr : Header) :
    EncryptingReader where
  src := BufReader.new src
  cek := cek
  noncePrefix := hdr.noncePrefix
  counter := 0
  header := hdr.marshalBinary
  headerEmitted := false
  pendingOut := []
  lastEmitted := false

def newEncryptingReader (src : Source UInt8) (kek : Bytes) (keystoreUUID : Block keystoreUUIDSize)
    (cek : Block cekSize) (wrapNonce : Block nonceSize) (noncePrefix : Block noncePrefixSize) :
    Except CryptoErr EncryptingReader := do
  if kek.length ≠ kekSize then throw (.kekLength kek.length)
  let wrappedCEK ← wrapCEK A kek cek.1 wrapNonce
  if !cipherKeyOk cek.1 then throw (.cipherKeyLength cek.1.length)
  return .start src cek.1 (newHeader keystoreUUID wrapNonce wrappedCEK noncePrefix)

def encryptNextChunk (r : EncryptingReader) : Option CryptoErr × EncryptingReader :=
  match readFullOrEOF r.src chunkSize with
  | (.error e, src) => (some (.ofRead e), { r with src := src })
  | (.ok (chunkPlain, eof), src) =>
      match isLast src eof with
      | (.error e, src) => (some (.ofRead e), { r with src := src })
      | (.ok last, src) =>
          match buildChunkNonce r.noncePrefix r.counter last with
          | .error e => (some e, { r with src := src })
          | .ok nonce =>
              (none, { r with
                src := src
                pendingOut := A.sealed r.cek nonce chunkPlain
                counter := r.counter + 1
                lastEmitted := r.lastEmitted || last })

theorem encryptNextChunk_roundsLeft {r r' : EncryptingReader}
    (h : encryptNextChunk A r = (none, r')) (hl : r.lastEmitted = false) :
    roundsLeft r'.src r'.lastEmitted < roundsLeft r.src r.lastEmitted := by
  unfold encryptNextChunk at h
  split at h
  · simp at h
  · rename_i hread
    split at h
    · simp at h
    · rename_i hlast
      split at h
      · simp at h
      · simp only [Prod.mk.injEq, true_and] at h
        subst h
        simpa [hl] using roundsLeft_lt (by decide) hread hlast

def EncryptingReader.readBody (r : EncryptingReader) (n : ℕ) :
    Bytes × Option CryptoErr × EncryptingReader :=
  if r.pendingOut ≠ [] then
    (r.pendingOut.take n, none, { r with pendingOut := r.pendingOut.drop n })
  else if _hl : r.lastEmitted then ([], some .eof, r)
  else
    match _hr : encryptNextChunk A r with
    | (some e, r') => ([], some e, r')
    | (none, r') => readBody r' n
  termination_by roundsLeft r.src r.lastEmitted
  decreasing_by exact encryptNextChunk_roundsLeft A _hr (by simpa using _hl)

def EncryptingReader.read (r : EncryptingReader) (n : ℕ) :
    Bytes × Option CryptoErr × EncryptingReader :=
  if r.headerEmitted then r.readBody A n
  else
    (r.header.take n, none,
      { r with header := r.header.drop n, headerEmitted := (r.header.drop n).isEmpty })

/-! ### The decrypting reader -/

/-- `DecryptingReader`. Until the header is parsed, `chunkCT` holds the KEK;
after that it is a scratch buffer of `chunkSize + tagSize` bytes, of which only
the length matters. -/
structure DecryptingReader where
  src : BufReader UInt8
  cek : Bytes
  noncePrefix : Block noncePrefixSize
  chunkSize : ℕ
  counter : ℕ
  header : Option Header
  headerParsed : Bool
  chunkCT : Bytes
  pendingOut : Bytes
  lastConsumed : Bool

def newDecryptingReader (src : Source UInt8) (kek : Bytes) : Except CryptoErr DecryptingReader :=
  if kek.length ≠ kekSize then .error (.kekLength kek.length)
  else
    .ok {
      src := BufReader.new src
      cek := []
      noncePrefix := ⟨[0, 0, 0, 0], rfl⟩
      chunkSize := 0
      counter := 0
      header := none
      headerParsed := false
      chunkCT := kek
      pendingOut := []
      lastConsumed := false }

def openHeader (kek hdrBuf : Bytes) : Except CryptoErr (Header × Bytes) := do
  let hdr ← unmarshalHeader hdrBuf
  let cek ← (unwrapCEK A kek hdr.wrapNonce hdr.wrappedCEK).mapError .unwrapCEK
  if !cipherKeyOk cek then throw (.cipherKeyLength cek.length)
  if hdr.chunkSize = 0 ∨ maxHeaderChunkSize < hdr.chunkSize then
    throw (.chunkSizeOutOfRange hdr.chunkSize)
  return (hdr, cek)

def parseHeader (r : DecryptingReader) : Option CryptoErr × DecryptingReader :=
  match r.src.readFull headerSize with
  | (_, some e, src) =>
      (some (if e = .eof ∨ e = .unexpectedEOF then .ciphertextTooShort e else .ofRead e),
        { r with src := src, chunkCT := [] })
  | (hdrBuf, none, src) =>
      match openHeader A r.chunkCT hdrBuf with
      | .error e => (some e, { r with src := src, chunkCT := [] })
      | .ok (hdr, cek) =>
          (none, { r with
            src := src
            chunkCT := []
            cek := cek
            noncePrefix := hdr.noncePrefix
            chunkSize := hdr.chunkSize
            header := some hdr })

def decryptNextChunk (r : DecryptingReader) : Option CryptoErr × DecryptingReader :=
  match readFullOrEOF r.src (r.chunkSize + tagSize) with
  | (.error e, src) => (some (.ofRead e), { r with src := src })
  | (.ok (chunkCT, eof), src) =>
      if chunkCT.length < tagSize then
        (some (.chunkTruncated r.counter chunkCT.length), { r with src := src })
      else
        match isLast src eof with
        | (.error e, src) => (some (.ofRead e), { r with src := src })
        | (.ok last, src) =>
            match buildChunkNonce r.noncePrefix r.counter last with
            | .error e => (some e, { r with src := src })
            | .ok nonce =>
                match A.open? r.cek nonce chunkCT with
                | none => (some (.decryptChunk r.counter last), { r with src := src })
                | some pt =>
                    (none, { r with
                      src := src
                      pendingOut := pt
                      counter := r.counter + 1
                      lastConsumed := r.lastConsumed || last })

theorem decryptNextChunk_eq_none {r r' : DecryptingReader}
    (h : decryptNextChunk A r = (none, r')) :
    ∃ chunkCT eof src last src' pt,
      readFullOrEOF r.src (r.chunkSize + tagSize) = (.ok (chunkCT, eof), src) ∧
      isLast src eof = (.ok last, src') ∧ r.counter ≤ maxChunkCounter ∧
      A.open? r.cek (chunkNonce r.noncePrefix r.counter last) chunkCT = some pt ∧
      r' = { r with
        src := src'
        pendingOut := pt
        counter := r.counter + 1
        lastConsumed := r.lastConsumed || last } := by
  unfold decryptNextChunk at h
  split at h
  · simp at h
  · rename_i chunkCT eof src hread
    split at h
    · simp at h
    · split at h
      · simp at h
      · rename_i last src' hlast
        split at h
        · simp at h
        · rename_i nonce hnonce
          obtain ⟨hc, rfl⟩ := buildChunkNonce_eq_ok.mp hnonce
          split at h
          · simp at h
          · rename_i pt hopen
            simp only [Prod.mk.injEq, true_and] at h
            exact ⟨chunkCT, eof, src, last, src', pt, hread, hlast, hc, hopen, h.symm⟩

theorem decryptNextChunk_roundsLeft {r r' : DecryptingReader}
    (h : decryptNextChunk A r = (none, r')) (hl : r.lastConsumed = false) :
    roundsLeft r'.src r'.lastConsumed < roundsLeft r.src r.lastConsumed := by
  obtain ⟨_, _, _, _, _, _, hread, hlast, -, -, rfl⟩ := decryptNextChunk_eq_none A h
  simpa [hl] using roundsLeft_lt (by simp [tagSize]) hread hlast

def DecryptingReader.readBody (r : DecryptingReader) (n : ℕ) :
    Bytes × Option CryptoErr × DecryptingReader :=
  if r.pendingOut ≠ [] then
    (r.pendingOut.take n, none, { r with pendingOut := r.pendingOut.drop n })
  else if _hl : r.lastConsumed then ([], some .eof, r)
  else
    match _hr : decryptNextChunk A r with
    | (some e, r') => ([], some e, r')
    | (none, r') => readBody r' n
  termination_by roundsLeft r.src r.lastConsumed
  decreasing_by exact decryptNextChunk_roundsLeft A _hr (by simpa using _hl)

def DecryptingReader.read (r : DecryptingReader) (n : ℕ) :
    Bytes × Option CryptoErr × DecryptingReader :=
  if r.headerParsed then r.readBody A n
  else
    match parseHeader A r with
    | (some e, r') => ([], some e, r')
    | (none, r') => DecryptingReader.readBody A { r' with headerParsed := true } n

def DecryptingReader.peekHeader (r : DecryptingReader) :
    Except CryptoErr (Option Header) × DecryptingReader :=
  if r.headerParsed then (.ok r.header, r)
  else
    match parseHeader A r with
    | (some e, r') => (.error e, r')
    | (none, r') => (.ok r'.header, { r' with headerParsed := true })

end CloudBackup.Cbcrypto
