import CloudBackup.Cbcrypto.Integrity
import CloudBackup.ObjectStore.Encryption

/-!
The bytes of a file on their way to an object and back: what `Upload` sends,
and what `Get` writes. A store with encryption sends the file through an
`EncryptingReader`; what comes back is decrypted exactly if the database says
so.
-/

namespace CloudBackup.ObjectStore

open ByteStream Cbcrypto

def copyBufferSize : ℕ := 32 * 1024

/-- `io.Copy` from a reader, with a bound on the number of its calls. -/
def copyAll {ρ : Type} (read : ρ → ℕ → Bytes × Option CryptoErr × ρ) (calls : ℕ) (r : ρ) :
    Except CryptoErr Bytes :=
  match drive read (List.replicate calls copyBufferSize) r with
  | (out, some .eof, _) => .ok out
  | (_, some e, _) => .error e
  | (_, none, _) => .error (.source .noProgress)

def onePiece (body : Bytes) : Source UInt8 := ⟨[body], .eof, false⟩

theorem onePiece_splits (body : Bytes) : (onePiece body).Splits body := by
  refine ⟨by simp [onePiece, Source.rest], rfl, fun k _ => ?_⟩
  simp only [onePiece, List.length_cons, List.length_nil, maxConsecutiveEmptyReads]
  omega

structure Nonces where
  cek : Block cekSize
  wrapNonce : Block nonceSize
  noncePrefix : Block noncePrefixSize

def wireBody (A : Aead) (es : EncryptionState) (skipEncryption : Bool) (content : Bytes)
    (rand : Nonces) : Except CryptoErr Bytes :=
  if es.enabled && !skipEncryption then do
    let er ← newEncryptingReader A (onePiece content) es.kek es.keystoreUUID rand.cek
      rand.wrapNonce rand.noncePrefix
    -- the header, and at most one tag for each byte and one more
    copyAll (EncryptingReader.read A) (2 * content.length + headerSize + tagSize + 1) er
  else .ok content

inductive GetErr
  | wrap (e : CryptoErr)
  | parseHeader (e : CryptoErr)
  | keystoreMismatch
  | decrypt (e : CryptoErr)
  | notFound
  | badVersion
  deriving DecidableEq, Repr

def decode (A : Aead) (es : EncryptionState) (encrypted : Bool) (body : Bytes) :
    Except GetErr Bytes :=
  if !encrypted then .ok body
  else
    match newDecryptingReader (onePiece body) es.kek with
    | .error e => .error (.wrap e)
    | .ok dr =>
        match dr.peekHeader A with
        | (.error e, _) => .error (.parseHeader e)
        | (.ok hdr, dr) =>
            if hdr.map (·.keystoreUUID) ≠ some es.keystoreUUID then .error .keystoreMismatch
            else (copyAll (DecryptingReader.read A) (body.length + 1) dr).mapError .decrypt

/-! ### There and back -/

theorem length_sealBody_le (A : LawfulAead) (cek : Bytes) (pre : Block noncePrefixSize) (i : ℕ)
    (q : Bytes) : (sealBody A.toAead cek pre i q).length ≤ 2 * q.length + tagSize := by
  fun_induction sealBody A.toAead cek pre i q with
  | case1 i q hq =>
      rw [A.length_seal]
      omega
  | case2 i q hq ih =>
      rw [List.length_append, A.length_seal, List.length_take]
      rw [List.length_drop] at ih
      simp only [chunkSize, tagSize] at *
      omega

theorem length_le_sealBody (A : LawfulAead) (cek : Bytes) (pre : Block noncePrefixSize) (i : ℕ)
    (q : Bytes) : q.length ≤ (sealBody A.toAead cek pre i q).length := by
  fun_induction sealBody A.toAead cek pre i q with
  | case1 i q hq =>
      rw [A.length_seal]
      omega
  | case2 i q hq ih =>
      rw [List.length_append, A.length_seal, List.length_take]
      rw [List.length_drop] at ih
      omega

theorem length_le_stream (A : LawfulAead) (uuid : Block keystoreUUIDSize) (rand : Nonces)
    (wrappedCEK : Block wrappedCEKSize) (content : Bytes) :
    content.length ≤ (encryptedStream A.toAead uuid rand.wrapNonce wrappedCEK rand.cek.1
      rand.noncePrefix content).length := by
  have := length_le_sealBody A rand.cek.1 rand.noncePrefix 0 content
  simp only [encryptedStream, List.length_append]
  omega

theorem copyAll_eq {ρ : Type} {read : ρ → ℕ → Bytes × Option CryptoErr × ρ}
    {I : Bytes → ρ → Prop} (h : Drains read .eof I) {s : Bytes} {r : ρ} (hr : I s r) {calls : ℕ}
    (hc : s.length < calls) : copyAll read calls r = .ok s := by
  obtain ⟨r', hdrive⟩ := h.drive_replicate (by decide : 0 < copyBufferSize) calls hr hc
  rw [copyAll, hdrive]

theorem wireBody_encrypted (A : LawfulAead) {es : EncryptionState} (hen : es.enabled = true)
    (hkek : es.kek.length = kekSize) {content : Bytes} (hfits : Fits 0 content) (rand : Nonces) :
    ∃ wrappedCEK : Block wrappedCEKSize,
      A.open? es.kek rand.wrapNonce.1 wrappedCEK.1 = some rand.cek.1 ∧
      wireBody A.toAead es false content rand = .ok (encryptedStream A.toAead es.keystoreUUID
        rand.wrapNonce wrappedCEK rand.cek.1 rand.noncePrefix content) := by
  obtain ⟨wrappedCEK, enc, hopen, hnew, henc⟩ := newEncryptingReader_delivers ⟨es.kek, hkek⟩
    es.keystoreUUID rand.cek rand.wrapNonce rand.noncePrefix A hfits (onePiece_splits content)
  refine ⟨wrappedCEK, hopen, ?_⟩
  simp only [wireBody, hen, Bool.not_false, Bool.and_self, if_true, hnew, bind, Except.bind]
  refine copyAll_eq (encryptingReader_drains A) henc ?_
  have := length_sealBody_le A rand.cek.1 rand.noncePrefix 0 content
  simp only [encryptedStream, List.length_append, Header.length_marshalBinary]
  omega

/-- A file comes back as it was sent, if it is read with the key and the flag it
was sent with. -/
theorem decode_wireBody (A : LawfulAead) {es es' : EncryptionState}
    (hkeys : es.enabled = true → es.kek = es'.kek ∧ es.keystoreUUID = es'.keystoreUUID ∧
      es'.kek.length = kekSize) {content : Bytes} (hfits : Fits 0 content) (rand : Nonces) :
    ∃ body, wireBody A.toAead es false content rand = .ok body ∧
      decode A.toAead es' es.enabled body = .ok content := by
  by_cases hen : es.enabled = true
  · obtain ⟨hkek, huuid, hlen⟩ := hkeys hen
    rw [← hkek] at hlen
    obtain ⟨wrappedCEK, hopen, hwire⟩ := wireBody_encrypted A hen hlen hfits rand
    refine ⟨_, hwire, ?_⟩
    obtain ⟨dec, hnew, hdec⟩ := newDecryptingReader_header ⟨es.kek, hlen⟩ es.keystoreUUID
      rand.cek rand.wrapNonce rand.noncePrefix A.toAead hfits hopen (onePiece_splits _)
    obtain ⟨r', hparse, hheader, hbody⟩ := parseHeader_delivers A.toAead hdec
    have hpeek : dec.peekHeader A.toAead = (.ok r'.header, { r' with headerParsed := true }) := by
      rw [DecryptingReader.peekHeader, if_neg (by simp [hdec.parsed]), hparse]
    have hmap : r'.header.map (·.keystoreUUID) = some es.keystoreUUID := by
      rw [hheader]
      rfl
    have hlt : content.length < (encryptedStream A.toAead es.keystoreUUID rand.wrapNonce wrappedCEK
        rand.cek.1 rand.noncePrefix content).length + 1 :=
      Nat.lt_succ_of_le (length_le_stream A es.keystoreUUID rand wrappedCEK content)
    have hcopy := copyAll_eq (decryptingReader_drains A) (Or.inr hbody) hlt
    simp only [decode, hen, ← hkek, ← huuid, hnew, hpeek, hmap, Bool.not_true, Bool.false_eq_true,
      if_false, ne_eq, not_true_eq_false, hcopy]
    rfl
  · have hoff : es.enabled = false := by simpa using hen
    exact ⟨content, by simp [wireBody, hoff], by simp [decode, hoff]⟩

/-! ### Without the key -/

/-- A store that has not brought up its keystore cannot decrypt anything. -/
theorem decode_noKey (A : Aead) {es : EncryptionState} (h : es.kek.length ≠ kekSize) (body : Bytes) :
    ∃ e, decode A es true body = .error e := by
  refine ⟨.wrap (.kekLength es.kek.length), ?_⟩
  simp [decode, newDecryptingReader, h]

/-- The header of a file tells its keystore, whichever key opens it. -/
theorem openHeader_newHeader_eq {A : Aead} {kek cek : Bytes} {uuid : Block keystoreUUIDSize}
    {wrapNonce : Block nonceSize} {wrappedCEK : Block wrappedCEKSize} {pre : Block noncePrefixSize}
    {hdr : Header}
    (h : openHeader A kek (newHeader uuid wrapNonce wrappedCEK pre).marshalBinary = .ok (hdr, cek)) :
    hdr = newHeader uuid wrapNonce wrappedCEK pre := by
  have hun := unmarshalHeader_marshalBinary (newHeader uuid wrapNonce wrappedCEK pre) rfl
    (by simp only [newHeader]; decide) (by simp only [newHeader]; decide)
  obtain ⟨hlen, hfields⟩ := unmarshalHeader_eq_ok hun
  obtain ⟨_, hfields', -⟩ := openHeader_key h
  exact hfields'.trans hfields.symm

theorem peekHeader_newHeader {A : Aead} {kek s : Bytes} {uuid : Block keystoreUUIDSize}
    {wrapNonce : Block nonceSize} {wrappedCEK : Block wrappedCEKSize} {pre : Block noncePrefixSize}
    {src : Source UInt8}
    (hsrc : src.Splits ((newHeader uuid wrapNonce wrappedCEK pre).marshalBinary ++ s))
    {dec dec' : DecryptingReader} (hnew : newDecryptingReader src kek = .ok dec) {hdr : Option Header}
    (h : dec.peekHeader A = (.ok hdr, dec')) : hdr = some (newHeader uuid wrapNonce wrappedCEK pre) := by
  unfold newDecryptingReader at hnew
  split at hnew
  · cases hnew
  · cases hnew
    obtain ⟨src', -, -, hread⟩ := (BufReader.new src).readFull_eq headerSize
      (BufReader.clean_new hsrc.noStall hsrc.final)
    rw [show (BufReader.new src).rest = (newHeader uuid wrapNonce wrappedCEK pre).marshalBinary ++ s
      from hsrc.rest, Header.take_marshalBinary_append, if_pos (by simp)] at hread
    simp only [DecryptingReader.peekHeader, parseHeader, hread, Bool.false_eq_true, if_false] at h
    cases hopen : openHeader A kek (newHeader uuid wrapNonce wrappedCEK pre).marshalBinary with
    | error e => simp [hopen] at h
    | ok opened =>
        obtain ⟨hdr', cek⟩ := opened
        obtain rfl := openHeader_newHeader_eq hopen
        simp only [hopen] at h
        cases h
        rfl

theorem decode_otherKeystore (A : Aead) {es : EncryptionState} {uuid : Block keystoreUUIDSize}
    (hne : uuid ≠ es.keystoreUUID) (wrapNonce : Block nonceSize) (wrappedCEK : Block wrappedCEKSize)
    (cek : Bytes) (pre : Block noncePrefixSize) (content : Bytes) :
    ∃ e, decode A es true (encryptedStream A uuid wrapNonce wrappedCEK cek pre content) = .error e := by
  by_cases hkek : es.kek.length = kekSize
  · have hnew : ∃ dec, newDecryptingReader (onePiece (encryptedStream A uuid wrapNonce wrappedCEK cek
        pre content)) es.kek = .ok dec := ⟨_, by rw [newDecryptingReader, if_neg (by simp [hkek])]⟩
    obtain ⟨dec, hnew⟩ := hnew
    simp only [decode, Bool.not_true, Bool.false_eq_true, if_false, hnew]
    cases hpeek : dec.peekHeader A with
    | mk result dec' =>
        cases result with
        | error e => exact ⟨.parseHeader e, rfl⟩
        | ok hdr =>
            refine ⟨.keystoreMismatch, ?_⟩
            have huuid : hdr.map (·.keystoreUUID) = some uuid := by
              rw [peekHeader_newHeader (onePiece_splits _) hnew hpeek]
              rfl
            simp [huuid, hne]
  · exact decode_noKey A hkek _

end CloudBackup.ObjectStore
