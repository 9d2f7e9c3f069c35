import CloudBackup.Cbcrypto.Reader

/-!
What was encrypted decrypts to itself. `sealBody` is the body of an encrypted
stream as a function of the plaintext; the encrypting reader delivers it behind
the header, whatever the buffers of its calls, and the decrypting reader
delivers the plaintext from it.
-/

namespace CloudBackup.Cbcrypto

open ByteStream

/-! ### The body of a stream -/

/-- The chunks of `q` in sequence, sealed from counter `i` on. A chunk is the
last one exactly if it holds all that is left. -/
def sealBody (A : Aead) (cek : Bytes) (pre : Block noncePrefixSize) (i : ℕ) (q : Bytes) : Bytes :=
  if q.length ≤ chunkSize then A.sealed cek (chunkNonce pre i true) q
  else
    A.sealed cek (chunkNonce pre i false) (q.take chunkSize) ++
      sealBody A cek pre (i + 1) (q.drop chunkSize)
  termination_by q.length
  decreasing_by
    simp only [List.length_drop, chunkSize] at *
    omega

/-- One chunk and the rest of the body, in the words of the loop: the flag says
if there is a rest. -/
theorem sealBody_eq (A : Aead) (cek : Bytes) (pre : Block noncePrefixSize) (i : ℕ) (q : Bytes) :
    sealBody A cek pre i q =
      A.sealed cek (chunkNonce pre i (decide (q.length ≤ chunkSize))) (q.take chunkSize) ++
        if q.length ≤ chunkSize then [] else sealBody A cek pre (i + 1) (q.drop chunkSize) := by
  rw [sealBody]
  by_cases hq : q.length ≤ chunkSize
  · simp [hq, List.take_of_length_le hq]
  · simp [hq]

/-- The number of bytes that chunks `i` and following can still hold. -/
def Fits (i : ℕ) (q : Bytes) : Prop := i * chunkSize + q.length < chunkSize * 2 ^ 56

theorem Fits.counter_le {i : ℕ} {q : Bytes} (h : Fits i q) : i ≤ maxChunkCounter := by
  have hlt : i * chunkSize < 2 ^ 56 * chunkSize := by
    rw [Nat.mul_comm (2 ^ 56)]
    exact Nat.lt_of_le_of_lt (Nat.le_add_right _ _) h
  exact Nat.le_sub_one_of_lt (Nat.lt_of_mul_lt_mul_right hlt)

theorem Fits.next {i : ℕ} {q : Bytes} (h : Fits i q) (hq : ¬ q.length ≤ chunkSize) :
    Fits (i + 1) (q.drop chunkSize) := by
  unfold Fits at *
  rw [List.length_drop, Nat.add_mul]
  omega

/-! ### Encryption -/

theorem encryptNextChunk_spec (A : Aead) {r : EncryptingReader} (hs : r.src.Clean)
    (hc : r.counter ≤ maxChunkCounter) (hl : r.lastEmitted = false) :
    ∃ src, src.Clean ∧ src.rest = r.src.rest.drop chunkSize ∧
      encryptNextChunk A r = (none, { r with
        src := src
        pendingOut := A.sealed r.cek
          (chunkNonce r.noncePrefix r.counter (decide (r.src.rest.length ≤ chunkSize)))
          (r.src.rest.take chunkSize)
        counter := r.counter + 1
        lastEmitted := decide (r.src.rest.length ≤ chunkSize) }) := by
  obtain ⟨eof, src₁, src₂, hread, hlast, hclean, hrest⟩ := readFullOrEOF_isLast chunkSize hs
  refine ⟨src₂, hclean, hrest, ?_⟩
  have hnonce := buildChunkNonce_eq_ok.mpr
    ⟨hc, (rfl : chunkNonce r.noncePrefix r.counter (decide (r.src.rest.length ≤ chunkSize)) = _)⟩
  simp [encryptNextChunk, hread, hlast, hnonce, hl]

def EncryptingReader.remaining (A : Aead) (r : EncryptingReader) : Bytes :=
  (if r.headerEmitted then [] else r.header) ++ r.pendingOut ++
    if r.lastEmitted then [] else sealBody A r.cek r.noncePrefix r.counter r.src.rest

structure EncDelivers (A : Aead) (s : Bytes) (r : EncryptingReader) : Prop where
  remaining : s = r.remaining A
  header : r.headerEmitted = false → r.header ≠ [] ∧ r.pendingOut = []
  body : r.lastEmitted = false → r.src.Clean ∧ Fits r.counter r.src.rest

theorem take_ne_nil {α : Type} {l : List α} {n : ℕ} (hl : l ≠ []) (hn : 0 < n) :
    l.take n ≠ [] := by
  intro h
  rcases List.take_eq_nil_iff.mp h with h | h
  · omega
  · exact hl h

theorem LawfulAead.sealed_ne_nil (A : LawfulAead) (k n m : Bytes) : A.sealed k n m ≠ [] := by
  intro h
  have := congrArg List.length h
  rw [A.length_seal] at this
  simp [tagSize] at this

/-- Sealing the next chunk only moves it from the source to the pending output. -/
theorem encryptNextChunk_delivers (A : LawfulAead) {s : Bytes} {r : EncryptingReader}
    (hr : EncDelivers A.toAead s r) (hh : r.headerEmitted = true) (hp : r.pendingOut = [])
    (hl : r.lastEmitted = false) :
    ∃ r', encryptNextChunk A.toAead r = (none, r') ∧ EncDelivers A.toAead s r' ∧
      r'.headerEmitted = true ∧ r'.pendingOut ≠ [] := by
  obtain ⟨hs, hfits⟩ := hr.body hl
  obtain ⟨src, hclean, hrest, hnext⟩ := encryptNextChunk_spec A.toAead hs hfits.counter_le hl
  refine ⟨_, hnext, ⟨?_, by simp [hh], ?_⟩, hh, A.sealed_ne_nil _ _ _⟩
  · rw [hr.remaining]
    simp only [EncryptingReader.remaining, hh, hp, hl, hrest, if_true, List.nil_append,
      Bool.false_eq_true, if_false, decide_eq_true_eq]
    exact sealBody_eq _ _ _ _ _
  · intro hq
    have hq' : ¬ r.src.rest.length ≤ chunkSize := by simpa using hq
    exact ⟨hclean, by simpa only [hrest] using hfits.next hq'⟩

/-- The bytes that calls return before the reader turns to its source again. -/
def EncryptingReader.ahead (r : EncryptingReader) : Bytes :=
  (if r.headerEmitted then [] else r.header) ++ r.pendingOut

def EncryptingReader.HeaderFirst (r : EncryptingReader) : Prop :=
  r.headerEmitted = false → r.header ≠ [] ∧ r.pendingOut = []

theorem EncryptingReader.read_ahead (A : Aead) {r : EncryptingReader} (n : ℕ)
    (hfirst : r.HeaderFirst) (hne : r.ahead ≠ []) :
    ∃ c h b p, r.read A n =
        (c, none, { r with header := h, headerEmitted := b, pendingOut := p }) ∧
      r.ahead = c ++ EncryptingReader.ahead { r with header := h, headerEmitted := b, pendingOut := p } ∧
      EncryptingReader.HeaderFirst { r with header := h, headerEmitted := b, pendingOut := p } ∧
      (0 < n → c ≠ []) := by
  rw [EncryptingReader.read]
  by_cases hh : r.headerEmitted = true
  · have hp : r.pendingOut ≠ [] := by simpa [EncryptingReader.ahead, hh] using hne
    refine ⟨_, r.header, r.headerEmitted, r.pendingOut.drop n, ?_, ?_, by simp [HeaderFirst, hh],
      fun hn => take_ne_nil hp hn⟩
    · rw [if_pos hh, EncryptingReader.readBody, if_pos hp]
    · simp only [EncryptingReader.ahead, hh, if_true, List.nil_append]
      rw [List.take_append_drop]
  · obtain ⟨hhdr, hp⟩ := hfirst (by simpa using hh)
    refine ⟨_, r.header.drop n, (r.header.drop n).isEmpty, r.pendingOut, by rw [if_neg hh], ?_, ?_,
      fun hn => take_ne_nil hhdr hn⟩
    · simp only [EncryptingReader.ahead, hh, hp, List.append_nil, Bool.false_eq_true, if_false,
        List.isEmpty_iff]
      by_cases hd : r.header.drop n = []
      · have htake : r.header.take n = r.header := by
          have := List.take_append_drop n r.header
          rwa [hd, List.append_nil] at this
        simp [hd, htake]
      · rw [if_neg hd, List.take_append_drop]
    · intro hd
      exact ⟨by simpa using hd, hp⟩

/-- A call that finds nothing ahead seals the next chunk first. -/
theorem EncryptingReader.read_next (A : Aead) {r r' : EncryptingReader} (n : ℕ)
    (hh : r.headerEmitted = true) (hp : r.pendingOut = []) (hl : r.lastEmitted = false)
    (hnext : encryptNextChunk A r = (none, r')) (hh' : r'.headerEmitted = true) :
    r.read A n = r'.read A n := by
  rw [EncryptingReader.read, if_pos hh, EncryptingReader.readBody, if_neg (by simp [hp]),
    dif_neg (by simp [hl]), hnext, EncryptingReader.read, if_pos hh']

theorem EncryptingReader.ahead_eq_nil {r : EncryptingReader} (hfirst : r.HeaderFirst)
    (h : r.ahead = []) : r.headerEmitted = true ∧ r.pendingOut = [] := by
  cases hh : r.headerEmitted with
  | true => exact ⟨rfl, by simpa [EncryptingReader.ahead, hh] using h⟩
  | false =>
      obtain ⟨hhdr, hp⟩ := hfirst hh
      exact absurd (by simpa [EncryptingReader.ahead, hh, hp] using h) hhdr

theorem encryptingReader_drains (A : LawfulAead) :
    Drains (EncryptingReader.read A.toAead) CryptoErr.eof (EncDelivers A.toAead) := by
  have hahead : ∀ {s r} (n : ℕ), EncDelivers A.toAead s r → r.ahead ≠ [] →
      ∃ c s' r', r.read A.toAead n = (c, none, r') ∧ s = c ++ s' ∧ EncDelivers A.toAead s' r' ∧
        (0 < n → c ≠ []) := by
    intro s r n hr hne
    obtain ⟨c, h, b, p, hread, hsplit, hfirst, hc⟩ := r.read_ahead A.toAead n hr.header hne
    refine ⟨c, _, _, hread, ?_, ⟨rfl, hfirst, hr.body⟩, hc⟩
    rw [hr.remaining, EncryptingReader.remaining, ← EncryptingReader.ahead, hsplit,
      List.append_assoc]
    rfl
  intro s r n hr
  by_cases hne : r.ahead = []
  · obtain ⟨hh, hp⟩ := EncryptingReader.ahead_eq_nil hr.header hne
    by_cases hl : r.lastEmitted = true
    · right
      refine ⟨r, ?_, ?_⟩
      · rw [EncryptingReader.read, if_pos hh, EncryptingReader.readBody, if_neg (by simp [hp]),
          dif_pos hl]
      · rw [hr.remaining]
        simp [EncryptingReader.remaining, hh, hp, hl]
    · left
      have hl' : r.lastEmitted = false := by simpa using hl
      obtain ⟨r', hnext, hr', hh', hp'⟩ := encryptNextChunk_delivers A hr hh hp hl'
      rw [r.read_next A.toAead n hh hp hl' hnext hh']
      exact hahead n hr' (by simpa [EncryptingReader.ahead, hh'] using hp')
  · exact Or.inl (hahead n hr hne)

/-! ### Decryption -/

theorem length_sealBody_pos (A : LawfulAead) (cek : Bytes) (pre : Block noncePrefixSize) (i : ℕ)
    (q : Bytes) : 0 < (sealBody A.toAead cek pre i q).length := by
  rw [sealBody_eq, List.length_append, A.length_seal]
  simp only [tagSize]
  omega

/-- The decrypting reader cuts the body where it was put together. -/
theorem sealBody_cut (A : LawfulAead) (cek : Bytes) (pre : Block noncePrefixSize) (i : ℕ)
    (q : Bytes) :
    (sealBody A.toAead cek pre i q).take (chunkSize + tagSize) =
        A.sealed cek (chunkNonce pre i (decide (q.length ≤ chunkSize))) (q.take chunkSize) ∧
      (sealBody A.toAead cek pre i q).drop (chunkSize + tagSize) =
        (if q.length ≤ chunkSize then [] else
          sealBody A.toAead cek pre (i + 1) (q.drop chunkSize)) ∧
      ((sealBody A.toAead cek pre i q).length ≤ chunkSize + tagSize ↔ q.length ≤ chunkSize) := by
  rw [sealBody_eq]
  have hlen := A.length_seal cek (chunkNonce pre i (decide (q.length ≤ chunkSize)))
    (q.take chunkSize)
  rw [List.length_take] at hlen
  by_cases hq : q.length ≤ chunkSize
  · rw [Nat.min_eq_right hq] at hlen
    simp only [hq, if_true, List.append_nil, decide_true] at hlen ⊢
    refine ⟨List.take_of_length_le (by omega), List.drop_of_length_le (by omega), ?_⟩
    exact iff_of_true (by omega) trivial
  · rw [Nat.min_eq_left (by omega)] at hlen
    have hpos := length_sealBody_pos A cek pre (i + 1) (q.drop chunkSize)
    simp only [hq, if_false, decide_false] at hlen ⊢
    refine ⟨List.take_left' hlen, List.drop_left' hlen, ?_⟩
    rw [List.length_append]
    exact iff_of_false (by omega) id

theorem decryptNextChunk_spec (A : LawfulAead) {r : DecryptingReader} {q : Bytes}
    (hs : r.src.Clean) (hcs : r.chunkSize = chunkSize)
    (hq : r.src.rest = sealBody A.toAead r.cek r.noncePrefix r.counter q)
    (hc : r.counter ≤ maxChunkCounter) (hl : r.lastConsumed = false) :
    ∃ src, src.Clean ∧
      src.rest = (if q.length ≤ chunkSize then [] else
        sealBody A.toAead r.cek r.noncePrefix (r.counter + 1) (q.drop chunkSize)) ∧
      decryptNextChunk A.toAead r = (none, { r with
        src := src
        pendingOut := q.take chunkSize
        counter := r.counter + 1
        lastConsumed := decide (q.length ≤ chunkSize) }) := by
  obtain ⟨htake, hdrop, hlast⟩ := sealBody_cut A r.cek r.noncePrefix r.counter q
  obtain ⟨eof, src₁, src₂, hread, hisLast, hclean, hrest⟩ :=
    readFullOrEOF_isLast (chunkSize + tagSize) hs
  rw [hq, hdrop] at hrest
  rw [hq, htake] at hread
  simp only [hq, hlast] at hisLast
  refine ⟨src₂, hclean, hrest, ?_⟩
  have hnonce := buildChunkNonce_eq_ok.mpr
    ⟨hc, (rfl : chunkNonce r.noncePrefix r.counter (decide (q.length ≤ chunkSize)) = _)⟩
  simp [decryptNextChunk, hcs, hread, hisLast, hnonce, hl, A.length_seal, A.open_seal]

structure DecBody (A : Aead) (s : Bytes) (r : DecryptingReader) : Prop where
  parsed : r.headerParsed = true
  done : r.lastConsumed = true → s = r.pendingOut
  body : r.lastConsumed = false → r.chunkSize = chunkSize ∧ r.src.Clean ∧
    ∃ q, s = r.pendingOut ++ q ∧ Fits r.counter q ∧
      r.src.rest = sealBody A r.cek r.noncePrefix r.counter q

/-- A decrypting reader in front of the header `hdr` and the body of a stream
that holds `s`. -/
structure DecHeader (A : Aead) (hdr : Header) (s : Bytes) (r : DecryptingReader) : Prop where
  parsed : r.headerParsed = false
  last : r.lastConsumed = false
  pending : r.pendingOut = []
  counter : r.counter = 0
  clean : r.src.Clean
  fits : Fits 0 s
  chunkSize : hdr.chunkSize = chunkSize
  rest : ∃ cek, openHeader A r.chunkCT hdr.marshalBinary = .ok (hdr, cek) ∧
    r.src.rest = hdr.marshalBinary ++ sealBody A cek hdr.noncePrefix 0 s

def DecDelivers (A : Aead) (s : Bytes) (r : DecryptingReader) : Prop :=
  (∃ hdr, DecHeader A hdr s r) ∨ DecBody A s r

theorem parseHeader_delivers (A : Aead) {hdr : Header} {s : Bytes} {r : DecryptingReader}
    (hr : DecHeader A hdr s r) :
    ∃ r', parseHeader A r = (none, r') ∧ r'.header = some hdr ∧
      DecBody A s { r' with headerParsed := true } := by
  obtain ⟨cek, hopen, hrest⟩ := hr.rest
  obtain ⟨src, hclean, hrest', hread⟩ := r.src.readFull_eq headerSize hr.clean
  rw [hrest] at hread hrest'
  rw [hdr.take_marshalBinary_append, if_pos (by simp)] at hread
  rw [hdr.drop_marshalBinary_append] at hrest'
  refine ⟨_, by simp only [parseHeader, hread, hopen]; rfl, rfl,
    ⟨rfl, by simp [hr.last], fun _ => ?_⟩⟩
  refine ⟨hr.chunkSize, hclean, s, by simp [hr.pending], by simpa [hr.counter] using hr.fits, ?_⟩
  simpa [hr.counter] using hrest'

theorem decryptNextChunk_delivers (A : LawfulAead) {s : Bytes} {r : DecryptingReader}
    (hr : DecBody A.toAead s r) (hp : r.pendingOut = []) (hl : r.lastConsumed = false) :
    ∃ r', decryptNextChunk A.toAead r = (none, r') ∧ DecBody A.toAead s r' ∧
      (r'.pendingOut = [] → r'.lastConsumed = true) := by
  obtain ⟨hcs, hclean, q, hs, hfits, hrest⟩ := hr.body hl
  obtain ⟨src, hclean', hrest', hnext⟩ :=
    decryptNextChunk_spec A hclean hcs hrest hfits.counter_le hl
  rw [hp, List.nil_append] at hs
  subst hs
  refine ⟨_, hnext, ⟨hr.parsed, ?_, ?_⟩, ?_⟩
  · intro hq
    exact (List.take_of_length_le (by simpa using hq)).symm
  · intro hq
    have hq' : ¬ s.length ≤ chunkSize := by simpa using hq
    exact ⟨hcs, hclean', s.drop chunkSize, (List.take_append_drop _ _).symm, hfits.next hq',
      by simpa [hq'] using hrest'⟩
  · intro hz
    simp only [List.take_eq_nil_iff, chunkSize] at hz
    rcases hz with hz | hz
    · omega
    · simp [hz]

/-- Behind the header, a call delivers the next bytes or reports the end. -/
theorem readBody_drains (A : LawfulAead) {s : Bytes} {r : DecryptingReader} (n : ℕ)
    (hr : DecBody A.toAead s r) :
    (∃ c s' r', r.readBody A.toAead n = (c, none, r') ∧ s = c ++ s' ∧ DecBody A.toAead s' r' ∧
        (0 < n → c ≠ [])) ∨
      (∃ r', r.readBody A.toAead n = ([], some .eof, r') ∧ s = []) := by
  have hpend : ∀ {r : DecryptingReader}, DecBody A.toAead s r → r.pendingOut ≠ [] →
      ∃ c s' r', r.readBody A.toAead n = (c, none, r') ∧ s = c ++ s' ∧ DecBody A.toAead s' r' ∧
        (0 < n → c ≠ []) := by
    intro r hr hp
    rw [DecryptingReader.readBody, if_pos hp]
    by_cases hl : r.lastConsumed = true
    · refine ⟨_, r.pendingOut.drop n, _, rfl, ?_, ⟨hr.parsed, fun _ => rfl, by simp [hl]⟩,
        fun hn => take_ne_nil hp hn⟩
      rw [hr.done hl, List.take_append_drop]
    · obtain ⟨hcs, hclean, q, hs, hfits, hrest⟩ := hr.body (by simpa using hl)
      refine ⟨_, r.pendingOut.drop n ++ q, _, rfl, ?_,
        ⟨hr.parsed, by simp [hl], fun _ => ⟨hcs, hclean, q, rfl, hfits, hrest⟩⟩,
        fun hn => take_ne_nil hp hn⟩
      rw [hs, ← List.append_assoc, List.take_append_drop]
  have hend : ∀ {r : DecryptingReader}, DecBody A.toAead s r → r.pendingOut = [] →
      r.lastConsumed = true → r.readBody A.toAead n = ([], some .eof, r) ∧ s = [] := by
    intro r hr hp hl
    rw [DecryptingReader.readBody, if_neg (by simp [hp]), dif_pos hl]
    exact ⟨rfl, by rw [hr.done hl, hp]⟩
  by_cases hp : r.pendingOut = []
  · by_cases hl : r.lastConsumed = true
    · exact Or.inr ⟨r, hend hr hp hl⟩
    · obtain ⟨r', hnext, hr', hlast⟩ := decryptNextChunk_delivers A hr hp (by simpa using hl)
      rw [DecryptingReader.readBody, if_neg (by simp [hp]), dif_neg hl, hnext]
      by_cases hp' : r'.pendingOut = []
      · exact Or.inr ⟨r', hend hr' hp' (hlast hp')⟩
      · exact Or.inl (hpend hr' hp')
  · exact Or.inl (hpend hr hp)

theorem decryptingReader_drains (A : LawfulAead) :
    Drains (DecryptingReader.read A.toAead) CryptoErr.eof (DecDelivers A.toAead) := by
  intro s r n hr
  rw [DecryptingReader.read]
  rcases hr with ⟨hdr, hr⟩ | hr
  · rw [if_neg (by simp [hr.parsed])]
    obtain ⟨r', hparse, -, hr'⟩ := parseHeader_delivers A.toAead hr
    rw [hparse]
    rcases readBody_drains A n hr' with ⟨c, s', r'', h1, h2, h3, h4⟩ | h
    · exact Or.inl ⟨c, s', r'', h1, h2, Or.inr h3, h4⟩
    · exact Or.inr h
  · rw [if_pos hr.parsed]
    rcases readBody_drains A n hr with ⟨c, s', r'', h1, h2, h3, h4⟩ | h
    · exact Or.inl ⟨c, s', r'', h1, h2, Or.inr h3, h4⟩
    · exact Or.inr h

/-! ### From one end to the other -/

/-- The bytes of the stream that one encryption of `p` produces. -/
def encryptedStream (A : Aead) (keystoreUUID : Block keystoreUUIDSize) (wrapNonce : Block nonceSize)
    (wrappedCEK : Block wrappedCEKSize) (cek : Bytes) (noncePrefix : Block noncePrefixSize)
    (p : Bytes) : Bytes :=
  (newHeader keystoreUUID wrapNonce wrappedCEK noncePrefix).marshalBinary ++
    sealBody A cek noncePrefix 0 p

section Ends

variable (kek : Block kekSize) (keystoreUUID : Block keystoreUUIDSize) (cek : Block cekSize)
  (wrapNonce : Block nonceSize) (noncePrefix : Block noncePrefixSize)

theorem wrapCEK_eq (A : LawfulAead) :
    ∃ h, wrapCEK A.toAead kek.1 cek.1 wrapNonce = .ok ⟨A.sealed kek.1 wrapNonce.1 cek.1, h⟩ := by
  have h : (A.sealed kek.1 wrapNonce.1 cek.1).length = wrappedCEKSize := by
    rw [A.length_seal, cek.2]
    rfl
  exact ⟨h, by simp [wrapCEK, kek.2, cek.2, h]⟩

theorem cipherKeyOk_cek : cipherKeyOk cek.1 = true := by
  simp [cipherKeyOk, cek.2, cekSize]

/-- The header of an encryption opens to the key it was made with. -/
theorem openHeader_newHeader (A : Aead) {wrappedCEK : Block wrappedCEKSize}
    (hopen : A.open? kek.1 wrapNonce.1 wrappedCEK.1 = some cek.1) :
    openHeader A kek.1 (newHeader keystoreUUID wrapNonce wrappedCEK noncePrefix).marshalBinary =
      .ok (newHeader keystoreUUID wrapNonce wrappedCEK noncePrefix, cek.1) := by
  have hun := unmarshalHeader_marshalBinary
    (newHeader keystoreUUID wrapNonce wrappedCEK noncePrefix) rfl
    (by simp only [newHeader]; decide) (by simp only [newHeader]; decide)
  have hunwrap : unwrapCEK A kek.1 wrapNonce wrappedCEK = .ok cek.1 := by
    simp [unwrapCEK, kek.2, hopen]
  rw [openHeader, hun]
  simp only [newHeader, bind, Except.bind, hunwrap, Except.mapError, cipherKeyOk_cek cek]
  rfl

theorem newEncryptingReader_eq (A : LawfulAead) (src : Source UInt8) :
    ∃ wrappedCEK, A.open? kek.1 wrapNonce.1 wrappedCEK.1 = some cek.1 ∧
      newEncryptingReader A.toAead src kek.1 keystoreUUID cek wrapNonce noncePrefix =
        .ok (.start src cek.1 (newHeader keystoreUUID wrapNonce wrappedCEK noncePrefix)) := by
  obtain ⟨h, hwrap⟩ := wrapCEK_eq kek cek wrapNonce A
  refine ⟨⟨A.sealed kek.1 wrapNonce.1 cek.1, h⟩, A.open_seal _ _ _, ?_⟩
  simp only [newEncryptingReader, kek.2, hwrap, cipherKeyOk_cek cek, bind, Except.bind]
  rfl

theorem marshalBinary_ne_nil (hdr : Header) : hdr.marshalBinary ≠ [] := by
  intro hnil
  have := congrArg List.length hnil
  rw [Header.length_marshalBinary] at this
  simp [headerSize] at this

/-- A new encrypting reader has the header and the sealed body to deliver. -/
theorem newEncryptingReader_delivers (A : LawfulAead) {p : Bytes} (hp : Fits 0 p)
    {src : Source UInt8} (hsrc : src.Splits p) :
    ∃ wrappedCEK enc,
      A.open? kek.1 wrapNonce.1 wrappedCEK.1 = some cek.1 ∧
      newEncryptingReader A.toAead src kek.1 keystoreUUID cek wrapNonce noncePrefix = .ok enc ∧
      EncDelivers A.toAead
        (encryptedStream A.toAead keystoreUUID wrapNonce wrappedCEK cek.1 noncePrefix p) enc := by
  obtain ⟨wrappedCEK, hopen, hnew⟩ :=
    newEncryptingReader_eq kek keystoreUUID cek wrapNonce noncePrefix A src
  refine ⟨wrappedCEK, _, hopen, hnew, ?_⟩
  refine ⟨?_, fun _ => ⟨marshalBinary_ne_nil _, rfl⟩, fun _ => ?_⟩
  · simp [EncryptingReader.remaining, EncryptingReader.start, encryptedStream, newHeader,
      hsrc.rest]
  · refine ⟨BufReader.clean_new hsrc.noStall hsrc.final, ?_⟩
    simpa [EncryptingReader.start, hsrc.rest] using hp

theorem newDecryptingReader_header (A : Aead) {p : Bytes} (hp : Fits 0 p)
    {wrappedCEK : Block wrappedCEKSize}
    (hopen : A.open? kek.1 wrapNonce.1 wrappedCEK.1 = some cek.1) {src : Source UInt8}
    (hsrc : src.Splits
      (encryptedStream A keystoreUUID wrapNonce wrappedCEK cek.1 noncePrefix p)) :
    ∃ dec, newDecryptingReader src kek.1 = .ok dec ∧
      DecHeader A (newHeader keystoreUUID wrapNonce wrappedCEK noncePrefix) p dec := by
  refine ⟨_, by rw [newDecryptingReader, if_neg (by simp [kek.2])], ?_⟩
  refine ⟨rfl, rfl, rfl, rfl, BufReader.clean_new hsrc.noStall hsrc.final, hp, rfl, ?_⟩
  exact ⟨cek.1, openHeader_newHeader kek keystoreUUID cek wrapNonce noncePrefix A hopen,
    hsrc.rest⟩

/-- Decrypting what was encrypted gives the plaintext back, for every split of
either source into reads and every sequence of buffers at either end. -/
theorem decryptingReader_encryptingReader (A : LawfulAead) (p : Bytes)
    (hp : p.length < chunkSize * 2 ^ 56) (src : Source UInt8) (hsrc : src.Splits p) :
    ∃ enc stream,
      newEncryptingReader A.toAead src kek.1 keystoreUUID cek wrapNonce noncePrefix = .ok enc ∧
      Delivers (EncryptingReader.read A.toAead) CryptoErr.eof enc stream ∧
      ∀ src' : Source UInt8, src'.Splits stream →
        ∃ dec, newDecryptingReader src' kek.1 = .ok dec ∧
          Delivers (DecryptingReader.read A.toAead) CryptoErr.eof dec p := by
  have hfits : Fits 0 p := by simpa [Fits] using hp
  obtain ⟨wrappedCEK, enc, hopen, hnew, henc⟩ :=
    newEncryptingReader_delivers kek keystoreUUID cek wrapNonce noncePrefix A hfits hsrc
  refine ⟨enc, _, hnew, (encryptingReader_drains A).delivers henc, fun src' hsrc' => ?_⟩
  obtain ⟨dec, hdec, hheader⟩ := newDecryptingReader_header kek keystoreUUID cek wrapNonce
    noncePrefix A.toAead hfits hopen hsrc'
  exact ⟨dec, hdec, (decryptingReader_drains A).delivers (Or.inl ⟨_, hheader⟩)⟩

end Ends

def clearTag (k n : Bytes) : Block tagSize :=
  ⟨(n ++ k ++ List.replicate tagSize 0).take tagSize, by
    simp only [List.length_take, List.length_append, List.length_replicate]
    omega⟩

def clearAead : LawfulAead where
  sealed k n m := m ++ (clearTag k n).1
  open? k n c :=
    if c.drop (c.length - tagSize) = (clearTag k n).1 then some (c.take (c.length - tagSize))
    else none
  open_seal k n m := by simp [(clearTag k n).2]
  length_seal k n m := by simp [(clearTag k n).2]

/-- A plaintext of three bytes, delivered in pieces of one, none and two. -/
theorem decryptingReader_encryptingReader_three :
    ([1, 2, 3] : Bytes).length < chunkSize * 2 ^ 56 ∧
    ∃ enc stream,
      newEncryptingReader clearAead.toAead ⟨[[1], [], [2, 3]], .eof, true⟩
        (List.replicate kekSize 7) ⟨List.replicate 16 1, rfl⟩ ⟨List.replicate 32 2, rfl⟩
        ⟨List.replicate 12 3, rfl⟩ ⟨List.replicate 4 4, rfl⟩ = .ok enc ∧
      Delivers (EncryptingReader.read clearAead.toAead) CryptoErr.eof enc stream ∧
      ∀ src' : Source UInt8, src'.Splits stream →
        ∃ dec, newDecryptingReader src' (List.replicate kekSize 7) = .ok dec ∧
          Delivers (DecryptingReader.read clearAead.toAead) CryptoErr.eof dec [1, 2, 3] := by
  refine ⟨by decide, ?_⟩
  refine decryptingReader_encryptingReader ⟨List.replicate kekSize 7, rfl⟩ _ _ _ _ clearAead
    [1, 2, 3] (by decide) _ ⟨rfl, rfl, ?_⟩
  intro k hk
  simp [maxConsecutiveEmptyReads]

end CloudBackup.Cbcrypto
