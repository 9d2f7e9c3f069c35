import CloudBackup.Cbcrypto.RoundTrip

/-!
What a decrypting reader releases from a stream that may have been tampered
with. The content key is taken from two header fields that are those of a real
encryption; everything else, the rest of the header and the whole body, is
arbitrary. Under an ideal cipher, one that opens nothing but what this
encryption has sealed, the chunks can only come out in their order and the end
can only come after all of them.
-/

namespace CloudBackup.Cbcrypto

open ByteStream

/-! ### What an encryption seals -/

/-- The calls of `Seal` in the encryption of `q` from counter `i` on: the nonce
and the plaintext of each. The counter ends at its maximum. -/
def sealCalls (pre : Block noncePrefixSize) (i : ℕ) (q : Bytes) : List (Bytes × Bytes) :=
  if maxChunkCounter < i then []
  else if q.length ≤ chunkSize then [(chunkNonce pre i true, q)]
  else (chunkNonce pre i false, q.take chunkSize) :: sealCalls pre (i + 1) (q.drop chunkSize)
  termination_by q.length
  decreasing_by
    simp only [List.length_drop, chunkSize] at *
    omega

/-- The body of a stream is the sequence of what these calls return. -/
theorem sealBody_eq_sealCalls (A : Aead) (cek : Bytes) (pre : Block noncePrefixSize) (i : ℕ)
    (q : Bytes) (hfits : Fits i q) :
    sealBody A cek pre i q =
      ((sealCalls pre i q).map (fun call => A.sealed cek call.1 call.2)).flatten := by
  fun_induction sealCalls pre i q with
  | case1 i q hi => exact absurd hfits.counter_le (by omega)
  | case2 i q hi hq => simp [sealBody, hq]
  | case3 i q hi hq ih =>
      rw [sealBody, if_neg hq, ih (hfits.next hq)]
      simp

/-- The `k`-th call seals the `k`-th chunk, and its flag says if that is the
last one. -/
theorem mem_sealCalls {pre : Block noncePrefixSize} {i : ℕ} {q n m : Bytes}
    (h : (n, m) ∈ sealCalls pre i q) :
    ∃ k, i + k ≤ maxChunkCounter ∧
      n = chunkNonce pre (i + k) (decide (q.length ≤ (k + 1) * chunkSize)) ∧
      m = (q.drop (k * chunkSize)).take chunkSize := by
  fun_induction sealCalls pre i q with
  | case1 i q hi => simp at h
  | case2 i q hi hq =>
      simp only [List.mem_singleton, Prod.mk.injEq] at h
      refine ⟨0, by omega, ?_, ?_⟩
      · simp [h.1, hq]
      · simp [h.2, List.take_of_length_le hq]
  | case3 i q hi hq ih =>
      rcases List.mem_cons.mp h with h | h
      · simp only [Prod.mk.injEq] at h
        exact ⟨0, by omega, by simp [h.1, hq], by simp [h.2]⟩
      · obtain ⟨k, hk, hn, hm⟩ := ih h
        refine ⟨k + 1, by omega, ?_, ?_⟩
        · rw [hn, show i + 1 + k = i + (k + 1) by omega]
          congr 1
          rw [decide_eq_decide, List.length_drop, Nat.add_mul (k + 1)]
          omega
        · rw [hm, List.drop_drop, Nat.add_mul k, Nat.one_mul, Nat.add_comm chunkSize]

/-- The cipher opens, under the content key, nothing but what the encryption of
`p` has sealed. -/
def Ideal (A : Aead) (cek : Bytes) (pre : Block noncePrefixSize) (p : Bytes) : Prop :=
  ∀ n c m, A.open? cek n c = some m → (n, m) ∈ sealCalls pre 0 p ∧ c = A.sealed cek n m

/-! ### A round of the decrypting reader -/

section Rounds

variable {A : Aead} {cek : Bytes} {pre : Block noncePrefixSize} {p body : Bytes}

/-- The invariant of a decrypting reader behind the header of a stream with the
given body: it has still to release at most `s`, and what it has consumed of
the body is what the encryption has produced. -/
structure Guarded (A : Aead) (cek : Bytes) (pre : Block noncePrefixSize) (p body s : Bytes)
    (r : DecryptingReader) : Prop where
  parsed : r.headerParsed = true
  key : r.cek = cek
  clean : r.src.Clean
  consumed : r.lastConsumed = false → s = r.pendingOut ++ p.drop (r.counter * chunkSize) ∧
    ∃ front, body = front ++ r.src.rest ∧ sealBody A cek pre 0 p =
      front ++ sealBody A cek pre r.counter (p.drop (r.counter * chunkSize))
  done : r.lastConsumed = true → s = r.pendingOut ∧ body = sealBody A cek pre 0 p

/-- What opens under the nonce of a chunk is that chunk, and the flag of the nonce says if it
is the last one. -/
theorem Ideal.open_chunkNonce (hideal : Ideal A cek pre p) {noncePrefix : Block noncePrefixSize}
    {i : ℕ} {last : Bool} {ct pt : Bytes} (hi : i ≤ maxChunkCounter)
    (h : A.open? cek (chunkNonce noncePrefix i last) ct = some pt) :
    last = decide (p.length ≤ (i + 1) * chunkSize) ∧ pt = (p.drop (i * chunkSize)).take chunkSize ∧
      ct = A.sealed cek (chunkNonce pre i last) pt := by
  obtain ⟨hmem, hct⟩ := hideal _ _ _ h
  obtain ⟨k, hk, hnonce, hpt⟩ := mem_sealCalls hmem
  rw [Nat.zero_add] at hk hnonce
  obtain ⟨hpre, rfl, hflag⟩ := chunkNonce_injective hi hk hnonce
  exact ⟨hflag, hpt, by rw [← hpre, hct]⟩

/-- A chunk that opens is the one whose turn it is. -/
theorem decryptNextChunk_guarded (hideal : Ideal A cek pre p) {s : Bytes}
    {r r' : DecryptingReader} (hr : Guarded A cek pre p body s r) (hp : r.pendingOut = [])
    (hl : r.lastConsumed = false) (h : decryptNextChunk A r = (none, r')) :
    Guarded A cek pre p body s r' := by
  obtain ⟨chunkCT, eof, src₁, last, src₂, pt, hread, hlast, hcounter, hopen, rfl⟩ :=
    decryptNextChunk_eq_none A h
  obtain ⟨eof', src₁', src₂', hread', hlast', hclean, hrest⟩ :=
    readFullOrEOF_isLast (r.chunkSize + tagSize) hr.clean
  -- the two readings are the same
  rw [hread'] at hread
  obtain ⟨⟨rfl, rfl⟩, rfl⟩ : (r.src.rest.take (r.chunkSize + tagSize) = chunkCT ∧ eof' = eof) ∧
      src₁' = src₁ := by simpa using hread
  rw [hlast'] at hlast
  obtain ⟨rfl, rfl⟩ : decide (r.src.rest.length ≤ r.chunkSize + tagSize) = last ∧ src₂' = src₂ := by
    simpa using hlast
  -- the nonce of what was sealed gives the counter and the flag
  rw [hr.key] at hopen
  obtain ⟨hflag, hpt, hct⟩ := hideal.open_chunkNonce hcounter hopen
  rw [hflag] at hct
  obtain ⟨hs, front, hbody, hseal⟩ := hr.consumed hl
  rw [hp, List.nil_append] at hs
  have hlen : (p.drop (r.counter * chunkSize)).length ≤ chunkSize ↔
      p.length ≤ (r.counter + 1) * chunkSize := by
    rw [List.length_drop, Nat.add_mul]
    omega
  have hcut := sealBody_eq A cek pre r.counter (p.drop (r.counter * chunkSize))
  simp only [hlen, ← hpt] at hcut
  rw [← hct] at hcut
  refine ⟨hr.parsed, hr.key, hclean, fun hlast => ?_, fun hlast => ?_⟩
  · have hmore : ¬ p.length ≤ (r.counter + 1) * chunkSize := by
      simpa [hl, hflag] using hlast
    rw [if_neg hmore, List.drop_drop] at hcut
    have hnext : r.counter * chunkSize + chunkSize = (r.counter + 1) * chunkSize := by
      rw [Nat.add_mul, Nat.one_mul]
    rw [hnext] at hcut
    refine ⟨?_, front ++ r.src.rest.take (r.chunkSize + tagSize), ?_, ?_⟩
    · rw [hs, hpt, ← hnext, ← List.drop_drop, List.take_append_drop]
    · rw [hbody, hrest, List.append_assoc, List.take_append_drop]
    · rw [hseal, hcut, List.append_assoc]
  · have hend : p.length ≤ (r.counter + 1) * chunkSize := by
      simpa [hl, hflag] using hlast
    have hall : r.src.rest.length ≤ r.chunkSize + tagSize := by
      simpa [hl] using hlast
    rw [if_pos hend, List.append_nil, List.take_of_length_le hall] at hcut
    refine ⟨?_, ?_⟩
    · rw [hs, hpt, List.take_of_length_le (hlen.mpr hend)]
    · rw [hbody, hseal, hcut]

theorem decryptNextChunk_ne_eof {r r' : DecryptingReader} {e : CryptoErr}
    (h : decryptNextChunk A r = (some e, r')) : e ≠ .eof := by
  unfold decryptNextChunk at h
  split at h
  · rename_i hread
    simp only [Prod.mk.injEq, Option.some.injEq] at h
    exact h.1 ▸ ofRead_ne_eof (readFullOrEOF_ne_eof hread)
  · split at h
    · simp only [Prod.mk.injEq, Option.some.injEq] at h
      simp [← h.1]
    · split at h
      · rename_i hlast
        simp only [Prod.mk.injEq, Option.some.injEq] at h
        exact h.1 ▸ ofRead_ne_eof (isLast_ne_eof hlast)
      · split at h
        · rename_i hnonce
          simp only [Prod.mk.injEq, Option.some.injEq] at h
          rw [← h.1]
          unfold buildChunkNonce at hnonce
          split at hnonce <;> simp only [Except.error.injEq, reduceCtorEq] at hnonce
          simp [← hnonce]
        · split at h
          · simp only [Prod.mk.injEq, Option.some.injEq] at h
            simp [← h.1]
          · simp at h

/-- The loop of `Read` behind the header, for an invariant of what is still to be released:
it has to survive that pending bytes are handed out and that a chunk is opened, and nothing
may be left once the last chunk is handed out. -/
theorem readBody_guards_of {Q : Prop} {I : Bytes → DecryptingReader → Prop}
    (htake : ∀ {s r} n, I s r → ∃ s', s = r.pendingOut.take n ++ s' ∧
      I s' { r with pendingOut := r.pendingOut.drop n })
    (hend : ∀ {s r}, I s r → r.pendingOut = [] → r.lastConsumed = true → s = [] ∧ Q)
    (hnext : ∀ {s r r'}, I s r → r.pendingOut = [] → r.lastConsumed = false →
      decryptNextChunk A r = (none, r') → I s r')
    {s : Bytes} {r : DecryptingReader} (n : ℕ) (hr : I s r) :
    ((r.readBody A n).2.1 = none →
        ∃ s', s = (r.readBody A n).1 ++ s' ∧ I s' (r.readBody A n).2.2) ∧
      ((r.readBody A n).2.1 ≠ none → (r.readBody A n).1 = []) ∧
      ((r.readBody A n).2.1 = some .eof → s = [] ∧ Q) := by
  fun_induction DecryptingReader.readBody A r n with
  | case1 r hp => exact ⟨fun _ => htake n hr, by simp, by simp⟩
  | case2 r hp hl => exact ⟨by simp, by simp, fun _ => hend hr (by simpa using hp) hl⟩
  | case3 r hp hl e r' hfail =>
      refine ⟨by simp, by simp, fun he => ?_⟩
      exact absurd (Option.some.inj he) (decryptNextChunk_ne_eof hfail)
  | case4 r hp hl r' hopen ih => exact ih (hnext hr (by simpa using hp) (by simpa using hl) hopen)

theorem Guarded.take {s : Bytes} {r : DecryptingReader} (n : ℕ) (hr : Guarded A cek pre p body s r) :
    ∃ s', s = r.pendingOut.take n ++ s' ∧
      Guarded A cek pre p body s' { r with pendingOut := r.pendingOut.drop n } := by
  by_cases hl : r.lastConsumed = true
  · obtain ⟨hs, hbody⟩ := hr.done hl
    refine ⟨r.pendingOut.drop n, by rw [hs, List.take_append_drop],
      ⟨hr.parsed, hr.key, hr.clean, by simp [hl], fun _ => ⟨rfl, hbody⟩⟩⟩
  · obtain ⟨hs, hbody⟩ := hr.consumed (by simpa using hl)
    refine ⟨r.pendingOut.drop n ++ p.drop (r.counter * chunkSize), ?_,
      ⟨hr.parsed, hr.key, hr.clean, fun _ => ⟨rfl, hbody⟩, by simp [hl]⟩⟩
    rw [hs, ← List.append_assoc, List.take_append_drop]

theorem readBody_guards (hideal : Ideal A cek pre p) {s : Bytes} {r : DecryptingReader} (n : ℕ)
    (hr : Guarded A cek pre p body s r) :
    ((r.readBody A n).2.1 = none → ∃ s', s = (r.readBody A n).1 ++ s' ∧
        Guarded A cek pre p body s' (r.readBody A n).2.2) ∧
      ((r.readBody A n).2.1 ≠ none → (r.readBody A n).1 = []) ∧
      ((r.readBody A n).2.1 = some .eof → s = [] ∧ body = sealBody A cek pre 0 p) := by
  refine readBody_guards_of (fun n hr => hr.take n) ?_ ?_ n hr
  · intro s r hr hp hl
    obtain ⟨hs, hbody⟩ := hr.done hl
    exact ⟨by rw [hs, hp], hbody⟩
  · intro s r r' hr hp hl hnext
    exact decryptNextChunk_guarded hideal hr hp hl hnext

/-! ### A source that breaks off -/

/-- The invariant of a decrypting reader behind the header, whatever it reads from: it has
still to release at most `s`. -/
structure Releasing (cek p s : Bytes) (r : DecryptingReader) : Prop where
  parsed : r.headerParsed = true
  key : r.cek = cek
  more : r.lastConsumed = false → s = r.pendingOut ++ p.drop (r.counter * chunkSize)
  last : r.lastConsumed = true → s = r.pendingOut

theorem Releasing.take {s : Bytes} {r : DecryptingReader} (n : ℕ) (hr : Releasing cek p s r) :
    ∃ s', s = r.pendingOut.take n ++ s' ∧
      Releasing cek p s' { r with pendingOut := r.pendingOut.drop n } := by
  by_cases hl : r.lastConsumed = true
  · exact ⟨r.pendingOut.drop n, by rw [hr.last hl, List.take_append_drop],
      hr.parsed, hr.key, by simp [hl], fun _ => rfl⟩
  · refine ⟨r.pendingOut.drop n ++ p.drop (r.counter * chunkSize), ?_,
      hr.parsed, hr.key, fun _ => rfl, by simp [hl]⟩
    rw [hr.more (by simpa using hl), ← List.append_assoc, List.take_append_drop]

theorem Releasing.next (hideal : Ideal A cek pre p) {s : Bytes} {r r' : DecryptingReader}
    (hr : Releasing cek p s r) (hp : r.pendingOut = []) (hl : r.lastConsumed = false)
    (h : decryptNextChunk A r = (none, r')) : Releasing cek p s r' := by
  obtain ⟨ct, eof, src, last, src', pt, -, -, hcounter, hopen, rfl⟩ := decryptNextChunk_eq_none A h
  rw [hr.key] at hopen
  obtain ⟨hflag, hpt, -⟩ := hideal.open_chunkNonce hcounter hopen
  have hs : s = p.drop (r.counter * chunkSize) := by
    rw [hr.more hl, hp, List.nil_append]
  refine ⟨hr.parsed, hr.key, fun _ => ?_, fun hlast => ?_⟩
  · have hdrop : p.drop ((r.counter + 1) * chunkSize) =
        (p.drop (r.counter * chunkSize)).drop chunkSize := by
      rw [List.drop_drop, Nat.add_mul, Nat.one_mul]
    rw [hs, hpt, hdrop, List.take_append_drop]
  · have hend : p.length ≤ (r.counter + 1) * chunkSize := by simpa [hl, hflag] using hlast
    rw [Nat.add_mul, Nat.one_mul] at hend
    rw [hs, hpt, List.take_of_length_le (by rw [List.length_drop]; omega)]

/-- From a reader that has the key nothing comes out but the plaintext, and the end only
after all of it, even if the source breaks off or does not say why it ends. -/
theorem releasing_guards (hideal : Ideal A cek pre p) :
    Guards (DecryptingReader.read A) CryptoErr.eof True (Releasing cek p) := by
  intro s r n hr
  rw [DecryptingReader.read, if_pos hr.parsed]
  refine readBody_guards_of (fun n hr => hr.take n) ?_ (fun hr => hr.next hideal) n hr
  intro s r hr hp hl
  exact ⟨by rw [hr.last hl, hp], trivial⟩

/-! ### The header -/

theorem unmarshalHeader_eq_ok {buf : Bytes} {hdr : Header} (h : unmarshalHeader buf = .ok hdr) :
    ∃ hlen : headerSize ≤ buf.length, hdr = headerFields buf hlen := by
  unfold unmarshalHeader at h
  split at h
  · simp at h
  · rename_i hlt
    split at h
    · simp at h
    · split at h
      · simp at h
      · split at h
        · simp at h
        · exact ⟨Nat.not_lt.mp hlt, (Except.ok.inj h).symm⟩

theorem unmarshalHeader_ne_eof (buf : Bytes) : unmarshalHeader buf ≠ .error .eof := by
  unfold unmarshalHeader
  split
  · simp
  · split
    · simp
    · split
      · simp
      · split <;> simp

theorem unwrapCEK_eq_ok {kek key : Bytes} {n : Block nonceSize} {w : Block wrappedCEKSize}
    (h : unwrapCEK A kek n w = .ok key) : A.open? kek n.1 w.1 = some key := by
  unfold unwrapCEK at h
  split at h
  · simp at h
  · split at h
    · rename_i hopen
      rw [hopen, Except.ok.inj h]
    · simp at h

/-- A header that opens comes from a full buffer, and gives the key that its two
fields hold. -/
theorem openHeader_key {kek buf : Bytes} {hdr : Header} {key : Bytes}
    (h : openHeader A kek buf = .ok (hdr, key)) :
    ∃ hlen : headerSize ≤ buf.length, hdr = headerFields buf hlen ∧
      A.open? kek hdr.wrapNonce.1 hdr.wrappedCEK.1 = some key := by
  rw [openHeader] at h
  cases hun : unmarshalHeader buf with
  | error e => simp [hun, bind, Except.bind] at h
  | ok hdr' =>
      cases hkey : unwrapCEK A kek hdr'.wrapNonce hdr'.wrappedCEK with
      | error e => simp [hun, hkey, bind, Except.bind, Except.mapError] at h
      | ok key' =>
          simp only [hun, hkey, bind, Except.bind, Except.mapError] at h
          have heq : hdr' = hdr ∧ key' = key := by
            split at h
            · simp [throw, throwThe, MonadExceptOf.throw] at h
            · split at h
              · simp [throw, throwThe, MonadExceptOf.throw] at h
              · simpa [pure, Except.pure] using h
          obtain ⟨rfl, rfl⟩ := heq
          obtain ⟨hlen, hfields⟩ := unmarshalHeader_eq_ok hun
          exact ⟨hlen, hfields, unwrapCEK_eq_ok hkey⟩

theorem openHeader_ne_eof (kek buf : Bytes) : openHeader A kek buf ≠ .error .eof := by
  rw [openHeader]
  cases hun : unmarshalHeader buf with
  | error e =>
      have := unmarshalHeader_ne_eof buf
      simpa [hun, bind, Except.bind] using this
  | ok hdr' =>
      cases hkey : unwrapCEK A kek hdr'.wrapNonce hdr'.wrappedCEK with
      | error e => simp [hkey, bind, Except.bind, Except.mapError]
      | ok key' =>
          simp only [hkey, bind, Except.bind, Except.mapError]
          split
          · simp [throw, throwThe, MonadExceptOf.throw]
          · split
            · simp [throw, throwThe, MonadExceptOf.throw]
            · simp [pure, Except.pure]

structure Unparsed (kek s' : Bytes) (r : DecryptingReader) : Prop where
  parsed : r.headerParsed = false
  last : r.lastConsumed = false
  pending : r.pendingOut = []
  counter : r.counter = 0
  kek : r.chunkCT = kek
  clean : r.src.Clean
  rest : r.src.rest = s'

/-- What `parseHeader` makes of a stream: an error that is not its end, or the
header of a long enough stream and the key that the header gives. -/
theorem parseHeader_unparsed {kek s' : Bytes} {r : DecryptingReader} (hr : Unparsed kek s' r) :
    (∃ e r', parseHeader A r = (some e, r') ∧ e ≠ .eof) ∨
      (∃ hdr key src, headerSize ≤ s'.length ∧
        openHeader A kek (s'.take headerSize) = .ok (hdr, key) ∧
        src.Clean ∧ src.rest = s'.drop headerSize ∧
        parseHeader A r = (none, { r with
          src := src
          chunkCT := []
          cek := key
          noncePrefix := hdr.noncePrefix
          chunkSize := hdr.chunkSize
          header := some hdr })) := by
  obtain ⟨src, hclean, hrest, hread⟩ := r.src.readFull_eq headerSize hr.clean
  rw [hr.rest] at hread hrest
  by_cases hlen : headerSize ≤ s'.length
  · rw [if_pos hlen] at hread
    cases hopen : openHeader A kek (s'.take headerSize) with
    | error e =>
        left
        refine ⟨e, { r with src := src, chunkCT := [] }, ?_, ?_⟩
        · simp [parseHeader, hread, hr.kek, hopen]
        · rintro rfl
          exact openHeader_ne_eof kek _ hopen
    | ok v =>
        right
        obtain ⟨hdr, key⟩ := v
        refine ⟨hdr, key, src, hlen, rfl, hclean, hrest, ?_⟩
        simp [parseHeader, hread, hr.kek, hopen]
  · left
    rw [if_neg hlen] at hread
    refine ⟨.ciphertextTooShort (shortErr (s'.take headerSize)), { r with src := src, chunkCT := [] },
      ?_, by simp⟩
    have : shortErr (s'.take headerSize) = .eof ∨ shortErr (s'.take headerSize) = .unexpectedEOF := by
      unfold shortErr
      split <;> simp
    simp [parseHeader, hread, this]

end Rounds

/-! ### The whole stream -/

/-- The two header fields that hold the wrapped content key. -/
def HoldsKey (s' : Bytes) (wrapNonce : Block nonceSize) (wrappedCEK : Block wrappedCEKSize) : Prop :=
  (s'.drop 24).take nonceSize = wrapNonce.1 ∧ (s'.drop 36).take wrappedCEKSize = wrappedCEK.1

/-- A part of the first `k` bytes is that part of the whole. -/
theorem take_drop_take {α : Type} {l : List α} {i n k : ℕ} (h : i + n ≤ k) :
    ((l.take k).drop i).take n = (l.drop i).take n := by
  rw [List.drop_take, List.take_take, Nat.min_eq_left (by omega)]

theorem holdsKey_take {s' : Bytes} {wrapNonce : Block nonceSize} {wrappedCEK : Block wrappedCEKSize} :
    HoldsKey (s'.take headerSize) wrapNonce wrappedCEK ↔ HoldsKey s' wrapNonce wrappedCEK := by
  rw [HoldsKey, take_drop_take (by decide), take_drop_take (by decide), HoldsKey]

section Whole

variable {A : Aead} {kek : Block kekSize} {cek : Block cekSize} {wrapNonce : Block nonceSize}
  {wrappedCEK : Block wrappedCEKSize} {pre : Block noncePrefixSize} {p : Bytes}

theorem HoldsKey.open_eq {kek buf : Bytes} {hdr : Header} {key : Bytes}
    (hkey : HoldsKey buf wrapNonce wrappedCEK) (h : openHeader A kek buf = .ok (hdr, key)) :
    A.open? kek wrapNonce.1 wrappedCEK.1 = some key := by
  obtain ⟨hlen, rfl, hopen⟩ := openHeader_key h
  rwa [← hkey.1, ← hkey.2]

/-- What the header of the stream gives puts the reader in front of the first chunk. -/
theorem Unparsed.guarded {s' : Bytes} {r : DecryptingReader} (hr : Unparsed kek.1 s' r)
    {src : BufReader UInt8} (hclean : src.Clean) (hrest : src.rest = s'.drop headerSize)
    (hdr : Header) {key : Bytes} (hcek : key = cek.1) :
    Guarded A cek.1 pre p (s'.drop headerSize) p { r with
      src := src
      chunkCT := []
      cek := key
      noncePrefix := hdr.noncePrefix
      chunkSize := hdr.chunkSize
      header := some hdr
      headerParsed := true } := by
  refine ⟨rfl, hcek, hclean, fun _ => ⟨?_, [], ?_, ?_⟩, by simp [hr.last]⟩
  · simp [hr.pending, hr.counter]
  · simp [hrest]
  · simp [hr.counter]

theorem decryptingReader_guards
    (hunwrap : A.open? kek.1 wrapNonce.1 wrappedCEK.1 = some cek.1) (hideal : Ideal A cek.1 pre p)
    {s' : Bytes} (hkey : HoldsKey s' wrapNonce wrappedCEK) :
    Guards (DecryptingReader.read A) CryptoErr.eof
      (s'.drop headerSize = sealBody A cek.1 pre 0 p)
      (fun s r => (s = p ∧ Unparsed kek.1 s' r) ∨
        Guarded A cek.1 pre p (s'.drop headerSize) s r) := by
  intro s r n hr
  rcases hr with ⟨rfl, hr⟩ | hr
  · rw [DecryptingReader.read, if_neg (by simp [hr.parsed])]
    rcases parseHeader_unparsed (A := A) hr with
      ⟨e, r', hparse, he⟩ | ⟨hdr, key, src, hlen, hopen, hclean, hrest, hparse⟩
    · rw [hparse]
      exact ⟨by simp, by simp, fun h => absurd (Option.some.inj h) he⟩
    · rw [hparse]
      have hcek : key = cek.1 := by
        have hunwrap' := (holdsKey_take.mpr hkey).open_eq hopen
        rw [hunwrap] at hunwrap'
        exact (Option.some.inj hunwrap').symm
      obtain ⟨h1, h2, h3⟩ := readBody_guards hideal n (hr.guarded hclean hrest hdr hcek)
      exact ⟨fun hn => (h1 hn).imp fun _ h => ⟨h.1, Or.inr h.2⟩, h2, h3⟩
  · rw [DecryptingReader.read, if_pos hr.parsed]
    obtain ⟨h1, h2, h3⟩ := readBody_guards hideal n hr
    exact ⟨fun hn => (h1 hn).imp fun _ h => ⟨h.1, Or.inr h.2⟩, h2, h3⟩

theorem holdsKey_of_take_eq {keystoreUUID : Block keystoreUUIDSize} {s' : Bytes}
    (hhead : s'.take headerSize = (newHeader keystoreUUID wrapNonce wrappedCEK pre).marshalBinary) :
    HoldsKey s' wrapNonce wrappedCEK := by
  have hun := unmarshalHeader_marshalBinary (newHeader keystoreUUID wrapNonce wrappedCEK pre) rfl
    (by simp only [newHeader]; decide) (by simp only [newHeader]; decide)
  rw [← hhead] at hun
  obtain ⟨hlen, hfields⟩ := unmarshalHeader_eq_ok hun
  have hnonce := congrArg (·.wrapNonce.1) hfields
  have hwrapped := congrArg (·.wrappedCEK.1) hfields
  rw [← holdsKey_take]
  exact ⟨hnonce.symm, hwrapped.symm⟩

/-- A stream that begins with the header of the encryption, and that is read to
its end, is the stream of the encryption. -/
theorem eq_encryptedStream_of_eof
    (hunwrap : A.open? kek.1 wrapNonce.1 wrappedCEK.1 = some cek.1) (hideal : Ideal A cek.1 pre p)
    {keystoreUUID : Block keystoreUUIDSize} {s' : Bytes}
    (hhead : s'.take headerSize =
      (newHeader keystoreUUID wrapNonce wrappedCEK pre).marshalBinary)
    {dec : DecryptingReader} (hdec : Unparsed kek.1 s' dec) {ns : List ℕ}
    (heof : (drive (DecryptingReader.read A) ns dec).2.1 = some .eof) :
    s' = encryptedStream A keystoreUUID wrapNonce wrappedCEK cek.1 pre p := by
  have hbody := (((decryptingReader_guards hunwrap hideal (holdsKey_of_take_eq hhead)).drive_initial ns
    (Or.inl ⟨rfl, hdec⟩)).2 heof).2
  rw [encryptedStream, ← hhead, ← hbody, List.take_append_drop]

/-- A stream too short for a header is not read to its end. -/
theorem drive_short {s' : Bytes} {dec : DecryptingReader} (hdec : Unparsed kek.1 s' dec)
    (hs : s'.length < headerSize) (ns : List ℕ) :
    (drive (DecryptingReader.read A) ns dec).2.1 ≠ some .eof := by
  cases ns with
  | nil => simp [drive]
  | cons n ns =>
      rcases parseHeader_unparsed (A := A) hdec with ⟨e, r', hparse, he⟩ | ⟨_, _, _, hlen, _⟩
      · have hread : DecryptingReader.read A dec n = ([], some e, r') := by
          rw [DecryptingReader.read, if_neg (by simp [hdec.parsed]), hparse]
        simpa [drive, hread] using he
      · omega

theorem newDecryptingReader_unparsed (kek : Block kekSize) {s' : Bytes} {src : Source UInt8} (hsrc : src.Splits s') :
    ∃ dec, newDecryptingReader src kek.1 = .ok dec ∧ Unparsed kek.1 s' dec := by
  refine ⟨_, by rw [newDecryptingReader, if_neg (by simp [kek.2])], ?_⟩
  exact ⟨rfl, rfl, rfl, rfl, rfl, BufReader.clean_new hsrc.noStall hsrc.final, hsrc.rest⟩

theorem wrapCEK_eq_ok (hwrap : wrapCEK A kek.1 cek.1 wrapNonce = .ok wrappedCEK) :
    wrappedCEK.1 = A.sealed kek.1 wrapNonce.1 cek.1 := by
  unfold wrapCEK at hwrap
  rw [if_neg (by simp [kek.2]), if_neg (by simp [cek.2])] at hwrap
  split at hwrap
  · rw [← Except.ok.inj hwrap]
  · simp at hwrap

/-- Under an ideal cipher nothing but a prefix of the plaintext comes out of a
stream with the wrapped key of an encryption, and the end of the stream only
after all of the plaintext. A stream that was cut short or extended never gets
to its end. -/
theorem decryptingReader_integrity (kek : Block kekSize) (cek : Block cekSize)
    (hwrap : wrapCEK A kek.1 cek.1 wrapNonce = .ok wrappedCEK)
    (hopen : A.open? kek.1 wrapNonce.1 (A.sealed kek.1 wrapNonce.1 cek.1) = some cek.1)
    (hideal : Ideal A cek.1 pre p) :
    (∀ (s' : Bytes) (src : Source UInt8), HoldsKey s' wrapNonce wrappedCEK → src.Splits s' →
      ∃ dec, newDecryptingReader src kek.1 = .ok dec ∧
        ∀ ns, (drive (DecryptingReader.read A) ns dec).1 <+: p ∧
          ((drive (DecryptingReader.read A) ns dec).2.1 = some .eof →
            (drive (DecryptingReader.read A) ns dec).1 = p)) ∧
    (∀ (keystoreUUID : Block keystoreUUIDSize) (stream s' : Bytes) (src : Source UInt8),
      stream = encryptedStream A keystoreUUID wrapNonce wrappedCEK cek.1 pre p → src.Splits s' →
      (s' <+: stream ∧ s' ≠ stream) ∨ (∃ t, t ≠ [] ∧ s' = stream ++ t) →
      ∃ dec, newDecryptingReader src kek.1 = .ok dec ∧
        ∀ ns, (drive (DecryptingReader.read A) ns dec).2.1 ≠ some .eof) := by
  have hunwrap : A.open? kek.1 wrapNonce.1 wrappedCEK.1 = some cek.1 := by
    rw [wrapCEK_eq_ok hwrap, hopen]
  refine ⟨fun s' src hkey hsrc => ?_, fun keystoreUUID stream s' src hstream hsrc hs => ?_⟩
  · obtain ⟨dec, hnew, hdec⟩ := newDecryptingReader_unparsed kek hsrc
    refine ⟨dec, hnew, fun ns => ?_⟩
    obtain ⟨hp, hq⟩ := (decryptingReader_guards hunwrap hideal hkey).drive_initial ns
      (Or.inl ⟨rfl, hdec⟩)
    exact ⟨hp, fun he => (hq he).1⟩
  · obtain ⟨dec, hnew, hdec⟩ := newDecryptingReader_unparsed kek hsrc
    refine ⟨dec, hnew, fun ns heof => ?_⟩
    have hne : s' ≠ stream := by
      rcases hs with ⟨-, hne⟩ | ⟨t, ht, rfl⟩
      · exact hne
      · simpa using ht
    by_cases hlen : s'.length < headerSize
    · exact drive_short hdec hlen ns heof
    · have hhead : s'.take headerSize = stream.take headerSize := by
        rcases hs with ⟨⟨t, ht⟩, -⟩ | ⟨t, -, rfl⟩
        · rw [← ht, List.take_append_of_le_length (by omega)]
        · refine List.take_append_of_le_length ?_
          simp [hstream, encryptedStream]
      have hstart : stream.take headerSize =
          (newHeader keystoreUUID wrapNonce wrappedCEK pre).marshalBinary := by
        rw [hstream, encryptedStream, Header.take_marshalBinary_append]
      exact hne ((eq_encryptedStream_of_eof hunwrap hideal (hhead.trans hstart) hdec heof).trans
        hstream.symm)

end Whole

def onceAead : Aead where
  sealed := clearAead.sealed
  open? k n c :=
    if k = List.replicate cekSize 2 then
      if n = chunkNonce ⟨[0, 0, 0, 9], rfl⟩ 0 true ∧ c = clearAead.sealed k n [1, 2, 3] then
        some [1, 2, 3]
      else none
    else clearAead.open? k n c

theorem ideal_onceAead :
    Ideal onceAead (List.replicate cekSize 2) ⟨[0, 0, 0, 9], rfl⟩ [1, 2, 3] := by
  intro n c m h
  simp only [onceAead, if_true] at h
  split at h
  · rename_i hn
    obtain rfl : [1, 2, 3] = m := Option.some.inj h
    refine ⟨?_, hn.2⟩
    rw [hn.1, sealCalls, if_neg (by decide), if_pos (by decide)]
    exact List.mem_singleton_self _
  · simp at h

theorem decryptingReader_integrity_three :
    ∃ wrappedCEK : Block wrappedCEKSize,
      ∀ (s' : Bytes) (src : Source UInt8),
        HoldsKey s' ⟨List.replicate nonceSize 3, rfl⟩ wrappedCEK → src.Splits s' →
        ∃ dec, newDecryptingReader src (List.replicate kekSize 7) = .ok dec ∧
          ∀ ns, (drive (DecryptingReader.read onceAead) ns dec).1 <+: [1, 2, 3] ∧
            ((drive (DecryptingReader.read onceAead) ns dec).2.1 = some .eof →
              (drive (DecryptingReader.read onceAead) ns dec).1 = [1, 2, 3]) := by
  refine ⟨⟨clearAead.sealed (List.replicate kekSize 7) (List.replicate nonceSize 3)
    (List.replicate cekSize 2), by decide⟩, ?_⟩
  exact (decryptingReader_integrity (A := onceAead) ⟨List.replicate kekSize 7, rfl⟩
    ⟨List.replicate cekSize 2, rfl⟩ (by decide) (by decide) ideal_onceAead).1

end CloudBackup.Cbcrypto
