import CloudBackup.Cbcrypto.Size
import Mathlib.Data.List.Nodup

/-!
No nonce is used twice in a stream. `readsCalls` has the calls of `Seal` in their
order, and the bytes of the stream are the header and what these calls return: so no
chunk is sealed under any other nonce (`readsBytes_sealed`). Callers may go
on reading after an error, and the source may fail at any point: the counter
moves with each sealed chunk and with nothing else.

A stream has room for 2^56 chunks. A plaintext that needs more is refused by the
call that comes to the chunk behind the last nonce.
-/

namespace CloudBackup.Cbcrypto

open ByteStream

/-! ### The calls of `Seal` -/

/-- The nonce and the plaintext that `encryptNextChunk` passes to `Seal`, if it comes to that. -/
def sealCall (r : EncryptingReader) : Option (Bytes × Bytes) :=
  match readFullOrEOF r.src chunkSize with
  | (.error _, _) => none
  | (.ok (chunkPlain, eof), src) =>
      match isLast src eof with
      | (.error _, _) => none
      | (.ok last, _) => (buildChunkNonce r.noncePrefix r.counter last).toOption.map (·, chunkPlain)

section Calls

variable (A : Aead)

def sealedBytes (cek : Bytes) (calls : List (Bytes × Bytes)) : Bytes :=
  (calls.map fun call => A.sealed cek call.1 call.2).flatten

/-- The loop is that of `readBody`, where the length of the buffer does not matter. -/
def EncryptingReader.readBodyCalls (r : EncryptingReader) : List (Bytes × Bytes) :=
  if r.pendingOut ≠ [] then []
  else if _hl : r.lastEmitted then []
  else
    (sealCall r).toList ++
      match _hr : encryptNextChunk A r with
      | (some _, _) => []
      | (none, r') => readBodyCalls r'
  termination_by roundsLeft r.src r.lastEmitted
  decreasing_by exact encryptNextChunk_roundsLeft A _hr (by simpa using _hl)

def EncryptingReader.readCalls (r : EncryptingReader) : List (Bytes × Bytes) :=
  if r.headerEmitted then r.readBodyCalls A else []

/-- The reader after calls with buffers of the given lengths, whatever they
return. -/
def EncryptingReader.reads (r : EncryptingReader) : List ℕ → EncryptingReader
  | [] => r
  | n :: ns => (r.read A n).2.2.reads ns

def EncryptingReader.readsBytes (r : EncryptingReader) : List ℕ → Bytes
  | [] => []
  | n :: ns => (r.read A n).1 ++ (r.read A n).2.2.readsBytes ns

/-- The calls of `Seal` behind these calls. -/
def EncryptingReader.readsCalls (r : EncryptingReader) : List ℕ → List (Bytes × Bytes)
  | [] => []
  | n :: ns => r.readCalls A ++ (r.read A n).2.2.readsCalls ns

def EncryptingReader.readsNonces (r : EncryptingReader) (ns : List ℕ) : List Bytes :=
  (r.readsCalls A ns).map Prod.fst

theorem sealedBytes_append (cek : Bytes) (calls calls' : List (Bytes × Bytes)) :
    sealedBytes A cek (calls ++ calls') = sealedBytes A cek calls ++ sealedBytes A cek calls' := by
  rw [sealedBytes, List.map_append, List.flatten_append]
  rfl

/-- What `encryptNextChunk` can do: fail and seal nothing, or seal one chunk
under the nonce of its counter. -/
theorem encryptNextChunk_cases (r : EncryptingReader) :
    (∃ e src, encryptNextChunk A r = (some e, { r with src := src }) ∧ e ≠ .eof ∧
        sealCall r = none) ∨
      ∃ last chunkPlain src, r.counter ≤ maxChunkCounter ∧
        sealCall r = some (chunkNonce r.noncePrefix r.counter last, chunkPlain) ∧
        encryptNextChunk A r = (none, { r with
          src := src
          pendingOut := A.sealed r.cek (chunkNonce r.noncePrefix r.counter last) chunkPlain
          counter := r.counter + 1
          lastEmitted := r.lastEmitted || last }) := by
  rw [encryptNextChunk, sealCall]
  rcases hread : readFullOrEOF r.src chunkSize with ⟨e | ⟨chunkPlain, eof⟩, src⟩
  · exact Or.inl ⟨_, src, rfl, ofRead_ne_eof (readFullOrEOF_ne_eof hread), rfl⟩
  · dsimp only
    rcases hlast : isLast src eof with ⟨e | last, src'⟩
    · exact Or.inl ⟨_, src', rfl, ofRead_ne_eof (isLast_ne_eof hlast), rfl⟩
    · dsimp only
      by_cases hc : r.counter ≤ maxChunkCounter
      · right
        rw [buildChunkNonce_eq_ok.mpr ⟨hc, rfl⟩]
        exact ⟨last, chunkPlain, src', hc, rfl, rfl⟩
      · left
        have hnonce : buildChunkNonce r.noncePrefix r.counter last =
            .error (.counterExceedsMax r.counter) := if_pos (Nat.lt_of_not_le hc)
        rw [hnonce]
        exact ⟨_, src', rfl, by simp, rfl⟩

/-- What is delivered behind the header was held back before, or the cipher returned it. -/
theorem EncryptingReader.readBody_sealed (r : EncryptingReader) (n : ℕ) :
    r.pendingOut ++ sealedBytes A r.cek (r.readBodyCalls A) =
        (r.readBody A n).1 ++ (r.readBody A n).2.2.pendingOut ∧
      (r.readBody A n).2.2.cek = r.cek ∧ (r.readBody A n).2.2.headerEmitted = r.headerEmitted := by
  fun_induction EncryptingReader.readBody A r n with
  | case1 r hp =>
      rw [EncryptingReader.readBodyCalls, if_pos hp]
      simp [sealedBytes]
  | case2 r hp hl =>
      rw [EncryptingReader.readBodyCalls, if_neg hp, dif_pos hl]
      simp [sealedBytes]
  | case3 r hp hl e r' hr =>
      rcases encryptNextChunk_cases A r with ⟨e', src, heq, -, hnone⟩ | ⟨last, c, src, -, -, heq⟩
      · rw [heq, Prod.mk.injEq] at hr
        rw [EncryptingReader.readBodyCalls, if_neg hp, dif_neg hl, hnone, heq, ← hr.2]
        simp [sealedBytes]
      · simp [heq] at hr
  | case4 r hp hl r' hr ih =>
      rcases encryptNextChunk_cases A r with ⟨e', src, heq, -, -⟩ | ⟨last, c, src, -, hsome, heq⟩
      · simp [heq] at hr
      · -- the chunk is what is held back next
        have hr' := (Prod.mk.inj (heq.symm.trans hr)).2
        have hcek : r'.cek = r.cek := by simp [← hr']
        have hpending : r'.pendingOut = A.sealed r.cek (chunkNonce r.noncePrefix r.counter last) c := by
          simp [← hr']
        obtain ⟨hbytes, hcek', hheader⟩ := ih
        rw [EncryptingReader.readBodyCalls, if_neg hp, dif_neg hl, hsome, hr]
        refine ⟨?_, hcek'.trans hcek, hheader.trans (by simp [← hr'])⟩
        rw [not_not.mp hp, List.nil_append, ← hbytes, sealedBytes_append, hpending, hcek]
        simp [sealedBytes]

theorem EncryptingReader.read_sealed (r : EncryptingReader) (n : ℕ) :
    r.ahead ++ sealedBytes A r.cek (r.readCalls A) = (r.read A n).1 ++ (r.read A n).2.2.ahead ∧
      (r.read A n).2.2.cek = r.cek := by
  rw [EncryptingReader.read, EncryptingReader.readCalls]
  by_cases hh : r.headerEmitted = true
  · obtain ⟨hbytes, hcek, hheader⟩ := r.readBody_sealed A n
    rw [if_pos hh, if_pos hh, EncryptingReader.ahead, EncryptingReader.ahead, hheader, if_pos hh, if_pos hh,
      List.nil_append, List.nil_append]
    exact ⟨hbytes, hcek⟩
  · rw [if_neg hh, if_neg hh]
    refine ⟨?_, rfl⟩
    simp only [EncryptingReader.ahead, hh, sealedBytes, List.map_nil, List.flatten_nil, List.append_nil,
      List.isEmpty_iff, Bool.false_eq_true, if_false]
    by_cases hd : r.header.drop n = []
    · rw [if_pos hd, List.take_of_length_le (List.drop_eq_nil_iff.mp hd), List.nil_append]
    · rw [if_neg hd, ← List.append_assoc, List.take_append_drop]

/-- All that is delivered, with what is held back in the end, is what was held back before and
what the cipher returned. -/
theorem EncryptingReader.readsBytes_sealed (ns : List ℕ) (r : EncryptingReader) :
    r.ahead ++ sealedBytes A r.cek (r.readsCalls A ns) = r.readsBytes A ns ++ (r.reads A ns).ahead := by
  induction ns generalizing r with
  | nil => simp [EncryptingReader.readsCalls, EncryptingReader.readsBytes, EncryptingReader.reads, sealedBytes]
  | cons n ns ih =>
      obtain ⟨hbytes, hcek⟩ := r.read_sealed A n
      rw [EncryptingReader.readsCalls, EncryptingReader.readsBytes, EncryptingReader.reads, sealedBytes_append,
        ← List.append_assoc, hbytes, List.append_assoc, ← hcek, ih, List.append_assoc]

end Calls

/-! ### The counter numbers the nonces -/

/-- The nonces so far are those of the chunks below the counter. The last of
them carries the flag if the reader is through with its source, and no other
does. -/
structure Numbered (pre : Block noncePrefixSize) (log : List Bytes) (r : EncryptingReader) :
    Prop where
  pre_eq : r.noncePrefix = pre
  log_eq : log = (List.range r.counter).map fun k =>
    chunkNonce pre k (r.lastEmitted && decide (k + 1 = r.counter))
  counter_le : r.counter ≤ maxChunkCounter + 1
  counter_pos : r.lastEmitted = true → 0 < r.counter

theorem Numbered.nodup {pre : Block noncePrefixSize} {log : List Bytes} {r : EncryptingReader}
    (h : Numbered pre log r) : log.Nodup := by
  rw [h.log_eq]
  refine List.Nodup.map_on ?_ List.nodup_range
  intro i hi j hj hij
  have hle := h.counter_le
  rw [List.mem_range] at hi hj
  exact (chunkNonce_injective (by omega) (by omega) hij).2.1

theorem Numbered.succ {pre : Block noncePrefixSize} {log : List Bytes} {r r' : EncryptingReader}
    {last : Bool} (h : Numbered pre log r) (hl : r.lastEmitted = false)
    (hc : r.counter ≤ maxChunkCounter) (hpre : r'.noncePrefix = r.noncePrefix)
    (hcounter : r'.counter = r.counter + 1) (hlast : r'.lastEmitted = last) :
    Numbered pre (log ++ [chunkNonce r.noncePrefix r.counter last]) r' := by
  refine ⟨hpre.trans h.pre_eq, ?_, by omega, fun _ => by omega⟩
  rw [h.log_eq, hcounter, hlast, List.range_succ, List.map_append, h.pre_eq]
  congr 1
  · refine List.map_congr_left fun k hk => ?_
    have hne : k ≠ r.counter := Nat.ne_of_lt (List.mem_range.mp hk)
    simp [hl, hne]
  · simp

section Run

variable (A : Aead) {pre : Block noncePrefixSize}

theorem Numbered.readBody (n : ℕ) {log : List Bytes} {r : EncryptingReader}
    (h : Numbered pre log r) :
    Numbered pre (log ++ (r.readBodyCalls A).map Prod.fst) (r.readBody A n).2.2 ∧
      ((r.readBody A n).2.1 = some .eof → (r.readBody A n).2.2.lastEmitted = true) := by
  fun_induction EncryptingReader.readBody A r n generalizing log with
  | case1 r hp =>
      rw [EncryptingReader.readBodyCalls, if_pos hp, List.map_nil, List.append_nil]
      exact ⟨⟨h.pre_eq, h.log_eq, h.counter_le, h.counter_pos⟩, by simp⟩
  | case2 r hp hl =>
      rw [EncryptingReader.readBodyCalls, if_neg hp, dif_pos hl, List.map_nil, List.append_nil]
      exact ⟨h, fun _ => hl⟩
  | case3 r hp hl e r' hr =>
      rcases encryptNextChunk_cases A r with ⟨e', src, heq, hne, hnone⟩ | ⟨last, c, src, -, -, heq⟩
      · rw [heq, Prod.mk.injEq, Option.some.injEq] at hr
        obtain ⟨rfl, rfl⟩ := hr
        rw [EncryptingReader.readBodyCalls, if_neg hp, dif_neg hl, hnone, heq]
        simp only [Option.toList_none, List.append_nil, List.map_nil]
        exact ⟨⟨h.pre_eq, h.log_eq, h.counter_le, h.counter_pos⟩, by simp [hne]⟩
      · simp [heq] at hr
  | case4 r hp hl r' hr ih =>
      rcases encryptNextChunk_cases A r with ⟨e', src, heq, -, -⟩ | ⟨last, c, src, hc, hsome, heq⟩
      · simp [heq] at hr
      · have hl' : r.lastEmitted = false := by simpa using hl
        have hr' := (Prod.mk.inj (heq.symm.trans hr)).2
        have hpre : r'.noncePrefix = r.noncePrefix := by simp [← hr']
        have hcounter : r'.counter = r.counter + 1 := by simp [← hr']
        have hlast : r'.lastEmitted = last := by simp [← hr', hl']
        have hnext := h.succ hl' hc hpre hcounter hlast
        rw [EncryptingReader.readBodyCalls, if_neg hp, dif_neg hl, hsome, hr]
        simp only [Option.toList_some, List.map_append, List.map_cons, List.map_nil]
        rw [← List.append_assoc]
        exact ih hnext

theorem Numbered.read (n : ℕ) {log : List Bytes} {r : EncryptingReader} (h : Numbered pre log r) :
    Numbered pre (log ++ (r.readCalls A).map Prod.fst) (r.read A n).2.2 ∧
      ((r.read A n).2.1 = some .eof → (r.read A n).2.2.lastEmitted = true) := by
  rw [EncryptingReader.read, EncryptingReader.readCalls]
  split
  · exact h.readBody A n
  · rw [List.map_nil, List.append_nil]
    exact ⟨⟨h.pre_eq, h.log_eq, h.counter_le, h.counter_pos⟩, by simp⟩

theorem Numbered.reads (ns : List ℕ) {log : List Bytes} {r : EncryptingReader}
    (h : Numbered pre log r) : Numbered pre (log ++ r.readsNonces A ns) (r.reads A ns) := by
  induction ns generalizing log r with
  | nil => simpa [EncryptingReader.readsNonces, EncryptingReader.readsCalls, EncryptingReader.reads] using h
  | cons n ns ih =>
      rw [EncryptingReader.readsNonces, EncryptingReader.readsCalls, EncryptingReader.reads, List.map_append,
        ← List.append_assoc]
      exact ih (h.read A n).1

end Run

theorem EncryptingReader.reads_concat (A : Aead) (ns : List ℕ) (n : ℕ) (r : EncryptingReader) :
    r.reads A (ns ++ [n]) = ((r.reads A ns).read A n).2.2 := by
  induction ns generalizing r with
  | nil => rfl
  | cons m ns ih => exact ih _

/-- A reader that reports the end of the stream is through with its source. -/
theorem Numbered.lastEmitted_of_eof (A : Aead) {pre : Block noncePrefixSize} {ns : List ℕ} {n : ℕ}
    {r : EncryptingReader} (h : Numbered pre [] r)
    (heof : ((r.reads A ns).read A n).2.1 = some .eof) :
    (r.reads A (ns ++ [n])).lastEmitted = true := by
  rw [r.reads_concat A ns n]
  exact ((h.reads A ns).read A n).2 heof

/-! ### A source that delivers a plaintext -/

theorem encryptNextChunk_exceeds (A : Aead) {r : EncryptingReader} (hs : r.src.Clean)
    (hc : maxChunkCounter < r.counter) :
    ∃ src, src.Clean ∧
      encryptNextChunk A r = (some (.counterExceedsMax r.counter), { r with src := src }) := by
  obtain ⟨eof, src₁, src₂, hread, hlast, hclean, -⟩ := readFullOrEOF_isLast chunkSize hs
  refine ⟨src₂, hclean, ?_⟩
  have hnonce : buildChunkNonce r.noncePrefix r.counter (decide (r.src.rest.length ≤ chunkSize)) =
      .error (.counterExceedsMax r.counter) := if_pos hc
  simp [encryptNextChunk, hread, hlast, hnonce]

/-- The counter is the number of chunks that were taken from the plaintext `p`,
as long as there are nonces. -/
structure Aligned (p : Bytes) (r : EncryptingReader) : Prop where
  clean : r.lastEmitted = false → r.src.Clean
  rest : r.lastEmitted = false → r.counter ≤ maxChunkCounter →
    r.src.rest = p.drop (r.counter * chunkSize)
  more : r.lastEmitted = false → r.counter < chunkCount p.length
  done : r.lastEmitted = true → r.counter = chunkCount p.length

theorem Aligned.encryptNextChunk (A : Aead) {p : Bytes} {r r' : EncryptingReader}
    {e : Option CryptoErr} (h : Aligned p r) (hl : r.lastEmitted = false)
    (hr : encryptNextChunk A r = (e, r')) : Aligned p r' := by
  have hmore := h.more hl
  by_cases hc : r.counter ≤ maxChunkCounter
  · obtain ⟨src, hclean, hrest, heq⟩ := encryptNextChunk_spec A (h.clean hl) hc hl
    have hr' := (Prod.mk.inj (heq.symm.trans hr)).2
    have hiff : r.src.rest.length ≤ chunkSize ↔ chunkCount p.length ≤ r.counter + 1 := by
      rw [h.rest hl hc, List.length_drop, chunkCount_le_succ_iff, Nat.add_mul]
      omega
    subst hr'
    refine ⟨fun _ => hclean, fun _ _ => ?_, ?_, ?_⟩
    · rw [hrest, h.rest hl hc, List.drop_drop, Nat.add_mul, Nat.one_mul]
    · intro hq
      have := mt hiff.mpr (by simpa using hq)
      exact Nat.lt_of_not_le this
    · intro hq
      have := hiff.mp (by simpa using hq)
      exact Nat.le_antisymm hmore this
  · obtain ⟨src, hclean, heq⟩ := encryptNextChunk_exceeds A (h.clean hl) (Nat.lt_of_not_le hc)
    have hr' := (Prod.mk.inj (heq.symm.trans hr)).2
    subst hr'
    exact ⟨fun _ => hclean, fun _ hc' => absurd hc' hc, h.more, h.done⟩

theorem Aligned.read (A : Aead) {p : Bytes} {r : EncryptingReader} (h : Aligned p r) (n : ℕ) :
    Aligned p (r.read A n).2.2 := by
  rw [EncryptingReader.read]
  split
  · rename_i hh
    clear hh
    fun_induction EncryptingReader.readBody A r n with
    | case1 r hp => exact ⟨h.clean, h.rest, h.more, h.done⟩
    | case2 r hp hl => exact h
    | case3 r hp hl e r' hr => exact h.encryptNextChunk A (by simpa using hl) hr
    | case4 r hp hl r' hr ih => exact ih (h.encryptNextChunk A (by simpa using hl) hr)
  · exact ⟨h.clean, h.rest, h.more, h.done⟩

theorem Aligned.counter_le {p : Bytes} {r : EncryptingReader} (h : Aligned p r) :
    r.counter ≤ chunkCount p.length := by
  cases hl : r.lastEmitted with
  | true => exact Nat.le_of_eq (h.done hl)
  | false => exact Nat.le_of_lt (h.more hl)

theorem Aligned.reads (A : Aead) (ns : List ℕ) {p : Bytes} {r : EncryptingReader}
    (h : Aligned p r) : Aligned p (r.reads A ns) := by
  induction ns generalizing r with
  | nil => exact h
  | cons n ns ih => exact ih (h.read A n)

/-- With a counter that tells where in the plaintext the reader is, the flag is
on the nonce of the last chunk of the plaintext. -/
theorem Aligned.log_eq {p : Bytes} {pre : Block noncePrefixSize} {log : List Bytes}
    {r : EncryptingReader} (h : Aligned p r) (hlog : Numbered pre log r) :
    log = (List.range r.counter).map fun k =>
        chunkNonce pre k (decide (k + 1 = chunkCount p.length)) := by
  rw [hlog.log_eq]
  refine List.map_congr_left fun k hk => ?_
  have hlt := List.mem_range.mp hk
  cases hl : r.lastEmitted with
  | true => rw [h.done hl, Bool.true_and]
  | false =>
      have := h.more hl
      rw [Bool.false_and, decide_eq_false (by omega)]

/-! ### A plaintext that is too long -/

def sealFull (A : Aead) (cek : Bytes) (pre : Block noncePrefixSize) : ℕ → ℕ → Bytes → Bytes
  | 0, _, _ => []
  | m + 1, i, q =>
      A.sealed cek (chunkNonce pre i false) (q.take chunkSize) ++
        sealFull A cek pre m (i + 1) (q.drop chunkSize)

/-- The invariant of a reader that has `s` to deliver before it runs out of
nonces. -/
structure EncOverflows (A : Aead) (s : Bytes) (r : EncryptingReader) : Prop where
  last : r.lastEmitted = false
  clean : r.src.Clean
  counter_le : r.counter ≤ maxChunkCounter + 1
  long : (maxChunkCounter + 1) * chunkSize < r.counter * chunkSize + r.src.rest.length
  header : r.HeaderFirst
  remaining : s = r.ahead ++
    sealFull A r.cek r.noncePrefix (maxChunkCounter + 1 - r.counter) r.counter r.src.rest

theorem encryptNextChunk_overflows (A : LawfulAead) {s : Bytes} {r : EncryptingReader}
    (hr : EncOverflows A.toAead s r) (hh : r.headerEmitted = true) (hp : r.pendingOut = [])
    (hc : r.counter ≤ maxChunkCounter) :
    ∃ r', encryptNextChunk A.toAead r = (none, r') ∧ EncOverflows A.toAead s r' ∧
      r'.headerEmitted = true ∧ r'.pendingOut ≠ [] := by
  have hlong : ¬ r.src.rest.length ≤ chunkSize := by
    intro hle
    have hmul := Nat.mul_le_mul_right chunkSize (Nat.add_le_add_right hc 1)
    have hlong := hr.long
    rw [Nat.add_mul r.counter] at hmul
    omega
  obtain ⟨src, hclean, hrest, hnext⟩ := encryptNextChunk_spec A.toAead hr.clean hc hr.last
  refine ⟨_, hnext, ⟨?_, hclean, ?_, ?_, ?_, ?_⟩, hh, A.sealed_ne_nil _ _ _⟩
  · simpa using hlong
  · exact Nat.succ_le_succ hc
  · have hlong' := hr.long
    simp only [hrest, List.length_drop, Nat.add_mul r.counter]
    omega
  · intro hfalse
    exact absurd (hh.symm.trans hfalse) (by simp)
  · have hsub : maxChunkCounter + 1 - r.counter = (maxChunkCounter - r.counter) + 1 := by omega
    rw [hr.remaining, hsub, sealFull]
    simp [EncryptingReader.ahead, hh, hp, hrest, decide_eq_false hlong]

theorem encryptingReader_overflows (A : LawfulAead) :
    Drains (EncryptingReader.read A.toAead) (CryptoErr.counterExceedsMax (maxChunkCounter + 1))
      (EncOverflows A.toAead) := by
  have hahead : ∀ {s r} (n : ℕ), EncOverflows A.toAead s r → r.ahead ≠ [] →
      ∃ c s' r', r.read A.toAead n = (c, none, r') ∧ s = c ++ s' ∧ EncOverflows A.toAead s' r' ∧
        (0 < n → c ≠ []) := by
    intro s r n hr hne
    obtain ⟨c, h, b, p, hread, hsplit, hfirst, hc⟩ := r.read_ahead A.toAead n hr.header hne
    refine ⟨c, _, _, hread, ?_,
      ⟨hr.last, hr.clean, hr.counter_le, hr.long, hfirst, rfl⟩, hc⟩
    rw [hr.remaining, hsplit, List.append_assoc]
  intro s r n hr
  by_cases hne : r.ahead = []
  · obtain ⟨hh, hp⟩ := EncryptingReader.ahead_eq_nil hr.header hne
    by_cases hc : r.counter ≤ maxChunkCounter
    · left
      obtain ⟨r', hnext, hr', hh', hp'⟩ := encryptNextChunk_overflows A hr hh hp hc
      rw [r.read_next A.toAead n hh hp hr.last hnext hh']
      exact hahead n hr' (by simpa [EncryptingReader.ahead, hh'] using hp')
    · right
      have hcounter : r.counter = maxChunkCounter + 1 :=
        Nat.le_antisymm hr.counter_le (Nat.lt_of_not_le hc)
      obtain ⟨src, -, hnext⟩ :=
        encryptNextChunk_exceeds A.toAead hr.clean (Nat.lt_of_not_le hc)
      refine ⟨{ r with src := src }, ?_, ?_⟩
      · rw [EncryptingReader.read, if_pos hh, EncryptingReader.readBody, if_neg (by simp [hp]),
          dif_neg (by simp [hr.last]), hnext]
        simp only [hcounter]
      · rw [hr.remaining, hcounter, Nat.sub_self, sealFull, List.append_nil, hne]
  · exact Or.inl (hahead n hr hne)

/-! ### Every reader -/

section Ends

variable (kek : Block kekSize) (keystoreUUID : Block keystoreUUIDSize) (cek : Block cekSize)
  (wrapNonce : Block nonceSize) (noncePrefix : Block noncePrefixSize)

theorem numbered_start (src : Source UInt8) (hdr : Header) :
    Numbered hdr.noncePrefix [] (.start src cek.1 hdr) := by
  exact ⟨rfl, rfl, Nat.zero_le _, by simp [EncryptingReader.start]⟩

theorem aligned_start {src : Source UInt8} {p : Bytes} (hsrc : src.Splits p) (hdr : Header) :
    Aligned p (.start src cek.1 hdr) := by
  refine ⟨fun _ => BufReader.clean_new hsrc.noStall hsrc.final, fun _ _ => ?_, fun _ => ?_, ?_⟩
  · simp [EncryptingReader.start, hsrc.rest]
  · simp [EncryptingReader.start, chunkCount]
  · simp [EncryptingReader.start]

theorem encOverflows_start (A : Aead) {src : Source UInt8} {p : Bytes} (hsrc : src.Splits p)
    (hdr : Header) (hp : (maxChunkCounter + 1) * chunkSize < p.length) :
    ∃ s, EncOverflows A s (.start src cek.1 hdr) := by
  refine ⟨_, rfl, BufReader.clean_new hsrc.noStall hsrc.final, Nat.zero_le _, ?_,
    fun _ => ⟨marshalBinary_ne_nil hdr, rfl⟩, rfl⟩
  simpa [EncryptingReader.start, hsrc.rest] using hp

/-- Whatever the source does and whatever calls are made, the stream is the header and what
`Seal` returned, no nonce is passed to it twice, and only the last one can carry the flag,
which it does when the end of the stream is reported. Of a source that delivers `p`, the flag
is on the nonce of the last chunk of `p`. If `p` needs more than 2^56 chunks, then the
end of the stream is never reported, and a caller that keeps reading gets the
error that the counter exceeds its maximum. -/
theorem encryptingReader_nonces (A : LawfulAead) (src : Source UInt8) :
    ∃ enc, newEncryptingReader A.toAead src kek.1 keystoreUUID cek wrapNonce noncePrefix = .ok enc ∧
      (∀ ns, enc.header ++ sealedBytes A.toAead cek.1 (enc.readsCalls A.toAead ns) =
        enc.readsBytes A.toAead ns ++ (enc.reads A.toAead ns).ahead) ∧
      (∀ ns, (enc.readsNonces A.toAead ns).Nodup ∧
        ∃ m last, enc.readsNonces A.toAead ns = (List.range m).map fun k =>
          chunkNonce noncePrefix k (last && decide (k + 1 = m))) ∧
      (∀ ns n, ((enc.reads A.toAead ns).read A.toAead n).2.1 = some .eof →
        ∃ m > 0, enc.readsNonces A.toAead (ns ++ [n]) = (List.range m).map fun k =>
          chunkNonce noncePrefix k (decide (k + 1 = m))) ∧
      ∀ p, src.Splits p →
        (∀ ns, ∃ m ≤ chunkCount p.length,
          enc.readsNonces A.toAead ns = (List.range m).map fun k =>
            chunkNonce noncePrefix k (decide (k + 1 = chunkCount p.length))) ∧
        (∀ ns n, ((enc.reads A.toAead ns).read A.toAead n).2.1 = some .eof →
          (enc.readsNonces A.toAead (ns ++ [n])).length = chunkCount p.length) ∧
        (2 ^ 56 < chunkCount p.length →
          (∀ ns n, ((enc.reads A.toAead ns).read A.toAead n).2.1 ≠ some .eof) ∧
          ∀ lens, Fair lens → ∃ k s r', drive (EncryptingReader.read A.toAead)
            ((List.range k).map lens) enc = (s, some (.counterExceedsMax (2 ^ 56)), r')) := by
  obtain ⟨wrappedCEK, -, hnew⟩ :=
    newEncryptingReader_eq kek keystoreUUID cek wrapNonce noncePrefix A src
  have hstart := numbered_start cek src (newHeader keystoreUUID wrapNonce wrappedCEK noncePrefix)
  have hnum : ∀ ns, Numbered noncePrefix _ _ := fun ns => hstart.reads A.toAead ns
  refine ⟨_, hnew, fun ns => ?_, fun ns => ?_, fun ns n heof => ?_, fun p hsrc => ?_⟩
  · rw [← EncryptingReader.readsBytes_sealed]
    simp [EncryptingReader.start, EncryptingReader.ahead]
  · exact ⟨(hnum ns).nodup, _, _, (hnum ns).log_eq⟩
  · have hlast := hstart.lastEmitted_of_eof A.toAead heof
    have hlog := (hnum (ns ++ [n])).log_eq
    rw [hlast] at hlog
    exact ⟨_, (hnum (ns ++ [n])).counter_pos hlast, hlog⟩
  · have hal : ∀ ns, Aligned p _ := fun ns =>
      (aligned_start cek hsrc (newHeader keystoreUUID wrapNonce wrappedCEK noncePrefix)).reads
        A.toAead ns
    have hdone := fun ns n heof => (hal (ns ++ [n])).done (hstart.lastEmitted_of_eof A.toAead heof)
    refine ⟨fun ns => ⟨_, (hal ns).counter_le, (hal ns).log_eq (hnum ns)⟩, fun ns n heof => ?_,
      fun hp => ⟨fun ns n heof => ?_, fun lens hfair => ?_⟩⟩
    · have hlen := congrArg List.length (hnum (ns ++ [n])).log_eq
      rw [List.length_map, List.length_range, hdone ns n heof] at hlen
      exact hlen
    · have hle := (hnum (ns ++ [n])).counter_le
      rw [hdone ns n heof] at hle
      simp only [maxChunkCounter] at hle
      omega
    · have hlong : (maxChunkCounter + 1) * chunkSize < p.length := by
        have := mt (chunkCount_le_succ_iff p.length maxChunkCounter).mpr (Nat.not_le_of_lt hp)
        exact Nat.lt_of_not_le this
      obtain ⟨s, hs⟩ := encOverflows_start cek A.toAead hsrc
        (newHeader keystoreUUID wrapNonce wrappedCEK noncePrefix) hlong
      obtain ⟨k, r', hk⟩ := (encryptingReader_overflows A).drive_all hs hfair
      exact ⟨k, s, r', hk⟩

end Ends

end CloudBackup.Cbcrypto
