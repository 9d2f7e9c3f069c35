import Mathlib.Algebra.Order.Ring.Int
import Mathlib.Algebra.Order.Ring.Nat
import Mathlib.Tactic.Common

/-!
Streams as the Go standard library hands them over.

A reader of package `io` promises little: a call may return any number of
elements up to the buffer's length, none at all included, and the error that
ends the stream may come with the last of them or on its own. `Source` is a
reader of that kind, given by the pieces that its calls deliver. `BufReader`
is `bufio.Reader` over it, with the two calls that matter here, `Read` and
`Peek(1)`, and `readFull` is `io.ReadFull`.

What a client wants to know is much simpler: `BufReader.rest` is what the
stream still holds, `readFull` takes a prefix of it, and `peek` says whether it
is empty. `BufReader.Clean` is the invariant under which this is true, and
`readFull_eq` and `peek_eq` say it.

The last section is about the other end, a reader that is driven by a sequence
of calls with buffers of given lengths until the first error.
-/

namespace CloudBackup.ByteStream

variable {α : Type}

/-- The errors of packages `io` and `bufio` that can come out of the readers
below; `source` stands for any error of the underlying reader. -/
inductive ReadErr
  | eof
  | unexpectedEOF
  | noProgress
  | bufferFull
  | source
  deriving DecidableEq, Repr

/-- An `io.Reader`, given by what its calls deliver. `final` is the error it
ends with, and `withLast` says if that error is returned together with the last
piece or by a call of its own. -/
structure Source (α : Type) where
  pieces : List (List α)
  final : ReadErr
  withLast : Bool

/-- One `Read` with a buffer of length `n`. A piece that does not fit is
delivered in parts. -/
def Source.read (s : Source α) (n : ℕ) : List α × Option ReadErr × Source α :=
  match s.pieces with
  | [] => ([], some s.final, s)
  | c :: cs =>
      if c.length ≤ n then
        (c, if cs.isEmpty && s.withLast then some s.final else none, { s with pieces := cs })
      else
        (c.take n, none, { s with pieces := c.drop n :: cs })

def maxConsecutiveEmptyReads : ℕ := 100

def defaultBufSize : ℕ := 4096

/-- Never as many empty reads in a row as make `bufio` give up. -/
def NoStall (pieces : List (List α)) : Prop :=
  ∀ k, (∀ c ∈ (pieces.drop k).take maxConsecutiveEmptyReads, c = []) →
    pieces.length < k + maxConsecutiveEmptyReads

/-- A `bufio.Reader`: the unread part of its buffer, and the error it has seen
and not yet returned. -/
structure BufReader (α : Type) where
  src : Source α
  buf : List α
  err : Option ReadErr

/-- `bufio.NewReader`. -/
def BufReader.new (src : Source α) : BufReader α := ⟨src, [], none⟩

def BufReader.read (b : BufReader α) (n : ℕ) : List α × Option ReadErr × BufReader α :=
  if n = 0 then
    match b.buf with
    | [] => ([], b.err, { b with err := none })
    | _ :: _ => ([], none, b)
  else
    match b.buf with
    | [] =>
        match b.err with
        | some e => ([], some e, { b with err := none })
        | none =>
            if defaultBufSize ≤ n then
              -- a large read with an empty buffer goes straight to the source
              let r := b.src.read n
              (r.1, r.2.1, { b with src := r.2.2 })
            else
              let r := b.src.read defaultBufSize
              if r.1.isEmpty then
                ([], r.2.1, { b with src := r.2.2 })
              else
                (r.1.take n, none, ⟨r.2.2, r.1.drop n, r.2.1⟩)
    | x :: xs => ((x :: xs).take n, none, { b with buf := (x :: xs).drop n })

/-- The loop of `bufio.Reader.fill`; the first argument counts the empty reads
that are still allowed. -/
def BufReader.fill : ℕ → BufReader α → BufReader α
  | 0, b => { b with err := some .noProgress }
  | i + 1, b =>
      let r := b.src.read (defaultBufSize - b.buf.length)
      let b' : BufReader α := { b with src := r.2.2, buf := b.buf ++ r.1 }
      match r.2.1 with
      | some e => { b' with err := some e }
      | none => if r.1.isEmpty then fill i b' else b'

/-- The reader once `Peek(1)` has filled its buffer. One round of `fill` is
enough for one element. -/
def BufReader.filled (b : BufReader α) : BufReader α :=
  if b.buf.isEmpty && b.err.isNone then b.fill maxConsecutiveEmptyReads else b

def BufReader.peek (b : BufReader α) : Option ReadErr × BufReader α :=
  if b.filled.buf.isEmpty then
    (some (b.filled.err.getD .bufferFull), { b.filled with err := none })
  else
    (none, b.filled)

/-- What a reader has still to deliver, counted with one more for each piece:
the measure that every call of a reading loop decreases. -/
def BufReader.size (b : BufReader α) : ℕ :=
  b.buf.length + (b.src.pieces.map (fun c => c.length + 1)).sum

/-! ### The measure -/

theorem Source.read_size (s : Source α) (n : ℕ) :
    (s.read n).1.length + ((s.read n).2.2.pieces.map (fun c => c.length + 1)).sum ≤
      (s.pieces.map (fun c => c.length + 1)).sum := by
  unfold Source.read
  cases hp : s.pieces with
  | nil => simp [hp]
  | cons c cs =>
      by_cases hc : c.length ≤ n
      · simp only [hc, if_true, List.map_cons, List.sum_cons]
        omega
      · simp only [hc, if_false, List.map_cons, List.sum_cons, List.length_take,
          List.length_drop]
        omega

/-- A read of the source that returns nothing and no error has used up an empty
piece, unless the buffer was empty. -/
theorem Source.read_progress {s : Source α} {n : ℕ} (hn : 0 < n) (hc : (s.read n).1 = [])
    (he : (s.read n).2.1 = none) : (s.read n).2.2.pieces.length < s.pieces.length := by
  unfold Source.read at hc he ⊢
  cases hp : s.pieces with
  | nil => simp [hp] at he
  | cons c cs =>
      simp only [hp] at hc he ⊢
      by_cases hl : c.length ≤ n
      · simp [hl]
      · simp only [hl, if_false, List.take_eq_nil_iff] at hc
        rcases hc with hc | hc
        · omega
        · simp [hc] at hl

theorem Source.read_pieces_le (s : Source α) (n : ℕ) :
    (s.read n).2.2.pieces.length ≤ s.pieces.length := by
  unfold Source.read
  cases hp : s.pieces with
  | nil => simp [hp]
  | cons c cs => by_cases hc : c.length ≤ n <;> simp [hc]

theorem BufReader.read_size (b : BufReader α) (n : ℕ) :
    (b.read n).1.length + (b.read n).2.2.size ≤ b.size := by
  unfold BufReader.read BufReader.size
  by_cases hn : n = 0
  · cases hb : b.buf <;> simp [hn, hb]
  · rw [if_neg hn]
    cases hb : b.buf with
    | cons x xs =>
        have : ((x :: xs).take n).length + ((x :: xs).drop n).length = (x :: xs).length := by
          rw [← List.length_append, List.take_append_drop]
        simp only
        omega
    | nil =>
        cases he : b.err with
        | some e => simp
        | none =>
            have h1 := b.src.read_size n
            have h2 := b.src.read_size defaultBufSize
            by_cases hl : defaultBufSize ≤ n
            · simp only [hl, if_true, List.length_nil]
              omega
            · simp only [hl, if_false]
              split
              · simp only [List.length_nil]
                omega
              · have : ((b.src.read defaultBufSize).1.take n).length +
                    ((b.src.read defaultBufSize).1.drop n).length =
                    (b.src.read defaultBufSize).1.length := by
                  rw [← List.length_append, List.take_append_drop]
                simp only [List.length_nil]
                omega

/-- A call of `Read` with room for an element returns one, or an error, or it
has used up a piece of the source. -/
theorem BufReader.read_progress {b : BufReader α} {n : ℕ} (hn : 0 < n)
    (hc : (b.read n).1 = []) (he : (b.read n).2.1 = none) :
    (b.read n).2.2.src.pieces.length < b.src.pieces.length := by
  unfold BufReader.read at hc he ⊢
  rw [if_neg (by omega)] at hc he ⊢
  cases hb : b.buf with
  | cons x xs =>
      simp only [hb, List.take_eq_nil_iff] at hc
      rcases hc with hc | hc
      · omega
      · simp at hc
  | nil =>
      simp only [hb] at hc he ⊢
      cases hr : b.err with
      | some e => simp [hr] at he
      | none =>
          simp only [hr] at hc he ⊢
          by_cases hl : defaultBufSize ≤ n
          · simp only [hl, if_true] at hc he ⊢
            exact Source.read_progress hn hc he
          · simp only [hl, if_false] at hc he ⊢
            by_cases hz : (b.src.read defaultBufSize).1.isEmpty
            · simp only [hz, if_true] at hc he ⊢
              exact Source.read_progress (by decide) (by simpa using hz) he
            · simp only [hz, if_false, List.take_eq_nil_iff, Bool.false_eq_true] at hc
              rcases hc with hc | hc
              · omega
              · simp [hc] at hz

theorem BufReader.read_pieces_le (b : BufReader α) (n : ℕ) :
    (b.read n).2.2.src.pieces.length ≤ b.src.pieces.length := by
  have h1 := b.src.read_pieces_le n
  have h2 := b.src.read_pieces_le defaultBufSize
  unfold BufReader.read
  by_cases hn : n = 0
  · cases hb : b.buf <;> simp [hn]
  · rw [if_neg hn]
    cases hb : b.buf with
    | cons x xs => simp
    | nil =>
        cases he : b.err with
        | some e => simp
        | none =>
            by_cases hl : defaultBufSize ≤ n
            · simpa [hl] using h1
            · by_cases hz : (b.src.read defaultBufSize).1.isEmpty <;> simpa [hl, hz] using h2

def BufReader.readFullLoop (b : BufReader α) (n : ℕ) (acc : List α) :
    List α × Option ReadErr × BufReader α :=
  if n = 0 then (acc, none, b)
  else
    match _hr : b.read n with
    | (c, none, b') => readFullLoop b' (n - c.length) (acc ++ c)
    | (c, some e, b') =>
        if n ≤ c.length then (acc ++ c, none, b')
        else if e = .eof ∧ acc ++ c ≠ [] then (acc ++ c, some .unexpectedEOF, b')
        else (acc ++ c, some e, b')
  termination_by n + b.src.pieces.length
  decreasing_by
    have hle := b.read_pieces_le n
    have hpr := @BufReader.read_progress α b n
    rw [_hr] at hle hpr
    cases c with
    | nil =>
        have := hpr (by omega) rfl rfl
        simp only [List.length_nil] at *
        omega
    | cons x xs =>
        simp only [List.length_cons] at *
        omega

def BufReader.readFull (b : BufReader α) (n : ℕ) : List α × Option ReadErr × BufReader α :=
  b.readFullLoop n []

theorem BufReader.readFullLoop_size (b : BufReader α) (n : ℕ) (acc : List α) :
    (b.readFullLoop n acc).1.length + (b.readFullLoop n acc).2.2.size ≤ acc.length + b.size := by
  fun_induction BufReader.readFullLoop b n acc with
  | case1 b acc => simp
  | case2 b n acc hn c b' hr ih =>
      have := b.read_size n
      simp only [hr, List.length_append] at this ih ⊢
      omega
  | case3 b n acc hn c e b' hr hc =>
      have := b.read_size n
      simp only [hr, List.length_append] at this ⊢
      omega
  | case4 b n acc hn c e b' hr hc he =>
      have := b.read_size n
      simp only [hr, List.length_append] at this ⊢
      omega
  | case5 b n acc hn c e b' hr hc he =>
      have := b.read_size n
      simp only [hr, List.length_append] at this ⊢
      omega

theorem BufReader.readFull_size (b : BufReader α) (n : ℕ) :
    (b.readFull n).1.length + (b.readFull n).2.2.size ≤ b.size := by
  simpa [BufReader.readFull] using b.readFullLoop_size n []

theorem BufReader.readFullLoop_length (b : BufReader α) (n : ℕ) (acc : List α)
    (h : (b.readFullLoop n acc).2.1 = none) :
    acc.length + n ≤ (b.readFullLoop n acc).1.length := by
  fun_induction BufReader.readFullLoop b n acc with
  | case1 b acc => simp
  | case2 b n acc hn c b' hr ih =>
      have := ih h
      simp only [List.length_append] at this ⊢
      omega
  | case3 b n acc hn c e b' hr hc =>
      simp only [List.length_append]
      omega
  | case4 b n acc hn c e b' hr hc he => simp at h
  | case5 b n acc hn c e b' hr hc he => simp at h

theorem BufReader.readFull_length {b : BufReader α} {n : ℕ} (h : (b.readFull n).2.1 = none) :
    n ≤ (b.readFull n).1.length := by
  simpa [BufReader.readFull] using b.readFullLoop_length n [] h

theorem BufReader.fill_size (i : ℕ) (b : BufReader α) : (b.fill i).size ≤ b.size := by
  induction i generalizing b with
  | zero => simp [BufReader.fill, BufReader.size]
  | succ i ih =>
      have hs := b.src.read_size (defaultBufSize - b.buf.length)
      simp only [BufReader.fill]
      split
      · simp only [BufReader.size, List.length_append] at *
        omega
      · split
        · refine Nat.le_trans (ih _) ?_
          simp only [BufReader.size, List.length_append] at *
          omega
        · simp only [BufReader.size, List.length_append] at *
          omega

theorem BufReader.peek_size (b : BufReader α) : b.peek.2.size ≤ b.size := by
  have hf : b.filled.size ≤ b.size := by
    unfold BufReader.filled
    split
    · exact b.fill_size maxConsecutiveEmptyReads
    · exact Nat.le_refl _
  unfold BufReader.peek
  split <;> exact hf

/-! ### What a stream still holds -/

/-- The elements that a reader has still to deliver. -/
def Source.rest (s : Source α) : List α := s.pieces.flatten

/-- The elements that a buffered reader has still to deliver. -/
def BufReader.rest (b : BufReader α) : List α := b.buf ++ b.src.rest

/-- The invariant of a buffered reader whose source ends in `io.EOF` and does
not stall. -/
structure BufReader.Clean (b : BufReader α) : Prop where
  noStall : NoStall b.src.pieces
  final : b.src.final = .eof
  err : b.err = none ∨ (b.err = some .eof ∧ b.src.pieces = [])

theorem NoStall.tail {c : List α} {cs : List (List α)} (h : NoStall (c :: cs)) : NoStall cs := by
  intro k hk
  have := h (k + 1) (by simpa using hk)
  simp only [List.length_cons] at this
  omega

/-- A piece that is delivered in parts does not make the source stall. -/
theorem NoStall.replaceHead {c d : List α} {cs : List (List α)} (h : NoStall (c :: cs))
    (hd : d ≠ []) : NoStall (d :: cs) := by
  intro k hk
  cases k with
  | zero =>
      have hmem : d ∈ ((d :: cs).drop 0).take maxConsecutiveEmptyReads := by
        simp [maxConsecutiveEmptyReads]
      exact absurd (hk d hmem) hd
  | succ k =>
      have := h.tail k (by simpa using hk)
      simp only [List.length_cons]
      omega

theorem noStall_nil : NoStall ([] : List (List α)) := by
  intro k _
  simp [maxConsecutiveEmptyReads]

theorem BufReader.clean_new {src : Source α} (hs : NoStall src.pieces) (hf : src.final = .eof) :
    (BufReader.new src).Clean :=
  ⟨hs, hf, Or.inl rfl⟩

/-- A source whose reads deliver `s` and then `io.EOF`. -/
structure Source.Splits (src : Source α) (s : List α) : Prop where
  rest : src.rest = s
  final : src.final = .eof
  noStall : NoStall src.pieces

@[simp] theorem BufReader.rest_new (src : Source α) : (BufReader.new src).rest = src.rest := rfl

/-- A call takes what it returns off the front, whatever the source. -/
theorem Source.rest_eq_read (s : Source α) (n : ℕ) :
    s.rest = (s.read n).1 ++ (s.read n).2.2.rest := by
  unfold Source.read
  cases hp : s.pieces with
  | nil => simp [Source.rest, hp]
  | cons c cs => by_cases hc : c.length ≤ n <;> simp [Source.rest, hp, hc, ← List.append_assoc]

@[simp] theorem Source.read_final (s : Source α) (n : ℕ) : (s.read n).2.2.final = s.final := by
  unfold Source.read
  cases hp : s.pieces with
  | nil => rfl
  | cons c cs => by_cases hc : c.length ≤ n <;> simp [hc]

/-- The only error of a source is the one it ends with. -/
theorem Source.read_err {s : Source α} {n : ℕ} {e : ReadErr} (h : (s.read n).2.1 = some e) :
    e = s.final ∧ (s.read n).2.2.pieces = [] := by
  unfold Source.read at h ⊢
  cases hp : s.pieces with
  | nil => simp_all
  | cons c cs =>
      by_cases hc : c.length ≤ n
      · simp only [hp, hc, if_true, Option.ite_none_right_eq_some, Bool.and_eq_true,
          List.isEmpty_iff, Option.some.injEq] at h ⊢
        exact ⟨h.2.symm, h.1.1⟩
      · simp [hp, hc] at h

theorem BufReader.rest_eq_read (b : BufReader α) (n : ℕ) :
    b.rest = (b.read n).1 ++ (b.read n).2.2.rest := by
  have h1 := b.src.rest_eq_read n
  have h2 := b.src.rest_eq_read defaultBufSize
  unfold BufReader.read BufReader.rest
  by_cases hn : n = 0
  · cases hb : b.buf <;> simp [hn, hb]
  · rw [if_neg hn]
    cases hb : b.buf with
    | cons x xs => simp [← List.append_assoc]
    | nil =>
        cases he : b.err with
        | some e => simp
        | none =>
            by_cases hl : defaultBufSize ≤ n
            · simpa [hl, hb] using h1
            · by_cases hz : (b.src.read defaultBufSize).1 = []
              · simpa [hl, hz, hb] using h2
              · simpa [hl, hz, ← List.append_assoc] using h2

/-- What `io.ReadFull` has read is the front of what was to come. -/
theorem BufReader.readFullLoop_isPrefix (b : BufReader α) (n : ℕ) (acc : List α) :
    (b.readFullLoop n acc).1 <+: acc ++ b.rest := by
  have hcons : ∀ {b b' : BufReader α} {n : ℕ} {c acc : List α} {e : Option ReadErr},
      b.read n = (c, e, b') → acc ++ b.rest = acc ++ c ++ b'.rest := by
    intro b b' n c acc e hr
    rw [b.rest_eq_read n, hr, List.append_assoc]
  fun_induction BufReader.readFullLoop b n acc with
  | case1 b acc => exact List.prefix_append acc b.rest
  | case2 b n acc hn c b' hr ih =>
      rw [hcons hr]
      exact ih
  | case3 b n acc hn c e b' hr hc =>
      rw [hcons hr]
      exact List.prefix_append _ _
  | case4 b n acc hn c e b' hr hc he =>
      rw [hcons hr]
      exact List.prefix_append _ _
  | case5 b n acc hn c e b' hr hc he =>
      rw [hcons hr]
      exact List.prefix_append _ _

theorem BufReader.readFull_isPrefix (b : BufReader α) (n : ℕ) : (b.readFull n).1 <+: b.rest :=
  b.readFullLoop_isPrefix n []

/-- What a successful or final `Read` with room for `n` elements does to a
clean stream: `r` holds the elements, the error and the reader afterwards. -/
structure Source.Reads (s : Source α) (n : ℕ) (r : List α × Option ReadErr × Source α) : Prop where
  rest : s.rest = r.1 ++ r.2.2.rest
  length_le : r.1.length ≤ n
  noStall : NoStall r.2.2.pieces
  final : r.2.2.final = .eof
  err : r.2.1 = none ∨ (r.2.1 = some .eof ∧ r.2.2.pieces = [])

structure BufReader.Reads (b : BufReader α) (n : ℕ) (r : List α × Option ReadErr × BufReader α) :
    Prop where
  rest : b.rest = r.1 ++ r.2.2.rest
  length_le : r.1.length ≤ n
  clean : r.2.2.Clean
  err : r.2.1 = none ∨ (r.2.1 = some .eof ∧ r.2.2.rest = [])

theorem Source.length_read_le (s : Source α) (n : ℕ) : (s.read n).1.length ≤ n := by
  unfold Source.read
  cases hp : s.pieces with
  | nil => simp
  | cons c cs => by_cases hc : c.length ≤ n <;> simp [hc]

theorem Source.read_noStall {s : Source α} (n : ℕ) (hs : NoStall s.pieces) :
    NoStall (s.read n).2.2.pieces := by
  unfold Source.read
  cases hp : s.pieces with
  | nil => simpa [hp] using noStall_nil
  | cons c cs =>
      rw [hp] at hs
      by_cases hc : c.length ≤ n
      · simpa [hc] using hs.tail
      · have hd : c.drop n ≠ [] := by
          intro h
          have := congrArg List.length h
          simp only [List.length_drop, List.length_nil] at this
          omega
        simpa [hc] using hs.replaceHead hd

theorem Source.read_reads {s : Source α} (n : ℕ) (hs : NoStall s.pieces) (hf : s.final = .eof) :
    s.Reads n (s.read n) := by
  have herr : (s.read n).2.1 = none ∨ ((s.read n).2.1 = some .eof ∧ (s.read n).2.2.pieces = []) := by
    cases he : (s.read n).2.1 with
    | none => exact Or.inl rfl
    | some e =>
        obtain ⟨rfl, hp⟩ := Source.read_err he
        exact Or.inr ⟨by rw [hf], hp⟩
  exact ⟨s.rest_eq_read n, s.length_read_le n, s.read_noStall n hs, by rw [Source.read_final, hf], herr⟩

theorem BufReader.length_read_le (b : BufReader α) (n : ℕ) : (b.read n).1.length ≤ n := by
  have h := b.src.length_read_le n
  unfold BufReader.read
  by_cases hn : n = 0
  · cases b.buf <;> simp [hn]
  · rw [if_neg hn]
    cases b.buf with
    | cons x xs => simp
    | nil =>
        cases he : b.err with
        | some e => simp
        | none =>
            by_cases hl : defaultBufSize ≤ n
            · simpa [hl] using h
            · by_cases hz : (b.src.read defaultBufSize).1 = [] <;> simp [hl, hz]

/-- A `Read` that goes to the source, with an empty buffer. -/
theorem Source.Reads.clean_err {s : Source α} {n : ℕ} {r : List α × Option ReadErr × Source α}
    (h : s.Reads n r) :
    (⟨r.2.2, [], none⟩ : BufReader α).Clean ∧
      (r.2.1 = none ∨ (r.2.1 = some .eof ∧ (⟨r.2.2, [], none⟩ : BufReader α).rest = [])) := by
  refine ⟨⟨h.noStall, h.final, Or.inl rfl⟩, h.err.imp_right fun hend => ⟨hend.1, ?_⟩⟩
  simp [BufReader.rest, Source.rest, hend.2]

theorem BufReader.read_clean_err {b : BufReader α} (n : ℕ) (hb : b.Clean) :
    (b.read n).2.2.Clean ∧
      ((b.read n).2.1 = none ∨ ((b.read n).2.1 = some .eof ∧ (b.read n).2.2.rest = [])) := by
  obtain ⟨src, buf, err⟩ := b
  have hs : NoStall src.pieces := hb.noStall
  have hf : src.final = .eof := hb.final
  -- returning a pending error leaves a clean reader with nothing left to read
  have hpend : (⟨src, [], none⟩ : BufReader α).Clean ∧
      (err = none ∨ (err = some .eof ∧ (⟨src, [], none⟩ : BufReader α).rest = [])) := by
    refine ⟨⟨hs, hf, Or.inl rfl⟩, hb.err.imp_right fun h => ⟨h.1, ?_⟩⟩
    have hp : src.pieces = [] := h.2
    simp [BufReader.rest, Source.rest, hp]
  unfold BufReader.read
  by_cases hn : n = 0
  · rw [if_pos hn]
    cases buf with
    | nil => exact hpend
    | cons x xs => exact ⟨hb, Or.inl rfl⟩
  · rw [if_neg hn]
    cases buf with
    | cons x xs => exact ⟨⟨hs, hf, hb.err⟩, Or.inl rfl⟩
    | nil =>
        cases err with
        | some e => exact hpend
        | none =>
            dsimp only
            split
            · exact (Source.read_reads n hs hf).clean_err
            · have h := Source.read_reads defaultBufSize hs hf
              split
              · exact h.clean_err
              · exact ⟨⟨h.noStall, h.final, h.err⟩, Or.inl rfl⟩

theorem BufReader.read_reads {b : BufReader α} (n : ℕ) (hb : b.Clean) :
    b.Reads n (b.read n) := by
  obtain ⟨hclean, herr⟩ := b.read_clean_err n hb
  exact ⟨b.rest_eq_read n, b.length_read_le n, hclean, herr⟩

theorem BufReader.Reads.at_end {b b' : BufReader α} {n : ℕ} {c : List α} {e : ReadErr}
    (h : b.Reads n (c, some e, b')) : e = .eof ∧ b'.rest = [] ∧ b.rest = c := by
  rcases h.err with hnone | ⟨heof, hnil⟩
  · cases hnone
  · have hrest := h.rest
    rw [hnil, List.append_nil] at hrest
    exact ⟨Option.some.inj heof, hnil, hrest⟩

/-- The error with which `io.ReadFull` reports that the stream ended after `c`,
before the buffer was full. -/
def shortErr (c : List α) : ReadErr := if c = [] then .eof else .unexpectedEOF

theorem BufReader.readFullLoop_spec {b : BufReader α} (n : ℕ) (acc : List α) (hb : b.Clean) :
    ∃ b' : BufReader α, b'.Clean ∧ b'.rest = b.rest.drop n ∧
      b.readFullLoop n acc = (acc ++ b.rest.take n,
        if n ≤ b.rest.length then none else some (shortErr (acc ++ b.rest.take n)), b') := by
  fun_induction BufReader.readFullLoop b n acc with
  | case1 b acc => exact ⟨b, hb, by simp, by simp⟩
  | case2 b n acc hn c b' hr ih =>
      have h := hr ▸ b.read_reads n hb
      obtain ⟨b'', hc, hrest, heq⟩ := ih h.clean
      have hlen : c.length ≤ n := h.length_le
      refine ⟨b'', hc, ?_, ?_⟩
      · rw [hrest, h.rest, List.drop_append, List.drop_eq_nil_of_le hlen, List.nil_append]
      · rw [heq, h.rest, List.take_append, List.take_of_length_le hlen]
        have hiff : (n - c.length ≤ b'.rest.length) ↔ (n ≤ (c ++ b'.rest).length) := by
          simp only [List.length_append]
          omega
        simp only [List.append_assoc, hiff]
  | case3 b n acc hn c e b' hr hc =>
      have h := hr ▸ b.read_reads n hb
      have hlen : c.length = n := Nat.le_antisymm h.length_le hc
      refine ⟨b', h.clean, ?_, ?_⟩
      · rw [h.rest, ← hlen, List.drop_left]
      · rw [h.rest, ← hlen, List.take_left]
        simp
  | case4 b n acc hn c e b' hr hc he =>
      have h := hr ▸ b.read_reads n hb
      obtain ⟨-, hnil, hrest⟩ := h.at_end
      refine ⟨b', h.clean, ?_, ?_⟩
      · rw [hrest, hnil, List.drop_eq_nil_of_le (by omega)]
      · rw [hrest, List.take_of_length_le (by omega), if_neg hc, shortErr, if_neg he.2]
  | case5 b n acc hn c e b' hr hc he =>
      have h := hr ▸ b.read_reads n hb
      obtain ⟨heof, hnil, hrest⟩ := h.at_end
      have hacc : acc ++ c = [] := by
        by_contra hne
        exact he ⟨heof, hne⟩
      refine ⟨b', h.clean, ?_, ?_⟩
      · rw [hrest, hnil, List.drop_eq_nil_of_le (by omega)]
      · rw [hrest, List.take_of_length_le (by omega), if_neg hc, shortErr, if_pos hacc, heof]

/-- `io.ReadFull` takes a prefix of the stream, and reports an error exactly if
there was not enough. -/
theorem BufReader.readFull_eq {b : BufReader α} (n : ℕ) (hb : b.Clean) :
    ∃ b' : BufReader α, b'.Clean ∧ b'.rest = b.rest.drop n ∧
      b.readFull n = (b.rest.take n,
        if n ≤ b.rest.length then none else some (shortErr (b.rest.take n)), b') := by
  simpa [BufReader.readFull] using b.readFullLoop_spec n [] hb

/-- A `Read` with room for an element that returns nothing has read an empty piece. -/
theorem Source.pieces_of_read_nil {s : Source α} {m : ℕ} (hm : 0 < m) (he : (s.read m).2.1 = none)
    (hz : (s.read m).1 = []) : s.pieces = [] :: (s.read m).2.2.pieces := by
  unfold Source.read at *
  cases hp : s.pieces with
  | nil => simp [hp] at he
  | cons c cs =>
      by_cases hc : c.length ≤ m
      · simp only [hp, hc, if_true] at hz ⊢
        rw [hz]
      · simp only [hp, hc, if_false, List.take_eq_nil_iff] at hz
        rcases hz with hz | rfl
        · omega
        · simp at hc

/-- Filling an empty buffer from a source that does not stall finds an element
unless there is none. -/
theorem BufReader.fill_spec (i : ℕ) {b : BufReader α} (hb : b.Clean) (hbuf : b.buf = [])
    (herr : b.err = none)
    (hi : (∀ c ∈ b.src.pieces.take i, c = []) → b.src.pieces.length < i) :
    (b.fill i).Clean ∧ (b.fill i).rest = b.rest ∧
      ((b.fill i).buf = [] → (b.fill i).err = some .eof ∧ (b.fill i).rest = []) := by
  induction i generalizing b with
  | zero => simp at hi
  | succ i ih =>
      have hpos : 0 < defaultBufSize - b.buf.length := by simp [hbuf, defaultBufSize]
      simp only [BufReader.fill]
      generalize defaultBufSize - b.buf.length = m at hpos ⊢
      have h := Source.read_reads m hb.noStall hb.final
      have hrest : b.rest = (b.src.read m).1 ++
          (b.src.read m).2.2.rest := by
        simpa [BufReader.rest, hbuf] using h.rest
      split
      · rename_i e he
        obtain ⟨heof, hnil⟩ := h.err.resolve_left (by simp [he])
        rw [he] at heof
        refine ⟨⟨h.noStall, h.final, Or.inr ⟨heof, hnil⟩⟩, ?_, ?_⟩
        · simp [BufReader.rest, hbuf, h.rest]
        · intro hz
          have hz' : (b.src.read m).1 = [] := by
            simpa [hbuf] using hz
          exact ⟨heof, by simp [BufReader.rest, hbuf, hz', Source.rest, hnil]⟩
      · rename_i he
        split
        · rename_i hz
          have hz' : (b.src.read m).1 = [] := by simpa using hz
          have hclean : (⟨(b.src.read m).2.2,
              b.buf ++ (b.src.read m).1, b.err⟩ : BufReader α).Clean :=
            ⟨h.noStall, h.final, Or.inl herr⟩
          have hnext := ih hclean (by simp [hbuf, hz']) herr ?_
          · refine ⟨hnext.1, ?_, hnext.2.2⟩
            rw [hnext.2.1, hrest]
            simp [BufReader.rest, hbuf, hz']
          · -- the piece just read was empty, so the bound passes to the rest
            intro hall
            have hp := Source.pieces_of_read_nil hpos he hz'
            rw [hp] at hi
            simpa using hi (by simpa using hall)
        · rename_i hz
          refine ⟨⟨h.noStall, h.final, Or.inl herr⟩, by simp [BufReader.rest, hbuf, h.rest], ?_⟩
          intro hz'
          simp [hbuf] at hz' hz
          exact absurd hz' hz

/-- `Peek(1)` reports `io.EOF` exactly if the stream is at its end, and takes
nothing from it. -/
theorem BufReader.peek_eq {b : BufReader α} (hb : b.Clean) :
    ∃ b' : BufReader α, b'.Clean ∧ b'.rest = b.rest ∧
      b.peek = (if b.rest = [] then some .eof else none, b') := by
  have hfilled : b.filled.Clean ∧ b.filled.rest = b.rest ∧
      (b.filled.buf = [] → b.filled.err = some .eof ∧ b.filled.rest = []) := by
    unfold BufReader.filled
    split
    · rename_i hcond
      simp only [Bool.and_eq_true, List.isEmpty_iff, Option.isNone_iff_eq_none] at hcond
      refine BufReader.fill_spec _ hb hcond.1 hcond.2 ?_
      intro hall
      simpa using hb.noStall 0 (by simpa using hall)
    · rename_i hcond
      refine ⟨hb, rfl, ?_⟩
      intro hbuf
      rcases hb.err with herr | ⟨herr, hp⟩
      · simp [hbuf, herr] at hcond
      · exact ⟨herr, by simp [BufReader.rest, Source.rest, hbuf, hp]⟩
  obtain ⟨hc, hrest, hend⟩ := hfilled
  unfold BufReader.peek
  by_cases hbuf : b.filled.buf = []
  · obtain ⟨herr, hnil⟩ := hend hbuf
    refine ⟨{ b.filled with err := none }, ⟨hc.noStall, hc.final, Or.inl rfl⟩, hrest, ?_⟩
    simp [hbuf, herr, ← hrest, hnil]
  · refine ⟨b.filled, hc, hrest, ?_⟩
    have hne : b.rest ≠ [] := by
      rw [← hrest]
      simp [BufReader.rest, hbuf]
    simp [hbuf, hne]

/-! ### Driving a reader

The caller of a reader chooses the length of the buffer of each call. `drive`
makes the calls of a given list and stops at the first error; `Fair` says of an
infinite sequence of calls that it never runs out of buffers with room. -/

section Drive

variable {ρ ε : Type} (read : ρ → ℕ → List α × Option ε × ρ)

/-- Calls with buffers of the given lengths, up to the first error: everything
that was returned, that error, and the reader afterwards. -/
def drive : List ℕ → ρ → List α × Option ε × ρ
  | [], r => ([], none, r)
  | n :: ns, r =>
      match read r n with
      | (c, none, r') => (c ++ (drive ns r').1, (drive ns r').2)
      | (c, some e, r') => (c, some e, r')

/-- A sequence of buffer lengths that has a nonempty buffer after every call. -/
def Fair (lens : ℕ → ℕ) : Prop := ∀ n, ∃ m, n ≤ m ∧ 0 < lens m

/-- `I s r` is an invariant by which the reader `r` delivers `s`: a call with
room for an element delivers one, unless nothing is left, and the end of the
stream is reported only when nothing is left. -/
def Drains (eof : ε) (I : List α → ρ → Prop) : Prop :=
  ∀ s r n, I s r →
    (∃ c s' r', read r n = (c, none, r') ∧ s = c ++ s' ∧ I s' r' ∧ (0 < n → c ≠ [])) ∨
    (∃ r', read r n = ([], some eof, r') ∧ s = [])

variable {read} {eof : ε} {I : List α → ρ → Prop}

theorem drive_cons_of_none {r : ρ} {n : ℕ} (h : (read r n).2.1 = none) (ns : List ℕ) :
    drive read (n :: ns) r =
      ((read r n).1 ++ (drive read ns (read r n).2.2).1, (drive read ns (read r n).2.2).2) := by
  rw [drive]
  rcases hr : read r n with ⟨c, _ | e, r'⟩
  · rfl
  · rw [hr] at h
    cases h

theorem drive_cons_of_some {r : ρ} {n : ℕ} {e : ε} (h : (read r n).2.1 = some e) (ns : List ℕ) :
    drive read (n :: ns) r = ((read r n).1, some e, (read r n).2.2) := by
  rw [drive]
  rcases hr : read r n with ⟨c, _ | e', r'⟩
  · rw [hr] at h
    cases h
  · rw [hr] at h
    rw [Option.some.inj h]

/-- Whatever the calls, what they return is a prefix of the stream, no error
other than the end is reported, and the end only after the whole stream. -/
theorem Drains.drive_initial (h : Drains read eof I) (ns : List ℕ) {s : List α} {r : ρ}
    (hr : I s r) :
    ((drive read ns r).2.1 = none ∧ (drive read ns r).1 <+: s) ∨
      ((drive read ns r).2.1 = some eof ∧ (drive read ns r).1 = s) := by
  induction ns generalizing s r with
  | nil => exact Or.inl ⟨rfl, List.nil_prefix⟩
  | cons n ns ih =>
      rcases h s r n hr with ⟨c, s', r', hread, rfl, hI, -⟩ | ⟨r', hread, rfl⟩
      · simp only [drive, hread]
        rcases ih hI with ⟨he, hp⟩ | ⟨he, hp⟩
        · exact Or.inl ⟨he, (List.prefix_append_right_inj c).mpr hp⟩
        · exact Or.inr ⟨he, by rw [hp]⟩
      · simp [drive, hread]

theorem Fair.tail {lens : ℕ → ℕ} (h : Fair lens) : Fair (fun i => lens (i + 1)) := by
  intro n
  obtain ⟨m, hm, hpos⟩ := h (n + 1)
  cases m with
  | zero => omega
  | succ m => exact ⟨m, by omega, hpos⟩

/-- The first `k + 1` calls are the first one and `k` calls of the rest of the
sequence. -/
theorem range_succ_map (lens : ℕ → ℕ) (k : ℕ) :
    (List.range (k + 1)).map lens = lens 0 :: (List.range k).map (fun i => lens (i + 1)) := by
  rw [List.range_succ_eq_map, List.map_cons, List.map_map]
  rfl

/-- Under a fair sequence of calls the whole stream comes out, followed by its
end. -/
theorem Drains.drive_all (h : Drains read eof I) {s : List α} {r : ρ} (hr : I s r)
    {lens : ℕ → ℕ} (hfair : Fair lens) :
    ∃ k r', drive read ((List.range k).map lens) r = (s, some eof, r') := by
  induction hlen : s.length using Nat.strongRecOn generalizing s r lens with
  | ind l ih =>
    obtain ⟨m, -, hm⟩ := hfair 0
    -- an inner induction on the distance to the next call with room
    induction m generalizing r lens with
    | zero =>
        rcases h s r (lens 0) hr with ⟨c, s', r', hread, rfl, hI, hc⟩ | ⟨r', hread, rfl⟩
        · have hlt : s'.length < l := by
            have := List.length_pos_iff.mpr (hc hm)
            simp only [List.length_append] at hlen
            omega
          obtain ⟨k, r'', hk⟩ := ih s'.length hlt hI hfair.tail rfl
          exact ⟨k + 1, r'', by simp [range_succ_map, drive, hread, hk]⟩
        · exact ⟨1, r', by simp [drive, hread]⟩
    | succ m ihm =>
        rcases h s r (lens 0) hr with ⟨c, s', r', hread, rfl, hI, -⟩ | ⟨r', hread, rfl⟩
        · rcases c with _ | ⟨x, xs⟩
          · obtain ⟨k, r'', hk⟩ := ihm (by simpa using hI) hfair.tail hm
            exact ⟨k + 1, r'', by simp [range_succ_map, drive, hread] at hk ⊢; simp [hk]⟩
          · have hlt : s'.length < l := by
              simp only [List.length_append, List.length_cons] at hlen
              omega
            obtain ⟨k, r'', hk⟩ := ih s'.length hlt hI hfair.tail rfl
            exact ⟨k + 1, r'', by simp [range_succ_map, drive, hread, hk]⟩
        · exact ⟨1, r', by simp [drive, hread]⟩

/-- Calls with one buffer of a fixed length get the whole stream, and its end,
as soon as there are more of them than elements. -/
theorem Drains.drive_replicate (h : Drains read eof I) {n : ℕ} (hn : 0 < n) (k : ℕ) {s : List α}
    {r : ρ} (hr : I s r) (hk : s.length < k) :
    ∃ r', drive read (List.replicate k n) r = (s, some eof, r') := by
  induction k generalizing s r with
  | zero => omega
  | succ k ih =>
      rcases h s r n hr with ⟨c, s', r', hread, rfl, hI, hc⟩ | ⟨r', hread, rfl⟩
      · have hlt : s'.length < k := by
          have := List.length_pos_iff.mpr (hc hn)
          simp only [List.length_append] at hk
          omega
        obtain ⟨r'', hr''⟩ := ih hI hlt
        exact ⟨r'', by simp [List.replicate_succ, drive, hread, hr'']⟩
      · exact ⟨r', by simp [List.replicate_succ, drive, hread]⟩

/-- The reader `r` delivers `s`: every sequence of calls gets a prefix of it,
with no error before its end, and every fair one gets all of it. -/
structure Delivers (read : ρ → ℕ → List α × Option ε × ρ) (eof : ε) (r : ρ) (s : List α) :
    Prop where
  pre : ∀ ns, ((drive read ns r).2.1 = none ∧ (drive read ns r).1 <+: s) ∨
    ((drive read ns r).2.1 = some eof ∧ (drive read ns r).1 = s)
  all : ∀ lens, Fair lens → ∃ k r', drive read ((List.range k).map lens) r = (s, some eof, r')

theorem Drains.delivers (h : Drains read eof I) {s : List α} {r : ρ} (hr : I s r) :
    Delivers read eof r s :=
  ⟨fun ns => h.drive_initial ns hr, fun _ hfair => h.drive_all hr hfair⟩

/-- `I s r` is an invariant by which the reader `r` releases no more than `s`:
what a call returns comes off the front, and if it reports the end of the
stream then nothing is left and `Q` holds. -/
def Guards (read : ρ → ℕ → List α × Option ε × ρ) (eof : ε) (Q : Prop)
    (I : List α → ρ → Prop) : Prop :=
  ∀ s r n, I s r →
    ((read r n).2.1 = none → ∃ s', s = (read r n).1 ++ s' ∧ I s' (read r n).2.2) ∧
    ((read r n).2.1 ≠ none → (read r n).1 = []) ∧
    ((read r n).2.1 = some eof → s = [] ∧ Q)

/-- Whatever the calls, what they return is a prefix of the stream, and the end
is reported only after the whole stream. -/
theorem Guards.drive_initial {Q : Prop} (h : Guards read eof Q I) (ns : List ℕ) {s : List α}
    {r : ρ} (hr : I s r) :
    (drive read ns r).1 <+: s ∧ ((drive read ns r).2.1 = some eof → (drive read ns r).1 = s ∧ Q) := by
  induction ns generalizing s r with
  | nil => exact ⟨List.nil_prefix, by simp [drive]⟩
  | cons n ns ih =>
      obtain ⟨hnone, herr, heof⟩ := h s r n hr
      rcases hread : read r n with ⟨c, _ | e, r'⟩
      · rw [hread] at hnone
        obtain ⟨s', rfl, hI⟩ := hnone rfl
        obtain ⟨hp, hq⟩ := ih hI
        simp only [drive, hread]
        refine ⟨(List.prefix_append_right_inj c).mpr hp, fun he => ?_⟩
        obtain ⟨hs, hQ⟩ := hq he
        exact ⟨by rw [hs], hQ⟩
      · rw [hread] at herr heof
        have hc : c = [] := herr (by simp)
        simp only [drive, hread, hc]
        refine ⟨List.nil_prefix, fun he => ?_⟩
        obtain ⟨hs, hQ⟩ := heof he
        exact ⟨hs.symm, hQ⟩

end Drive

/-! ### A source behind a reader

A reader that hands on what a source delivers may use buffers of its own, as long as
they are not empty. -/

section Relay

variable {ρ ε : Type} {read : ρ → ℕ → List α × Option ε × ρ} {src : ρ → Source α} {wrap : ReadErr → ε}
  {I : ρ → (ℕ → ℕ) → Prop}

/-- As long as a source delivers no error it gets smaller. -/
theorem Source.read_decreases {s : Source α} {n : ℕ} (hn : 0 < n) (h : (s.read n).2.1 = none) :
    ((s.read n).2.2.pieces.map (fun c => c.length + 1)).sum <
      (s.pieces.map (fun c => c.length + 1)).sum := by
  unfold Source.read at h ⊢
  cases hp : s.pieces with
  | nil => simp [hp] at h
  | cons c cs =>
      by_cases hc : c.length ≤ n
      · simp only [hc, if_true, List.map_cons, List.sum_cons]
        omega
      · simp only [hc, if_false, List.map_cons, List.sum_cons, List.length_drop]
        omega

/-- `I r lens` is an invariant by which the reader `r` hands on its source if it is
called with buffers of these lengths. -/
def Relays (read : ρ → ℕ → List α × Option ε × ρ) (src : ρ → Source α) (wrap : ReadErr → ε)
    (I : ρ → (ℕ → ℕ) → Prop) : Prop :=
  ∀ r lens, I r lens → ∃ m r', 0 < m ∧
    read r (lens 0) = (((src r).read m).1, ((src r).read m).2.1.map wrap, r') ∧
    (((src r).read m).2.1 = none → src r' = ((src r).read m).2.2 ∧ I r' fun i => lens (i + 1))

/-- The calls get all that the source holds, and then its error. -/
theorem Relays.drive_all (h : Relays read src wrap I) {r : ρ} {lens : ℕ → ℕ} (hI : I r lens) :
    ∃ k r', drive read ((List.range k).map lens) r = ((src r).rest, some (wrap (src r).final), r') := by
  induction hsize : ((src r).pieces.map (fun c => c.length + 1)).sum using Nat.strongRecOn
    generalizing r lens with
  | ind size ih =>
    obtain ⟨m, r', hm, hread, hnext⟩ := h r lens hI
    have hrest := (src r).rest_eq_read m
    cases herr : ((src r).read m).2.1 with
    | some e =>
        obtain ⟨rfl, hend⟩ := Source.read_err herr
        rw [Source.rest, Source.rest, hend, List.flatten_nil, List.append_nil] at hrest
        refine ⟨1, r', ?_⟩
        simp [drive, hread, herr, Source.rest, hrest]
    | none =>
        obtain ⟨hsrc, hI'⟩ := hnext herr
        have hlt := Source.read_decreases hm herr
        rw [← hsrc, hsize] at hlt
        obtain ⟨k, r'', hk⟩ := ih _ hlt hI' rfl
        refine ⟨k + 1, r'', ?_⟩
        rw [range_succ_map, drive, hread, herr]
        simp only [Option.map_none, hk, hsrc, Source.read_final]
        rw [← hrest]

end Relay

end CloudBackup.ByteStream
