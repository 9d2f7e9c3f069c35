import CloudBackup.Library.SqlLike

/-!
The operator `LIKE` of SQLite on texts that may be any bytes. SQLite reads a text as
UTF-8, but it refuses nothing: bytes that no character starts with stand for themselves,
and a sequence that is no character becomes the one that stands for errors. A byte of
ASCII is always read as itself (`readChars_split`).

A text is a list of characters below 256, one for each byte. What `LIKE` accepts is
`StandsFor`: each character of the pattern stands for a part of the text. With `ESCAPE`,
the pattern that a text with all its special bytes escaped makes together with a final `%`
finds what starts with the characters of the text, up to the case of letters
(`likeEscape_escape`).
-/

namespace CloudBackup.SqlLike

/-! ### Reading characters -/

def leadValue (b : ℕ) : ℕ :=
  if b < 0xe0 then b - 0xc0
  else if b < 0xf0 then b - 0xe0
  else if b < 0xf8 then b - 0xf0
  else if b < 0xfc then b - 0xf8
  else if b < 0xfe then b - 0xfc
  else 0

def isContinuation (b : ℕ) : Bool := b / 64 = 2

/-- The end of a sequence: what is too small, half of a pair, or no character at all
becomes a replacement. -/
def checkedChar (c : ℕ) : ℕ := if c < 0x80 ∨ c / 2048 = 27 ∨ c / 2 = 0x7fff then 0xfffd else c

def readCharsFrom : Option ℕ → List ℕ → List ℕ
  | none, [] => []
  | some c, [] => [checkedChar c]
  | none, b :: bs => if b < 0xc0 then b :: readCharsFrom none bs else readCharsFrom (some (leadValue b)) bs
  | some c, b :: bs =>
      if isContinuation b then readCharsFrom (some ((c * 64 + b % 64) % 2 ^ 32)) bs
      else checkedChar c ::
        if b < 0xc0 then b :: readCharsFrom none bs else readCharsFrom (some (leadValue b)) bs

def readChars (s : List Char) : List ℕ := readCharsFrom none (s.map Char.toNat)

/-! ### Comparing -/

def lowerCode (c : ℕ) : ℕ := if 65 ≤ c ∧ c ≤ 90 then c + 32 else c

def matchChars : List ℕ → List ℕ → Bool
  | [], s => s = []
  | p :: pattern, s =>
      if p = 37 then s.tails.any (matchChars pattern)
      else (s.head?.any fun d => lowerCode p = lowerCode d ∨ p = 95) && matchChars pattern s.tail

/-- `s LIKE pattern`. -/
def likeBytes (pattern s : List Char) : Bool := matchChars (readChars pattern) (readChars s)

/-- The characters of a pattern stand for a text: `%` for any text, `_` for one character,
and others for themselves, letters in both cases. -/
inductive StandsFor : List ℕ → List ℕ → Prop
  | nil : StandsFor [] []
  | any (t : List ℕ) {pattern s : List ℕ} (h : StandsFor pattern s) : StandsFor (37 :: pattern) (t ++ s)
  | char {p d : ℕ} (hp : p ≠ 37) (hd : lowerCode p = lowerCode d ∨ p = 95) {pattern s : List ℕ}
      (h : StandsFor pattern s) : StandsFor (p :: pattern) (d :: s)

theorem standsFor_nil_iff {s : List ℕ} : StandsFor [] s ↔ s = [] := by
  constructor
  · intro h
    cases h
    rfl
  · rintro rfl
    exact .nil

theorem standsFor_any_cons_iff {pattern s : List ℕ} :
    StandsFor (37 :: pattern) s ↔ ∃ u, u <:+ s ∧ StandsFor pattern u := by
  constructor
  · intro h
    cases h with
    | any t h => exact ⟨_, List.suffix_append t _, h⟩
    | char hp => exact absurd rfl hp
  · rintro ⟨u, ⟨t, rfl⟩, hu⟩
    exact .any t hu

theorem standsFor_char_cons_iff {p : ℕ} (hp : p ≠ 37) {pattern s : List ℕ} : StandsFor (p :: pattern) s ↔
    ∃ d s', s = d :: s' ∧ (lowerCode p = lowerCode d ∨ p = 95) ∧ StandsFor pattern s' := by
  constructor
  · intro h
    cases h with
    | any => exact absurd rfl hp
    | char _ hd h => exact ⟨_, _, rfl, hd, h⟩
  · rintro ⟨d, s', rfl, hd, h⟩
    exact .char hp hd h

theorem matchChars_iff (pattern s : List ℕ) : matchChars pattern s = true ↔ StandsFor pattern s := by
  induction pattern generalizing s with
  | nil => rw [matchChars, decide_eq_true_eq, standsFor_nil_iff]
  | cons p pattern ih =>
      rw [matchChars]
      split
      · rename_i hp
        subst hp
        simp only [List.any_eq_true, List.mem_tails, ih, standsFor_any_cons_iff]
      · rename_i hp
        rw [standsFor_char_cons_iff hp]
        cases s with
        | nil => simp
        | cons d s =>
            simp only [Bool.and_eq_true, List.head?_cons, Option.any_some, decide_eq_true_eq, List.tail_cons, ih]
            constructor
            · rintro ⟨hd, h⟩
              exact ⟨d, s, rfl, hd, h⟩
            · rintro ⟨_, _, heq, hd, h⟩
              obtain ⟨rfl, rfl⟩ := List.cons.inj heq
              exact ⟨hd, h⟩

theorem standsFor_self (s : List ℕ) : StandsFor s s := by
  induction s with
  | nil => exact .nil
  | cons p s ih =>
      by_cases hp : p = 37
      · subst hp
        exact .any [37] ih
      · exact .char hp (.inl rfl) ih

theorem standsFor_any_iff {pattern s : List ℕ} :
    StandsFor (pattern ++ [37]) s ↔ ∃ t, t <+: s ∧ StandsFor pattern t := by
  constructor
  · intro h
    generalize hp : pattern ++ [37] = pattern' at h
    induction h generalizing pattern with
    | nil => simp at hp
    | any t h ih =>
        cases pattern with
        | nil => exact ⟨[], List.nil_prefix, .nil⟩
        | cons p pattern =>
            obtain ⟨rfl, hrest⟩ := List.cons.inj hp
            obtain ⟨t', ht', hstands⟩ := ih hrest
            exact ⟨t ++ t', (List.prefix_append_right_inj t).mpr ht', .any t hstands⟩
    | char hp' hd h ih =>
        cases pattern with
        | nil =>
            obtain ⟨rfl, -⟩ := List.cons.inj hp
            exact absurd rfl hp'
        | cons p pattern =>
            obtain ⟨rfl, hrest⟩ := List.cons.inj hp
            obtain ⟨t', ht', hstands⟩ := ih hrest
            exact ⟨_, List.cons_prefix_cons.mpr ⟨rfl, ht'⟩, .char hp' hd hstands⟩
  · rintro ⟨t, ⟨u, rfl⟩, h⟩
    induction h with
    | nil => simpa using StandsFor.any u .nil
    | any t h ih =>
        rw [List.append_assoc]
        exact .any t ih
    | char hp hd h ih => exact .char hp hd ih

/-! ### Bytes of ASCII -/

theorem checkedChar_ge (n : ℕ) : 0x80 ≤ checkedChar n := by
  unfold checkedChar
  split <;> omega

theorem readCharsFrom_split (pending : Option ℕ) (s : List ℕ) {b : ℕ} (hb : b < 0x80) (t : List ℕ) :
    readCharsFrom pending (s ++ b :: t) = readCharsFrom pending s ++ b :: readCharsFrom none t := by
  have hlead : b < 0xc0 := by omega
  have hnot : isContinuation b = false := by
    rw [isContinuation, decide_eq_false_iff_not]
    omega
  induction s generalizing pending with
  | nil => cases pending <;> simp [readCharsFrom, hlead, hnot]
  | cons c s ih =>
      cases pending with
      | none =>
          simp only [List.cons_append, readCharsFrom]
          split
          · rw [ih, List.cons_append]
          · exact ih _
      | some p =>
          simp only [List.cons_append, readCharsFrom]
          split
          · exact ih _
          · split
            · rw [ih, List.cons_append, List.cons_append]
            · rw [ih, List.cons_append]

/-- A byte of ASCII is read as itself, and keeps what is before it and what is after it
apart. -/
theorem readChars_split (s : List Char) {b : Char} (hb : b.toNat < 0x80) (t : List Char) :
    readChars (s ++ b :: t) = readChars s ++ b.toNat :: readChars t := by
  rw [readChars, List.map_append, List.map_cons, readCharsFrom_split none _ hb]
  rfl

theorem readChars_ascii {s : List Char} (h : ∀ c ∈ s, c.toNat < 0x80) : readChars s = s.map Char.toNat := by
  induction s with
  | nil => rfl
  | cons c s ih =>
      have hsplit := readChars_split [] (h c List.mem_cons_self) s
      rw [List.nil_append] at hsplit
      rw [hsplit, ih fun d hd => h d (List.mem_cons_of_mem c hd)]
      rfl

theorem head_readChars {c : Char} {s : List Char} {b : ℕ} (hb : b < 0x80)
    (h : (readChars (c :: s)).head? = some b) : c.toNat = b := by
  have hchecked : ∀ n, checkedChar n ≠ b := fun n hn => by
    have hge := checkedChar_ge n
    omega
  have hpending : ∀ (s : List ℕ) (n : ℕ), (readCharsFrom (some n) s).head? ≠ some b := by
    intro s
    induction s with
    | nil =>
        intro n hn
        exact hchecked n (Option.some.inj hn)
    | cons d s ih =>
        intro n hn
        rw [readCharsFrom] at hn
        split at hn
        · exact ih _ hn
        · exact hchecked n (Option.some.inj hn)
  rw [readChars, List.map_cons, readCharsFrom] at h
  split at h
  · exact Option.some.inj h
  · exact absurd h (hpending _ _)

/-! ### Escaping -/

inductive Element
  | any
  | one
  | char (c : ℕ)
  deriving DecidableEq, Repr

def elements (esc : ℕ) : List ℕ → Option (List Element)
  | [] => some []
  | c :: pattern =>
      if c = 37 then (elements esc pattern).map (.any :: ·)
      else if c = esc then
        match pattern with
        | [] => none
        | d :: pattern => (elements esc pattern).map (.char d :: ·)
      else if c = 95 then (elements esc pattern).map (.one :: ·)
      else (elements esc pattern).map (.char c :: ·)

def matchElements : List Element → List ℕ → Bool
  | [], s => s = []
  | .any :: pattern, s => s.tails.any (matchElements pattern)
  | .one :: pattern, s => !s.isEmpty && matchElements pattern s.tail
  | .char c :: pattern, s => (s.head?.any fun d => lowerCode c = lowerCode d) && matchElements pattern s.tail

/-- `s LIKE pattern ESCAPE esc`. -/
def likeEscape (esc : Char) (pattern s : List Char) : Bool :=
  (elements esc.toNat (readChars pattern)).any (matchElements · (readChars s))

def escape (esc : Char) (s : List Char) : List Char :=
  s.flatMap fun c => if c = esc ∨ c = '%' ∨ c = '_' then [esc, c] else [c]

def foldChars (s : List Char) : List ℕ := (readChars s).map lowerCode

theorem escape_append (esc : Char) (s t : List Char) : escape esc (s ++ t) = escape esc s ++ escape esc t :=
  List.flatMap_append

/-- What is below a directory in the bytes is below it in the characters. -/
theorem foldChars_prefix {s t : List Char} {b : Char} (hb : b.toNat < 0x80) (h : s ++ [b] <+: t) :
    foldChars (s ++ [b]) <+: foldChars t := by
  obtain ⟨rest, rfl⟩ := h
  rw [foldChars, foldChars, List.append_assoc, List.singleton_append, readChars_split s hb, readChars_split s hb rest]
  exact (show readChars s ++ [b.toNat] <+: readChars s ++ b.toNat :: readChars rest from
    ⟨readChars rest, by simp⟩).map lowerCode

theorem matchElements_chars_any (s t : List ℕ) :
    matchElements (s.map .char ++ [.any]) t = true ↔ s.map lowerCode <+: t.map lowerCode := by
  induction s generalizing t with
  | nil =>
      have hend : [] ∈ t.tails := (List.mem_tails _ _).mpr List.nil_suffix
      simp only [List.map_nil, List.nil_append, matchElements, List.any_eq_true, decide_eq_true_eq,
        List.nil_prefix, iff_true]
      exact ⟨[], hend, rfl⟩
  | cons c s ih =>
      cases t with
      | nil => simp [matchElements]
      | cons d t =>
          simp only [List.map_cons, List.cons_append, matchElements, List.head?_cons, Option.any_some, List.tail_cons,
            Bool.and_eq_true, decide_eq_true_eq, List.cons_prefix_cons, ih]

theorem elements_char_cons {esc c : ℕ} (hany : c ≠ 37) (hesc : c ≠ esc) (hone : c ≠ 95) (pattern : List ℕ) :
    elements esc (c :: pattern) = (elements esc pattern).map (.char c :: ·) := by
  -- the equations of `elements` also look at what follows an escape character
  cases pattern with
  | nil => simp [elements, hany, hesc, hone]
  | cons d pattern => rw [elements, if_neg hany, if_neg hesc, if_neg hone]

theorem elements_esc_cons {esc : ℕ} (hesc : esc ≠ 37) (c : ℕ) (pattern : List ℕ) :
    elements esc (esc :: c :: pattern) = (elements esc pattern).map (.char c :: ·) := by
  rw [elements, if_neg hesc, if_pos rfl]

theorem elements_high_append {esc : ℕ} (hesc : esc < 0x80) {l : List ℕ} (h : ∀ c ∈ l, 0x80 ≤ c) (pattern : List ℕ) :
    elements esc (l ++ pattern) = (elements esc pattern).map (l.map .char ++ ·) := by
  induction l with
  | nil => simp
  | cons c l ih =>
      have hc : 0x80 ≤ c := h c List.mem_cons_self
      rw [List.cons_append, elements_char_cons (by omega) (by omega) (by omega),
        ih fun d hd => h d (List.mem_cons_of_mem c hd), Option.map_map]
      rfl

theorem readCharsFrom_high (pending : Option ℕ) {b : ℕ} (hb : 0x80 ≤ b) : ∃ out pending',
    (∀ c ∈ out, 0x80 ≤ c) ∧ ∀ t, readCharsFrom pending (b :: t) = out ++ readCharsFrom pending' t := by
  cases pending with
  | none =>
      by_cases hlead : b < 0xc0
      · exact ⟨[b], none, by simpa using hb, fun t => by rw [readCharsFrom, if_pos hlead]; rfl⟩
      · exact ⟨[], some (leadValue b), by simp, fun t => by rw [readCharsFrom, if_neg hlead]; rfl⟩
  | some n =>
      by_cases hcont : isContinuation b = true
      · exact ⟨[], some ((n * 64 + b % 64) % 2 ^ 32), by simp, fun t => by rw [readCharsFrom, if_pos hcont]; rfl⟩
      · by_cases hlead : b < 0xc0
        · refine ⟨[checkedChar n, b], none, by simp [checkedChar_ge, hb], fun t => ?_⟩
          rw [readCharsFrom, if_neg hcont, if_pos hlead]
          rfl
        · refine ⟨[checkedChar n], some (leadValue b), by simp [checkedChar_ge], fun t => ?_⟩
          rw [readCharsFrom, if_neg hcont, if_neg hlead]
          rfl

theorem readCharsFrom_low (pending : Option ℕ) {b : ℕ} (hb : b < 0x80) (t : List ℕ) :
    readCharsFrom pending (b :: t) = readCharsFrom pending [] ++ b :: readCharsFrom none t :=
  readCharsFrom_split pending [] hb t

theorem readCharsFrom_nil_ge (pending : Option ℕ) : ∀ c ∈ readCharsFrom pending [], 0x80 ≤ c := by
  cases pending with
  | none => simp [readCharsFrom]
  | some n => simpa [readCharsFrom] using checkedChar_ge n

section

variable {esc : Char} (hesc : esc.toNat < 0x80) (hany : esc ≠ '%')
include hesc hany

/-- An escaped text stands for itself: no sequence of bytes is read as one that has a meaning. -/
theorem elements_readCharsFrom_escape (s : List Char) (pending : Option ℕ) :
    elements esc.toNat (readCharsFrom pending ((escape esc s ++ ['%']).map Char.toNat)) =
      some ((readCharsFrom pending (s.map Char.toNat)).map .char ++ [.any]) := by
  have hne : ∀ {c d : Char}, c ≠ d → c.toNat ≠ d.toNat := fun h heq => h (Char.toNat_inj.mp heq)
  induction s generalizing pending with
  | nil =>
      change elements esc.toNat (readCharsFrom pending [37]) = _
      rw [readCharsFrom_low pending (by decide), elements_high_append hesc (readCharsFrom_nil_ge pending)]
      simp [elements, readCharsFrom]
  | cons c s ih =>
      rw [escape, List.flatMap_cons, ← escape, List.map_cons]
      by_cases hc : c.toNat < 0x80
      · rw [readCharsFrom_low pending hc]
        by_cases hspecial : c = esc ∨ c = '%' ∨ c = '_'
        · simp only [if_pos hspecial, List.cons_append, List.nil_append, List.map_cons]
          rw [readCharsFrom_low pending hesc, readCharsFrom_low none hc,
            elements_high_append hesc (readCharsFrom_nil_ge pending)]
          simp only [readCharsFrom, List.nil_append]
          rw [elements_esc_cons (hne hany), ih none]
          simp
        · simp only [if_neg hspecial, List.cons_append, List.nil_append, List.map_cons]
          simp only [not_or] at hspecial
          rw [readCharsFrom_low pending hc, elements_high_append hesc (readCharsFrom_nil_ge pending),
            elements_char_cons (hne hspecial.2.1) (hne hspecial.1) (hne hspecial.2.2), ih none]
          simp
      · obtain ⟨out, pending', hout, hread⟩ := readCharsFrom_high pending (not_lt.mp hc)
        have hplain : ¬ (c = esc ∨ c = '%' ∨ c = '_') := by
          rintro (rfl | rfl | rfl)
          · exact hc hesc
          · exact hc (by decide)
          · exact hc (by decide)
        simp only [if_neg hplain, List.cons_append, List.nil_append, List.map_cons]
        rw [hread, hread, elements_high_append hesc hout, ih pending']
        simp

theorem likeEscape_escape (s t : List Char) :
    likeEscape esc (escape esc s ++ ['%']) t = true ↔ foldChars s <+: foldChars t := by
  have helements : elements esc.toNat (readChars (escape esc s ++ ['%'])) = some ((readChars s).map .char ++ [.any]) :=
    elements_readCharsFrom_escape hesc hany s none
  rw [likeEscape, helements, Option.any_some, matchElements_chars_any, foldChars, foldChars]

end

end CloudBackup.SqlLike
