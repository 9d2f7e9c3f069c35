import Mathlib.Algebra.Order.Ring.Nat
import Mathlib.Data.List.Basic
import Mathlib.Tactic.Common

/-!
Letter case as package `strings` of Go has it. `ToLower` takes every character to its
lower case, and `EqualFold` compares up to simple case folding. They do not agree, not even
on the letters of ASCII: the dotted capital I has the lower case `i` but folds to itself,
and the long s folds to `s` but is in lower case already. The Kelvin sign is a `k` for both.

What the tables of Unicode say of all other characters is left open; it is enough that a
character beyond ASCII stays beyond ASCII.
-/

namespace CloudBackup.Casing

def isAscii (c : Char) : Bool := c.toNat < 128

def kelvinSign : Char := '\u212a'

def dottedCapitalI : Char := '\u0130'

def longS : Char := '\u017f'

/-- The entries for characters beyond ASCII, these three apart. -/
structure Tables where
  lower : Char → Char
  fold : Char → Char
  lower_beyond : ∀ c, isAscii c = false → isAscii (lower c) = false
  fold_beyond : ∀ c, isAscii c = false → isAscii (fold c) = false

def Tables.plain : Tables := ⟨id, id, fun _ h => h, fun _ h => h⟩

variable (u : Tables)

/-- `unicode.ToLower`. -/
def lowerChar (c : Char) : Char :=
  if isAscii c then c.toLower
  else if c = kelvinSign then 'k'
  else if c = dottedCapitalI then 'i'
  else u.lower c

def foldChar (c : Char) : Char :=
  if isAscii c then c.toLower
  else if c = kelvinSign then 'k'
  else if c = longS then 's'
  else u.fold c

def toLower (s : List Char) : List Char := s.map (lowerChar u)

def equalFold (s t : List Char) : Bool := s.map (foldChar u) = t.map (foldChar u)

variable {u}

theorem equalFold_iff {s t : List Char} : equalFold u s t = true ↔ s.map (foldChar u) = t.map (foldChar u) := by
  rw [equalFold, decide_eq_true_iff]

@[simp] theorem equalFold_self (s : List Char) : equalFold u s s = true := equalFold_iff.mpr rfl

theorem equalFold_comm (s t : List Char) : equalFold u s t = equalFold u t s := by
  simp only [equalFold, eq_comm]

theorem equalFold_congr {s t : List Char} (h : equalFold u s t = true) (r : List Char) :
    equalFold u s r = equalFold u t r := by
  simp only [equalFold, equalFold_iff.mp h]

theorem ascii_induction {P : Char → Prop} (h : ∀ n < 128, P (Char.ofNat n)) {c : Char} (hc : isAscii c = true) :
    P c := by
  have := h c.toNat (of_decide_eq_true hc)
  rwa [Char.ofNat_toNat] at this

theorem isAscii_toLower {c : Char} (hc : isAscii c = true) : isAscii c.toLower = true :=
  ascii_induction (P := fun c => isAscii c.toLower = true) (by decide) hc

theorem toLower_toLower {c : Char} (hc : isAscii c = true) : c.toLower.toLower = c.toLower :=
  ascii_induction (P := fun c => c.toLower.toLower = c.toLower) (by decide) hc

theorem foldChar_ascii {c : Char} (hc : isAscii c = true) : foldChar u c = c.toLower := if_pos hc

theorem isAscii_foldChar_dottedCapitalI : isAscii (foldChar u dottedCapitalI) = false := by
  rw [foldChar, if_neg (by decide), if_neg (by decide), if_neg (by decide)]
  exact u.fold_beyond _ (by decide)

/-- The dotted capital I apart, what comes to a character of ASCII in lower case folds like
it. -/
theorem foldChar_of_lowerChar {c l : Char} (hl : isAscii l = true) (hc : c ≠ dottedCapitalI)
    (h : lowerChar u c = l) : foldChar u c = foldChar u l := by
  unfold lowerChar at h
  split at h
  · rename_i hascii
    rw [← h, foldChar_ascii hascii, foldChar_ascii (isAscii_toLower hascii), toLower_toLower hascii]
  · rename_i hbeyond
    split at h
    · rename_i hk
      rw [← h, hk]
      rfl
    · have hlower := u.lower_beyond c (by simpa using hbeyond)
      rw [h, hl] at hlower
      cases hlower

theorem equalFold_of_toLower {s t : List Char} (ht : t.all isAscii = true) (hs : dottedCapitalI ∉ s)
    (h : toLower u s = t) : equalFold u s t = true := by
  rw [equalFold_iff, ← h, toLower, List.map_map]
  refine List.map_congr_left fun c hc => ?_
  have hmem : lowerChar u c ∈ t := h ▸ List.mem_map_of_mem hc
  exact foldChar_of_lowerChar (List.all_eq_true.mp ht _ hmem) (fun heq => hs (heq ▸ hc)) rfl

/-- With a dotted capital I in it, a string is none of ASCII in another case. -/
theorem equalFold_of_dottedCapitalI {s t : List Char} (ht : t.all isAscii = true) (hs : dottedCapitalI ∈ s) :
    equalFold u s t = false := by
  rw [Bool.eq_false_iff, Ne, equalFold_iff]
  intro h
  have hmem : foldChar u dottedCapitalI ∈ t.map (foldChar u) := h ▸ List.mem_map_of_mem hs
  obtain ⟨c, hc, heq⟩ := List.mem_map.mp hmem
  have hascii : isAscii c = true := List.all_eq_true.mp ht c hc
  have hfold : isAscii (foldChar u c) = true := foldChar_ascii (u := u) hascii ▸ isAscii_toLower hascii
  rw [heq, isAscii_foldChar_dottedCapitalI] at hfold
  cases hfold

theorem length_toLower (s : List Char) : (toLower u s).length = s.length := List.length_map _

theorem length_eq_of_equalFold {s t : List Char} (h : equalFold u s t = true) : s.length = t.length := by
  have := congrArg List.length (equalFold_iff.mp h)
  rwa [List.length_map, List.length_map] at this

end CloudBackup.Casing
