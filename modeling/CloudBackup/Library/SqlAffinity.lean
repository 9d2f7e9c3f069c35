import Mathlib.Data.List.Infix
import Mathlib.Tactic.Common

/-!
What a column of SQLite keeps of a text. That goes by the type the column was declared
with: by its affinity. A column without a type that SQLite knows is numeric, and keeps a
text that reads as a number as this number. How a number is read is a parameter. So two
texts are kept as one value if they are the same, or read as the same number
(`stored_eq_iff`).
-/

namespace CloudBackup.SqlAffinity

inductive Affinity
  | integer
  | text
  | blob
  | real
  | numeric
  deriving DecidableEq, Repr

def affinityOf (declared : List Char) : Affinity :=
  let names (part : String) : Bool := decide (part.toList <:+: declared.map Char.toUpper)
  if names "INT" then .integer
  else if names "CHAR" || names "CLOB" || names "TEXT" then .text
  else if names "BLOB" || declared = [] then .blob
  else if names "REAL" || names "FLOA" || names "DOUB" then .real
  else .numeric

inductive Value (ν : Type)
  | text (s : List Char)
  | number (n : ν)
  deriving DecidableEq, Repr

section

variable {ν : Type} (toNumber : List Char → Option ν)

def stored (affinity : Affinity) (s : List Char) : Value ν :=
  match affinity with
  | .text | .blob => .text s
  | .integer | .real | .numeric =>
      match toNumber s with
      | some n => .number n
      | none => .text s

theorem stored_eq_iff (s t : List Char) : stored toNumber .numeric s = stored toNumber .numeric t ↔
    s = t ∨ ∃ n, toNumber s = some n ∧ toNumber t = some n := by
  constructor
  · intro h
    unfold stored at h
    dsimp only at h
    split at h
    · rename_i n hs
      split at h
      · rename_i m ht
        cases h
        exact .inr ⟨_, hs, ht⟩
      · cases h
    · split at h
      · cases h
      · exact .inl (Value.text.inj h)
  · rintro (rfl | ⟨n, hs, ht⟩)
    · rfl
    · simp only [stored, hs, ht]

end

end CloudBackup.SqlAffinity
