import Mathlib.Algebra.Order.Ring.Int
import Mathlib.Algebra.Order.Ring.Nat
import Mathlib.Data.List.Infix
import Mathlib.Tactic.Common

/-!
The operator `LIKE` of SQLite. It compares letters of ASCII without regard to their
case. A text that has no special character makes a pattern together with a final `%`:
it finds what starts with the text, up to case (`matchTokens_chars_any`).
-/

namespace CloudBackup.SqlLike

inductive Token
  | any
  | one
  | char (c : Char)
  deriving DecidableEq, Repr

def matchTokens : List Token → List Char → Bool
  | [], s => s = []
  | .any :: pattern, s => s.tails.any (matchTokens pattern)
  | .one :: pattern, s =>
      match s with
      | [] => false
      | _ :: s => matchTokens pattern s
  | .char c :: pattern, s =>
      match s with
      | [] => false
      | d :: s => c.toLower = d.toLower && matchTokens pattern s

def plainToken (c : Char) : Token := if c = '%' then .any else if c = '_' then .one else .char c

/-- `s LIKE pattern`. -/
def likePlain (pattern s : List Char) : Bool := matchTokens (pattern.map plainToken) s

def foldCase (s : List Char) : List Char := s.map Char.toLower

theorem matchTokens_any (s : List Char) : matchTokens [.any] s = true := by
  have hend : [] ∈ s.tails := by
    rw [List.mem_tails]
    exact List.nil_suffix
  simp only [matchTokens, List.any_eq_true, decide_eq_true_eq]
  exact ⟨[], hend, rfl⟩

theorem matchTokens_chars_any (s t : List Char) :
    matchTokens (s.map .char ++ [.any]) t = true ↔ foldCase s <+: foldCase t := by
  induction s generalizing t with
  | nil => simp [foldCase, matchTokens_any]
  | cons c s ih =>
      cases t with
      | nil => simp [matchTokens, foldCase]
      | cons d t =>
          have hrest := ih t
          rw [foldCase, foldCase] at hrest
          simp only [List.map_cons, List.cons_append, matchTokens, Bool.and_eq_true, decide_eq_true_eq,
            foldCase, List.cons_prefix_cons, hrest]

end CloudBackup.SqlLike
