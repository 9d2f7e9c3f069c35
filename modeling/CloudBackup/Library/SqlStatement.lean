import Mathlib.Algebra.Order.Ring.Nat
import Mathlib.Tactic.Common

/-!
How large a statement SQLite takes. Its parser counts the parameters, and it refuses an
expression that is too deep. Only the shape of an expression matters for that. A chain of
`OR` leans to the left, so that each further operand makes it deeper by one
(`depth_joinedBy_replicate`).
-/

namespace CloudBackup.SqlStatement

/-- The shape of an expression, as the parser builds it. A name with its table is an
operator between two names. -/
inductive Expr
  | name
  | parameter
  | binary (left right : Expr)
  | like (left pattern esc : Expr)
  | inParameters (left : Expr) (n : ℕ)
  deriving DecidableEq, Repr

namespace Expr

def depth : Expr → ℕ
  | .name => 1
  | .parameter => 1
  | .binary left right => max left.depth right.depth + 1
  | .like left pattern esc => max left.depth (max pattern.depth esc.depth) + 1
  | .inParameters left _ => max left.depth 1 + 1

def parameters : Expr → ℕ
  | .name => 0
  | .parameter => 1
  | .binary left right => left.parameters + right.parameters
  | .like left pattern esc => left.parameters + pattern.parameters + esc.parameters
  | .inParameters left n => left.parameters + n

def joinedBy : List Expr → Expr
  | [] => .name
  | e :: es => es.foldl .binary e

end Expr

/-- `SQLITE_MAX_EXPR_DEPTH` and `SQLITE_MAX_VARIABLE_NUMBER`. -/
def maxExprDepth : ℕ := 1000

def maxVariableNumber : ℕ := 32766

inductive StatementErr
  | tooDeep
  | tooManyVariables
  deriving DecidableEq, Repr

def prepare (condition : Expr) : Except StatementErr Unit :=
  if maxExprDepth < condition.depth then .error .tooDeep
  else if maxVariableNumber < condition.parameters then .error .tooManyVariables
  else .ok ()

theorem prepare_ok_iff {condition : Expr} : prepare condition = .ok () ↔
    condition.depth ≤ maxExprDepth ∧ condition.parameters ≤ maxVariableNumber := by
  unfold prepare
  split
  · rename_i hdepth
    simp [hdepth]
  · rename_i hdepth
    split
    · rename_i hparameters
      simp [hparameters]
    · rename_i hparameters
      exact iff_of_true rfl ⟨not_lt.mp hdepth, not_lt.mp hparameters⟩

/-- Equal operands: the first one is as deep as it is, and each other one adds a level. -/
theorem depth_joinedBy_replicate (n : ℕ) (e : Expr) :
    (Expr.joinedBy (List.replicate (n + 1) e)).depth = e.depth + n := by
  have hchain : ∀ (n : ℕ) (chain : Expr), e.depth ≤ chain.depth →
      ((List.replicate n e).foldl .binary chain).depth = chain.depth + n := by
    intro n
    induction n with
    | zero => exact fun chain _ => rfl
    | succ n ih =>
        intro chain hchain
        have hbinary : (Expr.binary chain e).depth = chain.depth + 1 := by
          rw [Expr.depth, max_eq_left hchain]
        rw [List.replicate_succ, List.foldl_cons, ih _ (by omega), hbinary]
        omega
  exact hchain n e le_rfl

theorem parameters_joinedBy_replicate (n : ℕ) (e : Expr) :
    (Expr.joinedBy (List.replicate (n + 1) e)).parameters = (n + 1) * e.parameters := by
  have hchain : ∀ (n : ℕ) (chain : Expr),
      ((List.replicate n e).foldl .binary chain).parameters = chain.parameters + n * e.parameters := by
    intro n
    induction n with
    | zero => simp
    | succ n ih =>
        intro chain
        rw [List.replicate_succ, List.foldl_cons, ih, Expr.parameters, Nat.succ_mul]
        omega
  rw [List.replicate_succ, Expr.joinedBy, hchain, Nat.succ_mul, add_comm]

end CloudBackup.SqlStatement
