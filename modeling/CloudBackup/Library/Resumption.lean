import Mathlib.Logic.Function.Basic
import Mathlib.Logic.Relation
import Mathlib.Tactic.Common

/-!
Programs that talk to a shared server, one request at a time, and the rule by
which such programs are proved correct when any number of them runs against the
same server.

`Prog` is a program cut at its requests. A configuration is the state of the
server and what is left of each program; one step answers the request of one of
them. `Sound` is a proof outline: at each request the program states its
guarantee, and the rest has to be sound whatever the others have done to the
server in between, as far as the order `le` on its states allows.
`Sound.reachable` is the rule.
-/

namespace CloudBackup.Resumption

/-- A program with requests `q : Req` that are answered by a `Resp q`. -/
inductive Prog (Req : Type) (Resp : Req → Type) (α : Type)
  | done (a : α)
  | call (q : Req) (k : Resp q → Prog Req Resp α)

variable {Req : Type} {Resp : Req → Type} {α β σ ι : Type}

def Prog.map (f : α → β) : Prog Req Resp α → Prog Req Resp β
  | .done a => .done (f a)
  | .call q k => .call q (fun r => (k r).map f)

def Prog.eval (answer : (q : Req) → σ → Resp q × σ) : Prog Req Resp α → σ → α × σ
  | .done a, s => (a, s)
  | .call q k, s => (k (answer q s).1).eval answer (answer q s).2

theorem Prog.eval_map (answer : (q : Req) → σ → Resp q × σ) (f : α → β) (p : Prog Req Resp α)
    (s : σ) : (p.map f).eval answer s = (f (p.eval answer s).1, (p.eval answer s).2) := by
  induction p generalizing s with
  | done a => rfl
  | call q k ih => exact ih _ _

def Prog.Returns (P : α → Prop) : Prog Req Resp α → Prop
  | .done a => P a
  | .call _ k => ∀ r, (k r).Returns P

/-- The state of the server, and what is left of each program. -/
structure Config (Req : Type) (Resp : Req → Type) (α σ ι : Type) where
  state : σ
  procs : ι → Prog Req Resp α

section Step

variable [DecidableEq ι]

/-- `exec s i q r s'`: in state `s` the server may answer request `q` of program
`i` with `r` and go to state `s'`. -/
inductive Step (exec : σ → ι → (q : Req) → Resp q → σ → Prop) :
    Config Req Resp α σ ι → Config Req Resp α σ ι → Prop
  | answer {c : Config Req Resp α σ ι} {i : ι} {q : Req} {k : Resp q → Prog Req Resp α}
      {r : Resp q} {s' : σ} (hcall : c.procs i = .call q k) (hexec : exec c.state i q r s') :
      Step exec c ⟨s', Function.update c.procs i (k r)⟩

def Reachable (exec : σ → ι → (q : Req) → Resp q → σ → Prop) :
    Config Req Resp α σ ι → Config Req Resp α σ ι → Prop :=
  Relation.ReflTransGen (Step exec)

end Step

section Sound

variable (exec : σ → ι → (q : Req) → Resp q → σ → Prop) (le : σ → σ → Prop) (inv : σ → Prop)
  (guar : ι → Req → Prop) (post : ι → σ → α → Prop)

def Sound (i : ι) : Prog Req Resp α → σ → Prop
  | .done a, s => post i s a
  | .call q k, s =>
      guar i q ∧ ∀ s₁ r s₂, le s s₁ → inv s₁ → exec s₁ i q r s₂ → Sound i (k r) s₂

structure Discipline : Prop where
  refl : ∀ s, le s s
  trans : ∀ {s₁ s₂ s₃}, le s₁ s₂ → le s₂ s₃ → le s₁ s₃
  step : ∀ {s i q r s'}, inv s → guar i q → exec s i q r s' → inv s' ∧ le s s'
  post : ∀ {i s s' a}, le s s' → post i s a → post i s' a

variable {exec le inv guar post}

theorem Sound.mono (hd : Discipline exec le inv guar post) {i : ι} {p : Prog Req Resp α}
    {s s' : σ} (h : Sound exec le inv guar post i p s) (hle : le s s') :
    Sound exec le inv guar post i p s' := by
  cases p with
  | done a => exact hd.post hle h
  | call q k => exact ⟨h.1, fun s₁ r s₂ hle' => h.2 s₁ r s₂ (hd.trans hle hle')⟩

theorem Sound.step [DecidableEq ι] (hd : Discipline exec le inv guar post)
    {c c' : Config Req Resp α σ ι} (hinv : inv c.state)
    (hs : ∀ i, Sound exec le inv guar post i (c.procs i) c.state) (h : Step exec c c') :
    inv c'.state ∧ le c.state c'.state ∧
      ∀ i, Sound exec le inv guar post i (c'.procs i) c'.state := by
  cases h with
  | @answer i q k r s' hcall hexec =>
      have hi := hs i
      rw [hcall] at hi
      obtain ⟨hinv', hle⟩ := hd.step hinv hi.1 hexec
      refine ⟨hinv', hle, fun j => ?_⟩
      by_cases hj : j = i
      · subst hj
        simpa using hi.2 _ _ _ (hd.refl _) hinv hexec
      · simpa [Function.update_of_ne hj] using (hs j).mono hd hle

/-- Under any interleaving the invariant holds, the server only moves up, and
every program is sound. -/
theorem Sound.reachable [DecidableEq ι] (hd : Discipline exec le inv guar post)
    {c c' : Config Req Resp α σ ι} (hinv : inv c.state)
    (hs : ∀ i, Sound exec le inv guar post i (c.procs i) c.state) (h : Reachable exec c c') :
    inv c'.state ∧ le c.state c'.state ∧
      ∀ i, Sound exec le inv guar post i (c'.procs i) c'.state := by
  induction h with
  | refl => exact ⟨hinv, hd.refl _, hs⟩
  | tail _ hstep ih =>
      obtain ⟨hinv', hle, hs'⟩ := ih
      obtain ⟨hinv'', hle', hs''⟩ := Sound.step hd hinv' hs' hstep
      exact ⟨hinv'', hd.trans hle hle', hs''⟩

end Sound

end CloudBackup.Resumption
