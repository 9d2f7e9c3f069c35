import CloudBackup.Library.TreeWalk
import Mathlib.Data.Fintype.Pigeonhole
import Mathlib.Logic.Relation

/-!
Recursion that may not come to an end. A tree has an end if it has fewer than so many levels;
every node has finitely many children, so it has one if and only if no endless chain goes down
from its root (`ends_iff`). In a finite graph an endless chain comes back to where it was
(`returns_of_chain`).

A pass of a loop may not return, and then the loop does not (`loop_eq_none`).
-/

namespace CloudBackup.Descent

open Iteration

/-! ### Trees -/

section

variable {α : Type} {children : α → List α}

def Ends (children : α → List α) : ℕ → α → Prop
  | 0, _ => False
  | levels + 1, a => ∀ b ∈ children a, Ends children levels b

/-- A chain of children that has no end. -/
def Endless (children : α → List α) (a : α) : Prop := ∃ f : ℕ → α, f 0 = a ∧ ∀ i, f (i + 1) ∈ children (f i)

theorem Ends.mono {n m : ℕ} {a : α} (h : Ends children n a) (hle : n ≤ m) : Ends children m a := by
  induction n generalizing m a with
  | zero => exact h.elim
  | succ n ih =>
      obtain ⟨m, rfl⟩ := Nat.exists_eq_add_of_le' (Nat.one_le_of_lt hle)
      exact fun b hb => ih (h b hb) (Nat.le_of_succ_le_succ hle)

/-- What ends for each of finitely many nodes ends for all of them at once. -/
theorem exists_ends_forall {l : List α} (h : ∀ b ∈ l, ∃ n, Ends children n b) :
    ∃ n, ∀ b ∈ l, Ends children n b := by
  induction l with
  | nil => exact ⟨0, by simp⟩
  | cons a l ih =>
      rw [List.forall_mem_cons] at h
      obtain ⟨n, hn⟩ := h.1
      obtain ⟨m, hm⟩ := ih h.2
      refine ⟨max n m, List.forall_mem_cons.mpr ⟨hn.mono (le_max_left _ _), ?_⟩⟩
      exact fun b hb => (hm b hb).mono (le_max_right _ _)

theorem exists_child {a : α} (h : ∀ n, ¬ Ends children n a) : ∃ b ∈ children a, ∀ n, ¬ Ends children n b := by
  by_contra hnone
  push Not at hnone
  obtain ⟨n, hn⟩ := exists_ends_forall hnone
  exact h (n + 1) hn

theorem not_ends_of_endless {a : α} (h : Endless children a) (n : ℕ) : ¬ Ends children n a := by
  obtain ⟨f, rfl, hf⟩ := h
  induction n generalizing f with
  | zero => exact id
  | succ n ih => exact fun hends => ih (fun i => f (i + 1)) (fun i => hf (i + 1)) (hends _ (hf 0))

/-- A tree has an end if and only if no endless chain goes down. -/
theorem ends_iff {a : α} : (∃ n, Ends children n a) ↔ ¬ Endless children a := by
  constructor
  · rintro ⟨n, hn⟩ hendless
    exact not_ends_of_endless hendless n hn
  · intro hno
    by_contra hnone
    push Not at hnone
    -- every node without an end has a child without one
    have hchild : ∀ a, (∀ n, ¬ Ends children n a) → ∃ b ∈ children a, ∀ n, ¬ Ends children n b :=
      fun _ => exists_child
    choose! next hnext using hchild
    have hchain : ∀ i, ∀ n, ¬ Ends children n (next^[i] a) := by
      intro i
      induction i with
      | zero => exact hnone
      | succ i ih =>
          rw [Function.iterate_succ_apply']
          exact (hnext _ ih).2
    refine hno ⟨fun i => next^[i] a, rfl, fun i => ?_⟩
    dsimp only
    rw [Function.iterate_succ_apply']
    exact (hnext _ (hchain i)).1

theorem ends_of_addressed {β : Type} {address : α → List β} {bound : ℕ} {a : α} {levels : ℕ}
    (h : TreeWalk.Addressed children address bound a) (hlevels : bound ≤ (address a).length + levels) :
    Ends children (levels + 1) a := by
  induction levels generalizing a with
  | zero =>
      intro b hb
      rw [h.depth a (.refl a) hlevels] at hb
      cases hb
  | succ levels ih =>
      intro b hb
      obtain ⟨x, hx⟩ := h.child a (.refl a) b hb
      refine ih (h.descend (.of_child hb)) ?_
      rw [hx, List.length_append, List.length_singleton]
      omega

end

/-! ### Finite graphs -/

/-- A chain that goes on for ever comes back to where it was. -/
theorem returns_of_chain {ν : Type} [Finite ν] {r : ν → ν → Prop} {g : ℕ → ν} (h : ∀ i, r (g i) (g (i + 1))) :
    ∃ i, Relation.TransGen r (g i) (g i) := by
  obtain ⟨i, j, hne, heq⟩ := Finite.exists_ne_map_eq_of_infinite g
  wlog hlt : i < j generalizing i j
  · exact this j i hne.symm heq.symm (by omega)
  have hback : Relation.TransGen r (g i) (g j) :=
    Nat.rel_of_forall_rel_succ_of_lt (Relation.TransGen r) (fun k => .single (h k)) hlt
  rw [← heq] at hback
  exact ⟨i, hback⟩

/-! ### Loops -/

section

variable {α σ ε : Type}

def loop (body : α → σ → Option (Flow σ ε)) : List α → σ → Option (Flow σ ε)
  | [], s => some (.next s)
  | a :: l, s =>
      match body a s with
      | none => none
      | some (.stop e t) => some (.stop e t)
      | some (.next t) => loop body l t

variable {body : α → σ → Option (Flow σ ε)}

/-- If every pass returns, the loop does, and it is `forEach`. -/
theorem loop_eq_forEach {pass : α → σ → Flow σ ε} {l : List α} (h : ∀ a ∈ l, ∀ s, body a s = some (pass a s)) (s : σ) :
    loop body l s = some (forEach pass l s) := by
  induction l generalizing s with
  | nil => rfl
  | cons a l ih =>
      rw [List.forall_mem_cons] at h
      rw [loop, h.1, forEach]
      cases pass a s with
      | next t => exact ih h.2 t
      | stop e t => rfl

theorem isSome_loop {l : List α} (h : ∀ a ∈ l, ∀ s, (body a s).isSome) (s : σ) : (loop body l s).isSome := by
  induction l generalizing s with
  | nil => rfl
  | cons a l ih =>
      rw [List.forall_mem_cons] at h
      obtain ⟨r, hr⟩ := Option.isSome_iff_exists.mp (h.1 s)
      rw [loop, hr]
      cases r with
      | next t => exact ih h.2 t
      | stop e t => rfl

/-- If no pass stops the loop and one of them never returns, the loop does not. -/
theorem loop_eq_none {l : List α} (hstop : ∀ a s e t, body a s ≠ some (.stop e t)) {a : α} (ha : a ∈ l)
    (hnone : ∀ s, body a s = none) (s : σ) : loop body l s = none := by
  induction l generalizing s with
  | nil => cases ha
  | cons b l ih =>
      rw [loop]
      split
      · rfl
      · rename_i hbody
        exact absurd hbody (hstop _ _ _ _)
      · rename_i hbody
        rcases List.mem_cons.mp ha with rfl | ha
        · rw [hnone] at hbody
          cases hbody
        · exact ih ha _

theorem loop_ne_stop {l : List α} (hstop : ∀ a s e t, body a s ≠ some (.stop e t)) (s : σ) (e : ε) (t : σ) :
    loop body l s ≠ some (.stop e t) := by
  induction l generalizing s with
  | nil =>
      rw [loop]
      simp
  | cons b l ih =>
      rw [loop]
      split
      · simp
      · rename_i hbody
        exact absurd hbody (hstop _ _ _ _)
      · exact ih _

end

end CloudBackup.Descent
