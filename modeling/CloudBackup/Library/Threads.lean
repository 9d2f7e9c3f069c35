import Mathlib.Data.Multiset.Count
import Mathlib.Logic.Relation
import Mathlib.Tactic.Common

/-!
Any number of threads over one shared state. A thread is known by where it is in its code,
so the threads together are a multiset; a thread can be started at any time, and one step is
one atomic action of one of them.

A guard narrows down the runs: it looks at the shared state, at all threads and at the one
that is about to act. `Reachable.invariant` is the rule, with the thread that acts in front
of the others.
-/

namespace CloudBackup.Threads

variable {σ τ : Type}

structure Pool (σ τ : Type) where
  shared : σ
  threads : Multiset τ

section Step

variable (fresh : τ → Prop) (act : σ → τ → σ → τ → Prop) (guard : Pool σ τ → τ → Prop)

/-- `act s t s' t'`: the thread goes from `t` to `t'` and the shared state from `s` to `s'`. -/
inductive Step : Pool σ τ → Pool σ τ → Prop
  | spawn {s : σ} {ts : Multiset τ} {t : τ} (h : fresh t) : Step ⟨s, ts⟩ ⟨s, t ::ₘ ts⟩
  | act {s s' : σ} {t t' : τ} {rest : Multiset τ} (hguard : guard ⟨s, t ::ₘ rest⟩ t) (h : act s t s' t') :
      Step ⟨s, t ::ₘ rest⟩ ⟨s', t' ::ₘ rest⟩

/-- What a run from `s₀` leads to. It begins without threads. -/
def Reachable (s₀ : σ) : Pool σ τ → Prop := Relation.ReflTransGen (Step fresh act guard) ⟨s₀, 0⟩

end Step

section Invariant

variable {fresh : τ → Prop} {act : σ → τ → σ → τ → Prop} {guard : Pool σ τ → τ → Prop} {s₀ : σ}

theorem Reachable.start {s : σ} {ts : Multiset τ} {t : τ} (h : Reachable fresh act guard s₀ ⟨s, ts⟩)
    (ht : fresh t) : Reachable fresh act guard s₀ ⟨s, t ::ₘ ts⟩ :=
  h.tail (.spawn ht)

theorem Reachable.next {s s' : σ} {t t' : τ} {rest : Multiset τ}
    (h : Reachable fresh act guard s₀ ⟨s, t ::ₘ rest⟩) (hact : act s t s' t')
    (hguard : guard ⟨s, t ::ₘ rest⟩ t) : Reachable fresh act guard s₀ ⟨s', t' ::ₘ rest⟩ :=
  h.tail (.act hguard hact)

/-- What holds of one pool, and is kept by each new thread and by each action, holds of all that
it leads to. -/
theorem invariant_of_leads {I : σ → Multiset τ → Prop} {p q : Pool σ τ}
    (h : Relation.ReflTransGen (Step fresh act guard) p q) (h₀ : I p.shared p.threads)
    (hspawn : ∀ {s ts t}, fresh t → I s ts → I s (t ::ₘ ts))
    (hact : ∀ {s t s' t' rest}, I s (t ::ₘ rest) → guard ⟨s, t ::ₘ rest⟩ t → act s t s' t' →
      I s' (t' ::ₘ rest)) : I q.shared q.threads := by
  induction h with
  | refl => exact h₀
  | tail _ hstep ih =>
      cases hstep with
      | spawn ht => exact hspawn ht ih
      | act hguard h => exact hact ih hguard h

/-- What holds at first, and is kept by each new thread and by each action, always holds. -/
theorem Reachable.invariant {I : σ → Multiset τ → Prop} {p : Pool σ τ} (h : Reachable fresh act guard s₀ p)
    (h₀ : I s₀ 0) (hspawn : ∀ {s ts t}, fresh t → I s ts → I s (t ::ₘ ts))
    (hact : ∀ {s t s' t' rest}, I s (t ::ₘ rest) → guard ⟨s, t ::ₘ rest⟩ t → act s t s' t' →
      I s' (t' ::ₘ rest)) : I p.shared p.threads :=
  invariant_of_leads h h₀ hspawn hact

end Invariant

/-! ### What has been -/

section Once

variable (fresh : τ → Prop) (act : σ → τ → σ → τ → Prop) (guard : Pool σ τ → τ → Prop) (s₀ : σ)

/-- A run has led to `p` in which `P` has held at some point. -/
def Once (P : Pool σ τ → Prop) (p : Pool σ τ) : Prop :=
  ∃ q, Reachable fresh act guard s₀ q ∧ Relation.ReflTransGen (Step fresh act guard) q p ∧ P q

end Once

section Once

variable {fresh : τ → Prop} {act : σ → τ → σ → τ → Prop} {guard : Pool σ τ → τ → Prop} {s₀ : σ}
  {P P' : Pool σ τ → Prop} {p q : Pool σ τ}

theorem Once.now (h : Reachable fresh act guard s₀ p) (hP : P p) : Once fresh act guard s₀ P p :=
  ⟨p, h, .refl, hP⟩

theorem Once.later (h : Once fresh act guard s₀ P p) (hstep : Step fresh act guard p q) :
    Once fresh act guard s₀ P q := by
  obtain ⟨q₀, hreach, hleads, hP⟩ := h
  exact ⟨q₀, hreach, hleads.tail hstep, hP⟩

theorem Once.mono (h : Once fresh act guard s₀ P p) (himp : ∀ {q}, P q → P' q) : Once fresh act guard s₀ P' p := by
  obtain ⟨q₀, hreach, hleads, hP⟩ := h
  exact ⟨q₀, hreach, hleads, himp hP⟩

/-- What is known of a new thread, is not lost as the run goes on, and is known again where its
thread has got by an action, is known of every thread. -/
theorem Reachable.known {K : Pool σ τ → τ → Prop} (h : Reachable fresh act guard s₀ p)
    (hlater : ∀ {p q t}, Step fresh act guard p q → K p t → K q t)
    (hspawn : ∀ {s ts t}, fresh t → K ⟨s, ts⟩ t)
    (hact : ∀ {s t s' t' rest}, Reachable fresh act guard s₀ ⟨s, t ::ₘ rest⟩ → K ⟨s, t ::ₘ rest⟩ t →
      guard ⟨s, t ::ₘ rest⟩ t → act s t s' t' → K ⟨s, t ::ₘ rest⟩ t') : ∀ t ∈ p.threads, K p t := by
  induction h with
  | refl => exact fun t ht => absurd ht (Multiset.notMem_zero t)
  | tail hreach hstep ih =>
      have hnext := hstep
      cases hstep with
      | spawn ht =>
          exact Multiset.forall_mem_cons.mpr ⟨hlater hnext (hspawn ht), fun t h => hlater hnext (ih t h)⟩
      | act hguard h =>
          obtain ⟨ht, hrest⟩ := Multiset.forall_mem_cons.mp ih
          exact Multiset.forall_mem_cons.mpr
            ⟨hlater hnext (hact hreach ht hguard h), fun t h => hlater hnext (hrest t h)⟩

end Once

end CloudBackup.Threads
