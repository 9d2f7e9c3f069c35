import Mathlib.Data.List.Infix
import Mathlib.Data.List.SplitBy

/-!
The runs of an element in a list, and the list in which each of them is cut to one.

`IsRuns` says what makes a splitting of a list the one into runs, and `isRuns_iff` that there
is no other. What a list is like once it is squeezed goes by `squeeze_induction`, from the front
of the list: another element, one more of a run, or the last of it.
-/

namespace CloudBackup.Runs

variable {α : Type} {a : α}

/-- Blocks of `a`, and other elements one by one. No block goes on in the next one. -/
structure IsRuns (a : α) (rs : List (List α)) : Prop where
  each : ∀ r ∈ rs, (∃ n, r = List.replicate (n + 1) a) ∨ ∃ b, b ≠ a ∧ r = [b]
  apart : rs.IsChain fun r r' => ¬ (r.getLast? = some a ∧ r'.head? = some a)

theorem IsRuns.ne_nil {rs : List (List α)} (h : IsRuns a rs) {r : List α} (hr : r ∈ rs) : r ≠ [] := by
  rcases h.each r hr with ⟨n, rfl⟩ | ⟨b, -, rfl⟩ <;> simp

variable [DecidableEq α]

/-- The runs of `a`, as long as they can be, and every other element by itself. -/
def runs (a : α) (l : List α) : List (List α) := l.splitBy fun x y => x = a && y = a

/-- Of every run of `a` there is one left. -/
def squeeze (a : α) (l : List α) : List α := (runs a l).filterMap List.head?

/-! ### The runs -/

theorem flatten_runs (a : α) (l : List α) : (runs a l).flatten = l := List.flatten_splitBy _ l

theorem forall_eq_of_isChain {x y : α} {l : List α}
    (h : (x :: y :: l).IsChain fun x y => (decide (x = a) && decide (y = a)) = true) :
    ∀ z ∈ x :: y :: l, z = a := by
  induction l generalizing x y with
  | nil => simpa using h
  | cons z l ih =>
      rw [List.isChain_cons_cons, Bool.and_eq_true, decide_eq_true_eq] at h
      exact List.forall_mem_cons.mpr ⟨h.1.1, ih h.2⟩

theorem isRuns_runs (a : α) (l : List α) : IsRuns a (runs a l) where
  each := fun r hr => by
    have hne := List.ne_nil_of_mem_splitBy hr
    have hchain := List.isChain_of_mem_splitBy hr
    cases r with
    | nil => exact absurd rfl hne
    | cons x r =>
        cases r with
        | nil =>
            by_cases hx : x = a
            · exact .inl ⟨0, by rw [hx]; rfl⟩
            · exact .inr ⟨x, hx, rfl⟩
        | cons y r => exact .inl ⟨r.length + 1, List.eq_replicate_of_mem (forall_eq_of_isChain hchain)⟩
  apart := by
    refine (List.isChain_getLast_head_splitBy _ l).imp ?_
    rintro r r' ⟨hr, hr', hne⟩ ⟨hlast, hhead⟩
    rw [List.getLast?_eq_getLast_of_ne_nil hr, Option.some.injEq] at hlast
    rw [List.head?_eq_some_head hr', Option.some.injEq] at hhead
    simp [hlast, hhead] at hne

/-- There is one way only to split a list into runs. -/
theorem runs_flatten {rs : List (List α)} (h : IsRuns a rs) : runs a rs.flatten = rs := by
  refine List.splitBy_flatten (fun hnil => h.ne_nil hnil rfl) (fun r hr => ?_) ?_
  · rcases h.each r hr with ⟨n, rfl⟩ | ⟨b, -, rfl⟩
    · exact List.isChain_replicate_of_rel _ (by simp)
    · exact .singleton _
  · refine h.apart.imp_of_mem_imp fun r r' hr hr' hapart => ?_
    refine ⟨h.ne_nil hr, h.ne_nil hr', ?_⟩
    rw [List.getLast?_eq_getLast_of_ne_nil (h.ne_nil hr), List.head?_eq_some_head (h.ne_nil hr'), Option.some.injEq,
      Option.some.injEq] at hapart
    simpa using not_and.mp hapart

theorem isRuns_iff {l : List α} {rs : List (List α)} : IsRuns a rs ∧ rs.flatten = l ↔ rs = runs a l := by
  constructor
  · rintro ⟨h, rfl⟩
    exact (runs_flatten h).symm
  · rintro rfl
    exact ⟨isRuns_runs a l, flatten_runs a l⟩

/-! ### To squeeze from the front -/

theorem squeeze_cons_of_ne {b : α} (hb : b ≠ a) (l : List α) : squeeze a (b :: l) = b :: squeeze a l := by
  have hsplit := List.splitBy_append (r := fun x y => decide (x = a) && decide (y = a)) (l := [b]) (m := l)
    (by simp [hb])
  rw [squeeze, runs, ← List.singleton_append, hsplit, List.splitBy_of_isChain (List.cons_ne_nil b []) (.singleton b)]
  rfl

theorem squeeze_block (n : ℕ) {l : List α} (hl : l.head? ≠ some a) :
    squeeze a (List.replicate (n + 1) a ++ l) = a :: squeeze a l := by
  have hsplit := List.splitBy_append (r := fun x y => decide (x = a) && decide (y = a))
    (l := List.replicate (n + 1) a) (m := l) (fun x _ y hy => by
      have hne : y ≠ a := fun h => hl (h ▸ hy)
      simp [hne])
  have hblock : (List.replicate (n + 1) a).splitBy (fun x y => decide (x = a) && decide (y = a)) =
      [List.replicate (n + 1) a] :=
    List.splitBy_of_isChain (by simp) (List.isChain_replicate_of_rel _ (by simp))
  rw [squeeze, runs, hsplit, hblock]
  rfl

theorem squeeze_cons_of_head {l : List α} (hl : l.head? ≠ some a) : squeeze a (a :: l) = a :: squeeze a l :=
  squeeze_block 0 hl

theorem squeeze_cons_cons (a : α) (l : List α) : squeeze a (a :: a :: l) = squeeze a (a :: l) := by
  obtain ⟨n, rest, hrest, rfl⟩ : ∃ n rest, rest.head? ≠ some a ∧ l = List.replicate n a ++ rest := by
    induction l with
    | nil => exact ⟨0, [], by simp, rfl⟩
    | cons b l ih =>
        by_cases hb : b = a
        · obtain ⟨n, rest, hrest, rfl⟩ := ih
          exact ⟨n + 1, rest, hrest, by rw [hb]; rfl⟩
        · exact ⟨0, b :: l, by simpa using hb, rfl⟩
  calc
    squeeze a (a :: a :: (List.replicate n a ++ rest)) = a :: squeeze a rest := squeeze_block (n + 1) hrest
    _ = squeeze a (a :: (List.replicate n a ++ rest)) := (squeeze_block n hrest).symm

/-- What holds of a list goes from its end to its front. -/
@[elab_as_elim]
theorem squeeze_induction {motive : List α → Prop} (nil : motive [])
    (other : ∀ b l, b ≠ a → motive l → motive (b :: l)) (again : ∀ l, motive (a :: l) → motive (a :: a :: l))
    (last : ∀ l, l.head? ≠ some a → motive l → motive (a :: l)) (l : List α) : motive l := by
  induction l with
  | nil => exact nil
  | cons b l ih =>
      by_cases hb : b = a
      · subst hb
        by_cases hl : l.head? = some b
        · obtain ⟨l, rfl⟩ := List.head?_eq_some_iff.mp hl
          exact again l ih
        · exact last l hl ih
      · exact other b l hb ih

/-! ### What is squeezed -/

@[simp] theorem head?_squeeze (a : α) (l : List α) : (squeeze a l).head? = l.head? := by
  induction l using squeeze_induction (a := a) with
  | nil => rfl
  | other b l hb ih => rw [squeeze_cons_of_ne hb, List.head?_cons, List.head?_cons]
  | again l ih => rw [squeeze_cons_cons, ih, List.head?_cons, List.head?_cons]
  | last l hl ih => rw [squeeze_cons_of_head hl, List.head?_cons, List.head?_cons]

theorem squeeze_squeeze (a : α) (l : List α) : squeeze a (squeeze a l) = squeeze a l := by
  induction l using squeeze_induction (a := a) with
  | nil => rfl
  | other b l hb ih => rw [squeeze_cons_of_ne hb, squeeze_cons_of_ne hb, ih]
  | again l ih => rw [squeeze_cons_cons, ih]
  | last l hl ih => rw [squeeze_cons_of_head hl, squeeze_cons_of_head (by rwa [head?_squeeze]), ih]

theorem not_pair_squeeze (a : α) (l : List α) : ¬ [a, a] <:+: squeeze a l := by
  induction l using squeeze_induction (a := a) with
  | nil => simp [squeeze, runs]
  | other b l hb ih =>
      rw [squeeze_cons_of_ne hb, List.infix_cons_iff, not_or]
      exact ⟨fun h => hb (List.cons_prefix_cons.mp h).1.symm, ih⟩
  | again l ih =>
      rw [squeeze_cons_cons]
      exact ih
  | last l hl ih =>
      rw [squeeze_cons_of_head hl, List.infix_cons_iff, not_or]
      refine ⟨fun h => hl ?_, ih⟩
      obtain ⟨rest, hrest⟩ := (List.cons_prefix_cons.mp h).2
      rw [← head?_squeeze a l, ← hrest]
      rfl

theorem filter_squeeze (a : α) (l : List α) : (squeeze a l).filter (· ≠ a) = l.filter (· ≠ a) := by
  induction l using squeeze_induction (a := a) with
  | nil => rfl
  | other b l hb ih => rw [squeeze_cons_of_ne hb, List.filter_cons, List.filter_cons, ih]
  | again l ih => rw [squeeze_cons_cons, ih, List.filter_cons_of_neg (a := a) (l := a :: l) (by simp)]
  | last l hl ih => rw [squeeze_cons_of_head hl, List.filter_cons, List.filter_cons, ih]

end CloudBackup.Runs
