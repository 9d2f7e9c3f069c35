import Mathlib.Data.List.Nodup
import Mathlib.Data.List.Sigma
import Mathlib.Data.List.Sort
import Mathlib.Tactic.Common

/-!
Places in a stable sort. An entry of a list is an element with its position. The place of an
entry is the number of the entries that come before it: those that are smaller, and those that
are equal and have a smaller position.

Two orders put the same entries into a window if each entry of the window has the same place
in both of them (`map_window_eq_iff`), that is if as many entries overtake it as it overtakes
(`place_eq_iff`).
-/

namespace CloudBackup.StableSort

variable {α : Type} (r : α → α → Prop)

def Precedes (x y : α × ℕ) : Prop := r x.1 y.1 ∧ (r y.1 x.1 → x.2 < y.2)

instance [DecidableRel r] : DecidableRel (Precedes r) := fun _ _ => inferInstanceAs (Decidable (_ ∧ (_ → _)))

section

variable [DecidableRel r]

def entries (l : List α) : List (α × ℕ) := l.zipIdx.insertionSort fun x y => r x.1 y.1

def place (l : List α) (y : α × ℕ) : ℕ := l.zipIdx.countP fun x => Precedes r x y

end

theorem Precedes.irrefl (x : α × ℕ) : ¬ Precedes r x x := fun h => lt_irrefl _ (h.2 h.1)

variable {r}

theorem Precedes.asymm {x y : α × ℕ} (h : Precedes r x y) : ¬ Precedes r y x := by
  intro h'
  exact lt_asymm (h.2 h'.1) (h'.2 h.1)

/-- An entry that stood first goes before those that are not smaller. -/
theorem pairwise_orderedInsert [DecidableRel r] [Std.Total r] [IsTrans α r] {x : α × ℕ} {s : List (α × ℕ)}
    (hs : s.Pairwise (Precedes r)) (hx : ∀ y ∈ s, x.2 < y.2) :
    (s.orderedInsert (fun x y => r x.1 y.1) x).Pairwise (Precedes r) := by
  induction s with
  | nil => exact List.pairwise_singleton _ _
  | cons y s ih =>
      obtain ⟨hy, hs⟩ := List.pairwise_cons.mp hs
      rw [List.forall_mem_cons] at hx
      by_cases hle : r x.1 y.1
      · rw [List.orderedInsert_cons, if_pos hle, List.pairwise_cons, List.forall_mem_cons]
        refine ⟨⟨⟨hle, fun _ => hx.1⟩, ?_⟩, List.pairwise_cons.mpr ⟨hy, hs⟩⟩
        intro z hz
        exact ⟨trans_of r hle (hy z hz).1, fun _ => hx.2 z hz⟩
      · rw [List.orderedInsert_cons, if_neg hle, List.pairwise_cons]
        refine ⟨?_, ih hs hx.2⟩
        intro z hz
        rcases (List.mem_orderedInsert _).mp hz with rfl | hz
        · exact ⟨(total_of r _ _).resolve_left hle, fun h => absurd h hle⟩
        · exact hy z hz

section

variable [DecidableRel r] {l : List α}

theorem mem_entries {x : α × ℕ} : x ∈ entries r l ↔ x ∈ l.zipIdx := List.mem_insertionSort _

theorem map_fst_entries : (entries r l).map Prod.fst = l.insertionSort r := by
  rw [entries, List.map_insertionSort _ r Prod.fst _ fun _ _ _ _ => Iff.rfl, List.zipIdx_map_fst]

theorem length_entries : (entries r l).length = l.length := by rw [entries, List.length_insertionSort, List.length_zipIdx]

variable [Std.Total r] [IsTrans α r]

theorem pairwise_entries : (entries r l).Pairwise (Precedes r) := by
  -- the positions may start anywhere
  suffices h : ∀ n, ((l.zipIdx n).insertionSort fun x y => r x.1 y.1).Pairwise (Precedes r) from h 0
  induction l with
  | nil => exact fun _ => .nil
  | cons a l ih =>
      intro n
      rw [List.zipIdx_cons, List.insertionSort_cons]
      refine pairwise_orderedInsert (ih (n + 1)) ?_
      intro y hy
      rw [List.mem_insertionSort] at hy
      exact (List.mem_zipIdx hy).1

theorem place_of_entries {u v : List (α × ℕ)} {y : α × ℕ} (h : entries r l = u ++ y :: v) :
    place r l y = u.length := by
  have hpairs := pairwise_entries (r := r) (l := l)
  rw [h, List.pairwise_append, List.pairwise_cons] at hpairs
  obtain ⟨-, ⟨hafter, -⟩, hbefore⟩ := hpairs
  have hcount : place r l y = (entries r l).countP fun x => Precedes r x y :=
    ((List.perm_insertionSort _ _).countP_eq _).symm
  have hu : u.countP (fun x => Precedes r x y) = u.length :=
    List.countP_eq_length.mpr fun x hx => decide_eq_true (hbefore x hx y List.mem_cons_self)
  have hv : v.countP (fun x => Precedes r x y) = 0 :=
    List.countP_eq_zero.mpr fun x hx => by simpa using (hafter x hx).asymm
  rw [hcount, h, List.countP_append, List.countP_cons, hu, hv, if_neg (by simpa using Precedes.irrefl r y), Nat.add_zero]

theorem getElem?_entries_iff {m : ℕ} {y : α × ℕ} :
    (entries r l)[m]? = some y ↔ y ∈ l.zipIdx ∧ place r l y = m := by
  constructor
  · intro hm
    obtain ⟨hlt, rfl⟩ := List.getElem?_eq_some_iff.mp hm
    refine ⟨mem_entries.mp (List.getElem_mem hlt), ?_⟩
    have hsplit : entries r l = (entries r l).take m ++ (entries r l)[m] :: (entries r l).drop (m + 1) := by
      rw [← List.drop_eq_getElem_cons hlt, List.take_append_drop]
    rw [place_of_entries hsplit, List.length_take_of_le hlt.le]
  · rintro ⟨hy, rfl⟩
    have hmem : y ∈ entries r l := mem_entries.mpr hy
    obtain ⟨u, v, h⟩ := List.append_of_mem hmem
    rw [place_of_entries h, h, List.getElem?_append_right le_rfl, Nat.sub_self]
    rfl

end

/-! ### Windows -/

def window {α : Type} (limit offset : ℕ) (l : List α) : List α := (l.drop offset).take limit

theorem getElem?_window (l : List α) (limit offset i : ℕ) :
    (window limit offset l)[i]? = if i < limit then l[offset + i]? else none := by
  rw [window, List.getElem?_take, List.getElem?_drop]

theorem mem_of_mem_window {l : List α} {limit offset : ℕ} {a : α} (h : a ∈ window limit offset l) : a ∈ l :=
  List.mem_of_mem_drop (List.mem_of_mem_take h)

theorem eq_of_map_eq {β : Type} {l s t : List α} {f : α → β} (hf : ∀ x ∈ l, ∀ y ∈ l, f x = f y → x = y)
    (hs : ∀ x ∈ s, x ∈ l) (ht : ∀ x ∈ t, x ∈ l) (h : s.map f = t.map f) : s = t := by
  induction s generalizing t with
  | nil => exact (List.map_eq_nil_iff.mp h.symm).symm
  | cons x s ih =>
      obtain ⟨y, t, rfl, hy, htail⟩ := List.map_eq_cons_iff.mp h.symm
      rw [List.forall_mem_cons] at hs ht
      rw [hf x hs.1 y ht.1 hy.symm, ih hs.2 ht.2 htail.symm]

theorem window_insertionSort [DecidableRel r] {l : List α} (limit offset : ℕ) :
    window limit offset (l.insertionSort r) = (window limit offset (entries r l)).map Prod.fst := by
  rw [window, window, ← map_fst_entries, List.map_take, List.map_drop]

section

variable [DecidableRel r] [Std.Total r] [IsTrans α r] {r' : α → α → Prop} [DecidableRel r'] [Std.Total r']
  [IsTrans α r'] {l : List α} {limit offset : ℕ}

def SamePlaces (r r' : α → α → Prop) [DecidableRel r] [DecidableRel r'] (l : List α) (limit offset : ℕ) : Prop :=
  ∀ y ∈ l.zipIdx, offset ≤ place r l y → place r l y < offset + limit → place r' l y = place r l y

theorem window_entries_iff : window limit offset (entries r' l) = window limit offset (entries r l) ↔
    SamePlaces r r' l limit offset := by
  constructor
  · intro h y hy hle hlt
    have hget := congrArg (fun s => s[place r l y - offset]?) h
    simp only [getElem?_window, if_pos (show place r l y - offset < limit by omega),
      Nat.add_sub_cancel' hle, getElem?_entries_iff.mpr ⟨hy, rfl⟩] at hget
    exact (getElem?_entries_iff.mp hget).2
  · intro h
    refine List.ext_getElem? fun i => ?_
    rw [getElem?_window, getElem?_window]
    by_cases hi : i < limit
    · rw [if_pos hi, if_pos hi]
      cases hy : (entries r l)[offset + i]? with
      | none =>
          rw [List.getElem?_eq_none_iff, length_entries] at hy ⊢
          exact hy
      | some y =>
          obtain ⟨hmem, hplace⟩ := getElem?_entries_iff.mp hy
          rw [getElem?_entries_iff, h y hmem (by omega) (by omega), hplace]
          exact ⟨hmem, rfl⟩
    · rw [if_neg hi, if_neg hi]

/-- The windows by two orders are the same if and only if the places in them are, also after a
map that keeps the elements apart. -/
theorem map_window_eq_iff {β : Type} {f : α → β} (hl : (l.map f).Nodup) :
    (window limit offset (l.insertionSort r')).map f = (window limit offset (l.insertionSort r)).map f ↔
      SamePlaces r r' l limit offset := by
  have hentries : (l.zipIdx.map (f ∘ Prod.fst)).Nodup := by rwa [← List.map_map, List.zipIdx_map_fst]
  have hinj := List.inj_on_of_nodup_map hentries
  rw [window_insertionSort, window_insertionSort, List.map_map, List.map_map, ← window_entries_iff]
  constructor
  · refine eq_of_map_eq hinj ?_ ?_
    · exact fun x hx => mem_entries.mp (mem_of_mem_window hx)
    · exact fun x hx => mem_entries.mp (mem_of_mem_window hx)
  · intro h
    rw [h]

end

/-! ### Overtaking -/

section

variable (r) (r' : α → α → Prop) [DecidableRel r] [DecidableRel r'] (l : List α) (y : α × ℕ)

def overtaken : ℕ := l.zipIdx.countP fun x => Precedes r x y ∧ ¬ Precedes r' x y

theorem place_eq_add : place r l y = l.zipIdx.countP (fun x => Precedes r x y ∧ Precedes r' x y) + overtaken r r' l y := by
  rw [place, overtaken, List.countP_eq_countP_filter_add _ _ fun x => decide (Precedes r' x y), List.countP_filter,
    List.countP_filter]
  simp

/-- An entry has the same place if as many entries overtake it as it overtakes. -/
theorem place_eq_iff : place r' l y = place r l y ↔ overtaken r r' l y = overtaken r' r l y := by
  have hboth : l.zipIdx.countP (fun x => Precedes r' x y ∧ Precedes r x y) =
      l.zipIdx.countP (fun x => Precedes r x y ∧ Precedes r' x y) := by
    simp only [and_comm]
  rw [place_eq_add r r', place_eq_add r' r, hboth, Nat.add_left_cancel_iff, eq_comm]

end

end CloudBackup.StableSort
