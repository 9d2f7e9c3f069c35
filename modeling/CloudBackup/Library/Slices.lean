import Mathlib.Algebra.Order.Ring.Nat
import Mathlib.Data.List.Basic
import Mathlib.Data.List.Perm.Basic
import Mathlib.Tactic.Common

/-!
Slices that refer to arrays. The arrays are in a heap of their own for each type of
elements; a slice knows where its array is and how much of it it covers. To assign a slice
is to share the array, and what is written through one slice is read through the other.

`elems_updateAll` is about a loop that changes the elements of several slices in place. It
does not matter how the slices overlap, if to make the change twice is to make it once.
-/

namespace CloudBackup.Slices

variable {α : Type}

abbrev Heap (α : Type) := List (List α)

structure Slice where
  addr : ℕ
  len : ℕ
  deriving DecidableEq, Repr

def Slice.Within (s : Slice) (h : Heap α) : Prop := s.addr < h.length

def array (h : Heap α) (addr : ℕ) : List α := (h[addr]?).getD []

def elems (h : Heap α) (s : Slice) : List α := (array h s.addr).take s.len

/-- `make` and `copy`: a new array with these elements. -/
def alloc (h : Heap α) (l : List α) : Heap α := h ++ [l]

def newSlice (h : Heap α) (l : List α) : Slice := ⟨h.length, l.length⟩

def update (f : α → α) (h : Heap α) (s : Slice) : Heap α :=
  h.modify s.addr (List.mapIdx fun i a => if i < s.len then f a else a)

def updateAll (f : α → α) (h : Heap α) (ss : List Slice) : Heap α := ss.foldl (update f) h

theorem elems_alloc_newSlice (h : Heap α) (l : List α) : elems (alloc h l) (newSlice h l) = l := by
  simp [elems, array, alloc, newSlice]

theorem elems_of_isPrefix {h h' : Heap α} (hext : h <+: h') {s : Slice} (hs : s.Within h) : elems h' s = elems h s := by
  obtain ⟨ext, rfl⟩ := hext
  rw [elems, elems, array, array, List.getElem?_append_left hs]

theorem isPrefix_alloc (h : Heap α) (l : List α) : h <+: alloc h l := List.prefix_append h [l]

theorem Slice.Within.of_isPrefix {h h' : Heap α} {s : Slice} (hs : s.Within h) (hext : h <+: h') : s.Within h' :=
  Nat.lt_of_lt_of_le hs hext.length_le

theorem newSlice_within (h : Heap α) (l : List α) : (newSlice h l).Within (alloc h l) := by
  simp [Slice.Within, newSlice, alloc]

section Update

variable {f : α → α} {h : Heap α}

theorem getElem?_array_update (s : Slice) (addr i : ℕ) : (array (update f h s) addr)[i]? =
    if addr = s.addr ∧ i < s.len then ((array h addr)[i]?).map f else (array h addr)[i]? := by
  by_cases heq : addr = s.addr
  · subst heq
    simp only [array, update, List.getElem?_modify_eq, true_and]
    cases h[s.addr]? with
    | none => simp
    | some l => by_cases hi : i < s.len <;> simp [hi]
  · rw [if_neg fun h => heq h.1, array, update, List.getElem?_modify_ne _ _ (Ne.symm heq), array]

theorem getElem?_array_updateAll (hf : ∀ a, f (f a) = f a) (ss : List Slice) (addr i : ℕ) :
    (array (updateAll f h ss) addr)[i]? =
      if ∃ s ∈ ss, addr = s.addr ∧ i < s.len then ((array h addr)[i]?).map f else (array h addr)[i]? := by
  induction ss generalizing h with
  | nil => simp [updateAll]
  | cons s ss ih =>
      have hcons : updateAll f h (s :: ss) = updateAll f (update f h s) ss := rfl
      rw [hcons, ih, getElem?_array_update]
      by_cases hs : addr = s.addr ∧ i < s.len
      · have hmem : ∃ t ∈ s :: ss, addr = t.addr ∧ i < t.len := ⟨s, List.mem_cons_self, hs⟩
        rw [if_pos hs, if_pos hmem, Option.map_map]
        split
        · exact congrArg (fun g => Option.map g (array h addr)[i]?) (funext hf)
        · rfl
      · rw [if_neg hs]
        have hmem : (∃ t ∈ s :: ss, addr = t.addr ∧ i < t.len) ↔ ∃ t ∈ ss, addr = t.addr ∧ i < t.len := by
          simp [hs]
        simp only [hmem]

/-- What lies in the array of no slice is not changed. -/
theorem elems_updateAll_of_ne (hf : ∀ a, f (f a) = f a) {ss : List Slice} {s : Slice}
    (hs : ∀ t ∈ ss, s.addr ≠ t.addr) : elems (updateAll f h ss) s = elems h s := by
  have harray : array (updateAll f h ss) s.addr = array h s.addr := by
    refine List.ext_getElem? fun i => ?_
    rw [getElem?_array_updateAll hf, if_neg]
    rintro ⟨t, ht, heq, -⟩
    exact hs t ht heq
  rw [elems, harray, elems]

theorem elems_updateAll (hf : ∀ a, f (f a) = f a) {ss : List Slice} {s : Slice} (hs : s ∈ ss) :
    elems (updateAll f h ss) s = (elems h s).map f := by
  refine List.ext_getElem? fun i => ?_
  rw [elems, elems, List.getElem?_map, List.getElem?_take, List.getElem?_take]
  by_cases hi : i < s.len
  · rw [if_pos hi, if_pos hi, getElem?_array_updateAll hf, if_pos ⟨s, hs, rfl, hi⟩]
  · rw [if_neg hi, if_neg hi, Option.map_none]

theorem elems_update_self (hf : ∀ a, f (f a) = f a) (s : Slice) : elems (update f h s) s = (elems h s).map f :=
  show elems (updateAll f h [s]) s = _ from elems_updateAll hf (List.mem_singleton.mpr rfl)

/-- What is changed in later arrays leaves those that were there before. -/
theorem elems_updateAll_of_isPrefix (hf : ∀ a, f (f a) = f a) {h' : Heap α} (hext : h <+: h') {ss : List Slice}
    (hss : ∀ t ∈ ss, h.length ≤ t.addr) {s : Slice} (hs : s.Within h) : elems (updateAll f h' ss) s = elems h s := by
  have hne : ∀ t ∈ ss, s.addr ≠ t.addr := fun t ht => Nat.ne_of_lt (Nat.lt_of_lt_of_le hs (hss t ht))
  rw [elems_updateAll_of_ne hf hne, elems_of_isPrefix hext hs]

theorem elems_update_of_isPrefix (hf : ∀ a, f (f a) = f a) {h' : Heap α} (hext : h <+: h') {s t : Slice}
    (ht : h.length ≤ t.addr) (hs : s.Within h) : elems (update f h' t) s = elems h s :=
  show elems (updateAll f h' [t]) s = _ from
    elems_updateAll_of_isPrefix hf hext (fun r hr => by rwa [List.mem_singleton.mp hr]) hs

end Update

/-! ### Removal of one element -/

/-- The last element goes to the place `k`, `nil` to the last place, and the slice is one
element shorter. -/
def swapRemove (nil : α) (k : ℕ) (l : List α) : List α :=
  ((l.set k (l.getLastD nil)).set (l.length - 1) nil).take (l.length - 1)

theorem swapRemove_concat {nil : α} {k : ℕ} {init : List α} {last : α} :
    swapRemove nil k (init ++ [last]) = init.set k last := by
  rw [swapRemove, List.take_set_of_le le_rfl, List.getLastD_concat, List.length_append, List.length_singleton,
    Nat.add_sub_cancel, List.take_set, List.take_left]

theorem cons_swapRemove_perm (nil : α) {k : ℕ} {l : List α} {a : α} (h : l[k]? = some a) :
    (a :: swapRemove nil k l).Perm l := by
  obtain rfl | ⟨init, last, rfl⟩ := List.eq_nil_or_concat' l
  · simp at h
  rw [swapRemove_concat]
  by_cases hk : k < init.length
  · have hset := List.getElem_cons_eraseIdx_perm (l := init.set k last) (n := k) (by simpa using hk)
    have hinit := List.getElem_cons_eraseIdx_perm hk
    rw [List.getElem_set_self, List.eraseIdx_set_eq] at hset
    rw [List.getElem?_append_left hk, List.getElem?_eq_getElem hk] at h
    obtain rfl := Option.some.inj h
    calc (init[k] :: init.set k last).Perm (init[k] :: last :: init.eraseIdx k) := hset.symm.cons _
      _ |>.Perm (last :: init[k] :: init.eraseIdx k) := .swap _ _ _
      _ |>.Perm (last :: init) := hinit.cons _
      _ |>.Perm (init ++ [last]) := (List.perm_append_singleton _ _).symm
  · have hlength := (List.getElem?_eq_some_iff.mp h).1
    rw [List.length_append, List.length_singleton] at hlength
    obtain rfl : k = init.length := by omega
    rw [List.getElem?_concat_length] at h
    obtain rfl := Option.some.inj h
    rw [List.set_eq_of_length_le le_rfl]
    exact (List.perm_append_singleton _ _).symm

end CloudBackup.Slices
