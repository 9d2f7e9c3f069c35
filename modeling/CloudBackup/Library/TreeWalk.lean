import CloudBackup.Library.Iteration
import Mathlib.Data.List.Nodup
import Mathlib.Logic.Relation

/-!
Trees that are only known by the children of their nodes, such as the directories
of a file system. Every node has an address, the labels on the way to it, and the
tree has an end at some depth.

`below` lists the nodes in the order in which a recursive walk comes to them. It
has each address once (`nodup_below`), and all nodes if it goes deep enough
(`mem_below`).
-/

namespace CloudBackup.TreeWalk

variable {α β : Type}

def below (children : α → List α) : ℕ → α → List α
  | 0, _ => []
  | depth + 1, a => (children a).flatMap fun b => b :: below children depth b

def Descends (children : α → List α) : α → α → Prop :=
  Relation.ReflTransGen fun a b => b ∈ children a

/-- In the tree below a node every child adds one label to the address of its
parent, no two children the same one, and the addresses are bounded. -/
structure Addressed (children : α → List α) (address : α → List β) (bound : ℕ) (root : α) : Prop where
  child : ∀ a, Descends children root a → ∀ b ∈ children a, ∃ x, address b = address a ++ [x]
  nodup : ∀ a, Descends children root a → ((children a).map address).Nodup
  depth : ∀ a, Descends children root a → bound ≤ (address a).length → children a = []

section

variable {children : α → List α} {address : α → List β} {bound : ℕ} {root a b : α}

theorem Descends.refl (a : α) : Descends children a a := Relation.ReflTransGen.refl

theorem Descends.of_child (h : b ∈ children a) : Descends children a b := Relation.ReflTransGen.single h

theorem Descends.trans {c : α} (h : Descends children a b) (h' : Descends children b c) :
    Descends children a c :=
  Relation.ReflTransGen.trans h h'

theorem descends_iff : Descends children a b ↔ a = b ∨ ∃ c ∈ children a, Descends children c b := by
  constructor
  · intro h
    rcases h.cases_head with rfl | ⟨c, hc, hcb⟩
    · exact .inl rfl
    · exact .inr ⟨c, hc, hcb⟩
  · rintro (rfl | ⟨c, hc, hcb⟩)
    · exact .refl a
    · exact (Descends.of_child hc).trans hcb

theorem Addressed.descend (h : Addressed children address bound root) (hd : Descends children root a) :
    Addressed children address bound a where
  child c hc := h.child c (hd.trans hc)
  nodup c hc := h.nodup c (hd.trans hc)
  depth c hc := h.depth c (hd.trans hc)

/-- The address of a node starts with that of every node above it. -/
theorem Addressed.starts (h : Addressed children address bound root) (hd : Descends children root a) :
    address root <+: address a := by
  induction hd with
  | refl => exact List.prefix_refl _
  | tail hab hbc ih =>
      obtain ⟨x, hx⟩ := h.child _ hab _ hbc
      rw [hx]
      exact ih.trans (List.prefix_append _ _)

/-- Every address between those of two nodes belongs to a node between them. -/
theorem Addressed.between (h : Addressed children address bound root) (hd : Descends children root a)
    {l : List β} (hroot : address root <+: l) (ha : l <+: address a) :
    ∃ c, address c = l ∧ Descends children root c ∧ Descends children c a := by
  induction hd with
  | refl => exact ⟨root, hroot.eq_of_length_le ha.length_le, .refl root, .refl root⟩
  | tail hab hbc ih =>
      obtain ⟨x, hx⟩ := h.child _ hab _ hbc
      rw [hx, List.prefix_concat_iff] at ha
      rcases ha with rfl | ha
      · exact ⟨_, hx, hab.tail hbc, .refl _⟩
      · obtain ⟨c, hc, hrc, hcb⟩ := ih ha
        exact ⟨c, hc, hrc, hcb.tail hbc⟩

theorem descends_of_mem_below {depth : ℕ} (h : b ∈ a :: below children depth a) : Descends children a b := by
  induction depth generalizing a with
  | zero =>
      obtain rfl := List.mem_singleton.mp h
      exact .refl b
  | succ depth ih =>
      rcases List.mem_cons.mp h with rfl | h
      · exact .refl b
      · obtain ⟨c, hc, hb⟩ := List.mem_flatMap.mp h
        exact (Descends.of_child hc).trans (ih hb)

/-- Nothing is left out if the depth reaches down to the bound. -/
theorem mem_below (h : Addressed children address bound a) {depth : ℕ}
    (hdepth : bound ≤ (address a).length + depth) :
    b ∈ a :: below children depth a ↔ Descends children a b := by
  refine ⟨descends_of_mem_below, ?_⟩
  induction depth generalizing a with
  | zero =>
      intro hd
      rcases descends_iff.mp hd with rfl | ⟨c, hc, -⟩
      · simp
      · rw [h.depth a (.refl a) hdepth] at hc
        cases hc
  | succ depth ih =>
      intro hd
      rcases descends_iff.mp hd with rfl | ⟨c, hc, hcb⟩
      · simp
      · obtain ⟨x, hx⟩ := h.child a (.refl a) c hc
        have hlen : (address c).length = (address a).length + 1 := by simp [hx]
        have hmem := ih (h.descend (.of_child hc)) (by omega) hcb
        exact List.mem_cons_of_mem a (List.mem_flatMap.mpr ⟨c, hc, hmem⟩)

theorem nodup_below (h : Addressed children address bound a) (depth : ℕ) :
    ((a :: below children depth a).map address).Nodup := by
  induction depth generalizing a with
  | zero => simp [below]
  | succ depth ih =>
      have hstarts : ∀ c ∈ children a, ∀ l ∈ (c :: below children depth c).map address, address c <+: l := by
        intro c hc l hl
        obtain ⟨d, hd, rfl⟩ := List.mem_map.mp hl
        exact (h.descend (.of_child hc)).starts (descends_of_mem_below hd)
      have hlen : ∀ c ∈ children a, (address c).length = (address a).length + 1 := by
        intro c hc
        obtain ⟨x, hx⟩ := h.child a (.refl a) c hc
        simp [hx]
      rw [List.map_cons, List.nodup_cons, below, List.map_flatMap]
      constructor
      · intro hmem
        obtain ⟨c, hc, ha⟩ := List.mem_flatMap.mp hmem
        have hle := (hstarts c hc _ ha).length_le
        have hc' := hlen c hc
        omega
      · -- two children with an address in common would have the same one themselves
        rw [List.nodup_flatMap]
        refine ⟨fun c hc => ih (h.descend (.of_child hc)), ?_⟩
        have hnodup := List.pairwise_map.mp (h.nodup a (.refl a))
        refine hnodup.imp_of_mem ?_
        intro c c' hc hc' hne l hl hl'
        apply hne
        have heq : (address c).length = (address c').length := by rw [hlen c hc, hlen c' hc']
        have hpre := List.prefix_of_prefix_length_le (hstarts c hc l hl) (hstarts c' hc' l hl')
          (Nat.le_of_eq heq)
        exact hpre.eq_of_length heq

end

end CloudBackup.TreeWalk
