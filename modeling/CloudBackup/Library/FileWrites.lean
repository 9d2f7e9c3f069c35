import Mathlib.Algebra.Order.Ring.Nat
import Mathlib.Data.List.Basic
import Mathlib.Tactic.Common

/-!
What a program does to one file: it creates it, which empties one that is there, and it
writes at offsets. Each descriptor has its own offset, so several writers overwrite each
other and never append; where nobody has written below the end, the file reads as zero.

The second part is about writers that all write the same text. Such a write does no harm
wherever it comes, and a text is complete once the writes that cover it are made: this is
`Filling`.
-/

namespace CloudBackup.FileWrites

variable {α : Type}

inductive FileOp (α : Type)
  | create
  | writeAt (off : ℕ) (c : List α)
  deriving DecidableEq, Repr

section

variable [Zero α]

/-- `pwrite`. Without any bytes it does nothing, else it may leave a hole behind the end. -/
def overlay (x : List α) (off : ℕ) (c : List α) : List α :=
  if c.isEmpty then x
  else x.take off ++ (List.replicate (off - x.length) 0 ++ (c ++ x.drop (off + c.length)))

def FileOp.run : FileOp α → Option (List α) → Option (List α)
  | .create, _ => some []
  | .writeAt off c, file => file.map fun x => overlay x off c

def runOps (ops : List (FileOp α)) (file : Option (List α)) : Option (List α) :=
  ops.foldl (fun file op => op.run file) file

@[simp] theorem runOps_nil (file : Option (List α)) : runOps [] file = file := rfl

@[simp] theorem runOps_cons (op : FileOp α) (ops : List (FileOp α)) (file : Option (List α)) :
    runOps (op :: ops) file = runOps ops (op.run file) := rfl

@[simp] theorem runOps_append (ops ops' : List (FileOp α)) (file : Option (List α)) :
    runOps (ops ++ ops') file = runOps ops' (runOps ops file) :=
  List.foldl_append

@[simp] theorem run_create (file : Option (List α)) : FileOp.create.run file = some [] := rfl

@[simp] theorem run_writeAt (off : ℕ) (c x : List α) :
    (FileOp.writeAt off c).run (some x) = some (overlay x off c) := rfl

@[simp] theorem overlay_nil (x : List α) (off : ℕ) : overlay x off [] = x := rfl

theorem overlay_of_ne_nil (x : List α) (off : ℕ) {c : List α} (hc : c ≠ []) :
    overlay x off c =
      x.take off ++ (List.replicate (off - x.length) 0 ++ (c ++ x.drop (off + c.length))) := by
  rw [overlay, if_neg (by simpa using hc)]

theorem overlay_length (x c : List α) : overlay x x.length c = x ++ c := by
  by_cases hc : c = []
  · simp [hc]
  · rw [overlay_of_ne_nil x x.length hc]
    simp

theorem length_overlay (x : List α) (off : ℕ) {c : List α} (hc : c ≠ []) :
    (overlay x off c).length = max x.length (off + c.length) := by
  rw [overlay_of_ne_nil x off hc]
  simp only [List.length_append, List.length_take, List.length_replicate, List.length_drop]
  omega

theorem getElem?_overlay_inside (x : List α) {off p : ℕ} {d : List α} (hoff : off ≤ p)
    (hp : p < off + d.length) : (overlay x off d)[p]? = d[p - off]? := by
  have hd : d ≠ [] := by
    rintro rfl
    simp at hp
    omega
  have hlen : (x.take off).length + (off - x.length) = off := by
    rw [List.length_take]
    omega
  rw [overlay_of_ne_nil x off hd, List.getElem?_append_right (by omega),
    List.getElem?_append_right (by rw [List.length_replicate]; omega), List.length_replicate,
    List.getElem?_append_left (by omega)]
  congr 1
  omega

theorem getElem?_overlay_outside {x : List α} {off p : ℕ} {c : List α} (hp : p < x.length)
    (hout : p < off ∨ off + c.length ≤ p) : (overlay x off c)[p]? = x[p]? := by
  by_cases hc : c = []
  · rw [hc, overlay_nil]
  · rw [overlay_of_ne_nil x off hc]
    rcases hout with hlt | hle
    · rw [List.getElem?_append_left (by rw [List.length_take]; omega), List.getElem?_take,
        if_pos hlt]
    · have htake : (x.take off).length = off := by
        rw [List.length_take]
        omega
      have hrep : (List.replicate (off - x.length) (0 : α)).length = 0 := by
        rw [List.length_replicate]
        omega
      rw [List.getElem?_append_right (by omega), List.getElem?_append_right (by omega),
        List.getElem?_append_right (by omega), List.getElem?_drop]
      congr 1
      omega

end

/-! ### Writers of one text -/

def Writes (t : List α) (ops : List (FileOp α)) : Prop :=
  ∀ op ∈ ops, ∃ off c, op = .writeAt off c ∧ c <+: t.drop off

def Covers (ops : List (FileOp α)) (p : ℕ) : Prop :=
  ∃ off c, FileOp.writeAt off c ∈ ops ∧ off ≤ p ∧ p < off + c.length

theorem writes_nil (t : List α) : Writes t [] := by
  intro op hop
  cases hop

theorem Writes.append {t : List α} {ops ops' : List (FileOp α)} (h : Writes t ops)
    (h' : Writes t ops') : Writes t (ops ++ ops') := by
  intro op hop
  rcases List.mem_append.mp hop with hop | hop
  · exact h op hop
  · exact h' op hop

theorem Covers.append_left {ops : List (FileOp α)} {p : ℕ} (h : Covers ops p)
    (ops' : List (FileOp α)) : Covers (ops ++ ops') p := by
  obtain ⟨off, c, hmem, hoff, hp⟩ := h
  exact ⟨off, c, List.mem_append_left _ hmem, hoff, hp⟩

theorem Covers.append_right {ops' : List (FileOp α)} {p : ℕ} (h : Covers ops' p)
    (ops : List (FileOp α)) : Covers (ops ++ ops') p := by
  obtain ⟨off, c, hmem, hoff, hp⟩ := h
  exact ⟨off, c, List.mem_append_right _ hmem, hoff, hp⟩

structure Filling (t : List α) (ops : List (FileOp α)) (x : List α) : Prop where
  length_le : x.length ≤ t.length
  correct : ∀ p < t.length, Covers ops p ∨ x[p]? = t[p]?

theorem Filling.of_empty {t : List α} {ops : List (FileOp α)} (h : ∀ p < t.length, Covers ops p) :
    Filling t ops [] :=
  ⟨Nat.zero_le _, fun p hp => .inl (h p hp)⟩

theorem Filling.eq {t x : List α} (h : Filling t [] x) : x = t := by
  have hget : ∀ p < t.length, x[p]? = t[p]? := by
    intro p hp
    rcases h.correct p hp with ⟨off, c, hmem, -⟩ | hp
    · cases hmem
    · exact hp
  refine List.ext_getElem? fun p => ?_
  by_cases hp : p < t.length
  · exact hget p hp
  · have := h.length_le
    rw [List.getElem?_eq_none (by omega), List.getElem?_eq_none (by omega)]

theorem filling_self (t : List α) : Filling t [] t :=
  ⟨Nat.le_refl _, fun _ _ => .inr rfl⟩

variable [Zero α]

theorem getElem?_overlay_agrees {t x c : List α} {off p : ℕ} (hc : c <+: t.drop off)
    (hoff : off ≤ p) (hp : p < off + c.length) : (overlay x off c)[p]? = t[p]? := by
  obtain ⟨s, hs⟩ := hc
  have ht : (t.drop off)[p - off]? = t[p]? := by
    rw [List.getElem?_drop]
    congr 1
    omega
  rw [getElem?_overlay_inside x hoff hp, ← ht, ← hs, List.getElem?_append_left (by omega)]

/-- A write of the text, by whomever, leaves a file that is filled as it was. -/
theorem Filling.overlay {t x c : List α} {ops : List (FileOp α)} {off : ℕ} (h : Filling t ops x)
    (hc : c <+: t.drop off) : Filling t ops (overlay x off c) := by
  by_cases hnil : c = []
  · rw [hnil, overlay_nil]
    exact h
  refine ⟨?_, fun p hp => ?_⟩
  · have hlen := hc.length_le
    have hpos := List.length_pos_iff.mpr hnil
    have := h.length_le
    rw [List.length_drop] at hlen
    rw [length_overlay x off hnil]
    omega
  · rcases h.correct p hp with hcov | heq
    · exact .inl hcov
    · right
      by_cases hin : off ≤ p ∧ p < off + c.length
      · exact getElem?_overlay_agrees hc hin.1 hin.2
      · have hx : p < x.length := by
          by_contra hx
          rw [List.getElem?_eq_none (by omega), List.getElem?_eq_getElem hp] at heq
          cases heq
        rw [getElem?_overlay_outside hx (by omega), heq]

theorem Filling.next {t x c : List α} {ops : List (FileOp α)} {off : ℕ}
    (h : Filling t (.writeAt off c :: ops) x) (hc : c <+: t.drop off) :
    Filling t ops (FileWrites.overlay x off c) := by
  obtain ⟨hlen, hcorrect⟩ := h.overlay hc
  refine ⟨hlen, fun p hp => ?_⟩
  rcases hcorrect p hp with ⟨off', c', hmem, hoff, hp'⟩ | heq
  · rcases List.mem_cons.mp hmem with hhead | htail
    · cases hhead
      exact .inr (getElem?_overlay_agrees hc hoff hp')
    · exact .inl ⟨off', c', htail, hoff, hp'⟩
  · exact .inr heq

theorem Filling.runOps {t x : List α} {ops : List (FileOp α)} (h : Filling t ops x)
    (hws : Writes t ops) : runOps ops (some x) = some t := by
  induction ops generalizing x with
  | nil => rw [runOps_nil, h.eq]
  | cons op ops ih =>
      obtain ⟨off, c, rfl, hc⟩ := hws op List.mem_cons_self
      exact ih (h.next hc) fun op' hop' => hws op' (List.mem_cons_of_mem _ hop')

end CloudBackup.FileWrites
