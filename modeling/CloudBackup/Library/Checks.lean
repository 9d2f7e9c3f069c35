import Mathlib.Data.List.Basic
import Mathlib.Data.List.Forall2
import Mathlib.Data.List.Nodup
import Mathlib.Tactic.Common

/-!
Validation as a sequence of checks, of which the first that fails says what is wrong.
`forAll` makes a check of every element of a list, and `forAllNamed` one of a list whose
elements must have names of their own; the position of the element is there for the
message. What a list has passed is said element by element by `forAll_ok` and
`forAllNamed_ok`.
-/

namespace CloudBackup.Checks

variable {α ν ε : Type}

abbrev Check (ε : Type) := Except ε Unit

def Check.andThen : Check ε → Check ε → Check ε
  | .ok (), c => c
  | .error e, _ => .error e

def require (p : Bool) (e : ε) : Check ε := if p then .ok () else .error e

@[simp] theorem andThen_ok {c d : Check ε} : c.andThen d = .ok () ↔ c = .ok () ∧ d = .ok () := by
  cases c with
  | ok => simp [Check.andThen]
  | error e => simp [Check.andThen]

@[simp] theorem require_ok {p : Bool} {e : ε} : require p e = .ok () ↔ p = true := by
  cases p <;> simp [require]

def Check.under {ε' : Type} (wrap : ε → ε') : Check ε → Check ε'
  | .ok () => .ok ()
  | .error e => .error (wrap e)

@[simp] theorem under_ok {ε' : Type} {wrap : ε → ε'} {c : Check ε} : c.under wrap = .ok () ↔ c = .ok () := by
  cases c <;> simp [Check.under]

def forAll (check : α → Check ε) : List α → Check ε
  | [] => .ok ()
  | a :: l => (check a).andThen (forAll check l)

@[simp] theorem forAll_ok {check : α → Check ε} {l : List α} :
    forAll check l = .ok () ↔ ∀ a ∈ l, check a = .ok () := by
  induction l with
  | nil => simp [forAll]
  | cons a l ih => simp [forAll, ih]

section Named

variable [DecidableEq ν] (name : α → ν) (taken : α → ε) (check : ℕ → α → Check ε)

/-- `names` are those of the elements before, and `i` is the place of the next one. -/
def forAllNamedFrom : List ν → ℕ → List α → Check ε
  | _, _, [] => .ok ()
  | names, i, a :: l =>
      (require (!names.any (fun n => n = name a)) (taken a)).andThen
        ((check i a).andThen (forAllNamedFrom (names ++ [name a]) (i + 1) l))

def forAllNamed (l : List α) : Check ε := forAllNamedFrom name taken check [] 0 l

variable {name taken check}

theorem isFree_iff {names : List ν} {n : ν} : (!names.any fun m => m = n) = true ↔ n ∉ names := by
  simp only [Bool.not_eq_true', List.any_eq_false, decide_eq_true_eq]
  exact ⟨fun h hmem => h _ hmem rfl, fun h m hm heq => h (heq ▸ hm)⟩

theorem forAllNamedFrom_cons_taken {names : List ν} {i : ℕ} {a : α} {l : List α} (h : name a ∈ names) :
    forAllNamedFrom name taken check names i (a :: l) = .error (taken a) := by
  rw [forAllNamedFrom, require, if_neg (isFree_iff.not.mpr (not_not.mpr h))]
  rfl

theorem forAllNamedFrom_cons_free {names : List ν} {i : ℕ} {a : α} {l : List α} (h : name a ∉ names) :
    forAllNamedFrom name taken check names i (a :: l) =
      (check i a).andThen (forAllNamedFrom name taken check (names ++ [name a]) (i + 1) l) := by
  rw [forAllNamedFrom, require, if_pos (isFree_iff.mpr h)]
  rfl

theorem forAllNamedFrom_ok (hcheck : ∀ i j a, check i a = .ok () → check j a = .ok ()) {l : List α}
    {names : List ν} {i : ℕ} : forAllNamedFrom name taken check names i l = .ok () ↔
      (∀ a ∈ l, name a ∉ names) ∧ (l.map name).Nodup ∧ ∀ a ∈ l, check 0 a = .ok () := by
  induction l generalizing names i with
  | nil => simp [forAllNamedFrom]
  | cons a l ih =>
      have hfirst : check i a = .ok () ↔ check 0 a = .ok () := ⟨hcheck i 0 a, hcheck 0 i a⟩
      rw [forAllNamedFrom, andThen_ok, andThen_ok, require_ok, isFree_iff, hfirst, ih]
      simp only [List.mem_append, List.mem_singleton, not_or, List.forall_mem_cons, List.map_cons,
        List.nodup_cons, List.mem_map, not_exists, not_and]
      constructor
      · rintro ⟨ha, hca, hl, hnd, hc⟩
        exact ⟨⟨ha, fun b hb => (hl b hb).1⟩, ⟨fun b hb => (hl b hb).2, hnd⟩, hca, hc⟩
      · rintro ⟨⟨ha, hl⟩, ⟨hne, hnd⟩, hca, hc⟩
        exact ⟨ha, hca, fun b hb => ⟨hl b hb, hne b hb⟩, hnd, hc⟩

/-- The list has passed: the names are distinct, and each element has passed. -/
theorem forAllNamed_ok (hcheck : ∀ i j a, check i a = .ok () → check j a = .ok ()) {l : List α} :
    forAllNamed name taken check l = .ok () ↔ (l.map name).Nodup ∧ ∀ a ∈ l, check 0 a = .ok () := by
  rw [forAllNamed, forAllNamedFrom_ok hcheck]
  simp

end Named

/-! ### Errors -/

def Check.Errs (P : ε → Prop) (c : Check ε) : Prop := ∀ e, c = .error e → P e

section Errs

variable {P : ε → Prop}

theorem errs_ok : Check.Errs P (.ok ()) := fun _ h => (by cases h)

theorem errs_error {e : ε} (he : P e) : Check.Errs P (.error e) := by
  intro e' h
  cases h
  exact he

theorem Check.Errs.andThen {c d : Check ε} (hc : c.Errs P) (hd : d.Errs P) : (c.andThen d).Errs P := by
  cases c with
  | ok => exact hd
  | error e => exact hc

theorem errs_require {p : Bool} {e : ε} (he : P e) : (require p e).Errs P := by
  intro e' h
  cases p with
  | true => cases h
  | false =>
      cases h
      exact he

theorem errs_under {ε' : Type} {wrap : ε' → ε} (hwrap : ∀ e, P (wrap e)) (c : Check ε') : (c.under wrap).Errs P := by
  intro e h
  cases c with
  | ok => cases h
  | error e' =>
      cases h
      exact hwrap e'

theorem errs_forAll {check : α → Check ε} (h : ∀ a, (check a).Errs P) (l : List α) : (forAll check l).Errs P := by
  induction l with
  | nil => exact errs_ok
  | cons a l ih => exact (h a).andThen ih

theorem errs_forAllNamed [DecidableEq ν] {name : α → ν} {taken : α → ε} {check : ℕ → α → Check ε}
    (htaken : ∀ a, P (taken a)) (h : ∀ i a, (check i a).Errs P) (l : List α) :
    (forAllNamed name taken check l).Errs P := by
  suffices hfrom : ∀ names i, (forAllNamedFrom name taken check names i l).Errs P from hfrom [] 0
  induction l with
  | nil => exact fun _ _ => errs_ok
  | cons a l ih => exact fun names i => (errs_require (htaken a)).andThen ((h i a).andThen (ih _ _))

end Errs

/-! ### Checks that forget errors -/

def Check.Fails (P : ε → Prop) (c : Check ε) : Prop := ∃ e, P e ∧ c = .error e

/-- Both end in the same way, unless the first one ends with an error of the kind. -/
def Check.SameUnless (P : ε → Prop) (c d : Check ε) : Prop := c = d ∨ c.Fails P

section SameUnless

variable {P : ε → Prop}

theorem Check.Errs.not_fails {c : Check ε} (h : c.Errs fun e => ¬ P e) : ¬ c.Fails P :=
  fun ⟨e, he, hc⟩ => h e hc he

theorem Check.Errs.fails_iff {c : Check ε} (h : c.Errs P) : c.Fails P ↔ c ≠ .ok () := by
  cases c with
  | ok _ => exact iff_of_false (fun ⟨_, _, hc⟩ => by cases hc) fun hne => hne rfl
  | error e => exact iff_of_true ⟨e, h e rfl, rfl⟩ nofun

theorem Check.Errs.andThen_fails_iff {c : Check ε} (h : c.Errs fun e => ¬ P e) (d : Check ε) :
    (c.andThen d).Fails P ↔ c = .ok () ∧ d.Fails P := by
  cases c with
  | ok _ => exact (and_iff_right rfl).symm
  | error e => exact iff_of_false h.not_fails fun hd => by cases hd.1

theorem Check.Errs.fails_andThen_iff {d : Check ε} (h : d.Errs fun e => ¬ P e) (c : Check ε) :
    (c.andThen d).Fails P ↔ c.Fails P := by
  cases c with
  | ok _ => exact iff_of_false h.not_fails fun ⟨_, _, hc⟩ => by cases hc
  | error e => exact Iff.rfl

theorem Check.SameUnless.andThen {c c' d d' : Check ε} (hc : c.SameUnless P c') (hd : d.SameUnless P d') :
    (c.andThen d).SameUnless P (c'.andThen d') := by
  rcases hc with rfl | ⟨e, he, rfl⟩
  · cases c with
    | ok => exact hd
    | error e => exact .inl rfl
  · exact .inr ⟨e, he, rfl⟩

/-- Where the second one never has an error of the kind, they differ just when the first one has. -/
theorem Check.SameUnless.eq_iff {c d : Check ε} (h : c.SameUnless P d) (hd : d.Errs fun e => ¬ P e) :
    c = d ↔ ¬ c.Fails P := by
  constructor
  · rintro rfl
    exact hd.not_fails
  · intro hnone
    exact h.resolve_right hnone

theorem sameUnless_forAllNamed [DecidableEq ν] {name : α → ν} {taken : α → ε} {strict lenient : ℕ → α → Check ε}
    (h : ∀ i a, (strict i a).SameUnless P (lenient i a)) (l : List α) :
    (forAllNamed name taken strict l).SameUnless P (forAllNamed name taken lenient l) := by
  suffices hfrom : ∀ names i, (forAllNamedFrom name taken strict names i l).SameUnless P
      (forAllNamedFrom name taken lenient names i l) from hfrom [] 0
  induction l with
  | nil => exact fun _ _ => .inl rfl
  | cons a l ih => exact fun names i => Check.SameUnless.andThen (.inl rfl) ((h i a).andThen (ih _ _))

end SameUnless

/-! ### The first element that fails -/

section FailsFirst

variable (name : α → ν) (Passes Fails : α → Prop)

/-- An element fails, all before it pass, and none of them has one of the names or a name twice. -/
def FailsFirstFrom (names : List ν) (l : List α) : Prop :=
  ∃ pre a post, l = pre ++ a :: post ∧ (∀ b ∈ pre ++ [a], name b ∉ names) ∧ ((pre ++ [a]).map name).Nodup ∧
    (∀ b ∈ pre, Passes b) ∧ Fails a

/-- An element fails, all before it pass, and none of them has a name twice. -/
def FailsFirst (l : List α) : Prop :=
  ∃ pre a post, l = pre ++ a :: post ∧ ((pre ++ [a]).map name).Nodup ∧ (∀ b ∈ pre, Passes b) ∧ Fails a

variable {name Passes Fails}

theorem not_failsFirstFrom_nil {names : List ν} : ¬ FailsFirstFrom name Passes Fails names [] := by
  rintro ⟨pre, a, post, h, -⟩
  cases pre <;> cases h

theorem failsFirstFrom_cons {names : List ν} {a : α} {l : List α} :
    FailsFirstFrom name Passes Fails names (a :: l) ↔
      name a ∉ names ∧ (Fails a ∨ Passes a ∧ FailsFirstFrom name Passes Fails (names ++ [name a]) l) := by
  constructor
  · rintro ⟨pre, b, post, hl, hnames, hnodup, hpre, hb⟩
    cases pre with
    | nil =>
        cases hl
        exact ⟨hnames a (List.mem_singleton_self a), .inl hb⟩
    | cons c pre =>
        cases hl
        rw [List.cons_append, List.forall_mem_cons] at hnames
        rw [List.cons_append, List.map_cons, List.nodup_cons] at hnodup
        rw [List.forall_mem_cons] at hpre
        refine ⟨hnames.1, .inr ⟨hpre.1, pre, b, post, rfl, fun d hd hmem => ?_, hnodup.2, hpre.2, hb⟩⟩
        rcases List.mem_append.mp hmem with hold | hnew
        · exact hnames.2 d hd hold
        · exact hnodup.1 (List.mem_map.mpr ⟨d, hd, List.mem_singleton.mp hnew⟩)
  · rintro ⟨hfree, hfails | ⟨hpasses, pre, b, post, rfl, hnames, hnodup, hpre, hb⟩⟩
    · exact ⟨[], a, l, rfl, by simpa using hfree, List.nodup_singleton _, by simp, hfails⟩
    · refine ⟨a :: pre, b, post, rfl, ?_, ?_, List.forall_mem_cons.mpr ⟨hpasses, hpre⟩, hb⟩
      · rw [List.cons_append, List.forall_mem_cons]
        exact ⟨hfree, fun c hc hmem => hnames c hc (List.mem_append_left _ hmem)⟩
      · rw [List.cons_append, List.map_cons, List.nodup_cons]
        refine ⟨fun hmem => ?_, hnodup⟩
        obtain ⟨c, hc, hname⟩ := List.mem_map.mp hmem
        exact hnames c hc (List.mem_append_right _ (List.mem_singleton.mpr hname))

variable [DecidableEq ν] {P : ε → Prop} {taken : α → ε} {check : ℕ → α → Check ε}

theorem forAllNamedFrom_fails_iff (htaken : ∀ a, ¬ P (taken a)) (hok : ∀ i a, check i a = .ok () ↔ Passes a)
    (hfails : ∀ i a, (check i a).Fails P ↔ Fails a) {l : List α} {names : List ν} {i : ℕ} :
    (forAllNamedFrom name taken check names i l).Fails P ↔
      FailsFirstFrom name Passes Fails names l := by
  induction l generalizing names i with
  | nil => exact iff_of_false (fun ⟨e, _, h⟩ => by cases h) not_failsFirstFrom_nil
  | cons a l ih =>
      rw [failsFirstFrom_cons]
      by_cases hfree : name a ∈ names
      · rw [forAllNamedFrom_cons_taken hfree]
        refine iff_of_false ?_ fun h => h.1 hfree
        rintro ⟨e, he, h⟩
        cases h
        exact htaken a he
      · rw [forAllNamedFrom_cons_free hfree, and_iff_right hfree, ← hok i a, ← hfails i a]
        cases hcheck : check i a with
        | error e => simp [Check.andThen, Check.Fails]
        | ok _ => simpa [Check.andThen, Check.Fails] using ih

/-- An error of a kind comes from the first element that fails, unless it is about the names. -/
theorem forAllNamed_fails_iff (htaken : ∀ a, ¬ P (taken a)) (hok : ∀ i a, check i a = .ok () ↔ Passes a)
    (hfails : ∀ i a, (check i a).Fails P ↔ Fails a) {l : List α} :
    (forAllNamed name taken check l).Fails P ↔ FailsFirst name Passes Fails l := by
  rw [forAllNamed, forAllNamedFrom_fails_iff htaken hok hfails, FailsFirstFrom, FailsFirst]
  simp only [List.not_mem_nil, not_false_eq_true, implies_true, true_and]

end FailsFirst

/-! ### Search -/

theorem find?_of_unique {p : α → Bool} {l : List α} {a : α} (ha : a ∈ l) (hp : p a = true)
    (h : ∀ b ∈ l, p b = true → b = a) : l.find? p = some a := by
  cases hf : l.find? p with
  | none => exact absurd hp (List.find?_eq_none.mp hf a ha)
  | some b => rw [h b (List.mem_of_find?_eq_some hf) (List.find?_some hf)]

/-- By its name, an element of a list without a name twice is found. -/
theorem find?_of_nodup [DecidableEq ν] {name : α → ν} {l : List α} (hl : (l.map name).Nodup) {a : α} (ha : a ∈ l) :
    l.find? (fun b => name b = name a) = some a :=
  find?_of_unique ha (decide_eq_true rfl) fun _ hb heq =>
    List.inj_on_of_nodup_map hl hb ha (of_decide_eq_true heq)

theorem find?_of_countP {p : α → Bool} {l : List α} (hl : l.countP p ≤ 1) {a : α} (ha : a ∈ l) (hp : p a = true) :
    l.find? p = some a := by
  induction l with
  | nil => cases ha
  | cons b l ih =>
      cases hb : p b with
      | true =>
          rw [List.countP_cons_of_pos hb] at hl
          rcases List.mem_cons.mp ha with rfl | ha
          · rw [List.find?_cons_of_pos hb]
          · exact absurd (List.countP_pos_iff.mpr ⟨a, ha, hp⟩) (by omega)
      | false =>
          rw [List.countP_cons_of_neg (by simp [hb])] at hl
          rcases List.mem_cons.mp ha with rfl | ha
          · rw [hp] at hb
            cases hb
          · rw [List.find?_cons_of_neg (by simp [hb])]
            exact ih hl ha

/-! ### Changes that can fail -/

theorem ok_bind {β : Type} (a : α) (f : α → Except ε β) : (Except.ok a >>= f) = f a := rfl

theorem bind_ok {β : Type} {x : Except ε α} {f : α → Except ε β} {b : β} :
    x >>= f = .ok b ↔ ∃ a, x = .ok a ∧ f a = .ok b := by
  cases x with
  | error e => exact ⟨fun h => (by cases h), fun ⟨a, ha, _⟩ => (by cases ha)⟩
  | ok a => exact ⟨fun h => ⟨a, rfl, h⟩, fun ⟨a', ha, h⟩ => (by cases ha; exact h)⟩

theorem bind_error {β : Type} {x : Except ε α} {f : α → Except ε β} {e : ε} (h : x >>= f = .error e) :
    x = .error e ∨ ∃ a, x = .ok a ∧ f a = .error e := by
  cases x with
  | error e' =>
      cases h
      exact .inl rfl
  | ok a => exact .inr ⟨a, rfl, h⟩

def mapAllFrom {β : Type} (f : ℕ → α → Except ε β) : ℕ → List α → Except ε (List β)
  | _, [] => .ok []
  | i, a :: l => do
      let b ← f i a
      let rest ← mapAllFrom f (i + 1) l
      return b :: rest

def mapAll {β : Type} (f : α → Except ε β) (l : List α) : Except ε (List β) := mapAllFrom (fun _ => f) 0 l

section MapAll

variable {β : Type} {f : ℕ → α → Except ε β} {i : ℕ} {l : List α} {l' : List β}

theorem mapAllFrom_cons {a : α} {b : β} (hb : f i a = .ok b) (h : mapAllFrom f (i + 1) l = .ok l') :
    mapAllFrom f i (a :: l) = .ok (b :: l') := by
  rw [mapAllFrom, hb]
  simp only [bind, Except.bind, h]
  rfl

theorem mapAllFrom_forall₂ (h : mapAllFrom f i l = .ok l') :
    List.Forall₂ (fun a b => ∃ k, f k a = .ok b) l l' := by
  induction l generalizing i l' with
  | nil =>
      cases h
      exact .nil
  | cons a l ih =>
      obtain ⟨b, hb, h⟩ := bind_ok.mp h
      obtain ⟨rest, hrest, h⟩ := bind_ok.mp h
      cases h
      exact .cons ⟨i, hb⟩ (ih hrest)

theorem mapAllFrom_of_forall₂ (h : List.Forall₂ (fun a b => ∀ k, f k a = .ok b) l l') :
    mapAllFrom f i l = .ok l' := by
  induction h generalizing i with
  | nil => rfl
  | cons hb _ ih => exact mapAllFrom_cons (hb i) ih

theorem mapAll_ok {f : α → Except ε β} : mapAll f l = .ok l' ↔ List.Forall₂ (fun a b => f a = .ok b) l l' := by
  constructor
  · intro h
    exact (mapAllFrom_forall₂ h).imp fun a b ⟨_, hb⟩ => hb
  · intro h
    exact mapAllFrom_of_forall₂ (h.imp fun a b hb _ => hb)

theorem mapAllFrom_error {e : ε} (h : mapAllFrom f i l = .error e) : ∃ k, ∃ a ∈ l, f k a = .error e := by
  induction l generalizing i with
  | nil => cases h
  | cons a l ih =>
      rcases bind_error h with ha | ⟨b, -, h⟩
      · exact ⟨i, a, List.mem_cons_self, ha⟩
      · rcases bind_error h with hl | ⟨rest, -, h⟩
        · obtain ⟨k, a', ha', hk⟩ := ih hl
          exact ⟨k, a', List.mem_cons_of_mem a ha', hk⟩
        · cases h

end MapAll

/-! ### Only the error -/

def errorOf : Except ε α → Option ε
  | .ok _ => none
  | .error e => some e

@[simp] theorem errorOf_ok (a : α) : errorOf (.ok a : Except ε α) = none := rfl

@[simp] theorem errorOf_error (e : ε) : errorOf (.error e : Except ε α) = some e := rfl

theorem errorOf_eq_some {x : Except ε α} {e : ε} : errorOf x = some e ↔ x = .error e := by
  cases x <;> simp

section ErrorOf

variable {β γ : Type}

theorem errorOf_bind (x : Except ε α) (f : α → Except ε β) {n : Option ε} (hf : ∀ a, x = .ok a → errorOf (f a) = n) :
    errorOf (x >>= f) = (errorOf x).or n := by
  cases x with
  | ok a => exact hf a rfl
  | error e => rfl

theorem errorOf_mapAllFrom_cons (f : ℕ → α → Except ε β) (i : ℕ) (a : α) (l : List α) :
    errorOf (mapAllFrom f i (a :: l)) = (errorOf (f i a)).or (errorOf (mapAllFrom f (i + 1) l)) := by
  rw [mapAllFrom]
  refine errorOf_bind _ _ fun b _ => ?_
  rw [errorOf_bind _ _ (n := none) fun _ _ => rfl, Option.or_none]

theorem errorOf_mapAllFrom_congr {f : ℕ → α → Except ε β} {g : ℕ → α → Except ε γ}
    (h : ∀ i a, errorOf (f i a) = errorOf (g i a)) (i : ℕ) (l : List α) :
    errorOf (mapAllFrom f i l) = errorOf (mapAllFrom g i l) := by
  induction l generalizing i with
  | nil => rfl
  | cons a l ih => rw [errorOf_mapAllFrom_cons, errorOf_mapAllFrom_cons, h i a, ih]

variable {f : ℕ → α → Except ε β} {P : α → Prop}

theorem errorOf_mapAllFrom_eq_none (hok : ∀ i a, errorOf (f i a) = none ↔ P a) {i : ℕ} {l : List α} :
    errorOf (mapAllFrom f i l) = none ↔ ∀ a ∈ l, P a := by
  induction l generalizing i with
  | nil => simp [mapAllFrom]
  | cons a l ih => rw [errorOf_mapAllFrom_cons, Option.or_eq_none_iff, hok, ih, List.forall_mem_cons]

/-- The error is that of the first element that has one. -/
theorem errorOf_mapAllFrom_eq_some (hok : ∀ i a, errorOf (f i a) = none ↔ P a) {i : ℕ} {l : List α} {e : ε} :
    errorOf (mapAllFrom f i l) = some e ↔
      ∃ pre a post, l = pre ++ a :: post ∧ (∀ b ∈ pre, P b) ∧ errorOf (f (i + pre.length) a) = some e := by
  induction l generalizing i with
  | nil => simp [mapAllFrom]
  | cons a l ih =>
      rw [errorOf_mapAllFrom_cons]
      cases ha : errorOf (f i a) with
      | some e' =>
          have hnot : ¬ P a := by
            rw [← hok i a, ha]
            exact nofun
          constructor
          · intro h
            exact ⟨[], a, l, rfl, by simp, ha.trans h⟩
          · rintro ⟨pre, b, post, hl, hpre, he⟩
            cases pre with
            | nil =>
                cases hl
                exact ha.symm.trans he
            | cons c pre =>
                cases hl
                exact absurd (hpre a List.mem_cons_self) hnot
      | none =>
          have hpasses : P a := (hok i a).mp ha
          rw [Option.none_or, ih]
          constructor
          · rintro ⟨pre, b, post, rfl, hpre, he⟩
            refine ⟨a :: pre, b, post, rfl, List.forall_mem_cons.mpr ⟨hpasses, hpre⟩, ?_⟩
            rwa [List.length_cons, Nat.add_comm pre.length 1, ← Nat.add_assoc]
          · rintro ⟨pre, b, post, hl, hpre, he⟩
            cases pre with
            | nil =>
                cases hl
                cases ha.symm.trans he
            | cons c pre =>
                cases hl
                refine ⟨pre, b, post, rfl, (List.forall_mem_cons.mp hpre).2, ?_⟩
                rwa [List.length_cons, Nat.add_comm pre.length 1, ← Nat.add_assoc] at he

end ErrorOf

section Forall

variable {β : Type} {R : α → β → Prop} {l : List α} {l' : List β}

theorem forall_of_forall₂ {P : α → Prop} {Q : β → Prop} (h : List.Forall₂ R l l') (hR : ∀ a b, R a b → P a → Q b)
    (hl : ∀ a ∈ l, P a) : ∀ b ∈ l', Q b := by
  induction h with
  | nil => exact fun b hb => absurd hb List.not_mem_nil
  | cons hab _ ih =>
      rw [List.forall_mem_cons] at hl ⊢
      exact ⟨hR _ _ hab hl.1, ih hl.2⟩

theorem map_eq_of_forall₂ {γ : Type} {f : α → γ} {g : β → γ} (h : List.Forall₂ R l l')
    (hR : ∀ a b, R a b → g b = f a) : l'.map g = l.map f := by
  induction h with
  | nil => rfl
  | cons hab _ ih => rw [List.map_cons, List.map_cons, hR _ _ hab, ih]

theorem any_eq_of_forall₂ {p : α → Bool} {q : β → Bool} (h : List.Forall₂ R l l')
    (hR : ∀ a b, R a b → q b = p a) : l'.any q = l.any p := by
  induction h with
  | nil => rfl
  | cons hab _ ih => rw [List.any_cons, List.any_cons, hR _ _ hab, ih]

end Forall

end CloudBackup.Checks
