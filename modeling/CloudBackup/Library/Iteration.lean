import Mathlib.Data.List.Basic
import Mathlib.Tactic.Common

/-!
Loops that can be left early, over an explicit state. A pass of the body either
goes on to the next element or stops the loop, with a reason.

`forEach` has two rules. `forEach_invariant` is for what every pass keeps, how
ever the loop ends. `forEach_next` is for a loop that went through: its invariant
speaks of the elements that were already visited. `forEach_stop` names the pass
that stopped a loop, and so leads back to the second rule for the passes before;
`forEach_visited` puts the two together. `ComesTo` speaks of a single pass and the
state that it starts from.

`untilStop` is the loop that has nothing to go through: it ends when a pass stops
it, and `untilStop_of_decreasing` is the rule for that.
-/

namespace CloudBackup.Iteration

variable {α σ ε : Type}

inductive Flow (σ ε : Type)
  | next (s : σ)
  | stop (e : ε) (s : σ)
  deriving DecidableEq, Repr

def Flow.state : Flow σ ε → σ
  | .next s => s
  | .stop _ s => s

@[simp] theorem Flow.state_next (s : σ) : (Flow.next s : Flow σ ε).state = s := rfl

@[simp] theorem Flow.state_stop (e : ε) (s : σ) : (Flow.stop e s).state = s := rfl

def Flow.andThen : Flow σ ε → (σ → Flow σ ε) → Flow σ ε
  | .next s, f => f s
  | .stop e s, _ => .stop e s

def forEach (body : α → σ → Flow σ ε) : List α → σ → Flow σ ε
  | [], s => .next s
  | a :: l, s =>
      match body a s with
      | .next s' => forEach body l s'
      | .stop e s' => .stop e s'

variable {body : α → σ → Flow σ ε}

@[simp] theorem Flow.andThen_next (s : σ) (f : σ → Flow σ ε) : (Flow.next s).andThen f = f s := rfl

@[simp] theorem Flow.andThen_stop (e : ε) (s : σ) (f : σ → Flow σ ε) :
    (Flow.stop e s).andThen f = .stop e s := rfl

@[simp] theorem forEach_nil (s : σ) : forEach body [] s = .next s := rfl

theorem forEach_cons_next {a : α} {l : List α} {s s' : σ} (h : body a s = .next s') :
    forEach body (a :: l) s = forEach body l s' := by
  rw [forEach, h]

theorem forEach_cons_stop {a : α} {l : List α} {s s' : σ} {e : ε} (h : body a s = .stop e s') :
    forEach body (a :: l) s = .stop e s' := by
  rw [forEach, h]

theorem forEach_cons (a : α) (l : List α) (s : σ) :
    forEach body (a :: l) s = (body a s).andThen (forEach body l) := by
  rw [forEach]
  cases body a s <;> rfl

theorem forEach_singleton (a : α) (s : σ) : forEach body [a] s = body a s := by
  cases h : body a s with
  | next s' => rw [forEach_cons_next h, forEach_nil]
  | stop e s' => rw [forEach_cons_stop h]

/-- What holds of the state after a pass, and of the reason and the state if it stopped. -/
def Flow.Ensures (P : σ → Prop) (Q : ε → σ → Prop) : Flow σ ε → Prop
  | .next s => P s
  | .stop e s => Q e s

theorem Flow.Ensures.andThen {P P' : σ → Prop} {Q : ε → σ → Prop} {x : Flow σ ε} {f : σ → Flow σ ε}
    (hx : x.Ensures P Q) (hf : ∀ s, P s → (f s).Ensures P' Q) : (x.andThen f).Ensures P' Q := by
  cases x with
  | next s => exact hf s hx
  | stop e s => exact hx

theorem forEach_ensures {P : σ → Prop} {Q : ε → σ → Prop} (hbody : ∀ a s, P s → (body a s).Ensures P Q)
    (l : List α) {s : σ} (hs : P s) : (forEach body l s).Ensures P Q := by
  induction l generalizing s with
  | nil => exact hs
  | cons a l ih =>
      rw [forEach_cons]
      exact (hbody a s hs).andThen fun s' hs' => ih hs'

theorem forEach_invariant {I : σ → Prop} {l : List α}
    (hbody : ∀ a ∈ l, ∀ s, I s → I (body a s).state) {s : σ} (hs : I s) :
    I (forEach body l s).state := by
  induction l generalizing s with
  | nil => exact hs
  | cons a l ih =>
      have ha := hbody a (by simp) s hs
      cases hf : body a s with
      | next s' =>
          rw [hf] at ha
          rw [forEach_cons_next hf]
          exact ih (fun b hb => hbody b (List.mem_cons_of_mem a hb)) ha
      | stop e s' =>
          rw [hf] at ha
          rw [forEach_cons_stop hf]
          exact ha

theorem forEach_next {I : List α → σ → Prop} {l : List α} {s s' : σ} (hs : I [] s)
    (hbody : ∀ pre a post t t', l = pre ++ a :: post → I pre t → body a t = .next t' →
      I (pre ++ [a]) t') (h : forEach body l s = .next s') : I l s' := by
  -- the elements already visited are kept in `pre`
  suffices hgen : ∀ post pre t, l = pre ++ post → I pre t → forEach body post t = .next s' → I l s'
    from hgen l [] s rfl hs h
  intro post
  induction post with
  | nil =>
      intro pre t hl ht hf
      cases hf
      rw [hl, List.append_nil]
      exact ht
  | cons a post ih =>
      intro pre t hl ht hf
      cases hb : body a t with
      | next t' =>
          rw [forEach_cons_next hb] at hf
          exact ih (pre ++ [a]) t' (by rw [hl, List.append_assoc]; rfl) (hbody pre a post t t' hl ht hb) hf
      | stop e t' =>
          rw [forEach_cons_stop hb] at hf
          cases hf

/-- A loop that stopped did so in one of its passes. -/
theorem forEach_stop {l : List α} {s s' : σ} {e : ε} (h : forEach body l s = .stop e s') :
    ∃ pre a post t, l = pre ++ a :: post ∧ forEach body pre s = .next t ∧ body a t = .stop e s' := by
  induction l generalizing s with
  | nil => cases h
  | cons a l ih =>
      cases hb : body a s with
      | next t =>
          rw [forEach_cons_next hb] at h
          obtain ⟨pre, b, post, u, hl, hpre, hstop⟩ := ih h
          exact ⟨a :: pre, b, post, u, by rw [hl]; rfl, by rw [forEach_cons_next hb, hpre], hstop⟩
      | stop e' t =>
          rw [forEach_cons_stop hb] at h
          cases h
          exact ⟨[], a, l, s, rfl, rfl, hb⟩

theorem forEach_append (l l' : List α) (s : σ) :
    forEach body (l ++ l') s = (forEach body l s).andThen (forEach body l') := by
  induction l generalizing s with
  | nil => rfl
  | cons a l ih =>
      rw [List.cons_append, forEach_cons, forEach_cons]
      cases body a s with
      | next t => exact ih t
      | stop e t => rfl

theorem forEach_map {β : Type} (f : β → α) (l : List β) (s : σ) :
    forEach body (l.map f) s = forEach (fun b => body (f b)) l s := by
  induction l generalizing s with
  | nil => rfl
  | cons b l ih =>
      rw [List.map_cons, forEach_cons, forEach_cons]
      cases body (f b) s with
      | next t => exact ih t
      | stop e t => rfl

theorem forEach_flatMap {β : Type} (f : β → List α) (l : List β) (s : σ) :
    forEach body (l.flatMap f) s = forEach (fun b => forEach body (f b)) l s := by
  induction l generalizing s with
  | nil => rfl
  | cons b l ih =>
      rw [List.flatMap_cons, forEach_append, forEach_cons]
      cases forEach body (f b) s with
      | next t => exact ih t
      | stop e t => rfl

/-- The rule for a loop that may have been stopped: it has visited the first
elements of the list. -/
theorem forEach_visited {I : List α → σ → Prop} {l : List α} {s : σ} (hs : I [] s)
    (hbody : ∀ pre a post t, l = pre ++ a :: post → I pre t → I (pre ++ [a]) (body a t).state) :
    ∃ pre, pre <+: l ∧ I pre (forEach body l s).state ∧
      ∀ t, forEach body l s = .next t → pre = l := by
  cases hf : forEach body l s with
  | next t =>
      refine ⟨l, List.prefix_refl l, ?_, fun _ _ => rfl⟩
      refine forEach_next (I := I) hs ?_ hf
      intro pre a post u u' hl hu hb
      have hstep := hbody pre a post u hl hu
      rwa [hb] at hstep
  | stop e t =>
      obtain ⟨pre, a, post, u, hl, hpre, hstop⟩ := forEach_stop hf
      refine ⟨pre ++ [a], ⟨post, by rw [hl, List.append_assoc]; rfl⟩, ?_, nofun⟩
      have hu : I pre u := by
        refine forEach_next (I := I) hs ?_ hpre
        intro pre' b post' v v' hl' hv hb
        have hstep := hbody pre' b (post' ++ a :: post) v (by rw [hl, hl', List.append_assoc]; rfl) hv
        rwa [hb] at hstep
      have hstep := hbody pre a post u hl hu
      rwa [hstop] at hstep

/-! ### The passes of a loop -/

/-- The loop comes to a pass for `a`, which starts from the state `t`. -/
def ComesTo (body : α → σ → Flow σ ε) (l : List α) (s : σ) (a : α) (t : σ) : Prop :=
  ∃ pre post, l = pre ++ a :: post ∧ forEach body pre s = .next t

theorem ComesTo.mem {l : List α} {s t : σ} {a : α} (h : ComesTo body l s a t) : a ∈ l := by
  obtain ⟨pre, post, rfl, -⟩ := h
  simp

theorem comesTo_head (a : α) (l : List α) (s : σ) : ComesTo body (a :: l) s a s := ⟨[], l, rfl, rfl⟩

/-- The passes of what is left of the loop are passes of the loop. -/
theorem ComesTo.after {pre post : List α} {s t u : σ} {a : α} (hpre : forEach body pre s = .next t)
    (h : ComesTo body post t a u) : ComesTo body (pre ++ post) s a u := by
  obtain ⟨pre', post', rfl, hnext⟩ := h
  refine ⟨pre ++ pre', post', by rw [List.append_assoc], ?_⟩
  rw [forEach_append, hpre]
  exact hnext

theorem ComesTo.cons {l : List α} {s s' t : σ} {a b : α} (hb : body b s = .next s')
    (h : ComesTo body l s' a t) : ComesTo body (b :: l) s a t :=
  ComesTo.after (show forEach body [b] s = .next s' by rw [forEach_singleton, hb]) h

theorem comesTo_cons {l : List α} {s t : σ} {a b : α} (h : ComesTo body (b :: l) s a t) :
    (a = b ∧ t = s) ∨ ∃ s', body b s = .next s' ∧ ComesTo body l s' a t := by
  obtain ⟨pre, post, hl, hnext⟩ := h
  cases pre with
  | nil =>
      cases hl
      cases hnext
      exact .inl ⟨rfl, rfl⟩
  | cons c pre =>
      cases hl
      cases hb : body b s with
      | next s' =>
          rw [forEach_cons_next hb] at hnext
          exact .inr ⟨s', rfl, pre, post, rfl, hnext⟩
      | stop e s' =>
          rw [forEach_cons_stop hb] at hnext
          cases hnext

theorem comesTo_of_next {l : List α} {s s' : σ} {a : α} (h : forEach body l s = .next s') (ha : a ∈ l) :
    ∃ t t', ComesTo body l s a t ∧ body a t = .next t' := by
  induction l generalizing s with
  | nil => cases ha
  | cons b l ih =>
      cases hb : body b s with
      | stop e t =>
          rw [forEach_cons_stop hb] at h
          cases h
      | next t =>
          rw [forEach_cons_next hb] at h
          rcases List.mem_cons.mp ha with rfl | ha
          · exact ⟨s, t, comesTo_head a l s, hb⟩
          · obtain ⟨u, u', hu, hnext⟩ := ih h ha
            exact ⟨u, u', hu.cons hb, hnext⟩

/-- A loop comes to an element, unless a pass before it stops the loop. -/
theorem comesTo_or_stops (body : α → σ → Flow σ ε) {l pre post : List α} {a : α} (s : σ)
    (hl : l = pre ++ a :: post) : (∃ t, ComesTo body l s a t) ∨
      ∃ b ∈ pre, ∃ t e t', ComesTo body l s b t ∧ body b t = .stop e t' := by
  cases hpre : forEach body pre s with
  | next t => exact .inl ⟨t, pre, post, hl, hpre⟩
  | stop e t' =>
      obtain ⟨pre', b, post', t, rfl, hnext, hstop⟩ := forEach_stop hpre
      refine .inr ⟨b, by simp, t, e, t', ⟨pre', post' ++ a :: post, ?_, hnext⟩, hstop⟩
      rw [hl, List.append_assoc]
      rfl

/-- What the passes of a loop keep holds at each of them, and at the end. -/
theorem comesTo_invariant {I : σ → Prop} {l : List α} {s : σ} (hs : I s)
    (hbody : ∀ a t, ComesTo body l s a t → I t → I (body a t).state) :
    I (forEach body l s).state ∧ ∀ a t, ComesTo body l s a t → I t := by
  induction l generalizing s with
  | nil =>
      refine ⟨hs, fun a t h => ?_⟩
      cases h.mem
  | cons b l ih =>
      have hfirst := hbody b s (comesTo_head b l s) hs
      cases hb : body b s with
      | stop e t =>
          rw [hb] at hfirst
          rw [forEach_cons_stop hb]
          refine ⟨hfirst, fun a u h => ?_⟩
          rcases comesTo_cons h with ⟨-, rfl⟩ | ⟨t', hnext, -⟩
          · exact hs
          · rw [hb] at hnext
            cases hnext
      | next t =>
          rw [hb] at hfirst
          rw [forEach_cons_next hb]
          obtain ⟨hend, hall⟩ := ih hfirst fun a u hu => hbody a u (hu.cons hb)
          refine ⟨hend, fun a u h => ?_⟩
          rcases comesTo_cons h with ⟨-, rfl⟩ | ⟨t', hnext, hu⟩
          · exact hs
          · rw [hb] at hnext
            cases hnext
            exact hall a u hu

/-- What a pass brings about and the later ones keep holds at the end. -/
theorem ComesTo.lasts {P : σ → Prop} {l : List α} {s t : σ} {a : α} (h : ComesTo body l s a t)
    (hbody : ∀ b u, ComesTo body l s b u → P u → P (body b u).state) (ha : P (body a t).state) :
    P (forEach body l s).state := by
  obtain ⟨pre, post, rfl, hpre⟩ := h
  rw [forEach_append, hpre, Flow.andThen_next, forEach_cons]
  cases hb : body a t with
  | stop e u =>
      rw [hb] at ha
      exact ha
  | next u =>
      rw [hb] at ha
      refine (comesTo_invariant ha fun b x hx => hbody b x ?_).1
      exact (hx.cons hb).after hpre

/-! ### Loops without an end in sight -/

/-- The loop that goes on until a pass stops it. The passes are numbered; `none`
if the loop is not done after as many passes as there is fuel. -/
def untilStop (body : ℕ → σ → Flow σ ε) : ℕ → σ → Option (ε × σ)
  | 0, _ => none
  | fuel + 1, s =>
      match body 0 s with
      | .next s' => untilStop (fun n => body (n + 1)) fuel s'
      | .stop e s' => some (e, s')

def atPass (body : ℕ → σ → Flow σ ε) : ℕ → σ → Option σ
  | 0, s => some s
  | n + 1, s =>
      match body 0 s with
      | .next s' => atPass (fun n => body (n + 1)) n s'
      | .stop _ _ => none

section Passes

variable {body : ℕ → σ → Flow σ ε}

theorem atPass_succ_of_next {s s' : σ} (h : body 0 s = .next s') (n : ℕ) :
    atPass body (n + 1) s = atPass (fun n => body (n + 1)) n s' := by
  rw [atPass, h]

theorem atPass_next {n : ℕ} {s t t' : σ} (ht : atPass body n s = some t) (h : body n t = .next t') :
    atPass body (n + 1) s = some t' := by
  induction n generalizing body s with
  | zero =>
      cases ht
      rw [atPass_succ_of_next h, atPass]
  | succ n ih =>
      cases hb : body 0 s with
      | stop e s' => rw [atPass, hb] at ht; cases ht
      | next s' =>
          rw [atPass_succ_of_next hb] at ht ⊢
          exact ih ht h

theorem atPass_stop {n : ℕ} {s t t' : σ} {e : ε} (ht : atPass body n s = some t)
    (h : body n t = .stop e t') : atPass body (n + 1) s = none := by
  induction n generalizing body s with
  | zero =>
      cases ht
      rw [atPass, h]
  | succ n ih =>
      cases hb : body 0 s with
      | stop e s' => rw [atPass, hb] at ht; cases ht
      | next s' =>
          rw [atPass_succ_of_next hb] at ht ⊢
          exact ih ht h

theorem atPass_step {n : ℕ} {s t t' : σ} (ht : atPass body n s = some t)
    (ht' : atPass body (n + 1) s = some t') : body n t = .next t' := by
  cases hb : body n t with
  | next u =>
      rw [atPass_next ht hb] at ht'
      rw [Option.some.inj ht']
  | stop e u =>
      rw [atPass_stop ht hb] at ht'
      cases ht'

theorem atPass_invariant {I : σ → Prop} {n : ℕ} {s t : σ} (hbody : ∀ n s, I s → I (body n s).state)
    (hs : I s) (h : atPass body n s = some t) : I t := by
  induction n generalizing body s with
  | zero =>
      cases h
      exact hs
  | succ n ih =>
      have hnext := hbody 0 s hs
      cases hb : body 0 s with
      | stop e s' => rw [atPass, hb] at h; cases h
      | next s' =>
          rw [hb] at hnext
          rw [atPass_succ_of_next hb] at h
          exact ih (fun n => hbody (n + 1)) hnext h

theorem untilStop_invariant {I : σ → Prop} {fuel : ℕ} {s t : σ} {e : ε}
    (hbody : ∀ n s, I s → I (body n s).state) (hs : I s) (h : untilStop body fuel s = some (e, t)) : I t := by
  induction fuel generalizing body s with
  | zero => cases h
  | succ fuel ih =>
      have hnext := hbody 0 s hs
      cases hb : body 0 s with
      | stop e' s' =>
          rw [untilStop, hb] at h
          cases h
          rwa [hb] at hnext
      | next s' =>
          rw [untilStop, hb] at h
          rw [hb] at hnext
          exact ih (fun n => hbody (n + 1)) hnext h

/-- A loop that has ended did so in one of its passes. -/
theorem untilStop_last {fuel : ℕ} {s t : σ} {e : ε} (h : untilStop body fuel s = some (e, t)) :
    ∃ n u, atPass body n s = some u ∧ body n u = .stop e t := by
  induction fuel generalizing body s with
  | zero => cases h
  | succ fuel ih =>
      cases hb : body 0 s with
      | stop e' s' =>
          rw [untilStop, hb] at h
          cases h
          exact ⟨0, s, rfl, hb⟩
      | next s' =>
          rw [untilStop, hb] at h
          obtain ⟨n, u, hu, hstop⟩ := ih h
          exact ⟨n + 1, u, by rw [atPass_succ_of_next hb]; exact hu, hstop⟩

/-- A loop that makes a measure smaller with every pass comes to an end. -/
theorem untilStop_of_decreasing (m : σ → ℕ) {s : σ}
    (h : ∀ n t t', atPass body n s = some t → body n t = .next t' → m t' < m t) :
    ∃ fuel, (untilStop body fuel s).isSome := by
  suffices hgen : ∀ k, m s < k → (untilStop body k s).isSome from ⟨m s + 1, hgen _ (Nat.lt_succ_self _)⟩
  intro k
  induction k generalizing body s with
  | zero => exact fun hk => absurd hk (Nat.not_lt_zero _)
  | succ k ih =>
      intro hk
      cases hb : body 0 s with
      | stop e s' => simp [untilStop, hb]
      | next s' =>
          have hlt : m s' < m s := h 0 s s' rfl hb
          rw [untilStop, hb]
          refine ih (fun n t t' ht => ?_) (by omega)
          exact h (n + 1) t t' (by rw [atPass_succ_of_next hb]; exact ht)

/-- A loop that never gets out of some states does not end. -/
theorem untilStop_eq_none {I : ℕ → σ → Prop} {s : σ} (hs : I 0 s)
    (h : ∀ n t, I n t → ∃ t', body n t = .next t' ∧ I (n + 1) t') (fuel : ℕ) :
    untilStop body fuel s = none := by
  induction fuel generalizing body s I with
  | zero => rfl
  | succ fuel ih =>
      obtain ⟨s', hb, hs'⟩ := h 0 s hs
      rw [untilStop, hb]
      exact ih (I := fun n => I (n + 1)) hs' fun n t ht => h (n + 1) t ht

end Passes

/-! ### Runs -/

/-- The states that a sequence of inputs, each of them allowed where it comes,
leads to. -/
inductive Reaches (allowed : α → σ → Prop) (step : α → σ → σ) (s₀ : σ) : σ → Prop
  | refl : Reaches allowed step s₀ s₀
  | step {s : σ} (a : α) (h : Reaches allowed step s₀ s) (ha : allowed a s) :
      Reaches allowed step s₀ (step a s)

theorem Reaches.mono {allowed allowed' : α → σ → Prop} {step : α → σ → σ} {s₀ s : σ}
    (h : Reaches allowed step s₀ s) (himp : ∀ a s, allowed a s → allowed' a s) : Reaches allowed' step s₀ s := by
  induction h with
  | refl => exact .refl
  | step a _ ha ih => exact .step a ih (himp a _ ha)

theorem Reaches.invariant {allowed : α → σ → Prop} {step : α → σ → σ} {s₀ s : σ} {I : σ → Prop}
    (h : Reaches allowed step s₀ s) (h₀ : I s₀)
    (hstep : ∀ a s, I s → allowed a s → I (step a s)) : I s := by
  induction h with
  | refl => exact h₀
  | step a _ ha ih => exact hstep a _ ih ha

end CloudBackup.Iteration
