import Mathlib.Algebra.Order.Ring.Int
import Mathlib.Algebra.Order.Ring.Nat
import Mathlib.Data.List.Basic
import Mathlib.Data.List.Induction
import Mathlib.Tactic.Common

/-!
Paths of a Unix file system. A rooted path in its shortest form is the list of the
names on the way to it, and `text` writes it down. `clean` brings any path to this
form, as package `path/filepath` of Go does, by its text alone: a link is not
followed, and `..` takes back the name before it.
-/

namespace CloudBackup.UnixPath

/-- The names on the way from the root. -/
abbrev Names := List (List Char)

structure IsName (n : List Char) : Prop where
  ne_nil : n ≠ []
  noSlash : '/' ∉ n
  ne_dot : n ≠ ['.']
  ne_dotdot : n ≠ ['.', '.']

instance (n : List Char) : Decidable (IsName n) :=
  decidable_of_iff (n ≠ [] ∧ '/' ∉ n ∧ n ≠ ['.'] ∧ n ≠ ['.', '.'])
    ⟨fun h => ⟨h.1, h.2.1, h.2.2.1, h.2.2.2⟩, fun h => ⟨h.ne_nil, h.noSlash, h.ne_dot, h.ne_dotdot⟩⟩

def render (names : Names) : List Char := names.flatMap ('/' :: ·)

def text (names : Names) : List Char := if names = [] then ['/'] else render names

def isAbs (path : List Char) : Bool := path.head? = some '/'

/-- One segment of a path is added to the names so far, the last of which comes
first. -/
def pushSegment (rooted : Bool) (names : Names) (segment : List Char) : Names :=
  if segment = [] ∨ segment = ['.'] then names
  else if segment = ['.', '.'] then
    match names with
    | [] => if rooted then [] else [segment]
    | last :: rest => if last = ['.', '.'] then segment :: names else rest
  else segment :: names

/-- The names of a path in its shortest form. -/
def components (path : List Char) : Names :=
  ((path.splitOn '/').foldl (pushSegment (isAbs path)) []).reverse

def clean (path : List Char) : List Char :=
  if isAbs path then text (components path)
  else if components path = [] then ['.']
  else (render (components path)).tail

def join (dir rest : List Char) : List Char :=
  if dir = [] ∧ rest = [] then []
  else if dir = [] then clean rest
  else clean (dir ++ '/' :: rest)

/-- The path is rooted and in its shortest form. -/
def IsClean (path : List Char) : Prop := isAbs path = true ∧ clean path = path

instance (path : List Char) : Decidable (IsClean path) := inferInstanceAs (Decidable (_ ∧ _))

/-- The second path lies somewhere below the first one. -/
def Below (dir path : List Char) : Prop :=
  components dir <+: components path ∧ components dir ≠ components path

instance (dir path : List Char) : Decidable (Below dir path) :=
  inferInstanceAs (Decidable (_ ∧ _))

/-! ### Writing and reading names -/

@[simp] theorem render_nil : render [] = [] := rfl

@[simp] theorem render_cons (n : List Char) (names : Names) :
    render (n :: names) = '/' :: n ++ render names := rfl

@[simp] theorem render_append (names names' : Names) :
    render (names ++ names') = render names ++ render names' :=
  List.flatMap_append

@[simp] theorem text_nil : text [] = ['/'] := rfl

theorem text_of_ne_nil {names : Names} (h : names ≠ []) : text names = render names := if_neg h

@[simp] theorem isAbs_text (names : Names) : isAbs (text names) = true := by
  cases names with
  | nil => rfl
  | cons n names => simp [text, isAbs]

theorem splitOn_render {names : Names} (h : ∀ n ∈ names, '/' ∉ n) :
    (render names).splitOn '/' = [] :: names := by
  induction names with
  | nil => rfl
  | cons n names ih =>
      have hn : '/' ∉ n := h n (by simp)
      have hrest := ih fun m hm => h m (List.mem_cons_of_mem n hm)
      -- a name ends where the separator of the next one stands
      cases names with
      | nil =>
          rw [render_cons, render_nil, List.append_nil, ← List.nil_append ('/' :: n),
            List.splitOn_append_cons_self, List.splitOn_eq_singleton hn]
          rfl
      | cons m names =>
          rw [render_cons, render_cons, List.cons_append, List.splitOn_cons_eq_if_modifyHead]
          rw [render_cons, List.cons_append, List.splitOn_cons_eq_if_modifyHead] at hrest
          simp only [beq_self_eq_true, if_true, List.cons.injEq, true_and] at hrest ⊢
          rw [List.cons_append, List.splitOn_append_cons_self_of_not_mem hn, hrest]

theorem foldl_pushSegment {rooted : Bool} {names : Names} (h : ∀ n ∈ names, IsName n) (stack : Names) :
    names.foldl (pushSegment rooted) stack = names.reverse ++ stack := by
  induction names generalizing stack with
  | nil => rfl
  | cons n names ih =>
      have hn : IsName n := h n (by simp)
      have hpush : pushSegment rooted stack n = n :: stack := by
        simp [pushSegment, hn.ne_nil, hn.ne_dot, hn.ne_dotdot]
      rw [List.foldl_cons, hpush, ih fun m hm => h m (List.mem_cons_of_mem n hm)]
      simp

@[simp] theorem components_text {names : Names} (h : ∀ n ∈ names, IsName n) :
    components (text names) = names := by
  by_cases hnil : names = []
  · subst hnil
    rfl
  · rw [components, text_of_ne_nil hnil, splitOn_render fun n hn => (h n hn).noSlash, List.foldl_cons]
    have hskip : pushSegment (isAbs (render names)) [] [] = [] := by simp [pushSegment]
    rw [hskip, foldl_pushSegment h, List.append_nil, List.reverse_reverse]

theorem mem_pushSegment {names : Names} {segment : List Char} (hnames : ∀ n ∈ names, IsName n)
    (hslash : '/' ∉ segment) : ∀ n ∈ pushSegment true names segment, IsName n := by
  unfold pushSegment
  split
  · exact hnames
  · rename_i hskip
    split
    · cases names with
      | nil => simp
      | cons last rest =>
          have hlast : last ≠ ['.', '.'] := (hnames last (by simp)).ne_dotdot
          simp only [hlast, if_false]
          exact fun n hn => hnames n (List.mem_cons_of_mem last hn)
    · rename_i hdotdot
      intro n hn
      rcases List.mem_cons.mp hn with rfl | hn
      · exact ⟨fun hnil => hskip (.inl hnil), hslash, fun hdot => hskip (.inr hdot), hdotdot⟩
      · exact hnames n hn

theorem noSlash_of_mem_splitOn {path segment : List Char} (h : segment ∈ path.splitOn '/') :
    '/' ∉ segment := by
  induction path generalizing segment with
  | nil =>
      obtain rfl : segment = [] := by simpa using h
      simp
  | cons c path ih =>
      rw [List.splitOn_cons_eq_if_modifyHead] at h
      split at h
      · rcases List.mem_cons.mp h with rfl | h
        · simp
        · exact ih h
      · rename_i hc
        obtain ⟨first, rest, heq⟩ := List.exists_cons_of_ne_nil (List.splitOn_ne_nil '/' path)
        rw [heq] at h ih
        rcases List.mem_cons.mp h with rfl | h
        · have hfirst : '/' ∉ first := ih (by simp)
          have hne : c ≠ '/' := by simpa using hc
          simp [hfirst, Ne.symm hne]
        · exact ih (List.mem_cons_of_mem first h)

theorem isName_of_mem_components {path : List Char} (habs : isAbs path = true) {n : List Char}
    (h : n ∈ components path) : IsName n := by
  rw [components, habs, List.mem_reverse] at h
  suffices hgen : ∀ (segments : Names) (stack : Names), (∀ s ∈ segments, '/' ∉ s) →
      (∀ n ∈ stack, IsName n) → ∀ n ∈ segments.foldl (pushSegment true) stack, IsName n from
    hgen _ [] (fun s hs => noSlash_of_mem_splitOn hs) (by simp) n h
  intro segments
  induction segments with
  | nil => exact fun stack _ hstack => hstack
  | cons s segments ih =>
      intro stack hs hstack
      exact ih (pushSegment true stack s) (fun t ht => hs t (List.mem_cons_of_mem s ht))
        (mem_pushSegment hstack (hs s (by simp)))

/-! ### Clean paths -/

theorem isClean_text {names : Names} (h : ∀ n ∈ names, IsName n) : IsClean (text names) := by
  refine ⟨isAbs_text names, ?_⟩
  rw [clean, isAbs_text, if_pos rfl, components_text h]

theorem IsClean.eq_text {path : List Char} (h : IsClean path) : path = text (components path) := by
  have hclean := h.2
  rw [clean, if_pos h.1] at hclean
  exact hclean.symm

theorem ne_nil_of_mem_components {path n : List Char} (h : n ∈ components path) : n ≠ [] := by
  have hfold : ∀ (segments : List (List Char)) (names : Names), (∀ m ∈ names, m ≠ []) →
      ∀ m ∈ segments.foldl (pushSegment (isAbs path)) names, m ≠ [] := by
    intro segments
    induction segments with
    | nil => exact fun names hnames => hnames
    | cons segment segments ih =>
        intro names hnames
        refine ih _ fun m hm => ?_
        unfold pushSegment at hm
        split at hm
        · exact hnames m hm
        · rename_i hsegment
          have hne : segment ≠ [] := fun heq => hsegment (.inl heq)
          have hcons : ∀ m ∈ segment :: names, m ≠ [] := List.forall_mem_cons.mpr ⟨hne, hnames⟩
          split at hm
          · split at hm
            · split at hm
              · exact absurd hm List.not_mem_nil
              · exact (List.mem_singleton.mp hm) ▸ hne
            · split at hm
              · exact hcons m hm
              · exact hnames m (List.mem_cons_of_mem _ hm)
          · exact hcons m hm
  exact hfold _ [] (by simp) n (List.mem_reverse.mp h)

theorem clean_ne_nil (path : List Char) : clean path ≠ [] := by
  unfold clean
  split
  · intro h
    have habs := isAbs_text (components path)
    rw [h] at habs
    exact absurd habs (by decide)
  · split
    · exact List.cons_ne_nil _ _
    · rename_i hne
      obtain ⟨n, names, heq⟩ := List.exists_cons_of_ne_nil hne
      have hmem : n ∈ components path := heq ▸ List.mem_cons_self
      rw [heq, render_cons]
      simp [ne_nil_of_mem_components hmem]

theorem join_ne_nil (dir : List Char) {name : List Char} (h : name ≠ []) : join dir name ≠ [] := by
  unfold join
  split
  · rename_i hnil
    exact absurd hnil.2 h
  · split
    · exact clean_ne_nil _
    · exact clean_ne_nil _

theorem IsClean.isName {path : List Char} (h : IsClean path) : ∀ n ∈ components path, IsName n :=
  fun _ hn => isName_of_mem_components h.1 hn

theorem clean_of_isAbs {path : List Char} (h : isAbs path = true) : clean path = text (components path) :=
  if_pos h

theorem components_clean {path : List Char} (h : isAbs path = true) :
    components (clean path) = components path := by
  rw [clean_of_isAbs h]
  exact components_text fun n hn => isName_of_mem_components h hn

theorem isClean_clean {path : List Char} (h : isAbs path = true) : IsClean (clean path) := by
  rw [clean_of_isAbs h]
  exact isClean_text fun n hn => isName_of_mem_components h hn

theorem IsClean.eq_render {path : List Char} (h : IsClean path) (hroot : path ≠ ['/']) :
    path = render (components path) := by
  have htext := h.eq_text
  have hne : components path ≠ [] := by
    intro hnil
    rw [hnil] at htext
    exact hroot htext
  rwa [text_of_ne_nil hne] at htext

theorem IsClean.exists_slash_cons {path : List Char} (h : IsClean path) : ∃ rest, path = '/' :: rest := by
  have habs : path.head? = some '/' := by simpa [isAbs] using h.1
  obtain ⟨rest, rfl⟩ := List.head?_eq_some_iff.mp habs
  exact ⟨rest, rfl⟩

theorem IsClean.ext {path path' : List Char} (h : IsClean path) (h' : IsClean path')
    (heq : components path = components path') : path = path' := by
  rw [h.eq_text, heq, ← h'.eq_text]

theorem components_append_slash {dir : List Char} (h : isAbs dir = true) (rest : List Char) :
    components (dir ++ '/' :: rest) =
      ((rest.splitOn '/').foldl (pushSegment true) (components dir).reverse).reverse := by
  have habs : isAbs (dir ++ '/' :: rest) = true := by
    cases dir with
    | nil => cases h
    | cons c dir => exact h
  rw [components, components, habs, h, List.splitOn_append_cons_self, List.foldl_append,
    List.reverse_reverse]

theorem splitOn_tail_text {names : Names} (h : ∀ n ∈ names, '/' ∉ n) (hne : names ≠ []) :
    (text names).tail.splitOn '/' = names := by
  have hsplit := splitOn_render h
  rw [text_of_ne_nil hne]
  obtain ⟨n, names, rfl⟩ := List.exists_cons_of_ne_nil hne
  rw [render_cons, List.cons_append, List.splitOn_cons_eq_if_modifyHead] at hsplit
  simpa using hsplit

theorem join_tail_text {dir : List Char} (habs : isAbs dir = true) {names : Names}
    (h : ∀ n ∈ names, IsName n) : join dir (text names).tail = text (components dir ++ names) := by
  have hdir : dir ≠ [] := by
    rintro rfl
    cases habs
  have habs' : isAbs (dir ++ '/' :: (text names).tail) = true := by
    obtain ⟨c, dir, rfl⟩ := List.exists_cons_of_ne_nil hdir
    exact habs
  rw [join, if_neg fun hnil => hdir hnil.1, if_neg hdir, clean_of_isAbs habs',
    components_append_slash habs]
  by_cases hnil : names = []
  · subst hnil
    simp [pushSegment]
  · rw [splitOn_tail_text (fun n hn => (h n hn).noSlash) hnil, foldl_pushSegment h]
    simp

theorem join_name {names : Names} (h : ∀ n ∈ names, IsName n) {n : List Char} (hn : IsName n) :
    join (text names) n = text (names ++ [n]) := by
  have hjoin := @join_tail_text (text names) (isAbs_text names) [n] (by simpa using hn)
  rw [components_text h] at hjoin
  simpa [text] using hjoin

theorem IsClean.join_name {dir n : List Char} (h : IsClean dir) (hn : IsName n) :
    IsClean (join dir n) ∧ components (join dir n) = components dir ++ [n] := by
  have hjoin := UnixPath.join_name h.isName hn
  rw [← h.eq_text] at hjoin
  have hnames : ∀ m ∈ components dir ++ [n], IsName m := by
    intro m hm
    rcases List.mem_append.mp hm with hm | hm
    · exact h.isName m hm
    · rwa [List.mem_singleton.mp hm]
  rw [hjoin]
  exact ⟨isClean_text hnames, components_text hnames⟩

theorem length_le_length_render (names : Names) : names.length ≤ (render names).length := by
  induction names with
  | nil => rfl
  | cons n names ih =>
      simp only [render_cons, List.length_cons, List.length_append]
      omega

theorem length_text_le {names names' : Names} (h : names <+: names') :
    (text names).length ≤ (text names').length := by
  obtain ⟨rest, rfl⟩ := h
  cases names with
  | nil =>
      cases rest with
      | nil => exact le_rfl
      | cons n rest => simp [text]
  | cons n names =>
      rw [text_of_ne_nil (by simp), text_of_ne_nil (by simp), render_append, List.length_append]
      omega

/-- A path that ends in a name does not end in a separator. -/
theorem getLast?_render {names : Names} (h : ∀ n ∈ names, IsName n) : (render names).getLast? ≠ some '/' := by
  induction names using List.reverseRecOn with
  | nil => simp
  | append_singleton names n _ =>
      have hn : IsName n := h n (by simp)
      rw [render_append, render_cons, render_nil, List.append_nil,
        List.getLast?_append_of_ne_nil _ (by simp), List.getLast?_cons_of_ne_nil hn.ne_nil]
      intro hlast
      exact hn.noSlash (List.mem_of_getLast? hlast)

/-- Of the clean paths only the root ends in a separator. -/
theorem IsClean.getLast?_ne {path : List Char} (h : IsClean path) (hroot : path ≠ ['/']) :
    path.getLast? ≠ some '/' := by
  rw [h.eq_render hroot]
  exact getLast?_render h.isName

theorem IsClean.length_components_le {path : List Char} (h : IsClean path) :
    (components path).length ≤ path.length := by
  by_cases hroot : path = ['/']
  · subst hroot
    exact Nat.zero_le _
  · have hlen := length_le_length_render (components path)
    rwa [← h.eq_render hroot] at hlen

/-! ### Below a directory -/

/-- Two names that are followed by a separator, or by nothing, are compared as a
whole. -/
theorem name_eq_of_append {n m s t : List Char} (hn : '/' ∉ n) (hm : '/' ∉ m)
    (ht : t = [] ∨ t.head? = some '/') (h : n ++ '/' :: s <+: m ++ t) : n = m ∧ '/' :: s <+: t := by
  induction n generalizing m with
  | nil =>
      cases m with
      | nil => exact ⟨rfl, h⟩
      | cons c m =>
          obtain ⟨rfl, -⟩ := List.cons_prefix_cons.mp h
          simp at hm
  | cons c n ih =>
      simp only [List.mem_cons, not_or] at hn
      cases m with
      | nil =>
          rcases ht with rfl | ht
          · simp at h
          · obtain ⟨d, t, rfl⟩ : ∃ d t', t = d :: t' := by
              cases t with
              | nil => cases ht
              | cons d t => exact ⟨d, t, rfl⟩
            obtain ⟨rfl, -⟩ := List.cons_prefix_cons.mp h
            exact absurd (Option.some.inj ht).symm hn.1
      | cons d m =>
          simp only [List.mem_cons, not_or] at hm
          obtain ⟨rfl, hrest⟩ := List.cons_prefix_cons.mp h
          obtain ⟨rfl, hs⟩ := ih hn.2 hm.2 hrest
          exact ⟨rfl, hs⟩

theorem exists_append_of_slash {n s t : List Char} (hn : '/' ∉ n) (h : t ++ ['/'] <+: n ++ s) :
    ∃ t', t = n ++ t' ∧ t' ++ ['/'] <+: s := by
  induction n generalizing t with
  | nil => exact ⟨t, rfl, h⟩
  | cons c n ih =>
      simp only [List.mem_cons, not_or] at hn
      cases t with
      | nil =>
          obtain ⟨rfl, -⟩ := List.cons_prefix_cons.mp h
          exact absurd rfl hn.1
      | cons d t =>
          obtain ⟨rfl, hrest⟩ := List.cons_prefix_cons.mp h
          obtain ⟨t', rfl, ht'⟩ := ih hn.2 hrest
          exact ⟨t', rfl, ht'⟩

theorem head_render (names : Names) : render names = [] ∨ (render names).head? = some '/' := by
  cases names with
  | nil => exact .inl rfl
  | cons n names => exact .inr rfl

/-- A path lies below a directory if it starts with the text of it and a separator. -/
theorem render_slash_isPrefix {dir names : Names} (hdir : ∀ n ∈ dir, '/' ∉ n)
    (hnames : ∀ n ∈ names, '/' ∉ n) :
    render dir ++ ['/'] <+: render names ↔ dir <+: names ∧ dir ≠ names := by
  induction dir generalizing names with
  | nil =>
      cases names with
      | nil => simp
      | cons m names => simp
  | cons n dir ih =>
      cases names with
      | nil => simp
      | cons m names =>
          have hn : '/' ∉ n := hdir n (by simp)
          have hm : '/' ∉ m := hnames m (by simp)
          have hih := @ih names (fun k hk => hdir k (List.mem_cons_of_mem n hk))
            (fun k hk => hnames k (List.mem_cons_of_mem m hk))
          rw [List.cons_prefix_cons, ne_eq, List.cons.injEq, not_and]
          simp only [render_cons, List.cons_append, List.append_assoc, List.cons_prefix_cons, true_and]
          constructor
          · intro h
            obtain ⟨t, ht⟩ : ∃ t, render dir ++ ['/'] = '/' :: t := by
              cases dir with
              | nil => exact ⟨[], rfl⟩
              | cons k dir => exact ⟨k ++ render dir ++ ['/'], by simp⟩
            rw [ht] at h
            obtain ⟨rfl, hrest⟩ := name_eq_of_append hn hm (head_render names) h
            rw [← ht] at hrest
            obtain ⟨hpre, hne⟩ := hih.mp hrest
            exact ⟨⟨rfl, hpre⟩, fun _ => hne⟩
          · rintro ⟨⟨rfl, hpre⟩, hne⟩
            exact (List.prefix_append_right_inj n).mpr (hih.mpr ⟨hpre, hne rfl⟩)

/-- What stands before a separator of a path is the text of a directory on the way. -/
theorem eq_render_of_slash {t : List Char} {names : Names} (hnames : ∀ n ∈ names, '/' ∉ n)
    (h : t ++ ['/'] <+: render names) : ∃ above, t = render above ∧ above <+: names := by
  induction names generalizing t with
  | nil => simp at h
  | cons n names ih =>
      cases t with
      | nil => exact ⟨[], rfl, List.nil_prefix⟩
      | cons c t =>
          rw [render_cons, List.cons_append, List.cons_append] at h
          obtain ⟨rfl, hrest⟩ := List.cons_prefix_cons.mp h
          -- the name is over before the separator comes
          obtain ⟨t', rfl, h'⟩ := exists_append_of_slash (hnames n (by simp)) hrest
          obtain ⟨above, rfl, habove⟩ := ih (fun m hm => hnames m (List.mem_cons_of_mem n hm)) h'
          exact ⟨n :: above, by simp, List.cons_prefix_cons.mpr ⟨rfl, habove⟩⟩

theorem components_root : components ['/'] = [] := rfl

theorem below_root {path : List Char} (h : IsClean path) : Below ['/'] path ↔ path ≠ ['/'] := by
  simp only [Below, components_root, List.nil_prefix, true_and]
  constructor
  · rintro hne rfl
    exact hne rfl
  · intro hroot hnil
    have htext := h.eq_text
    rw [← hnil] at htext
    exact hroot htext

theorem below_iff_starts {dir path : List Char} (hdir : IsClean dir) (hpath : IsClean path)
    (hroot : dir ≠ ['/']) : Below dir path ↔ dir ++ ['/'] <+: path := by
  have hnoSlash : ∀ {p : List Char}, IsClean p → ∀ n ∈ components p, '/' ∉ n :=
    fun hp n hn => (hp.isName n hn).noSlash
  by_cases hp : path = ['/']
  · subst hp
    constructor
    · rintro ⟨hpre, hne⟩
      exact absurd (List.prefix_nil.mp hpre) hne
    · intro hpre
      have hlen := hpre.length_le
      have habs := hdir.1
      cases dir with
      | nil => cases habs
      | cons c dir => simp at hlen
  · have hiff := render_slash_isPrefix (hnoSlash hdir) (hnoSlash hpath)
    rw [← hdir.eq_render hroot, ← hpath.eq_render hp] at hiff
    exact hiff.symm

/-! ### The directory of a path -/

def dir (path : List Char) : List Char := clean (path.reverse.dropWhile (· ≠ '/')).reverse

theorem dir_root : dir ['/'] = ['/'] := rfl

theorem dir_text_concat {names : Names} (hnames : ∀ m ∈ names, IsName m) {n : List Char} (hn : IsName n) :
    dir (text (names ++ [n])) = text names := by
  have hcut : ((text (names ++ [n])).reverse.dropWhile (· ≠ '/')).reverse = render names ++ ['/'] := by
    have hlast : ∀ c ∈ n.reverse, decide (c ≠ '/') = true := by
      intro c hc
      simpa using fun hslash : c = '/' => hn.noSlash (hslash ▸ List.mem_reverse.mp hc)
    rw [text_of_ne_nil (by simp), render_append, render_cons, render_nil, List.append_nil, List.reverse_append,
      List.reverse_cons, List.append_assoc, List.dropWhile_append_of_pos hlast]
    simp
  rw [dir, hcut]
  by_cases hnil : names = []
  · subst hnil
    rfl
  · rw [← text_of_ne_nil hnil]
    have habs : isAbs (text names ++ ['/']) = true := by
      have hne : text names ≠ [] := fun h => by simpa [h, isAbs] using isAbs_text names
      obtain ⟨c, rest, htext⟩ := List.exists_cons_of_ne_nil hne
      have := isAbs_text names
      rw [htext] at this ⊢
      exact this
    rw [clean_of_isAbs habs, components_append_slash (isAbs_text names), components_text hnames]
    simp [pushSegment]

theorem IsClean.dir_eq {path : List Char} (h : IsClean path) : dir path = text (components path).dropLast := by
  have htext := h.eq_text
  have hnames := h.isName
  revert htext hnames
  generalize components path = names
  intro htext hnames
  rcases List.eq_nil_or_concat names with rfl | ⟨init, last, rfl⟩
  · rw [htext]
    exact dir_root
  · rw [List.concat_eq_append] at htext hnames ⊢
    rw [htext, dir_text_concat (fun m hm => hnames m (by simp [hm])) (hnames last (by simp)), List.dropLast_concat]

theorem IsClean.dir {path : List Char} (h : IsClean path) : IsClean (dir path) := by
  rw [h.dir_eq]
  exact isClean_text fun n hn => h.isName n ((List.dropLast_prefix _).subset hn)

theorem IsClean.dir_ne {path : List Char} (h : IsClean path) (hroot : path ≠ ['/']) : UnixPath.dir path ≠ path := by
  intro heq
  have hne : components path ≠ [] := by
    intro hnil
    exact hroot (h.eq_text.trans (by rw [hnil, text_nil]))
  have hcomponents : components (UnixPath.dir path) = (components path).dropLast := by
    rw [h.dir_eq, components_text fun n hn => h.isName n ((List.dropLast_prefix _).subset hn)]
  rw [heq] at hcomponents
  have hlength := congrArg List.length hcomponents
  rw [List.length_dropLast] at hlength
  have := List.length_pos_iff.mpr hne
  omega

end CloudBackup.UnixPath
