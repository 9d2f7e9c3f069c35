import CloudBackup.Library.UnixPath
import Mathlib.Data.List.Induction

/-!
A Unix file system as a program sees it: a tree of directories, files and symbolic
links. The system resolves a path name by name, and follows a link as soon as it
meets one; so what a program writes to a path can end up anywhere. A `Disk` notes
the places that were written to, with all links resolved.

The calls follow package `os` of Go, `MkdirAll` its source. Three facts carry most
proofs: a call only adds to the tree (`Extends`), what was found is found again in
a tree that extends the first one (`Leads.extends`), and without a link on the way
a path is the place it names (`Leads.noLink`).
-/

namespace CloudBackup.FileTree

open UnixPath

variable {β : Type}

inductive Node (β : Type)
  | dir
  | file (content : β)
  | symlink (target : List Char)
  | other
  deriving DecidableEq, Repr

inductive Errno
  | notExist
  | exist
  | notDir
  | isDir
  | loop
  | refused
  deriving DecidableEq, Repr

def isDir : Option (Node β) → Bool
  | some .dir => true
  | _ => false

def isLink : Option (Node β) → Bool
  | some (.symlink _) => true
  | _ => false

def isFile : Option (Node β) → Bool
  | some (.file _) => true
  | _ => false

@[simp] theorem isDir_eq_true {v : Option (Node β)} : isDir v = true ↔ v = some .dir := by
  constructor
  · intro h
    rcases v with _ | _ | _ | _ | _
    all_goals first | rfl | cases h
  · rintro rfl
    rfl

theorem isLink_of_isFile {v : Option (Node β)} (h : isFile v = true) : isLink v = false := by
  rcases v with _ | _ | _ | _ | _
  · rfl
  · rfl
  · rfl
  · cases h
  · rfl

/-- The places of a file system, each known by the names on the way to it. Everything
is in a directory. -/
structure Tree (β : Type) where
  node : Names → Option (Node β)
  root : node [] = some .dir
  parent : ∀ names n, node (names ++ [n]) ≠ none → node names = some .dir

namespace Tree

variable (t : Tree β)

/-- The system goes through the segments of a path, and hands over at a link. The last
segment need not exist, and a link there is followed on demand. -/
def walk (follow : Bool) (onLink : Names → List Char → Names → Except Errno Names) :
    Names → Names → Except Errno Names
  | cur, [] => .ok cur
  | cur, s :: rest =>
      if s = [] ∨ s = ['.'] then walk follow onLink cur rest
      else if s = ['.', '.'] then walk follow onLink cur.dropLast rest
      else
        match t.node (cur ++ [s]) with
        | none => if rest = [] then .ok (cur ++ [s]) else .error .notExist
        | some .dir => walk follow onLink (cur ++ [s]) rest
        | some (.symlink target) =>
            if rest = [] ∧ follow = false then .ok (cur ++ [s]) else onLink cur target rest
        | some _ => if rest = [] then .ok (cur ++ [s]) else .error .notDir

/-- The place that a path leads to from a directory, if no more than `k` links are on
the way. -/
def lookup (follow : Bool) : ℕ → Names → Names → Except Errno Names
  | 0, cur, segs => t.walk follow (fun _ _ _ => .error .loop) cur segs
  | k + 1, cur, segs => t.walk follow (fun cur target rest =>
      lookup follow k (if isAbs target then [] else cur) (target.splitOn '/' ++ rest)) cur segs

def maxLinks : ℕ := 40

def resolve (follow : Bool) (path : Names) : Except Errno Names := t.lookup follow maxLinks [] path

/-- What is there; a path that leads nowhere is an error. -/
def found (place : Except Errno Names) : Except Errno (Node β) :=
  match place with
  | .error e => .error e
  | .ok loc =>
      match t.node loc with
      | none => .error .notExist
      | some v => .ok v

def stat (path : Names) : Except Errno (Node β) := t.found (t.resolve true path)

def lstat (path : Names) : Except Errno (Node β) := t.found (t.resolve false path)

/-- Something can be put at this place: it is in a directory, and it is none. -/
structure Free (loc : Names) : Prop where
  ne_root : loc ≠ []
  parent : isDir (t.node loc.dropLast) = true
  notDir : isDir (t.node loc) = false

instance (loc : Names) : Decidable (t.Free loc) :=
  decidable_of_iff (loc ≠ [] ∧ isDir (t.node loc.dropLast) = true ∧ isDir (t.node loc) = false)
    ⟨fun h => ⟨h.1, h.2.1, h.2.2⟩, fun h => ⟨h.1, h.2, h.3⟩⟩

def put (loc : Names) (v : Node β) (h : t.Free loc) : Tree β where
  node := Function.update t.node loc (some v)
  root := by rw [Function.update_of_ne (Ne.symm h.ne_root), t.root]
  parent := by
    intro names n hne
    by_cases hnew : names ++ [n] = loc
    · have hparent : t.node names = some .dir := by
        have := h.parent
        rwa [← hnew, List.dropLast_concat, isDir_eq_true] at this
      rw [Function.update_of_ne, hparent]
      rintro rfl
      have hlen := congrArg List.length hnew
      simp at hlen
    · rw [Function.update_of_ne hnew] at hne
      have hparent := t.parent names n hne
      rw [Function.update_of_ne, hparent]
      rintro rfl
      have hdir := h.notDir
      rw [hparent] at hdir
      cases hdir

end Tree

/-- A file system under a program: where it may write, and where it has written. -/
structure Disk (β : Type) where
  tree : Tree β
  allowed : Names → Bool
  written : List Names

namespace Disk

def write (loc : Names) (v : Node β) (d : Disk β) : Option Errno × Disk β :=
  if d.allowed loc then
    if h : d.tree.Free loc then (none, { d with tree := d.tree.put loc v h, written := loc :: d.written })
    else (some .notExist, d)
  else (some .refused, d)

def make (path : Names) (v : Node β) (d : Disk β) : Option Errno × Disk β :=
  match d.tree.resolve false path with
  | .error e => (some e, d)
  | .ok loc =>
      match d.tree.node loc with
      | some _ => (some .exist, d)
      | none => d.write loc v

def mkdir (path : Names) (d : Disk β) : Option Errno × Disk β := d.make path .dir

def symlink (target : List Char) (path : Names) (d : Disk β) : Option Errno × Disk β :=
  if target = [] then (some .notExist, d) else d.make path (.symlink target)

/-- `os.Create` with what is written to the file then. A device takes it in, and stays
what it is. -/
def save (content : β) (path : Names) (d : Disk β) : Option Errno × Disk β :=
  match d.tree.resolve true path with
  | .error e => (some e, d)
  | .ok loc =>
      match d.tree.node loc with
      | none => d.write loc (.file content)
      | some (.file _) => d.write loc (.file content)
      | some .dir => (some .isDir, d)
      | some (.symlink _) => (some .loop, d)
      | some .other =>
          if d.allowed loc then (none, { d with written := loc :: d.written }) else (some .refused, d)

/-- `os.MkdirAll`, on the names of a path from the last to the first. -/
def mkdirUp : Names → Disk β → Option Errno × Disk β
  | [], d => (none, d)
  | n :: up, d =>
      match d.tree.stat (n :: up).reverse with
      | .ok .dir => (none, d)
      | .ok _ => (some .notDir, d)
      | .error _ =>
          match mkdirUp up d with
          | (some e, d) => (some e, d)
          | (none, d) =>
              match d.mkdir (n :: up).reverse with
              | (none, d) => (none, d)
              | (some e, d) =>
                  match d.tree.lstat (n :: up).reverse with
                  | .ok .dir => (none, d)
                  | _ => (some e, d)

def mkdirAll (path : Names) (d : Disk β) : Option Errno × Disk β := mkdirUp path.reverse d

end Disk

/-! ### The way to a place -/

namespace Tree

variable (t : Tree β)

theorem node_dropLast {t : Tree β} {loc : Names} (h : t.node loc ≠ none) (hne : loc ≠ []) :
    t.node loc.dropLast = some .dir := by
  apply t.parent loc.dropLast (loc.getLast hne)
  rwa [List.dropLast_concat_getLast]

theorem node_of_append {t : Tree β} {above below : Names} (hbelow : below ≠ [])
    (h : t.node (above ++ below) ≠ none) : t.node above = some .dir := by
  induction below using List.reverseRecOn with
  | nil => exact absurd rfl hbelow
  | append_singleton below n ih =>
      rw [← List.append_assoc] at h
      have hparent := t.parent _ n h
      by_cases hnil : below = []
      · subst hnil
        rwa [List.append_nil] at hparent
      · exact ih hnil (by rw [hparent]; simp)

def onLink (follow : Bool) : ℕ → Names → List Char → Names → Except Errno Names
  | 0, _, _, _ => .error .loop
  | k + 1, cur, target, rest =>
      t.lookup follow k (if isAbs target then [] else cur) (target.splitOn '/' ++ rest)

theorem lookup_eq_walk (follow : Bool) (k : ℕ) (cur segs : Names) :
    t.lookup follow k cur segs = t.walk follow (t.onLink follow k) cur segs := by
  cases k <;> rfl

@[simp] theorem lookup_nil (follow : Bool) (k : ℕ) (cur : Names) :
    t.lookup follow k cur [] = .ok cur := by
  cases k <;> rfl

def IsEntry (s : List Char) : Prop := ¬ (s = [] ∨ s = ['.']) ∧ s ≠ ['.', '.']

/-- A path leads to a place, over at most `k` links. -/
inductive Leads (follow : Bool) : ℕ → Names → Names → Names → Prop
  | here (k : ℕ) (cur : Names) : Leads follow k cur [] cur
  | skip {k : ℕ} {cur rest loc : Names} {s : List Char} (hs : s = [] ∨ s = ['.'])
      (h : Leads follow k cur rest loc) : Leads follow k cur (s :: rest) loc
  | up {k : ℕ} {cur rest loc : Names} (h : Leads follow k cur.dropLast rest loc) :
      Leads follow k cur (['.', '.'] :: rest) loc
  | enter {k : ℕ} {cur rest loc : Names} {s : List Char} (hs : IsEntry s)
      (hdir : t.node (cur ++ [s]) = some .dir) (h : Leads follow k (cur ++ [s]) rest loc) :
      Leads follow k cur (s :: rest) loc
  | last {k : ℕ} {cur : Names} {s : List Char} (hs : IsEntry s)
      (hdir : isDir (t.node (cur ++ [s])) = false)
      (hlink : isLink (t.node (cur ++ [s])) = true → follow = false) :
      Leads follow k cur [s] (cur ++ [s])
  | link {k : ℕ} {cur rest loc : Names} {s target : List Char} (hs : IsEntry s)
      (hnode : t.node (cur ++ [s]) = some (.symlink target)) (hfollow : rest = [] → follow = true)
      (h : Leads follow k (if isAbs target then [] else cur) (target.splitOn '/' ++ rest) loc) :
      Leads follow (k + 1) cur (s :: rest) loc

variable {t}

theorem walk_eq_ok {follow : Bool} {k : ℕ} {onLink : Names → List Char → Names → Except Errno Names}
    {cur segs loc : Names} (honLink : ∀ {cur target rest s}, IsEntry s →
      t.node (cur ++ [s]) = some (.symlink target) → (rest = [] → follow = true) →
      onLink cur target rest = .ok loc → t.Leads follow k cur (s :: rest) loc)
    (h : t.walk follow onLink cur segs = .ok loc) : t.Leads follow k cur segs loc := by
  induction segs generalizing cur with
  | nil =>
      obtain rfl := Except.ok.inj h
      exact .here k cur
  | cons s rest ih =>
      rw [walk] at h
      split at h
      · exact .skip ‹_› (ih h)
      · split at h
        · rename_i hup
          rw [hup]
          exact .up (ih h)
        · have hs : IsEntry s := ⟨‹_›, ‹_›⟩
          split at h
          · rename_i hnode
            split at h
            · rename_i hrest
              obtain rfl := Except.ok.inj h
              rw [hrest]
              exact .last hs (by rw [hnode]; rfl) (by rw [hnode]; nofun)
            · cases h
          · exact .enter hs ‹_› (ih h)
          · rename_i target hnode
            split at h
            · rename_i hrest
              obtain rfl := Except.ok.inj h
              rw [hrest.1]
              exact .last hs (by rw [hnode]; rfl) fun _ => hrest.2
            · rename_i hrest
              refine honLink hs hnode ?_ h
              intro hnil
              simpa [hnil] using hrest
          · rename_i v hdir hlink hnode
            split at h
            · rename_i hrest
              obtain rfl := Except.ok.inj h
              rw [hrest]
              refine .last hs ?_ ?_
              · rw [hnode]
                cases v with
                | dir => exact absurd rfl hdir
                | _ => rfl
              · rw [hnode]
                cases v with
                | symlink target => exact absurd rfl (hlink target)
                | _ => nofun
            · cases h

theorem walk_of_entry {follow : Bool} {onLink : Names → List Char → Names → Except Errno Names}
    {cur rest : Names} {s : List Char} (hs : IsEntry s) : t.walk follow onLink cur (s :: rest) =
      match t.node (cur ++ [s]) with
      | none => if rest = [] then .ok (cur ++ [s]) else .error .notExist
      | some .dir => t.walk follow onLink (cur ++ [s]) rest
      | some (.symlink target) =>
          if rest = [] ∧ follow = false then .ok (cur ++ [s]) else onLink cur target rest
      | some _ => if rest = [] then .ok (cur ++ [s]) else .error .notDir := by
  rw [walk, if_neg hs.1, if_neg hs.2]

theorem lookup_iff {follow : Bool} {k : ℕ} {cur segs loc : Names} :
    t.lookup follow k cur segs = .ok loc ↔ t.Leads follow k cur segs loc := by
  constructor
  · intro h
    induction k generalizing cur segs with
    | zero =>
        refine walk_eq_ok ?_ h
        intro _ _ _ _ _ _ _ herror
        cases herror
    | succ k ih => exact walk_eq_ok (fun hs hnode hfollow h => .link hs hnode hfollow (ih h)) h
  · intro h
    induction h with
    | here k cur => exact lookup_nil t follow k cur
    | skip hs _ ih => rw [lookup_eq_walk, walk, if_pos hs, ← lookup_eq_walk, ih]
    | up _ ih => rw [lookup_eq_walk, walk, if_neg (by simp), if_pos rfl, ← lookup_eq_walk, ih]
    | enter hs hdir _ ih => rw [lookup_eq_walk, walk_of_entry hs, hdir, ← lookup_eq_walk, ih]
    | @last k cur s hs hdir hlink =>
        rw [lookup_eq_walk, walk_of_entry hs]
        rcases hnode : t.node (cur ++ [s]) with _ | _ | _ | _ | _
        · rfl
        · rw [hnode] at hdir
          cases hdir
        · rfl
        · simp [hlink (by rw [hnode]; rfl)]
        · rfl
    | link hs hnode hfollow _ ih =>
        rw [lookup_eq_walk, walk_of_entry hs, hnode]
        dsimp only
        rw [if_neg, onLink, ih]
        rintro ⟨hnil, hfalse⟩
        rw [hfollow hnil] at hfalse
        cases hfalse

theorem Leads.unique {follow : Bool} {k : ℕ} {cur segs loc loc' : Names}
    (h : t.Leads follow k cur segs loc) (h' : t.Leads follow k cur segs loc') : loc = loc' :=
  Except.ok.inj ((lookup_iff.mpr h).symm.trans (lookup_iff.mpr h'))

theorem walk_ne_exist {follow : Bool} {onLink : Names → List Char → Names → Except Errno Names}
    (honLink : ∀ cur target rest, onLink cur target rest ≠ .error .exist) (cur segs : Names) :
    t.walk follow onLink cur segs ≠ .error .exist := by
  induction segs generalizing cur with
  | nil => simp [walk]
  | cons s rest ih =>
      rw [walk]
      repeat' split
      all_goals first | exact ih _ | exact honLink _ _ _ | simp

theorem lookup_ne_exist {follow : Bool} {k : ℕ} {cur segs : Names} :
    t.lookup follow k cur segs ≠ .error .exist := by
  induction k generalizing cur segs with
  | zero => exact walk_ne_exist (fun _ _ _ => by simp) cur segs
  | succ k ih => exact walk_ne_exist (fun _ _ _ => ih) cur segs

theorem isEntry_of_isName {s : List Char} (h : IsName s) : IsEntry s :=
  ⟨not_or_intro h.ne_nil h.ne_dot, h.ne_dotdot⟩

theorem node_dropLast_of_dir {loc : Names} (h : t.node loc = some .dir) :
    t.node loc.dropLast = some .dir := by
  by_cases hroot : loc = []
  · rw [hroot] at h ⊢
    exact h
  · exact node_dropLast (by rw [h]; simp) hroot

/-- A path from a directory leads to a directory, or into one. -/
theorem Leads.place {follow : Bool} {k : ℕ} {cur segs loc : Names} (h : t.Leads follow k cur segs loc)
    (hcur : t.node cur = some .dir) :
    t.node loc = some .dir ∨ loc ≠ [] ∧ t.node loc.dropLast = some .dir := by
  induction h with
  | here => exact .inl hcur
  | skip _ _ ih => exact ih hcur
  | up _ ih => exact ih (node_dropLast_of_dir hcur)
  | enter _ hdir _ ih => exact ih hdir
  | last => exact .inr ⟨by simp, by rwa [List.dropLast_concat]⟩
  | link _ _ _ _ ih =>
      apply ih
      split
      · exact t.root
      · exact hcur

theorem Leads.free {follow : Bool} {k : ℕ} {cur segs loc : Names} (h : t.Leads follow k cur segs loc)
    (hcur : t.node cur = some .dir) (hdir : t.node loc ≠ some .dir) : t.Free loc := by
  obtain ⟨hroot, hparent⟩ := (h.place hcur).resolve_left hdir
  refine ⟨hroot, by rw [hparent]; rfl, ?_⟩
  rw [Bool.eq_false_iff, ne_eq, isDir_eq_true]
  exact hdir

/-- The path goes on from a directory as if it began there. -/
theorem Leads.append {k : ℕ} {cur segs dir : Names} (h : t.Leads true k cur segs dir)
    (hdir : t.node dir = some .dir) {rest : Names} (hrest : rest ≠ []) :
    ∃ k', ∀ follow, t.lookup follow k cur (segs ++ rest) = t.lookup follow k' dir rest := by
  induction h with
  | here k cur => exact ⟨k, fun _ => rfl⟩
  | skip hs _ ih =>
      obtain ⟨k', hk'⟩ := ih hdir
      refine ⟨k', fun follow => ?_⟩
      rw [List.cons_append, lookup_eq_walk, walk, if_pos hs, ← lookup_eq_walk, hk']
  | up _ ih =>
      obtain ⟨k', hk'⟩ := ih hdir
      refine ⟨k', fun follow => ?_⟩
      rw [List.cons_append, lookup_eq_walk, walk, if_neg (by simp), if_pos rfl, ← lookup_eq_walk, hk']
  | enter hs hnode _ ih =>
      obtain ⟨k', hk'⟩ := ih hdir
      refine ⟨k', fun follow => ?_⟩
      rw [List.cons_append, lookup_eq_walk, walk_of_entry hs, hnode, ← lookup_eq_walk, hk']
  | last hs hnotDir =>
      rw [hdir] at hnotDir
      cases hnotDir
  | link hs hnode _ _ ih =>
      obtain ⟨k', hk'⟩ := ih hdir
      refine ⟨k', fun follow => ?_⟩
      rw [List.cons_append, lookup_eq_walk, walk_of_entry hs, hnode]
      dsimp only
      -- with more to come the link is not the last segment, so it is followed in any case
      rw [if_neg fun hend => hrest (List.append_eq_nil_iff.mp hend.1).2, onLink, ← List.append_assoc, hk']

theorem Leads.append_iff {k : ℕ} {cur segs dir : Names} (h : t.Leads true k cur segs dir)
    (hdir : t.node dir = some .dir) {rest : Names} (hrest : rest ≠ []) :
    ∃ k', ∀ follow loc, t.Leads follow k cur (segs ++ rest) loc ↔ t.Leads follow k' dir rest loc := by
  obtain ⟨k', hk'⟩ := h.append hdir hrest
  exact ⟨k', fun follow loc => by rw [← lookup_iff, hk', lookup_iff]⟩

theorem Leads.noLink {follow : Bool} {k : ℕ} {cur segs loc : Names} (h : t.Leads follow k cur segs loc)
    (hnames : ∀ n ∈ segs, IsName n)
    (hlink : ∀ way, way ≠ [] → way <+: segs → (way = segs → follow = true) →
      isLink (t.node (cur ++ way)) = false) : loc = cur ++ segs := by
  induction h with
  | here => simp
  | skip hs => exact absurd hs (isEntry_of_isName (hnames _ (by simp))).1
  | up => exact absurd rfl (hnames _ (by simp)).ne_dotdot
  | @enter k cur rest loc s hs hdir _ ih =>
      have hrest := ih (fun n hn => hnames n (by simp [hn])) fun way hne hway hend => by
        rw [List.append_assoc]
        exact hlink ([s] ++ way) (by simp) (by simpa using hway) fun heq => hend (by simpa using heq)
      rw [hrest, List.append_assoc, List.singleton_append]
  | last => rfl
  | @link k cur rest loc s target hs hnode hfollow _ ih =>
      have hno := hlink [s] (by simp) (by simp) fun heq => hfollow (by simpa using heq)
      rw [hnode] at hno
      cases hno

theorem Leads.concat {k : ℕ} {cur segs dir loc : Names} (h : t.Leads true k cur segs dir)
    (hdir : t.node dir = some .dir) {n : List Char} (hn : IsName n)
    (hleads : t.Leads false k cur (segs ++ [n]) loc) : loc = dir ++ [n] := by
  obtain ⟨k', hk'⟩ := h.append_iff hdir (by simp : [n] ≠ [])
  refine ((hk' false loc).mp hleads).noLink (by simpa using hn) ?_
  intro way hne hway hend
  have hlen := hway.length_le
  have hpos : 0 < way.length := List.length_pos_of_ne_nil hne
  have heq : way = [n] := hway.eq_of_length (by simp at hlen ⊢; omega)
  exact absurd (hend heq) (by simp)

theorem not_leads_missing {follow : Bool} {k : ℕ} {cur rest loc : Names} {n : List Char} (hn : IsName n)
    (hnone : t.node (cur ++ [n]) = none) (hrest : rest ≠ []) : ¬ t.Leads follow k cur (n :: rest) loc := by
  intro h
  cases h with
  | skip hs => exact (isEntry_of_isName hn).1 hs
  | up => exact hn.ne_dotdot rfl
  | enter _ hdir =>
      rw [hnone] at hdir
      cases hdir
  | last => exact hrest rfl
  | link _ hnode =>
      rw [hnone] at hnode
      cases hnode

theorem leads_name {follow : Bool} {k : ℕ} {cur : Names} {n : List Char} (hn : IsName n)
    (hlast : isLink (t.node (cur ++ [n])) = true → follow = false) :
    t.Leads follow k cur [n] (cur ++ [n]) := by
  by_cases hdir : t.node (cur ++ [n]) = some .dir
  · exact .enter (isEntry_of_isName hn) hdir (.here k _)
  · refine .last (isEntry_of_isName hn) ?_ hlast
    rw [Bool.eq_false_iff, ne_eq, isDir_eq_true]
    exact hdir

theorem leads_names {follow : Bool} {k : ℕ} {cur segs : Names} (hnames : ∀ n ∈ segs, IsName n)
    (hdirs : ∀ way, way ≠ [] → way <+: segs → way ≠ segs → t.node (cur ++ way) = some .dir)
    (hlast : isLink (t.node (cur ++ segs)) = true → follow = false) :
    t.Leads follow k cur segs (cur ++ segs) := by
  induction segs generalizing cur with
  | nil => simpa using Leads.here k cur
  | cons s rest ih =>
      have hs : IsEntry s := isEntry_of_isName (hnames s (by simp))
      by_cases hrest : rest = []
      · subst hrest
        exact leads_name (hnames s (by simp)) hlast
      · have hdir : t.node (cur ++ [s]) = some .dir :=
          hdirs [s] (by simp) (by simp) fun heq => hrest (by simpa using heq.symm)
        rw [← List.singleton_append, ← List.append_assoc] at hlast ⊢
        refine .enter hs hdir (ih (fun n hn => hnames n (by simp [hn])) ?_ hlast)
        intro way hne hway hend
        rw [List.append_assoc]
        exact hdirs ([s] ++ way) (by simp) (by simpa using hway) fun heq => hend (by simpa using heq)

/-- At a link the way goes on with the text of it. -/
theorem leads_link {follow : Bool} {k : ℕ} {cur segs rest loc : Names} {target : List Char}
    (hnames : ∀ n ∈ segs, IsName n) (hsegs : segs ≠ [])
    (hnode : t.node (cur ++ segs) = some (.symlink target)) (hfollow : rest = [] → follow = true)
    (h : t.Leads follow k (if isAbs target then [] else cur ++ segs.dropLast)
      (target.splitOn '/' ++ rest) loc) : t.Leads follow (k + 1) cur (segs ++ rest) loc := by
  induction segs generalizing cur with
  | nil => exact absurd rfl hsegs
  | cons s segs ih =>
      have hs : IsEntry s := isEntry_of_isName (hnames s (by simp))
      by_cases hnil : segs = []
      · subst hnil
        rw [List.dropLast_singleton, List.append_nil] at h
        exact .link hs hnode hfollow h
      · rw [← List.singleton_append, ← List.append_assoc] at hnode
        have hdir : t.node (cur ++ [s]) = some .dir := node_of_append hnil (by rw [hnode]; simp)
        refine .enter hs hdir (ih (fun n hn => hnames n (by simp [hn])) hnil hnode ?_)
        rwa [List.append_assoc, List.singleton_append, ← List.dropLast_cons_of_ne_nil hnil]

theorem Leads.parent {follow : Bool} {k : ℕ} {cur segs loc : Names} {n : List Char}
    (h : t.Leads follow k cur (segs ++ [n]) loc) (hn : IsName n) (hcur : t.node cur = some .dir) :
    ∃ dir, t.Leads true k cur segs dir ∧ t.node dir = some .dir := by
  generalize hpath : segs ++ [n] = path at h
  induction h generalizing segs with
  | here => simp at hpath
  | @skip k cur rest loc s hs _ ih =>
      rcases List.append_eq_cons_iff.mp hpath with ⟨-, heq⟩ | ⟨segs', rfl, heq⟩
      · obtain rfl : n = s := (List.cons.inj heq).1
        exact absurd hs (isEntry_of_isName hn).1
      · obtain ⟨dir, hleads, hdir⟩ := ih hcur heq.symm
        exact ⟨dir, .skip hs hleads, hdir⟩
  | up _ ih =>
      rcases List.append_eq_cons_iff.mp hpath with ⟨-, heq⟩ | ⟨segs', rfl, heq⟩
      · exact absurd (List.cons.inj heq).1 hn.ne_dotdot
      · obtain ⟨dir, hleads, hdir⟩ := ih (node_dropLast_of_dir hcur) heq.symm
        exact ⟨dir, .up hleads, hdir⟩
  | enter hs hnode _ ih =>
      rcases List.append_eq_cons_iff.mp hpath with ⟨rfl, -⟩ | ⟨segs', rfl, heq⟩
      · exact ⟨_, .here _ _, hcur⟩
      · obtain ⟨dir, hleads, hdir⟩ := ih hnode heq.symm
        exact ⟨dir, .enter hs hnode hleads, hdir⟩
  | last =>
      rcases List.append_eq_cons_iff.mp hpath with ⟨rfl, -⟩ | ⟨segs', rfl, heq⟩
      · exact ⟨_, .here _ _, hcur⟩
      · simp at heq
  | @link k cur rest loc s target hs hnode _ _ ih =>
      rcases List.append_eq_cons_iff.mp hpath with ⟨rfl, -⟩ | ⟨segs', rfl, rfl⟩
      · exact ⟨_, .here _ _, hcur⟩
      · have hstart : t.node (if isAbs target then [] else cur) = some .dir := by
          split
          · exact t.root
          · exact hcur
        obtain ⟨dir, hleads, hdir⟩ := ih hstart (List.append_assoc _ _ _)
        exact ⟨dir, .link hs hnode (fun _ => rfl) hleads, hdir⟩

/-- From a directory the names lead on, if they go through directories. -/
theorem Leads.onward {follow : Bool} {k : ℕ} {cur base dir rest : Names} (h : t.Leads true k cur base dir)
    (hdir : t.node dir = some .dir) (hnames : ∀ n ∈ rest, IsName n) (hfollow : rest = [] → follow = true)
    (hparent : t.node (dir ++ rest.dropLast) = some .dir)
    (hlast : isLink (t.node (dir ++ rest)) = true → follow = false) :
    t.Leads follow k cur (base ++ rest) (dir ++ rest) := by
  by_cases hrest : rest = []
  · obtain rfl := hfollow hrest
    rwa [hrest, List.append_nil, List.append_nil]
  · obtain ⟨k', hk'⟩ := h.append_iff hdir hrest
    refine (hk' follow _).mpr (leads_names hnames ?_ hlast)
    rintro way - hway hne
    -- a shorter way ends at the parent, or above it
    have hpre : way <+: rest.dropLast := by
      rw [← List.dropLast_concat_getLast hrest, List.prefix_concat_iff,
        List.dropLast_concat_getLast hrest] at hway
      exact hway.resolve_left hne
    obtain ⟨below, hbelow⟩ := hpre
    by_cases hnil : below = []
    · rwa [← hbelow, hnil, List.append_nil] at hparent
    · apply node_of_append hnil
      rw [List.append_assoc, hbelow, hparent]
      simp

theorem Leads.onward_dir {k : ℕ} {cur base dir rest : Names} (h : t.Leads true k cur base dir)
    (hdir : t.node dir = some .dir) (hnames : ∀ n ∈ rest, IsName n) (hend : t.node (dir ++ rest) = some .dir) :
    t.Leads true k cur (base ++ rest) (dir ++ rest) := by
  refine h.onward hdir hnames (fun _ => rfl) ?_ (by rw [hend]; nofun)
  by_cases hnil : rest = []
  · rw [hnil] at hend ⊢
    exact hend
  · refine node_of_append (by simp : [rest.getLast hnil] ≠ []) ?_
    rw [List.append_assoc, List.dropLast_concat_getLast, hend]
    simp

/-- Where no link stands at the end, it is the same to follow it or not. -/
theorem Leads.follow {k : ℕ} {cur segs loc : Names} (h : t.Leads false k cur segs loc)
    (hend : isLink (t.node loc) = false) : t.Leads true k cur segs loc := by
  induction h with
  | here k cur => exact .here k cur
  | skip hs _ ih => exact .skip hs (ih hend)
  | up _ ih => exact .up (ih hend)
  | enter hs hdir _ ih => exact .enter hs hdir (ih hend)
  | last hs hdir =>
      refine .last hs hdir ?_
      rw [hend]
      nofun
  | link hs hnode _ _ ih => exact .link hs hnode (fun _ => rfl) (ih hend)

/-- If a path leads to something, then there is an entry at its end. -/
theorem Leads.entry {k : ℕ} {cur segs loc : Names} (h : t.Leads true k cur segs loc)
    (hend : t.node loc ≠ none) : ∃ loc', t.Leads false k cur segs loc' ∧ t.node loc' ≠ none := by
  induction h with
  | here k cur => exact ⟨cur, .here k cur, hend⟩
  | skip hs _ ih =>
      obtain ⟨loc', h', hne⟩ := ih hend
      exact ⟨loc', .skip hs h', hne⟩
  | up _ ih =>
      obtain ⟨loc', h', hne⟩ := ih hend
      exact ⟨loc', .up h', hne⟩
  | enter hs hdir _ ih =>
      obtain ⟨loc', h', hne⟩ := ih hend
      exact ⟨loc', .enter hs hdir h', hne⟩
  | last hs hdir => exact ⟨_, .last hs hdir fun _ => rfl, hend⟩
  | @link k cur rest loc s target hs hnode _ _ ih =>
      by_cases hrest : rest = []
      · subst hrest
        refine ⟨cur ++ [s], .last hs ?_ fun _ => rfl, ?_⟩
        · rw [hnode]
          rfl
        · rw [hnode]
          simp
      · obtain ⟨loc', h', hne⟩ := ih hend
        exact ⟨loc', .link hs hnode (fun hnil => absurd hnil hrest) h', hne⟩

theorem found_eq_ok {place : Except Errno Names} {v : Node β} :
    t.found place = .ok v ↔ ∃ loc, place = .ok loc ∧ t.node loc = some v := by
  cases place with
  | error e => simp [found]
  | ok loc => cases hnode : t.node loc <;> simp [found, hnode]

theorem stat_eq_ok {path : Names} {v : Node β} :
    t.stat path = .ok v ↔ ∃ loc, t.Leads true maxLinks [] path loc ∧ t.node loc = some v := by
  rw [stat, found_eq_ok]
  simp only [resolve, lookup_iff]

theorem lstat_eq_ok {path : Names} {v : Node β} :
    t.lstat path = .ok v ↔ ∃ loc, t.Leads false maxLinks [] path loc ∧ t.node loc = some v := by
  rw [lstat, found_eq_ok]
  simp only [resolve, lookup_iff]

theorem stat_of_dir {path : Names} (hnames : ∀ n ∈ path, IsName n) (hdir : t.node path = some .dir) :
    t.stat path = .ok .dir := by
  refine stat_eq_ok.mpr ⟨[] ++ path, leads_names hnames ?_ ?_, hdir⟩
  · rintro way - ⟨below, rfl⟩ hne
    have hbelow : below ≠ [] := fun hnil => hne (by simp [hnil])
    exact node_of_append hbelow (by rw [List.nil_append, hdir]; simp)
  · rw [List.nil_append, hdir]
    nofun

/-- What is a directory itself is one for those who follow links. -/
theorem stat_of_lstat {path : Names} (h : t.lstat path = .ok .dir) : t.stat path = .ok .dir := by
  obtain ⟨loc, hleads, hdir⟩ := lstat_eq_ok.mp h
  exact stat_eq_ok.mpr ⟨loc, hleads.follow (by rw [hdir]; rfl), hdir⟩

/-- One tree has all that another one has; of a file the content may differ. -/
def Extends (t t' : Tree β) : Prop :=
  ∀ loc, t.node loc ≠ none → t'.node loc = t.node loc ∨
    isFile (t.node loc) = true ∧ isFile (t'.node loc) = true

theorem Extends.refl (t : Tree β) : Extends t t := fun _ _ => .inl rfl

theorem Extends.trans {t t' t'' : Tree β} (h : Extends t t') (h' : Extends t' t'') : Extends t t'' := by
  intro loc hne
  rcases h loc hne with heq | ⟨hfile, hfile'⟩
  · rw [← heq] at hne ⊢
    exact h' loc hne
  · have hne' : t'.node loc ≠ none := by
      intro hnone
      rw [hnone] at hfile'
      cases hfile'
    rcases h' loc hne' with heq | ⟨-, hfile''⟩
    · exact .inr ⟨hfile, by rwa [heq]⟩
    · exact .inr ⟨hfile, hfile''⟩

theorem Extends.node_eq {t t' : Tree β} (h : Extends t t') {loc : Names} {v : Node β}
    (hnode : t.node loc = some v) (hfile : isFile (some v) = false) : t'.node loc = some v := by
  rcases h loc (by rw [hnode]; simp) with heq | ⟨hfile', -⟩
  · rw [heq, hnode]
  · rw [hnode, hfile] at hfile'
    cases hfile'

/-- A path leads to the same place when the tree has grown, unless there is a link now
at its end where nothing was. -/
theorem Leads.extends {t t' : Tree β} {follow : Bool} {k : ℕ} {cur segs loc : Names}
    (h : t.Leads follow k cur segs loc) (hext : Extends t t')
    (hend : t.node loc = none → isLink (t'.node loc) = true → follow = false) :
    t'.Leads follow k cur segs loc := by
  induction h with
  | here k cur => exact .here k cur
  | skip hs _ ih => exact .skip hs (ih hend)
  | up _ ih => exact .up (ih hend)
  | enter hs hdir _ ih => exact .enter hs (hext.node_eq hdir rfl) (ih hend)
  | @last k cur s hs hdir hlink =>
      by_cases hdir' : t'.node (cur ++ [s]) = some .dir
      · exact .enter hs hdir' (.here k _)
      · refine .last hs (by rwa [Bool.eq_false_iff, ne_eq, isDir_eq_true]) ?_
        intro hlink'
        by_cases hnone : t.node (cur ++ [s]) = none
        · exact hend hnone hlink'
        · rcases hext _ hnone with heq | ⟨-, hfile⟩
          · exact hlink (heq ▸ hlink')
          · rw [isLink_of_isFile hfile] at hlink'
            cases hlink'
  | link hs hnode hfollow _ ih => exact .link hs (hext.node_eq hnode rfl) hfollow (ih hend)

end Tree

/-! ### What a call does -/

namespace Disk

variable {d d' : Disk β}

structure Wrote (d : Disk β) (loc : Names) (v : Node β) (d' : Disk β) : Prop where
  free : d.tree.Free loc
  node : d'.tree.node = Function.update d.tree.node loc (some v)
  allowed : d'.allowed = d.allowed
  written : d'.written = loc :: d.written

theorem write_cases (loc : Names) (v : Node β) (d : Disk β) :
    (∃ e, d.write loc v = (some e, d)) ∨ ∃ d', d.write loc v = (none, d') ∧ d.Wrote loc v d' := by
  unfold write
  split
  · split
    · exact .inr ⟨_, rfl, ‹_›, rfl, rfl, rfl⟩
    · exact .inl ⟨_, rfl⟩
  · exact .inl ⟨_, rfl⟩

theorem write_allowed {loc : Names} (v : Node β) (hallowed : d.allowed loc = true) (hfree : d.tree.Free loc) :
    ∃ d', d.write loc v = (none, d') ∧ d.Wrote loc v d' := by
  rcases write_cases loc v d with ⟨e, herror⟩ | h
  · rw [write, if_pos hallowed, dif_pos hfree] at herror
    cases herror
  · exact h

/-- A new entry is made at the end of a path, where nothing was; or nothing is done. -/
theorem make_cases (path : Names) (v : Node β) (d : Disk β) :
    (∃ e, d.make path v = (some e, d)) ∨ ∃ loc d', d.tree.Leads false Tree.maxLinks [] path loc ∧
      d.tree.node loc = none ∧ d.make path v = (none, d') ∧ d.Wrote loc v d' := by
  unfold make
  split
  · exact .inl ⟨_, rfl⟩
  · rename_i loc hresolve
    split
    · exact .inl ⟨_, rfl⟩
    · rcases write_cases loc v d with ⟨e, herror⟩ | ⟨d', hwrite, hwrote⟩
      · exact .inl ⟨e, herror⟩
      · exact .inr ⟨loc, d', Tree.lookup_iff.mp hresolve, ‹_›, hwrite, hwrote⟩

theorem make_eq_exist {path : Names} {v : Node β} (h : d.make path v = (some .exist, d')) :
    ∃ v', d.tree.lstat path = .ok v' := by
  unfold make at h
  split at h
  · rename_i e herror
    obtain rfl : e = .exist := Option.some.inj (congrArg Prod.fst h)
    exact absurd herror Tree.lookup_ne_exist
  · rename_i loc hresolve
    split at h
    · rename_i v' hnode
      exact ⟨v', Tree.lstat_eq_ok.mpr ⟨loc, Tree.lookup_iff.mp hresolve, hnode⟩⟩
    · rcases write_cases loc v d with ⟨e, herror⟩ | ⟨d', hwrite, -⟩
      · unfold write at h
        split at h
        · split at h <;> cases h
        · cases h
      · rw [hwrite] at h
        cases h

theorem make_eq_none {path : Names} {v : Node β} (h : d.make path v = (none, d')) :
    ∃ loc, d.tree.Leads false Tree.maxLinks [] path loc ∧ d.tree.node loc = none ∧ d.Wrote loc v d' := by
  rcases make_cases path v d with ⟨e, herror⟩ | ⟨loc, d'', hleads, hnone, hmake, hwrote⟩
  · rw [herror] at h
    cases h
  · rw [hmake] at h
    obtain rfl : d'' = d' := congrArg Prod.snd h
    exact ⟨loc, hleads, hnone, hwrote⟩

theorem make_of_leads {path loc : Names} (v : Node β) (hleads : d.tree.Leads false Tree.maxLinks [] path loc)
    (hnone : d.tree.node loc = none) (hallowed : d.allowed loc = true) :
    ∃ d', d.make path v = (none, d') ∧ d.Wrote loc v d' := by
  obtain ⟨d', hwrite, hwrote⟩ := write_allowed v hallowed (hleads.free d.tree.root (by rw [hnone]; simp))
  refine ⟨d', ?_, hwrote⟩
  rw [make, Tree.resolve, Tree.lookup_iff.mpr hleads]
  dsimp only
  rw [hnone]
  exact hwrite

theorem make_of_some {path loc : Names} (v : Node β) (hleads : d.tree.Leads false Tree.maxLinks [] path loc)
    (hsome : d.tree.node loc ≠ none) : d.make path v = (some .exist, d) := by
  obtain ⟨v', hv'⟩ := Option.ne_none_iff_exists'.mp hsome
  rw [make, Tree.resolve, Tree.lookup_iff.mpr hleads]
  dsimp only
  rw [hv']

/-- A file is written at the end of a path; or what is there takes it in; or nothing
is done. -/
theorem save_cases (content : β) (path : Names) (d : Disk β) :
    (∃ e, d.save content path = (some e, d)) ∨
    ∃ loc d', d.tree.Leads true Tree.maxLinks [] path loc ∧ d.save content path = (none, d') ∧
      (d.Wrote loc (.file content) d' ∧ (d.tree.node loc = none ∨ isFile (d.tree.node loc) = true) ∨
        d.tree.node loc = some .other ∧ d' = { d with written := loc :: d.written }) := by
  unfold save
  split
  · exact .inl ⟨_, rfl⟩
  · rename_i loc hresolve
    have hleads := Tree.lookup_iff.mp hresolve
    split
    · rename_i hnone
      rcases write_cases loc (.file content) d with herror | ⟨d', hwrite, hwrote⟩
      · exact .inl herror
      · exact .inr ⟨loc, d', hleads, hwrite, .inl ⟨hwrote, .inl hnone⟩⟩
    · rename_i hfile
      rcases write_cases loc (.file content) d with herror | ⟨d', hwrite, hwrote⟩
      · exact .inl herror
      · exact .inr ⟨loc, d', hleads, hwrite, .inl ⟨hwrote, .inr (by rw [hfile]; rfl)⟩⟩
    · exact .inl ⟨_, rfl⟩
    · exact .inl ⟨_, rfl⟩
    · rename_i hother
      split
      · exact .inr ⟨loc, _, hleads, rfl, .inr ⟨hother, rfl⟩⟩
      · exact .inl ⟨_, rfl⟩

theorem save_of_leads {path loc : Names} (content : β) (hleads : d.tree.Leads true Tree.maxLinks [] path loc)
    (hnone : d.tree.node loc = none) (hallowed : d.allowed loc = true) :
    ∃ d', d.save content path = (none, d') ∧ d.Wrote loc (.file content) d' := by
  obtain ⟨d', hwrite, hwrote⟩ :=
    write_allowed (.file content) hallowed (hleads.free d.tree.root (by rw [hnone]; simp))
  refine ⟨d', ?_, hwrote⟩
  rw [save, Tree.resolve, Tree.lookup_iff.mpr hleads]
  dsimp only
  rw [hnone]
  exact hwrite

theorem save_of_file {path loc : Names} (content : β) (hleads : d.tree.Leads true Tree.maxLinks [] path loc)
    (hfile : isFile (d.tree.node loc) = true) (hallowed : d.allowed loc = true) :
    ∃ d', d.save content path = (none, d') ∧ d.Wrote loc (.file content) d' := by
  rcases hnode : d.tree.node loc with _ | _ | old | _ | _ <;> rw [hnode] at hfile
  · cases hfile
  · cases hfile
  · obtain ⟨d', hwrite, hwrote⟩ :=
      write_allowed (.file content) hallowed (hleads.free d.tree.root (by rw [hnode]; simp))
    refine ⟨d', ?_, hwrote⟩
    rw [save, Tree.resolve, Tree.lookup_iff.mpr hleads]
    dsimp only
    rw [hnode]
    exact hwrite
  · cases hfile
  · cases hfile

structure Grows (d d' : Disk β) : Prop where
  keeps : Tree.Extends d.tree d'.tree
  allowed : d'.allowed = d.allowed
  log : ∀ loc ∈ d.written, loc ∈ d'.written

theorem Grows.refl (d : Disk β) : Grows d d := ⟨.refl d.tree, rfl, fun _ h => h⟩

theorem Grows.trans {d'' : Disk β} (h : Grows d d') (h' : Grows d' d'') : Grows d d'' where
  keeps := h.keeps.trans h'.keeps
  allowed := h'.allowed.trans h.allowed
  log := fun loc hloc => h'.log loc (h.log loc hloc)

/-- A place was not written to. -/
structure Untouched (d d' : Disk β) (loc : Names) : Prop where
  node : d'.tree.node loc = d.tree.node loc
  log : loc ∈ d'.written → loc ∈ d.written

theorem Untouched.refl (d : Disk β) (loc : Names) : Untouched d d loc := ⟨rfl, id⟩

theorem Untouched.trans {d'' : Disk β} {loc : Names} (h : Untouched d d' loc) (h' : Untouched d' d'' loc) :
    Untouched d d'' loc :=
  ⟨h'.node.trans h.node, fun hmem => h.log (h'.log hmem)⟩

theorem Wrote.untouched {loc place : Names} {v : Node β} (h : d.Wrote place v d') (hne : loc ≠ place) :
    Untouched d d' loc where
  node := by rw [h.node, Function.update_of_ne hne]
  log := fun hmem => by
    rw [h.written] at hmem
    exact (List.mem_cons.mp hmem).resolve_left hne

/-- What is put where nothing was, or in place of a file, lets the tree grow. -/
theorem Wrote.grows {loc : Names} {v : Node β} (h : d.Wrote loc v d')
    (hplace : d.tree.node loc = none ∨ isFile (d.tree.node loc) = true ∧ isFile (some v) = true) :
    Grows d d' where
  keeps := by
    intro place hne
    rw [h.node]
    by_cases heq : place = loc
    · subst heq
      rw [Function.update_self]
      exact .inr (hplace.resolve_left hne)
    · rw [Function.update_of_ne heq]
      exact .inl rfl
  allowed := h.allowed
  log := fun place hplace => by
    rw [h.written]
    exact List.mem_cons_of_mem loc hplace

theorem make_grows (path : Names) (v : Node β) (d : Disk β) : Grows d (d.make path v).2 := by
  rcases make_cases path v d with ⟨e, herror⟩ | ⟨loc, d', -, hnone, hmake, hwrote⟩
  · rw [herror]
    exact .refl d
  · rw [hmake]
    exact hwrote.grows (.inl hnone)

theorem symlink_grows (target : List Char) (path : Names) (d : Disk β) :
    Grows d (d.symlink target path).2 := by
  unfold symlink
  split
  · exact .refl d
  · exact make_grows path _ d

theorem save_grows (content : β) (path : Names) (d : Disk β) : Grows d (d.save content path).2 := by
  rcases save_cases content path d with ⟨e, herror⟩ | ⟨loc, d', -, hsave, ⟨hwrote, hplace⟩ | ⟨-, rfl⟩⟩
  · rw [herror]
    exact .refl d
  · rw [hsave]
    exact hwrote.grows (hplace.imp_right fun hfile => ⟨hfile, rfl⟩)
  · rw [hsave]
    exact ⟨.refl d.tree, rfl, fun _ hmem => List.mem_cons_of_mem _ hmem⟩

/-! ### Directories on the way -/

theorem mkdirAll_nil (d : Disk β) : d.mkdirAll [] = (none, d) := rfl

theorem mkdirAll_concat (path : Names) (n : List Char) (d : Disk β) :
    d.mkdirAll (path ++ [n]) =
      match d.tree.stat (path ++ [n]) with
      | .ok .dir => (none, d)
      | .ok _ => (some .notDir, d)
      | .error _ =>
          match d.mkdirAll path with
          | (some e, d) => (some e, d)
          | (none, d) =>
              match d.mkdir (path ++ [n]) with
              | (none, d) => (none, d)
              | (some e, d) =>
                  match d.tree.lstat (path ++ [n]) with
                  | .ok .dir => (none, d)
                  | _ => (some e, d) := by
  rw [mkdirAll, List.reverse_concat, mkdirUp, List.reverse_cons, List.reverse_reverse]
  rfl

theorem mkdirAll_of_dir {path : Names} (h : d.tree.stat path = .ok .dir) : d.mkdirAll path = (none, d) := by
  induction path using List.reverseRecOn with
  | nil => rfl
  | append_singleton path n _ => rw [mkdirAll_concat, h]

/-- The ways `MkdirAll` can go, from a disk, with its error and the disk it leaves. -/
inductive MkdirRun (d : Disk β) : Names → Option Errno → Disk β → Prop
  | root : MkdirRun d [] none d
  | isDir {path : Names} {n : List Char} (h : d.tree.stat (path ++ [n]) = .ok .dir) :
      MkdirRun d (path ++ [n]) none d
  | notDir {path : Names} {n : List Char} : MkdirRun d (path ++ [n]) (some .notDir) d
  | stopped {path : Names} {n : List Char} {e : Errno} {d₁ : Disk β} (h : MkdirRun d path (some e) d₁) :
      MkdirRun d (path ++ [n]) (some e) d₁
  | made {path loc : Names} {n : List Char} {d₁ d' : Disk β} (h : MkdirRun d path none d₁)
      (hleads : d₁.tree.Leads false Tree.maxLinks [] (path ++ [n]) loc) (hnone : d₁.tree.node loc = none)
      (hwrote : d₁.Wrote loc .dir d') : MkdirRun d (path ++ [n]) none d'
  | found {path : Names} {n : List Char} {d₁ : Disk β} (hstat : ∀ v, d.tree.stat (path ++ [n]) ≠ .ok v)
      (h : MkdirRun d path none d₁) (hlstat : d₁.tree.lstat (path ++ [n]) = .ok .dir) :
      MkdirRun d (path ++ [n]) none d₁
  | failed {path : Names} {n : List Char} {e : Errno} {d₁ : Disk β} (h : MkdirRun d path none d₁) :
      MkdirRun d (path ++ [n]) (some e) d₁

theorem mkdirAll_run (path : Names) (d : Disk β) :
    MkdirRun d path (d.mkdirAll path).1 (d.mkdirAll path).2 := by
  induction path using List.reverseRecOn with
  | nil => exact .root
  | append_singleton path n ih =>
      rw [mkdirAll_concat]
      split
      · exact .isDir ‹_›
      · exact .notDir
      · rename_i herror
        split
        · rename_i hpath
          rw [hpath] at ih
          exact .stopped ih
        · rename_i d₁ hpath
          rw [hpath] at ih
          rcases make_cases (path ++ [n]) .dir d₁ with ⟨e, hmake⟩ | ⟨loc, d', hleads, hnone, hmake, hwrote⟩
          · rw [mkdir, hmake]
            dsimp only
            split
            · refine .found (fun v hv => ?_) ih ‹_›
              rw [herror] at hv
              cases hv
            · exact .failed ih
          · rw [mkdir, hmake]
            exact .made ih hleads hnone hwrote

theorem MkdirRun.grows {path : Names} {e : Option Errno} (h : MkdirRun d path e d') : Grows d d' := by
  induction h with
  | root => exact .refl d
  | isDir => exact .refl d
  | notDir => exact .refl d
  | stopped _ ih => exact ih
  | made _ _ hnone hwrote ih => exact ih.trans (hwrote.grows (.inl hnone))
  | found _ _ _ ih => exact ih
  | failed _ ih => exact ih

theorem mkdirAll_grows (path : Names) (d : Disk β) : Grows d (d.mkdirAll path).2 :=
  (mkdirAll_run path d).grows

/-- The directory was there before, and nothing is done; or it is new, and empty. -/
theorem MkdirRun.dir {path : Names} (h : MkdirRun d path none d') (hnames : ∀ n ∈ path, IsName n) :
    d' = d ∧ d.tree.stat path = .ok .dir ∨
    ∃ loc, d'.tree.Leads true Tree.maxLinks [] path loc ∧ d'.tree.node loc = some .dir ∧
      ∀ n, d'.tree.node (loc ++ [n]) = none := by
  generalize hnoError : (none : Option Errno) = e at h
  induction h with
  | root => exact .inl ⟨rfl, Tree.stat_eq_ok.mpr ⟨[], .here _ _, d.tree.root⟩⟩
  | isDir h => exact .inl ⟨rfl, h⟩
  | notDir => cases hnoError
  | stopped => cases hnoError
  | @made path loc n d₁ d' _ hleads hnone hwrote _ =>
      refine .inr ⟨loc, ?_, ?_, ?_⟩
      · have hdir : d'.tree.node loc = some .dir := by rw [hwrote.node, Function.update_self]
        have hleads' := hleads.extends (hwrote.grows (.inl hnone)).keeps fun _ _ => rfl
        exact hleads'.follow (by rw [hdir]; rfl)
      · rw [hwrote.node, Function.update_self]
      · intro m
        rw [hwrote.node, Function.update_of_ne (by simp)]
        -- nothing can be below a place where nothing is
        by_contra hne
        rw [d₁.tree.parent loc m hne] at hnone
        cases hnone
  | @found path n d₁ hstat _ hlstat ih =>
      rcases ih (fun m hm => hnames m (by simp [hm])) hnoError with ⟨rfl, -⟩ | ⟨loc, hleads, hdir, hempty⟩
      · exact absurd (Tree.stat_of_lstat hlstat) (hstat _)
      · obtain ⟨loc', hleads', hdir'⟩ := Tree.lstat_eq_ok.mp hlstat
        rw [hleads.concat hdir (hnames n (by simp)) hleads', hempty] at hdir'
        cases hdir'
  | failed => cases hnoError

theorem stat_mkdirAll {path : Names} (h : d.mkdirAll path = (none, d')) (hnames : ∀ n ∈ path, IsName n) :
    d'.tree.stat path = .ok .dir := by
  have hrun := mkdirAll_run path d
  rw [h] at hrun
  rcases hrun.dir hnames with ⟨rfl, hstat⟩ | ⟨loc, hleads, hdir, -⟩
  · exact hstat
  · exact Tree.stat_eq_ok.mpr ⟨loc, hleads, hdir⟩

theorem MkdirRun.link {path : Names} {e : Option Errno} (h : MkdirRun d path e d') {loc : Names}
    (hlink : isLink (d'.tree.node loc) = true) : d'.tree.node loc = d.tree.node loc := by
  induction h with
  | root => rfl
  | isDir => rfl
  | notDir => rfl
  | stopped _ ih => exact ih hlink
  | @made path place n d₁ d' _ hleads hnone hwrote ih =>
      by_cases hplace : loc = place
      · rw [hplace, hwrote.node, Function.update_self] at hlink
        cases hlink
      · rw [hwrote.node, Function.update_of_ne hplace] at hlink ⊢
        exact ih hlink
  | found _ _ _ ih => exact ih hlink
  | failed _ ih => exact ih hlink

theorem MkdirRun.node_eq {path : Names} {e : Option Errno} (h : MkdirRun d path e d') {loc : Names}
    (hne : d.tree.node loc ≠ none) : d'.tree.node loc = d.tree.node loc := by
  induction h with
  | root => rfl
  | isDir => rfl
  | notDir => rfl
  | stopped _ ih => exact ih
  | @made path place n d₁ d' _ hleads hnone hwrote ih =>
      have hplace : loc ≠ place := by
        rintro rfl
        exact hne (ih.symm.trans hnone)
      rw [hwrote.node, Function.update_of_ne hplace]
      exact ih
  | found _ _ _ ih => exact ih
  | failed _ ih => exact ih

theorem node_mkdirAll (path : Names) {loc : Names} (hne : d.tree.node loc ≠ none) :
    (d.mkdirAll path).2.tree.node loc = d.tree.node loc :=
  (mkdirAll_run path d).node_eq hne

theorem node_symlink (target : List Char) (path : Names) {loc : Names} (hne : d.tree.node loc ≠ none) :
    (d.symlink target path).2.tree.node loc = d.tree.node loc := by
  unfold symlink
  split
  · rfl
  · rcases make_cases path (.symlink target) d with ⟨e, herror⟩ | ⟨place, d', -, hnone, hmake, hwrote⟩
    · rw [herror]
    · have hplace : loc ≠ place := by
        rintro rfl
        exact hne hnone
      rw [hmake, hwrote.node, Function.update_of_ne hplace]

/-- The disk that is left: that of before, that of the way up, or one more directory
is on it. -/
theorem mkdirAll_concat_disk (path : Names) (n : List Char) (d : Disk β) :
    (∃ v, d.tree.stat (path ++ [n]) = .ok v) ∧ (d.mkdirAll (path ++ [n])).2 = d ∨
    (d.mkdirAll (path ++ [n])).2 = (d.mkdirAll path).2 ∨
    ∃ loc, (d.mkdirAll path).2.tree.Leads false Tree.maxLinks [] (path ++ [n]) loc ∧
      (d.mkdirAll path).2.Wrote loc .dir (d.mkdirAll (path ++ [n])).2 := by
  rw [mkdirAll_concat]
  split
  · exact .inl ⟨⟨_, ‹_›⟩, rfl⟩
  · exact .inl ⟨⟨_, ‹_›⟩, rfl⟩
  · right
    split
    · rename_i hpath
      rw [hpath]
      exact .inl rfl
    · rename_i d₁ hpath
      rw [hpath]
      rcases make_cases (path ++ [n]) .dir d₁ with ⟨e, hmake⟩ | ⟨loc, d', hleads, -, hmake, hwrote⟩
      · rw [mkdir, hmake]
        left
        dsimp only
        split <;> rfl
      · rw [mkdir, hmake]
        exact .inr ⟨loc, hleads, hwrote⟩

/-- Below a directory, and with no link further down, only the names of the path are
made. -/
theorem mkdirAll_touched {base dir rest : Names} (hbase : d.tree.Leads true Tree.maxLinks [] base dir)
    (hdir : d.tree.node dir = some .dir) (hnames : ∀ n ∈ rest, IsName n)
    (hlink : ∀ way, way ≠ [] → way <+: rest → way ≠ rest → isLink (d.tree.node (dir ++ way)) = false)
    (loc : Names) : Untouched d (d.mkdirAll (base ++ rest)).2 loc ∨
      ∃ way, way ≠ [] ∧ way <+: rest ∧ loc = dir ++ way ∧
        (d.mkdirAll (base ++ rest)).2.tree.node loc = some .dir := by
  induction rest using List.reverseRecOn with
  | nil =>
      rw [List.append_nil, mkdirAll_of_dir (Tree.stat_eq_ok.mpr ⟨dir, hbase, hdir⟩)]
      exact .inl (.refl d loc)
  | append_singleton rest n ih =>
      have hshorter : ∀ way, way <+: rest → way <+: rest ++ [n] ∧ way ≠ rest ++ [n] := by
        intro way hway
        refine ⟨hway.trans (List.prefix_append rest [n]), ?_⟩
        rintro rfl
        have hlen := hway.length_le
        simp at hlen
      have hup : Untouched d (d.mkdirAll (base ++ rest)).2 loc ∨
          ∃ way, way ≠ [] ∧ way <+: rest ++ [n] ∧ loc = dir ++ way ∧
            (d.mkdirAll (base ++ rest)).2.tree.node loc = some .dir := by
        refine (ih (fun m hm => hnames m (by simp [hm])) ?_).imp_right ?_
        · exact fun way hne hway _ => hlink way hne (hshorter way hway).1 (hshorter way hway).2
        · rintro ⟨way, hne, hway, hloc⟩
          exact ⟨way, hne, (hshorter way hway).1, hloc⟩
      rw [← List.append_assoc]
      rcases mkdirAll_concat_disk (base ++ rest) n d with ⟨-, hsame⟩ | hsame | ⟨place, hleads, hwrote⟩
      · rw [hsame]
        exact .inl (.refl d loc)
      · rw [hsame]
        exact hup
      · by_cases hplace : loc = place
        · -- the directories that were made before have not put a link into the way
          have hrun := mkdirAll_run (base ++ rest) d
          have hbase' := hbase.extends hrun.grows.keeps (by rw [hdir]; nofun)
          rw [List.append_assoc] at hleads
          obtain ⟨k', hk'⟩ := hbase'.append_iff (hrun.grows.keeps.node_eq hdir rfl) (by simp : rest ++ [n] ≠ [])
          refine .inr ⟨rest ++ [n], by simp, List.prefix_rfl, ?_, ?_⟩
          · rw [hplace]
            refine ((hk' false place).mp hleads).noLink hnames ?_
            intro way hne hway hend
            have hproper : way ≠ rest ++ [n] := fun heq => absurd (hend heq) (by simp)
            rw [Bool.eq_false_iff]
            intro hmade
            rw [hrun.link hmade, hlink way hne hway hproper] at hmade
            cases hmade
          · rw [hplace, hwrote.node, Function.update_self]
        · have hsame := hwrote.untouched hplace
          rw [hsame.node]
          exact hup.imp_left fun h => h.trans hsame

/-- Where nothing was found, a path that leads there now had no end before. -/
theorem stat_ne_ok {t t' : Tree β} (h : t.Extends t') {path loc : Names}
    (hleads : t'.Leads true Tree.maxLinks [] path loc) (hnone : t.node loc = none) (v : Node β) :
    t.stat path ≠ .ok v := by
  intro hv
  obtain ⟨loc', hloc', hnode⟩ := Tree.stat_eq_ok.mp hv
  have hfound := hloc'.extends h (by rw [hnode]; nofun)
  rw [← hleads.unique hfound, hnone] at hnode
  cases hnode

/-- A directory that was made, or was there and had no such entry, has none. -/
theorem none_of_mkdirAll {base dir rest : Names} {n : List Char} {d₁ : Disk β}
    (hbase : d.tree.Leads true Tree.maxLinks [] base dir) (hdir : d.tree.node dir = some .dir)
    (hnames : ∀ m ∈ base ++ rest, IsName m) (hup : d.mkdirAll (base ++ rest) = (none, d₁))
    (hdir₁ : d₁.tree.node (dir ++ rest) = some .dir) (hnone : d.tree.node (dir ++ (rest ++ [n])) = none) :
    d₁.tree.node (dir ++ (rest ++ [n])) = none := by
  have hrun := mkdirAll_run (base ++ rest) d
  rw [hup] at hrun
  rcases hrun.dir hnames with ⟨rfl, -⟩ | ⟨loc, hloc, -, hempty⟩
  · exact hnone
  · have hbase₁ := hbase.extends hrun.grows.keeps (by rw [hdir]; nofun)
    have hplace := hbase₁.onward_dir (hrun.grows.keeps.node_eq hdir rfl)
      (fun m hm => hnames m (List.mem_append_right base hm)) hdir₁
    rw [← List.append_assoc, hplace.unique hloc]
    exact hempty n

/-- Below a directory where nothing but directories are in the way, all of them are
made. -/
theorem mkdirAll_of_dirs {base dir rest : Names} (hbase : d.tree.Leads true Tree.maxLinks [] base dir)
    (hdir : d.tree.node dir = some .dir) (hbaseNames : ∀ n ∈ base, IsName n) (hnames : ∀ n ∈ rest, IsName n)
    (hallowed : ∀ loc, d.allowed loc = true)
    (hway : ∀ way, way <+: rest → d.tree.node (dir ++ way) = none ∨ d.tree.node (dir ++ way) = some .dir) :
    ∃ d', d.mkdirAll (base ++ rest) = (none, d') ∧ d'.tree.node (dir ++ rest) = some .dir := by
  induction rest using List.reverseRecOn with
  | nil =>
      rw [List.append_nil, List.append_nil]
      exact ⟨d, mkdirAll_of_dir (Tree.stat_eq_ok.mpr ⟨dir, hbase, hdir⟩), hdir⟩
  | append_singleton rest n ih =>
      by_cases hthere : d.tree.node (dir ++ (rest ++ [n])) = some .dir
      · have hleads := hbase.onward_dir hdir hnames hthere
        exact ⟨d, mkdirAll_of_dir (Tree.stat_eq_ok.mpr ⟨_, hleads, hthere⟩), hthere⟩
      · have hnone : d.tree.node (dir ++ (rest ++ [n])) = none :=
          (hway (rest ++ [n]) List.prefix_rfl).resolve_right hthere
        have hrest : ∀ m ∈ rest, IsName m := fun m hm => hnames m (by simp [hm])
        obtain ⟨d₁, hup, hdir₁⟩ := ih hrest
          fun way hpre => hway way (hpre.trans (List.prefix_append rest [n]))
        have hrun := mkdirAll_run (base ++ rest) d
        rw [hup] at hrun
        have hbase₁ := hbase.extends hrun.grows.keeps (by rw [hdir]; nofun)
        have hdir' := hrun.grows.keeps.node_eq hdir rfl
        have hparent : d₁.tree.node (dir ++ (rest ++ [n]).dropLast) = some .dir := by
          rwa [List.dropLast_concat]
        have hnone₁ : d₁.tree.node (dir ++ (rest ++ [n])) = none :=
          none_of_mkdirAll hbase hdir (List.forall_mem_append.mpr ⟨hbaseNames, hrest⟩) hup hdir₁ hnone
        have hleads : ∀ follow, d₁.tree.Leads follow Tree.maxLinks [] (base ++ (rest ++ [n]))
            (dir ++ (rest ++ [n])) := fun follow =>
          hbase₁.onward hdir' hnames (by simp) hparent (by rw [hnone₁]; nofun)
        have hstat := stat_ne_ok hrun.grows.keeps (hleads true) hnone
        obtain ⟨d', hmake, hwrote⟩ := make_of_leads (.dir : Node β) (hleads false) hnone₁
          (by rw [hrun.grows.allowed]; exact hallowed _)
        refine ⟨d', ?_, by rw [hwrote.node, Function.update_self]⟩
        rw [← List.append_assoc] at hstat hmake ⊢
        rw [mkdirAll_concat]
        split
        · exact absurd ‹_› (hstat _)
        · exact absurd ‹_› (hstat _)
        · rw [hup]
          dsimp only
          rw [mkdir, hmake]

/-- If the first name after a directory is not there, it is made. -/
theorem mem_written_mkdirAll {base dir rest : Names} {n : List Char}
    (hbase : d.tree.Leads true Tree.maxLinks [] base dir) (hdir : d.tree.node dir = some .dir)
    (hn : IsName n) (hnone : d.tree.node (dir ++ [n]) = none)
    (hallowed : ∀ loc, d.allowed loc = true) : dir ++ [n] ∈ (d.mkdirAll (base ++ n :: rest)).2.written := by
  induction rest using List.reverseRecOn with
  | nil =>
      obtain ⟨k', hk'⟩ := hbase.append_iff hdir (by simp : [n] ≠ [])
      have hlast : ∀ follow, d.tree.Leads follow Tree.maxLinks [] (base ++ [n]) (dir ++ [n]) := by
        intro follow
        refine (hk' follow _).mpr (.last (Tree.isEntry_of_isName hn) (by rw [hnone]; rfl) ?_)
        rw [hnone]
        nofun
      have hstat : d.tree.stat (base ++ [n]) = .error .notExist := by
        rw [Tree.stat, Tree.resolve, Tree.lookup_iff.mpr (hlast true)]
        simp [Tree.found, hnone]
      obtain ⟨d', hmake, hwrote⟩ := make_of_leads (.dir : Node β) (hlast false) hnone (hallowed _)
      rw [mkdirAll_concat, hstat, mkdirAll_of_dir (Tree.stat_eq_ok.mpr ⟨dir, hbase, hdir⟩)]
      dsimp only
      rw [mkdir, hmake]
      dsimp only
      rw [hwrote.written]
      exact List.mem_cons_self
  | append_singleton rest m ih =>
      have hassoc : base ++ n :: (rest ++ [m]) = (base ++ n :: rest) ++ [m] := by simp
      have hstat : ∀ v, d.tree.stat (base ++ n :: (rest ++ [m])) ≠ .ok v := by
        intro v hv
        obtain ⟨loc, hleads, -⟩ := Tree.stat_eq_ok.mp hv
        obtain ⟨k', hk'⟩ := hbase.append_iff hdir (by simp : n :: (rest ++ [m]) ≠ [])
        exact Tree.not_leads_missing hn hnone (by simp) ((hk' true loc).mp hleads)
      rw [hassoc] at hstat ⊢
      rcases mkdirAll_concat_disk (base ++ n :: rest) m d with ⟨⟨v, hv⟩, -⟩ | hsame | ⟨loc, -, hwrote⟩
      · exact absurd hv (hstat v)
      · rw [hsame]
        exact ih
      · rw [hwrote.written]
        exact List.mem_cons_of_mem loc ih

end Disk

end CloudBackup.FileTree
