import CloudBackup.Restore.Selection

/-!
The paths of a request before they are looked up: `sanitizeFilePaths` takes off what separators
there are at the end. A text has a character for each byte.

It does not know which system the backup is of. So it takes off backslashes too, with which a name
may well end on Unix, and it takes `/:/` for the root of a drive (`KeptAsStored`). A path that is
changed like this is not the stored one any more, and then the request does not find it.
-/

namespace CloudBackup.Restore

open Database UnixPath

/-! ### The functions of the source -/

/-- The loop of `stripTrailingSeparators`, for a path that is given from its end. -/
def stripFromEnd : Str → Str
  | [] => []
  | last :: rest =>
      let path := (last :: rest).reverse
      if last ≠ '/' ∧ last ≠ '\\' then path
      -- the root of Unix
      else if path = ['/'] then path
      -- the root of a drive of Windows, whatever the drive is
      else if path.length = 3 ∧ path[1]? = some ':' then path
      else stripFromEnd rest

def stripTrailingSeparators (path : Str) : Str := stripFromEnd path.reverse

def sanitizeFilePaths (paths : List Str) : List Str := paths.map stripTrailingSeparators

/-! ### What is left -/

/-- There is nothing to be taken off: the path is empty, it does not end with a separator, or it is
taken for a root. -/
def Stripped (path : Str) : Prop :=
  ∀ last, path.getLast? = some last →
    (last ≠ '/' ∧ last ≠ '\\') ∨ path = ['/'] ∨ path.length = 3 ∧ path[1]? = some ':'

theorem stripped_concat {path : Str} {c : Char} : Stripped (path ++ [c]) ↔
    (c ≠ '/' ∧ c ≠ '\\') ∨ path ++ [c] = ['/'] ∨ (path ++ [c]).length = 3 ∧ (path ++ [c])[1]? = some ':' := by
  rw [Stripped, List.getLast?_concat]
  exact ⟨fun h => h c rfl, fun h last hlast => by rwa [← Option.some.inj hlast]⟩

theorem stripTrailingSeparators_of_stripped {path : Str} (h : Stripped path) : stripTrailingSeparators path = path := by
  induction path using List.reverseRecOn with
  | nil => rfl
  | append_singleton path c _ =>
      rw [stripTrailingSeparators, List.reverse_concat, stripFromEnd, List.reverse_cons, List.reverse_reverse]
      rcases stripped_concat.mp h with hname | hroot | hdrive
      · rw [if_pos hname]
      · rw [if_pos hroot, ite_self]
      · rw [if_pos hdrive, ite_self, ite_self]

theorem stripTrailingSeparators_concat {path : Str} {c : Char} (h : ¬ Stripped (path ++ [c])) :
    stripTrailingSeparators (path ++ [c]) = stripTrailingSeparators path := by
  rw [stripped_concat, not_or, not_or] at h
  rw [stripTrailingSeparators, List.reverse_concat, stripFromEnd, List.reverse_cons, List.reverse_reverse,
    if_neg h.1, if_neg h.2.1, if_neg h.2.2, stripTrailingSeparators]

/-- The loop goes on until nothing is left to be taken off. -/
theorem stripped_stripTrailingSeparators (path : Str) : Stripped (stripTrailingSeparators path) := by
  induction path using List.reverseRecOn with
  | nil => exact fun last hlast => by cases hlast
  | append_singleton path c ih =>
      by_cases h : Stripped (path ++ [c])
      · rwa [stripTrailingSeparators_of_stripped h]
      · rwa [stripTrailingSeparators_concat h]

theorem stripTrailingSeparators_append (path : Str) : ∃ separators : Str,
    (∀ c ∈ separators, c = '/' ∨ c = '\\') ∧ stripTrailingSeparators path ++ separators = path := by
  induction path using List.reverseRecOn with
  | nil => exact ⟨[], by simp, rfl⟩
  | append_singleton path c ih =>
      by_cases h : Stripped (path ++ [c])
      · exact ⟨[], by simp, by rw [stripTrailingSeparators_of_stripped h, List.append_nil]⟩
      · have hc : c = '/' ∨ c = '\\' := by
          by_contra hname
          exact h (stripped_concat.mpr (.inl (not_or.mp hname)))
        obtain ⟨separators, hseparators, hpath⟩ := ih
        refine ⟨separators ++ [c], ?_, ?_⟩
        · intro d hd
          rcases List.mem_append.mp hd with hd | hd
          · exact hseparators d hd
          · rwa [List.mem_singleton.mp hd]
        · rw [stripTrailingSeparators_concat h, ← List.append_assoc, hpath]

theorem stripTrailingSeparators_idem (path : Str) :
    stripTrailingSeparators (stripTrailingSeparators path) = stripTrailingSeparators path :=
  stripTrailingSeparators_of_stripped (stripped_stripTrailingSeparators path)

theorem stripTrailingSeparators_eq_self_iff {path : Str} : stripTrailingSeparators path = path ↔ Stripped path :=
  ⟨fun h => h ▸ stripped_stripTrailingSeparators path, stripTrailingSeparators_of_stripped⟩

/-! ### Stored paths -/

/-- The path and so many slashes after it are found as the path: it does not end with a backslash that
is taken off, and is not read as the drive `/:`. -/
structure KeptAsStored (path : Str) (slashes : ℕ) : Prop where
  noBackslash : path.getLast? = some '\\' → path = "/:\\".toList
  noDrive : path = "/:".toList → slashes = 0

theorem stripped_iff_of_isClean {path : Str} (hclean : IsClean path) :
    Stripped path ↔ (path.getLast? = some '\\' → path = "/:\\".toList) := by
  constructor
  · intro h hlast
    rcases h '\\' hlast with hname | rfl | ⟨hlength, hcolon⟩
    · exact absurd rfl hname.2
    · simp at hlast
    · obtain ⟨rest, rfl⟩ := hclean.exists_slash_cons
      obtain ⟨c, d, rfl⟩ := List.length_eq_two.mp (Nat.succ.inj hlength)
      obtain rfl : c = ':' := by simpa using hcolon
      obtain rfl : d = '\\' := by simpa using hlast
      rfl
  · intro h last hlast
    by_cases hroot : path = ['/']
    · exact .inr (.inl hroot)
    · by_cases hback : last = '\\'
      · subst hback
        rw [h hlast]
        exact .inr (.inr ⟨rfl, rfl⟩)
      · refine .inl ⟨?_, hback⟩
        rintro rfl
        exact hclean.getLast?_ne hroot hlast

theorem not_stripped_slash {path : Str} (hclean : IsClean path) (hdrive : path ≠ "/:".toList) (slashes : ℕ) :
    ¬ Stripped (path ++ List.replicate slashes '/' ++ ['/']) := by
  obtain ⟨rest, rfl⟩ := hclean.exists_slash_cons
  rw [stripped_concat]
  rintro (hname | hroot | ⟨hlength, hcolon⟩)
  · exact hname.1 rfl
  · simp at hroot
  · cases rest with
    | nil =>
        obtain rfl : slashes = 1 := by simpa using hlength
        simp at hcolon
    | cons c rest =>
        obtain ⟨rfl, rfl⟩ : rest = [] ∧ slashes = 0 := by
          simp only [List.cons_append, List.length_cons, List.length_append, List.length_replicate,
            List.length_nil] at hlength
          exact ⟨List.length_eq_zero_iff.mp (by omega), by omega⟩
        obtain rfl : c = ':' := by simpa using hcolon
        exact hdrive rfl

theorem stripTrailingSeparators_slashes {path : Str} (hclean : IsClean path) (hdrive : path ≠ "/:".toList)
    (slashes : ℕ) :
    stripTrailingSeparators (path ++ List.replicate slashes '/') = stripTrailingSeparators path := by
  induction slashes with
  | zero => rw [List.replicate_zero, List.append_nil]
  | succ slashes ih =>
      rw [List.replicate_succ', ← List.append_assoc,
        stripTrailingSeparators_concat (not_stripped_slash hclean hdrive slashes), ih]

theorem stripTrailingSeparators_drive (slashes : ℕ) :
    stripTrailingSeparators ("/:".toList ++ List.replicate (slashes + 1) '/') = "/:/".toList := by
  induction slashes with
  | zero => rfl
  | succ slashes ih =>
      have hmore : ¬ Stripped ("/:".toList ++ List.replicate (slashes + 1) '/' ++ ['/']) := by
        rw [stripped_concat]
        rintro (hname | hroot | ⟨hlength, -⟩)
        · exact hname.1 rfl
        · simp at hroot
        · simp at hlength
      rw [List.replicate_succ', ← List.append_assoc, stripTrailingSeparators_concat hmore, ih]

theorem stripTrailingSeparators_eq_iff {path : Str} (hclean : IsClean path) (slashes : ℕ) :
    stripTrailingSeparators (path ++ List.replicate slashes '/') = path ↔ KeptAsStored path slashes := by
  by_cases hdrive : path = "/:".toList
  · subst hdrive
    cases slashes with
    | zero => exact iff_of_true rfl ⟨fun hlast => absurd hlast (by decide), fun _ => rfl⟩
    | succ slashes =>
        rw [stripTrailingSeparators_drive]
        exact iff_of_false (by decide) fun h => absurd (h.noDrive rfl) (Nat.succ_ne_zero slashes)
  · rw [stripTrailingSeparators_slashes hclean hdrive, stripTrailingSeparators_eq_self_iff,
      stripped_iff_of_isClean hclean]
    exact ⟨fun h => ⟨h, fun h' => absurd h' hdrive⟩, KeptAsStored.noBackslash⟩

/-- The slashes after a stored path are taken off, and nothing else of it, just where the path is kept.
To strip once more changes no path at all, and the root stays. -/
theorem stripTrailingSeparators_stored (path : Str) (slashes : ℕ) :
    (IsClean path →
      (stripTrailingSeparators (path ++ List.replicate slashes '/') = path ↔ KeptAsStored path slashes)) ∧
      stripTrailingSeparators (stripTrailingSeparators path) = stripTrailingSeparators path ∧
      stripTrailingSeparators ['/'] = ['/'] :=
  ⟨fun hclean => stripTrailingSeparators_eq_iff hclean slashes, stripTrailingSeparators_idem path, rfl⟩

/-- A path is found without the slashes after it. -/
theorem stripTrailingSeparators_stored_docs :
    stripTrailingSeparators ("/docs".toList ++ List.replicate 2 '/') = "/docs".toList :=
  ((stripTrailingSeparators_stored "/docs".toList 2).1 (by decide)).mpr ⟨by decide, by decide⟩

/-- A name that ends with a backslash, and a slash after the name `:`. -/
theorem stripTrailingSeparators_missesStored :
    stripTrailingSeparators "/a\\".toList = "/a".toList ∧ stripTrailingSeparators "/:/".toList = "/:/".toList ∧
      ¬ ∀ path, IsClean path → ∀ slashes,
        stripTrailingSeparators (path ++ List.replicate slashes '/') = path := by
  refine ⟨rfl, rfl, fun h => ?_⟩
  exact absurd (h "/:".toList (by decide) 1) (by decide)

/-! ### What the request finds -/

section

variable {db : Db} {jobId : Str} {r : RemoteFile} {slashes : ℕ}

theorem mem_exactItems_sanitizeFilePaths (hclean : IsClean r.localPath) :
    r ∈ exactItems db jobId (sanitizeFilePaths [r.localPath ++ List.replicate slashes '/']) ↔
      r ∈ jobItems db jobId ∧ KeptAsStored r.localPath slashes := by
  rw [mem_exactItems, sanitizeFilePaths, List.map_singleton, List.mem_singleton, eq_comm,
    stripTrailingSeparators_eq_iff hclean]

/-- No other row is found by its path than one that is asked for, but for separators at the end. -/
theorem asked_of_mem_exactItems {files : List Str} (h : r ∈ exactItems db jobId (sanitizeFilePaths files)) :
    ∃ separators : Str, (∀ c ∈ separators, c = '/' ∨ c = '\\') ∧ r.localPath ++ separators ∈ files := by
  obtain ⟨file, hfile, hpath⟩ := List.mem_map.mp (mem_exactItems.mp h).2
  obtain ⟨separators, hseparators, happend⟩ := stripTrailingSeparators_append file
  refine ⟨separators, hseparators, ?_⟩
  rwa [← hpath, happend]

/-- A row is found by its path, with slashes after it or not, if the path is kept. -/
theorem mem_fetchItems_sanitizeFilePaths {files : List Str} (hclean : IsClean r.localPath)
    (hkept : KeptAsStored r.localPath slashes) (hfile : r.localPath ++ List.replicate slashes '/' ∈ files)
    (hr : r ∈ jobItems db jobId) {items : List RemoteFile}
    (hitems : fetchItems db ⟨false, sanitizeFilePaths files, jobId⟩ = .ok items) : r ∈ items := by
  have hpath : r.localPath ∈ sanitizeFilePaths files :=
    List.mem_map.mpr ⟨_, hfile, (stripTrailingSeparators_eq_iff hclean slashes).mpr hkept⟩
  obtain ⟨new, hfound, -⟩ := @foundItems_eq db jobId _ (List.ne_nil_of_mem hpath)
  rw [← (fetchItems_ok_iff.mp hitems).2, hfound]
  exact List.mem_append_left _ (mem_exactItems.mpr ⟨hr, hpath⟩)

end

end CloudBackup.Restore
