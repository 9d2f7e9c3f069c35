import CloudBackup.Httpd.FileList
import CloudBackup.Library.SqlBytes

/-!
The file list of a directory and all that is below it. One pattern for `LIKE` says what is
below: the path with a separator and a `%`. The path itself is not escaped, unlike the one
of a restore.

So `%` and `_` in a path stand for other characters, and letters for both cases; and for
the root the pattern starts with two separators, which no path does. `descend_exact_iff`
says for which rows this makes no difference.
-/

namespace CloudBackup.Httpd

open Database Shared SqlLike Casing UnixPath
open Restore (textLe)

def isBelowBytes (parentDir pathSeparator : Str) (row : RemoteFilesRow) : Bool :=
  row.parent = parentDir || likeBytes (parentDir ++ pathSeparator ++ ['%']) row.parent

def ReportDb.descendList (db : ReportDb) (jobId parentDir pathSeparator : Str) : List RemoteFilesRow :=
  ((db.collected jobId).filter (isBelowBytes parentDir pathSeparator)).insertionSort fun r r' =>
    textLe r.localPath r'.localPath

def descendRows (u : Tables) (db : ReportDb) (jobName jobId path : Str) : List RemoteFilesRow :=
  let pathSeparator := getPathSeparator u (db.jobPlatform jobName jobId)
  db.descendList jobId (stripEndOfPathSeparators path pathSeparator) pathSeparator

/-! ### Paths of ASCII -/

theorem toNat_toLower (c : Char) : c.toLower.toNat = lowerCode c.toNat := by
  have hrange : c.val ≥ 'A'.val ∧ c.val ≤ 'Z'.val ↔ 65 ≤ c.toNat ∧ c.toNat ≤ 90 := Iff.rfl
  rw [lowerCode]
  by_cases h : c.val ≥ 'A'.val ∧ c.val ≤ 'Z'.val
  · have hle := hrange.mp h
    have hlower : c.toLower.toNat = (c.val + ('a'.val - 'A'.val)).toNat := congrArg Char.toNat (dif_pos h)
    have hval : (c.val + ('a'.val - 'A'.val)).toNat = (c.toNat + 32) % 2 ^ 32 := UInt32.toNat_add _ _
    rw [Nat.mod_eq_of_lt (by omega)] at hval
    rw [if_pos hle, hlower, hval]
  · have hlower : c.toLower = c := dif_neg h
    rw [if_neg (mt hrange.mpr h), hlower]

/-- For paths of ASCII the rows are those of `fileList`. -/
theorem likePlain_ascii {pattern s : Str} (hpattern : ∀ c ∈ pattern, c.toNat < 0x80)
    (hs : ∀ c ∈ s, c.toNat < 0x80) : likePlain pattern s = likeBytes pattern s := by
  rw [likeBytes, readChars_ascii hpattern, readChars_ascii hs, likePlain]
  clear hpattern hs
  induction pattern generalizing s with
  | nil => simp [matchTokens, matchChars]
  | cons p pattern ih =>
      have hany : p.toNat = 37 ↔ p = '%' := @Char.toNat_inj p '%'
      have hone : p.toNat = 95 ↔ p = '_' := @Char.toNat_inj p '_'
      rw [List.map_cons, List.map_cons, matchChars, plainToken]
      by_cases hp : p = '%'
      · rw [if_pos hp, if_pos (hany.mpr hp), matchTokens, List.map_tails, List.any_map]
        congr 1
        funext t
        exact ih
      · rw [if_neg hp, if_neg (mt hany.mp hp)]
        by_cases hp' : p = '_'
        · rw [if_pos hp']
          cases s with
          | nil => rfl
          | cons d s => simp [matchTokens, ih, hone.mpr hp']
        · rw [if_neg hp']
          cases s with
          | nil => rfl
          | cons d s =>
              have hlower : p.toLower = d.toLower ↔ lowerCode p.toNat = lowerCode d.toNat := by
                rw [← Char.toNat_inj, toNat_toLower, toNat_toLower]
              simp [matchTokens, ih, hlower, mt hone.mp hp']

theorem descendList_ascii {db : ReportDb} {jobId parentDir pathSeparator : Str}
    (hpath : ∀ c ∈ parentDir ++ pathSeparator, c.toNat < 0x80)
    (hrows : ∀ row ∈ db.collected jobId, ∀ c ∈ row.parent, c.toNat < 0x80) :
    db.descendList jobId parentDir pathSeparator = db.fileList jobId parentDir pathSeparator true := by
  rw [ReportDb.descendList, ReportDb.fileList]
  congr 1
  refine List.filter_congr fun row hrow => ?_
  rw [isBelowBytes, isBelow, Bool.true_and, likePlain_ascii ?_ (hrows row hrow)]
  intro c hc
  rcases List.mem_append.mp hc with hc | hc
  · exact hpath c hc
  · rw [List.mem_singleton.mp hc]
    decide

/-! ### What the pattern finds -/

/-- What a path starts with is what the path of a directory and a separator stand for, if
they are read as a pattern. -/
def LooksBelow (dir path : Str) : Prop := ∃ t, t <+: readChars path ∧ StandsFor (readChars (dir ++ ['/'])) t

theorem likeBytes_iff (dir path : Str) : likeBytes (dir ++ ['/'] ++ ['%']) path = true ↔ LooksBelow dir path := by
  rw [likeBytes, matchChars_iff, readChars_split _ (by decide)]
  exact standsFor_any_iff

theorem looksBelow_of_below {dir path : Str} (hdir : IsClean dir) (hpath : IsClean path) (hroot : dir ≠ ['/'])
    (h : Below dir path) : LooksBelow dir path := by
  obtain ⟨rest, rfl⟩ := (below_iff_starts hdir hpath hroot).mp h
  refine ⟨readChars (dir ++ ['/']), ?_, standsFor_self _⟩
  rw [readChars_split dir (by decide), List.append_assoc, List.singleton_append,
    readChars_split dir (by decide)]
  exact (List.prefix_append_right_inj _).mpr (List.cons_prefix_cons.mpr ⟨rfl, List.nil_prefix⟩)

theorem not_isClean_slashes (rest : Str) : ¬ IsClean ('/' :: '/' :: rest) := by
  intro h
  have hrender := h.eq_render (by simp)
  cases hnames : components ('/' :: '/' :: rest) with
  | nil =>
      rw [hnames] at hrender
      cases hrender
  | cons n names =>
      have hn : IsName n := h.isName n (by rw [hnames]; exact List.mem_cons_self)
      rw [hnames, render_cons] at hrender
      obtain ⟨c, n, rfl⟩ := List.exists_cons_of_ne_nil hn.ne_nil
      have hc : '/' = c := (List.cons.inj (List.cons.inj hrender).2).1
      exact hn.noSlash (hc ▸ List.mem_cons_self)

theorem standsFor_slashes {t : List ℕ} (h : StandsFor [47, 47] t) : t = [47, 47] := by
  have hlower : ∀ d, lowerCode 47 = lowerCode d ∨ 47 = 95 → d = 47 := by
    intro d hd
    simp only [lowerCode] at hd
    split_ifs at hd <;> omega
  obtain ⟨d, s, rfl, hd, hs⟩ := (standsFor_char_cons_iff (by decide)).mp h
  obtain ⟨d', s', rfl, hd', hs'⟩ := (standsFor_char_cons_iff (by decide)).mp hs
  rw [hlower d hd, hlower d' hd', standsFor_nil_iff.mp hs']

theorem exists_of_slash_readChars {path : Str} {t : List ℕ} (h : 47 :: t <+: readChars path) :
    ∃ rest, path = '/' :: rest ∧ t <+: readChars rest := by
  cases path with
  | nil => simp [readChars, readCharsFrom] at h
  | cons c rest =>
      have hhead : (readChars (c :: rest)).head? = some 47 := by
        obtain ⟨u, hu⟩ := h
        rw [← hu]
        rfl
      obtain rfl : c = '/' := Char.toNat_inj.mp (head_readChars (by decide) hhead)
      have hread : readChars ('/' :: rest) = 47 :: readChars rest := readChars_split [] (by decide) rest
      rw [hread, List.cons_prefix_cons] at h
      exact ⟨rest, rfl, h.2⟩

theorem not_looksBelow_root {path : Str} (hpath : IsClean path) : ¬ LooksBelow ['/'] path := by
  rintro ⟨t, ht, hstands⟩
  have hslashes : readChars (['/'] ++ ['/']) = [47, 47] := rfl
  rw [hslashes] at hstands
  rw [standsFor_slashes hstands] at ht
  obtain ⟨rest, rfl, ht'⟩ := exists_of_slash_readChars ht
  obtain ⟨rest', rfl, -⟩ := exists_of_slash_readChars ht'
  exact not_isClean_slashes rest' hpath

/-! ### The query path -/

theorem one_lt_byteLength {c : Char} {s : Str} (h : s ≠ []) : 1 < byteLength (c :: s) := by
  obtain ⟨d, s, rfl⟩ := List.exists_cons_of_ne_nil h
  have hc := c.utf8Size_pos
  have hd := d.utf8Size_pos
  simp only [byteLength, List.map_cons, List.sum_cons]
  omega

theorem stripSeparators_clean {dir : Str} (hdir : IsClean dir) :
    stripSeparators '/' 1 dir.reverse = dir.reverse := by
  cases hrest : dir.reverse with
  | nil => rfl
  | cons c rest =>
      rw [stripSeparators]
      refine if_neg ?_
      rintro ⟨hlong, rfl⟩
      -- only the root ends with a separator
      by_cases hroot : dir = ['/']
      · rw [hroot] at hrest
        obtain ⟨-, rfl⟩ := List.cons.inj hrest
        exact absurd hlong (by decide)
      · have hlast := hdir.getLast?_ne hroot
        rw [← List.head?_reverse, hrest] at hlast
        exact hlast rfl

/-- Separators at the end of a path are not looked at. -/
theorem stripEndOfPathSeparators_clean {dir : Str} (hdir : IsClean dir) (k : ℕ) :
    stripEndOfPathSeparators (dir ++ List.replicate k '/') ['/'] = dir := by
  have hne : dir ≠ [] := by
    rintro rfl
    cases hdir.1
  have hall : stripSeparators '/' 1 (List.replicate k '/' ++ dir.reverse) = dir.reverse := by
    induction k with
    | zero => exact stripSeparators_clean hdir
    | succ k ih =>
        have hmore : List.replicate k '/' ++ dir.reverse ≠ [] := by simp [hne]
        rw [List.replicate_succ, List.cons_append, stripSeparators, if_pos ⟨one_lt_byteLength hmore, rfl⟩]
        exact ih
  rw [stripEndOfPathSeparators, if_neg (by decide), List.reverse_append, List.reverse_replicate, hall,
    List.reverse_reverse]

theorem filter_perm_filter_iff {α : Type} {l : List α} {p q : α → Bool} :
    (l.filter p).Perm (l.filter q) ↔ ∀ x ∈ l, p x = q x := by
  constructor
  · intro h x hx
    have hmem := @List.Perm.mem_iff _ x _ _ h
    rw [List.mem_filter, List.mem_filter] at hmem
    simp only [hx, true_and] at hmem
    exact Bool.eq_iff_iff.mpr hmem
  · intro h
    rw [List.filter_congr h]

/-- The rows are those of a directory and of everything below it. -/
def DescendsExactly (u : Tables) (db : ReportDb) (jobName jobId dir : Str) (slashes : ℕ) : Prop :=
  (descendRows u db jobName jobId (dir ++ List.replicate slashes '/')).Perm
    ((db.collected jobId).filter fun row => row.parent = dir ∨ Below dir row.parent)

/-- The list is exact for the root if and only if nothing is below the top, and for another
directory if and only if no row only looks as if it was below it. -/
theorem descend_exact_iff (u : Tables) (db : ReportDb) (jobName jobId : Str)
    (hunix : getPathSeparator u (db.jobPlatform jobName jobId) = ['/'])
    (hrows : ∀ row ∈ db.collected jobId, IsClean row.parent) (dir : Str) (hdir : IsClean dir) (slashes : ℕ) :
    DescendsExactly u db jobName jobId dir slashes ↔
      (dir = ['/'] → ∀ row ∈ db.collected jobId, row.parent = ['/']) ∧
      (dir ≠ ['/'] → ∀ row ∈ db.collected jobId, LooksBelow dir row.parent →
        row.parent = dir ∨ Below dir row.parent) := by
  have hexact : DescendsExactly u db jobName jobId dir slashes ↔ ∀ row ∈ db.collected jobId,
      (row.parent = dir ∨ LooksBelow dir row.parent ↔ row.parent = dir ∨ Below dir row.parent) := by
    rw [DescendsExactly, descendRows, hunix, stripEndOfPathSeparators_clean hdir, ReportDb.descendList,
      (List.perm_insertionSort _ _).congr_left, filter_perm_filter_iff]
    refine forall₂_congr fun row _ => ?_
    rw [isBelowBytes, Bool.eq_iff_iff, Bool.or_eq_true, decide_eq_true_eq, decide_eq_true_eq, likeBytes_iff]
  rw [hexact]
  constructor
  · intro h
    constructor
    · rintro rfl row hrow
      by_contra hne
      have hbelow := (h row hrow).mpr (.inr ((below_root (hrows row hrow)).mpr hne))
      rcases hbelow with heq | hlooks
      · exact hne heq
      · exact not_looksBelow_root (hrows row hrow) hlooks
    · intro _ row hrow hlooks
      exact (h row hrow).mp (.inr hlooks)
  · rintro ⟨hatRoot, hother⟩ row hrow
    by_cases hroot : dir = ['/']
    · have hparent := hatRoot hroot row hrow
      rw [hroot, hparent]
      exact iff_of_true (.inl rfl) (.inl rfl)
    · constructor
      · rintro (heq | hlooks)
        · exact .inl heq
        · exact hother hroot row hrow hlooks
      · rintro (heq | hbelow)
        · exact .inl heq
        · exact .inr (looksBelow_of_below hdir (hrows row hrow) hroot hbelow)

theorem descend_exact_oneTarget : (∀ row ∈ oneTargetDb.collected "1".toList, IsClean row.parent) ∧
    DescendsExactly .plain oneTargetDb "home".toList "1".toList "/d".toList 2 := by
  have hparent : ∀ row ∈ oneTargetDb.collected "1".toList, row.parent = "/d".toList := by decide
  refine ⟨by decide, (descend_exact_iff .plain oneTargetDb "home".toList "1".toList (by decide) (by decide)
    "/d".toList (by decide) 2).mpr ⟨by decide, ?_⟩⟩
  intro _ row hrow _
  exact .inl (hparent row hrow)

def twoCases : List RemoteFilesRow :=
  [⟨"1".toList, "/d/a".toList, "/d".toList, "s3".toList, 0, .file, 1, false⟩,
    ⟨"2".toList, "/D/b/c".toList, "/D/b".toList, "s3".toList, 0, .file, 1, false⟩]

theorem colon_notMem_finishedJob : ∀ job ∈ [finishedJob], ':' ∉ job.id := by decide

def twoCasesDb : ReportDb where
  jobs := [finishedJob]
  remoteFiles := twoCases
  backupCollections := collection twoCases
  jobIds := colon_notMem_finishedJob
  rowids := by decide

/-- What is below `/D` is listed for `/d`. -/
theorem descend_twoCases : ¬ ∀ (u : Tables) (db : ReportDb) (jobName jobId : Str),
    getPathSeparator u (db.jobPlatform jobName jobId) = ['/'] →
      (∀ row ∈ db.collected jobId, IsClean row.parent) → ∀ dir, IsClean dir → ∀ slashes,
        DescendsExactly u db jobName jobId dir slashes := by
  intro h
  have hexact := h .plain twoCasesDb "home".toList "1".toList (by decide) (by decide) "/d".toList (by decide) 0
  have hlength := hexact.length_eq
  revert hlength
  decide

end CloudBackup.Httpd
