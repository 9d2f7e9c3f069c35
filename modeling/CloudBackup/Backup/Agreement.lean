import CloudBackup.Backup.Scan

/-!
The scan and the search for deleted items have to agree about what belongs to a
backup. The scan tests the exclusions on the way down and never on a configured path;
it works on the clean form of these paths. `markDeleted` looks at one path alone: at
its text, which it compares with the configuration as it is written, and at what
`lstat` says about it.
-/

namespace CloudBackup.Backup

open Database ObjectStore Iteration TreeWalk UnixPath

/-! ### What `lstat` says -/

def recordOf (row : FilesRow) : Record := ⟨row.path, row.props, row.jobId, false⟩

/-- `markDeleted` changes nothing and returns, whatever else happens. -/
def LeftAlone (pathMatch : Str → Str → Option Bool) (cfg : ConfigBackup) (lstat : Lstat) (row : FilesRow) :
    Prop :=
  ∀ (C : Cloud) (stmts : Statements) (targets : List Target) (jobUuid : Str) (w : World),
    row ∈ w.db.files →
      (markDeleted C pathMatch cfg lstat stmts targets jobUuid (recordOf row) w).world = w ∧
        (markDeleted C pathMatch cfg lstat stmts targets jobUuid (recordOf row) w).err ≠ some .nilDereference

section

variable {pathMatch : Str → Str → Option Bool} {cfg : ConfigBackup} {lstat : Lstat} {row : FilesRow}

theorem leftAlone_of_stillExists (hincluded : isPathIncluded cfg.paths row.path = true)
    (hexcluded : isPathExcluded pathMatch cfg.exclusions row.path = false)
    (hstill : stillExists row.props.type lstat = .ok true) : LeftAlone pathMatch cfg lstat row := by
  intro C stmts targets jobUuid w _
  have hmark : markDeleted C pathMatch cfg lstat stmts targets jobUuid (recordOf row) w =
      ⟨false, none, w, []⟩ := by
    rw [markDeleted]
    simp [recordOf, hincluded, hexcluded, hstill]
  rw [hmark]
  exact ⟨rfl, by simp⟩

/-- Without a target a row is deleted and that is all. -/
theorem not_leftAlone_of_gone (hgone : gone pathMatch cfg lstat (recordOf row) = true) :
    ¬ LeftAlone pathMatch cfg lstat row := by
  intro h
  have hworld := (h plainCloud ⟨true, true, true⟩ [] [] ⟨⟨[row], [], [], []⟩, fun _ => Bucket.empty⟩
    (by simp)).1
  rw [markDeleted_of_gone hgone] at hworld
  have hfiles : (putMarkers plainCloud ⟨true, true, true⟩ [] [] (recordOf row)
      ⟨⟨[row], [], [], []⟩, fun _ => Bucket.empty⟩).world.db.files = [] := by
    simp [putMarkers, finish, filesDelete, recordOf]
  rw [hworld] at hfiles
  cases hfiles

theorem not_leftAlone_of_failed (hincluded : isPathIncluded cfg.paths row.path = true)
    (hexcluded : isPathExcluded pathMatch cfg.exclusions row.path = false)
    (hstill : stillExists row.props.type lstat = .error .nilDereference) :
    ¬ LeftAlone pathMatch cfg lstat row := by
  intro h
  apply (h plainCloud ⟨true, true, true⟩ [] [] ⟨⟨[row], [], [], []⟩, fun _ => Bucket.empty⟩ (by simp)).2
  rw [markDeleted]
  simp [recordOf, hincluded, hexcluded, hstill]

/-- An item that is there is left alone if and only if it can be examined, and is of
a type that is known. -/
theorem leftAlone_iff (hincluded : isPathIncluded cfg.paths row.path = true)
    (hexcluded : isPathExcluded pathMatch cfg.exclusions row.path = false) (hthere : lstat ≠ .notExist)
    (hkind : ∀ type, lstat = .found type → type = row.props.type) :
    LeftAlone pathMatch cfg lstat row ↔ lstat ≠ .failed ∧ row.props.type ≠ .unknown := by
  have hgone : stillExists row.props.type lstat = .ok false →
      gone pathMatch cfg lstat (recordOf row) = true := by
    intro hstill
    simp [gone, recordOf, hstill]
  cases lstat with
  | notExist => exact absurd rfl hthere
  | failed =>
      refine ⟨fun h => ?_, fun h => absurd rfl h.1⟩
      -- a directory counts as gone then, and anything else ends the program
      cases htype : row.props.type with
      | dir => exact absurd h (not_leftAlone_of_gone (hgone (by rw [htype]; rfl)))
      | file => exact absurd h (not_leftAlone_of_failed hincluded hexcluded (by rw [htype]; rfl))
      | symlink => exact absurd h (not_leftAlone_of_failed hincluded hexcluded (by rw [htype]; rfl))
      | unknown => exact absurd h (not_leftAlone_of_failed hincluded hexcluded (by rw [htype]; rfl))
  | found type =>
      obtain rfl := hkind type rfl
      constructor
      · intro h
        refine ⟨by simp, fun hunknown => not_leftAlone_of_gone (hgone ?_) h⟩
        rw [hunknown]
        rfl
      · rintro ⟨-, hknown⟩
        apply leftAlone_of_stillExists hincluded hexcluded
        cases htype : row.props.type with
        | dir => rfl
        | file => rfl
        | symlink => rfl
        | unknown => exact absurd htype hknown

end

def rowAt (type : FileType) : FilesRow := ⟨"/a".toList, ⟨type, [], 1, 1, 1, [], [], [], [], false⟩, []⟩

theorem leftAlone_file : LeftAlone (fun _ _ => none) plainConfig (.found .file) (rowAt .file) := by
  refine (leftAlone_iff ?_ rfl ?_ ?_).mpr ⟨?_, ?_⟩
  · decide
  · decide
  · intro type h
    exact (Lstat.found.inj h).symm
  · decide
  · decide

/-- If `/a` cannot be examined, a row for a directory goes and one for a file ends the
program. -/
theorem not_leftAlone_failed : ¬ ∀ (pathMatch : Str → Str → Option Bool) (cfg : ConfigBackup) (lstat : Lstat)
    (row : FilesRow), isPathIncluded cfg.paths row.path = true →
      isPathExcluded pathMatch cfg.exclusions row.path = false → lstat ≠ .notExist →
        (∀ type, lstat = .found type → type = row.props.type) → LeftAlone pathMatch cfg lstat row := by
  intro h
  have hdir := h (fun _ _ => none) plainConfig .failed (rowAt .dir) (by decide) rfl (by simp)
    (by simp)
  have hworld := (hdir plainCloud ⟨true, true, true⟩ [] [] ⟨⟨[rowAt .dir], [], [], []⟩, fun _ => Bucket.empty⟩
    (by simp)).1
  have hfiles := congrArg (fun w => w.db.files) hworld
  revert hfiles
  decide

/-! ### Exclusions -/

section

variable {pathMatch : Str → Str → Option Bool} {exclusions : List Str} {path : Str}

theorem isPathExcluded_eq : isPathExcluded pathMatch exclusions path =
    (isPathExcludedOrErr pathMatch exclusions path).getD false := by
  induction exclusions with
  | nil => rfl
  | cons excludedPath rest ih =>
      rw [isPathExcluded, isPathExcludedOrErr]
      cases pathMatch excludedPath path with
      | none => rfl
      | some found =>
          cases found with
          | true => rfl
          | false => exact ih

def totalMatch (m : Str → Str → Bool) (pattern path : Str) : Option Bool := some (m pattern path)

theorem isPathExcludedOrErr_totalMatch {m : Str → Str → Bool} :
    ∃ excluded, isPathExcludedOrErr (totalMatch m) exclusions path = some excluded := by
  induction exclusions with
  | nil => exact ⟨false, rfl⟩
  | cons excludedPath rest ih =>
      rw [isPathExcludedOrErr, totalMatch]
      cases m excludedPath path with
      | true => exact ⟨true, rfl⟩
      | false => exact ih

/-- If every pattern is a good one, the scan and `markDeleted` see the same. -/
theorem notExcluded_eq {m : Str → Str → Bool} {cfg : ConfigBackup} :
    notExcluded (totalMatch m) cfg path =
      !isPathExcluded (totalMatch m) cfg.exclusions path := by
  obtain ⟨excluded, hexcluded⟩ := @isPathExcludedOrErr_totalMatch cfg.exclusions path m
  rw [isPathExcluded_eq, notExcluded, hexcluded]
  cases excluded <;> rfl

end

section

variable (m : Str → Str → Bool) (cfg : ConfigBackup) (dereference : Bool) (v : Volume)

/-- The path matches an exclusion, for a matcher that always has an answer. -/
def Excluded (path : Str) : Prop :=
  isPathExcluded (totalMatch m) cfg.exclusions path = true

instance (path : Str) : Decidable (Excluded m cfg path) := inferInstanceAs (Decidable (_ = true))

/-- A run hands the path to `Do`. -/
def Reached (path : Str) : Prop :=
  ∃ root ∈ cfg.paths,
    path ∈ scanned v dereference (notExcluded (totalMatch m) cfg) (clean root)

def OnTree (root path : Str) : Prop := Scans v dereference (fun _ => true) (clean root) path

/-- A run does not come to a path on the disk, because it is excluded or something
above it is, below the configured path. -/
def CutOff (path : Str) : Prop :=
  ¬ Reached m cfg dereference v path ∧ ∃ root ∈ cfg.paths, OnTree dereference v root path ∧
    ∃ q, IsClean q ∧ Below (clean root) q ∧ components q <+: components path ∧ Excluded m cfg q

/-- `markDeleted` takes a row for excluded, and puts its markers whatever is on the
disk. -/
def TreatedAsExcluded (path : Str) : Prop :=
  Excluded m cfg path ∧
    ∀ (C : Cloud) (lstat : Lstat) (stmts : Statements) (targets : List Target) (jobUuid : Str)
      (row : FilesRow) (w : World), row.path = path →
        markDeleted C (totalMatch m) cfg lstat stmts targets jobUuid
          (recordOf row) w = putMarkers C stmts targets jobUuid (recordOf row) w

/-- The path is not a configured one that matches an exclusion; and if there is an
excluded directory above it, whichever configured path it is looked at from, it is
excluded by itself. -/
structure AgreesAt (path : Str) : Prop where
  atRoot : ∀ root ∈ cfg.paths, path = clean root → (v.examine dereference path).isSome → ¬ Excluded m cfg path
  underExcluded : (∃ root ∈ cfg.paths, OnTree dereference v root path) →
    (∀ root ∈ cfg.paths, OnTree dereference v root path →
      ∃ q, IsClean q ∧ Below (clean root) q ∧ Below q path ∧ Excluded m cfg q) → Excluded m cfg path

end

section

variable {m : Str → Str → Bool} {cfg : ConfigBackup} {dereference : Bool} {v : Volume} {path : Str}

theorem treatedAsExcluded_iff : TreatedAsExcluded m cfg path ↔ Excluded m cfg path := by
  refine ⟨And.left, fun h => ⟨h, ?_⟩⟩
  rintro C lstat stmts targets jobUuid row w rfl
  apply markDeleted_of_gone
  have hexcluded : isPathExcluded (totalMatch m) cfg.exclusions
      (recordOf row).path = true := h
  rw [gone, hexcluded]
  rfl

theorem reached_iff (habs : ∀ root ∈ cfg.paths, isAbs root = true) :
    Reached m cfg dereference v path ↔ ∃ root ∈ cfg.paths,
      Scans v dereference (notExcluded (totalMatch m) cfg) (clean root) path := by
  unfold Reached
  constructor
  · rintro ⟨root, hroot, hpath⟩
    exact ⟨root, hroot, (mem_scanned (isClean_clean (habs root hroot)) path).mp hpath⟩
  · rintro ⟨root, hroot, hpath⟩
    exact ⟨root, hroot, (mem_scanned (isClean_clean (habs root hroot)) path).mpr hpath⟩

/-- Nothing on the way to a path that is reached is excluded. -/
theorem not_excluded_of_scans {root q : Str} (hroot : IsClean root)
    (h : Scans v dereference (notExcluded (totalMatch m) cfg) root path) (hq : IsClean q)
    (hbelow : Below root q) (hle : components q <+: components path) : ¬ Excluded m cfg q := by
  have hscans := (h.between hroot hq hbelow.1 hle).1
  rcases hscans.passed with rfl | hpasses
  · exact absurd rfl hbelow.2
  · rw [notExcluded_eq] at hpasses
    simpa [Excluded] using hpasses

/-- Something is excluded on the way to a path that is not reached. -/
theorem exists_excluded {root : Str} (hroot : IsClean root)
    (h : Scans v dereference (fun _ => true) root path)
    (hnot : ¬ Scans v dereference (notExcluded (totalMatch m) cfg) root path) :
    ∃ q, IsClean q ∧ Below root q ∧ components q <+: components path ∧ Excluded m cfg q := by
  by_contra hnone
  apply hnot
  refine h.of_passes hroot fun q hq hbelow hle => ?_
  rw [notExcluded_eq, Bool.not_eq_true']
  by_contra hexcluded
  exact hnone ⟨q, hq, hbelow, hle, eq_true_of_ne_false hexcluded⟩

end

/-- The scan and `markDeleted` agree about the exclusions at a path if and only if it
is neither a configured path that matches one nor below an excluded directory without
a match of its own. -/
theorem exclusions_agree_iff (m : Str → Str → Bool) (cfg : ConfigBackup) (dereference : Bool) (v : Volume)
    (path : Str) (habs : ∀ root ∈ cfg.paths, isAbs root = true) :
    ((CutOff m cfg dereference v path → TreatedAsExcluded m cfg path) ∧
      (Reached m cfg dereference v path → ¬ Excluded m cfg path)) ↔
    AgreesAt m cfg dereference v path := by
  have hclean : ∀ root ∈ cfg.paths, IsClean (clean root) := fun root hroot => isClean_clean (habs root hroot)
  rw [treatedAsExcluded_iff]
  constructor
  · rintro ⟨hcut, hreached⟩
    constructor
    · -- a configured path is handed to `Do` without a look at the exclusions
      rintro root hroot rfl hsome
      obtain ⟨stat, hstat⟩ := Option.isSome_iff_exists.mp hsome
      exact hreached ((reached_iff habs).mpr ⟨root, hroot, scans_self hstat⟩)
    · rintro ⟨root, hroot, hon⟩ hall
      obtain ⟨q, hq, hbelow, hqpath, hexcluded⟩ := hall root hroot hon
      refine hcut ⟨fun h => ?_, root, hroot, hon, q, hq, hbelow, hqpath.1, hexcluded⟩
      obtain ⟨root', hroot', hscans⟩ := (reached_iff habs).mp h
      obtain ⟨q', hq', hbelow', hqpath', hexcluded'⟩ := hall root' hroot' (hscans.mono fun _ _ => rfl)
      exact not_excluded_of_scans (hclean root' hroot') hscans hq' hbelow' hqpath'.1 hexcluded'
  · rintro ⟨hroot, hunder⟩
    constructor
    · rintro ⟨hnot, root, hroot, hon, -⟩
      by_contra hpath
      refine hpath (hunder ⟨root, hroot, hon⟩ fun root' hroot' hon' => ?_)
      have hnot' := fun hscans => hnot ((reached_iff habs).mpr ⟨root', hroot', hscans⟩)
      obtain ⟨q, hq, hbelow, hle, hexcluded⟩ := exists_excluded (hclean root' hroot') hon' hnot'
      refine ⟨q, hq, hbelow, ⟨hle, fun heq => hpath ?_⟩, hexcluded⟩
      rwa [← hq.ext (hon'.clean (hclean root' hroot')) heq]
    · intro h
      obtain ⟨root, hmem, hscans⟩ := (reached_iff habs).mp h
      by_cases heq : path = clean root
      · obtain ⟨stat, hstat⟩ := hscans.examined (hclean root hmem)
        exact hroot root hmem heq (by rw [hstat]; rfl)
      · have hpath := hscans.clean (hclean root hmem)
        refine not_excluded_of_scans (hclean root hmem) hscans hpath ⟨hscans.starts (hclean root hmem), ?_⟩
          (List.prefix_refl _)
        exact fun hnames => heq (hpath.ext (hclean root hmem) hnames.symm)

def excludingConfig : ConfigBackup := { plainConfig with paths := ["/a".toList], exclusions := ["/a/d".toList] }

theorem exclusions_agree_directory :
    (CutOff (fun pattern path => decide (pattern = path)) excludingConfig false deepVolume "/a/d".toList →
      TreatedAsExcluded (fun pattern path => decide (pattern = path)) excludingConfig "/a/d".toList) ∧
    (Reached (fun pattern path => decide (pattern = path)) excludingConfig false deepVolume "/a/d".toList →
      ¬ Excluded (fun pattern path => decide (pattern = path)) excludingConfig "/a/d".toList) := by
  refine (exclusions_agree_iff _ excludingConfig false deepVolume "/a/d".toList (by decide)).mpr ⟨?_, ?_⟩
  · intro root hroot heq
    obtain rfl : root = "/a".toList := by simpa [excludingConfig] using hroot
    exact absurd heq (by decide)
  · intro _ _
    decide

/-- The file in the excluded directory is not reached, and it is not excluded. -/
theorem exclusions_disagree_below : ¬ ∀ (m : Str → Str → Bool) (cfg : ConfigBackup) (dereference : Bool)
    (v : Volume) (path : Str), (∀ root ∈ cfg.paths, isAbs root = true) →
      (CutOff m cfg dereference v path → TreatedAsExcluded m cfg path) ∧
        (Reached m cfg dereference v path → ¬ Excluded m cfg path) := by
  intro h
  have hagree := (h (fun pattern path => decide (pattern = path)) excludingConfig false deepVolume
    "/a/d/f".toList (by decide)).1
  have htree : OnTree false deepVolume "/a".toList "/a/d/f".toList :=
    (mem_scanned (by decide) _).mp (by decide)
  have hcut : CutOff (fun pattern path => decide (pattern = path)) excludingConfig false deepVolume
      "/a/d/f".toList := by
    refine ⟨?_, "/a".toList, by decide, htree, "/a/d".toList, by decide, by decide, by decide, by decide⟩
    unfold Reached
    decide
  have hexcluded := (hagree hcut).1
  revert hexcluded
  decide

/-! ### Paths -/

/-- The configured path is written in a way that `IsPathIncluded` takes for a directory
with these names: the clean one, but for a separator at the end. -/
def Spells (incPath : Str) (names : Names) : Prop := trimSlash incPath = render names

instance (incPath : Str) (names : Names) : Decidable (Spells incPath names) :=
  inferInstanceAs (Decidable (_ = _))

theorem trimSlash_render {names : Names} (h : ∀ n ∈ names, IsName n) : trimSlash (render names) = render names :=
  if_neg (getLast?_render h)

theorem trimSlash_eq_nil {path : Str} (habs : isAbs path = true) (h : trimSlash path = []) : path = ['/'] := by
  unfold trimSlash at h
  split at h
  · rename_i hlast
    cases path with
    | nil => cases habs
    | cons c path =>
        cases path with
        | nil => simpa [isAbs] using habs
        | cons d path => simp at h
  · subst h
    cases habs

section

variable {paths : List Str} {path : Str}

/-- What `IsPathIncluded` says about a clean path other than the root of the disk. -/
theorem isPathIncluded_iff (hpath : IsClean path) (hroot : path ≠ ['/']) : isPathIncluded paths path = true ↔
      ∃ incPath ∈ paths, ∃ names, Spells incPath names ∧ names <+: components path := by
  have hrender := hpath.eq_render hroot
  have htrim : trimSlash path = path := by
    rw [hrender]
    exact trimSlash_render hpath.isName
  have hnoSlash : ∀ n ∈ components path, '/' ∉ n := fun n hn => (hpath.isName n hn).noSlash
  simp only [isPathIncluded, List.any_eq_true, Bool.or_eq_true, decide_eq_true_eq, htrim,
    List.isPrefixOf_iff_prefix]
  constructor
  · rintro ⟨incPath, hinc, ((rfl | heq) | rfl) | hstarts⟩
    · exact ⟨path, hinc, components path, htrim.trans hrender, List.prefix_refl _⟩
    · exact ⟨incPath, hinc, components path, heq.symm.trans hrender, List.prefix_refl _⟩
    · exact ⟨path, hinc, components path, htrim.trans hrender, List.prefix_refl _⟩
    · rw [hrender] at hstarts
      obtain ⟨above, habove, hle⟩ := eq_render_of_slash hnoSlash hstarts
      exact ⟨incPath, hinc, above, habove, hle⟩
  · rintro ⟨incPath, hinc, names, hspells, hle⟩
    refine ⟨incPath, hinc, ?_⟩
    by_cases heq : names = components path
    · exact .inl (.inl (.inr (by rw [hspells, heq]; exact hrender)))
    · right
      rw [hspells, hrender]
      exact (render_slash_isPrefix (fun n hn => hnoSlash n (hle.subset hn)) hnoSlash).mpr ⟨hle, heq⟩

/-- The root of the disk is included if it is configured. -/
theorem isPathIncluded_root (h : ['/'] ∈ paths) : isPathIncluded paths ['/'] = true := by
  rw [isPathIncluded, List.any_eq_true]
  exact ⟨['/'], h, by simp⟩

theorem length_trimSlash_le (path : Str) : (trimSlash path).length ≤ path.length := by
  unfold trimSlash
  split
  · rw [List.length_dropLast]
    omega
  · exact le_rfl

def longName (paths : List Str) : Str := List.replicate (paths.flatten.length + 3) 'x'

theorem isName_longName : IsName (longName paths) := by
  constructor
  · simp [longName]
  · simp [longName]
  · intro h
    have hlen := congrArg List.length h
    simp [longName] at hlen
  · intro h
    have hlen := congrArg List.length h
    simp [longName] at hlen

theorem not_spells_longName {incPath : Str} (h : incPath ∈ paths) (names : Names) :
    ¬ Spells incPath (names ++ [longName paths]) := by
  intro hspells
  have hlen := congrArg List.length hspells
  have hle := length_trimSlash_le incPath
  have hsub := (List.sublist_flatten_of_mem h).length_le
  simp only [render_append, render_cons, render_nil, List.length_append, List.length_cons, longName,
    List.length_replicate, List.append_nil] at hlen
  omega

end

/-- Whatever a run hands to `Do` is included if and only if every configured path lies
at or below one that is written in its clean form, but for a separator at the end. -/
theorem paths_agree_iff (paths : List Str) (habs : ∀ root ∈ paths, isAbs root = true) :
    (∀ (pathMatch : Str → Str → Option Bool) (cfg : ConfigBackup) (dereference : Bool) (v : Volume),
      cfg.paths = paths → ∀ root ∈ paths,
        ∀ path ∈ scanned v dereference (notExcluded pathMatch cfg) (clean root),
          isPathIncluded paths path = true) ↔
    ∀ root ∈ paths, ∃ incPath ∈ paths, ∃ names, Spells incPath names ∧ names <+: components root := by
  constructor
  · intro h root hroot
    have hnames : ∀ m ∈ components root ++ [longName paths], IsName m := by
      intro m hm
      rcases List.mem_append.mp hm with hm | hm
      · exact isName_of_mem_components (habs root hroot) hm
      · rw [List.mem_singleton.mp hm]
        exact isName_longName
    have hscans : Scans (chainVolume _ hnames) false
        (notExcluded (fun _ _ => none) { plainConfig with paths := paths }) (text (components root))
        (text (components root ++ [longName paths])) := scans_chainVolume hnames false rfl
    rw [← clean_of_isAbs (habs root hroot), ← mem_scanned (isClean_clean (habs root hroot))] at hscans
    have hincluded := h _ _ _ _ rfl root hroot _ hscans
    have hdisk : text (components root ++ [longName paths]) ≠ ['/'] := by
      intro heq
      have hnil := congrArg components heq
      rw [components_text hnames, components_root] at hnil
      simp at hnil
    rw [isPathIncluded_iff (isClean_text hnames) hdisk, components_text hnames] at hincluded
    obtain ⟨incPath, hinc, names, hspells, hle⟩ := hincluded
    rcases List.prefix_concat_iff.mp hle with rfl | hle
    · exact absurd hspells (not_spells_longName hinc _)
    · exact ⟨incPath, hinc, names, hspells, hle⟩
  · rintro h pathMatch cfg dereference v rfl root hroot path hpath
    have hclean := isClean_clean (habs root hroot)
    have hscans := (mem_scanned hclean path).mp hpath
    obtain ⟨incPath, hinc, names, hspells, hle⟩ := h root hroot
    have hstarts : names <+: components path := by
      rw [← components_clean (habs root hroot)] at hle
      exact hle.trans (hscans.starts hclean)
    by_cases hdisk : path = ['/']
    · -- nothing but the root of the disk is at or above it
      subst hdisk
      obtain rfl := List.prefix_nil.mp hstarts
      apply isPathIncluded_root
      rwa [← trimSlash_eq_nil (habs incPath hinc) hspells]
    · rw [isPathIncluded_iff (hscans.clean hclean) hdisk]
      exact ⟨incPath, hinc, names, hspells, hstarts⟩

theorem paths_agree_slash :
    "/a/d/f".toList ∈ scanned deepVolume false
      (notExcluded (fun _ _ => none) { plainConfig with paths := ["/a/".toList, "/a//d".toList] })
      (clean "/a//d".toList) ∧
    isPathIncluded ["/a/".toList, "/a//d".toList] "/a/d/f".toList = true := by
  have hscanned : "/a/d/f".toList ∈ scanned deepVolume false
      (notExcluded (fun _ _ => none) { plainConfig with paths := ["/a/".toList, "/a//d".toList] })
      (clean "/a//d".toList) := by
    decide
  refine ⟨hscanned, (paths_agree_iff ["/a/".toList, "/a//d".toList] (by decide)).mpr ?_ _ _ _ _ rfl _ (by decide)
    _ hscanned⟩
  intro root hroot
  refine ⟨"/a/".toList, by decide, ["a".toList], by decide, ?_⟩
  revert root
  decide

/-- A path with two separators in a row is scanned, and nothing in it is included. -/
theorem paths_disagree_doubled : ¬ ∀ (paths : List Str), (∀ root ∈ paths, isAbs root = true) →
    ∀ (pathMatch : Str → Str → Option Bool) (cfg : ConfigBackup) (dereference : Bool) (v : Volume),
      cfg.paths = paths → ∀ root ∈ paths,
        ∀ path ∈ scanned v dereference (notExcluded pathMatch cfg) (clean root),
          isPathIncluded paths path = true := by
  intro h
  have hincluded := h ["/a//d".toList] (by decide) (fun _ _ => none)
    { plainConfig with paths := ["/a//d".toList] } false deepVolume rfl "/a//d".toList (by decide)
    "/a/d/f".toList (by decide)
  revert hincluded
  decide

end CloudBackup.Backup
