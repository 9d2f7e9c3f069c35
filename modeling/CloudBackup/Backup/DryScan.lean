import CloudBackup.Backup.Scan

/-!
A scan that is a dry run. Nothing is handed to `Do`; what is left are the calls of
`IncrementCounter` and `UpdateStatsText`, and the latter sends a report for each path that is
not empty. In between `scan` looks now and then if the context is done.

A directory is reported when it is entered, and again each time the scan comes back to it. The
reports and the counters are of what a real scan of the same disk hands to `Do`.
-/

namespace CloudBackup.Backup.DryScan

open Database TreeWalk UnixPath

/-! ### Signals -/

inductive ScanCounter
  | examinedFiles
  | examinedSymlinks
  | examinedUnknown
  | examinedDirectories
  | excluded
  | failedToExamine
  | failedToEnumerate
  deriving DecidableEq, Repr

/-- The type of a report, by the name that `UpdateStatsText` is called with: `current_file`,
`current_directory` or another one. -/
inductive ReportType
  | file
  | directory
  | unknown
  deriving DecidableEq, Repr

structure ScanEvalItemReport where
  name : Str
  type : ReportType
  excluded : Bool
  exclusionExpr : Str
  error : Str
  deriving DecidableEq, Repr

inductive Signal
  /-- `NewV4` is called. -/
  | newV4
  /-- It is looked if the context is done. -/
  | select
  | incrementCounter (counter : ScanCounter) (path : Str)
  | send (report : ScanEvalItemReport)
  deriving DecidableEq, Repr

/-- The texts of the errors for a path: of `os.Stat` or `os.Lstat`, of `readDirNames`, and of
`IsPathExcluded`. -/
structure ErrorTexts where
  examine : Str → Str
  enumerate : Str → Str
  isPathExcluded : Str → Str

def updateStatsText (type : ReportType) (statValue exclusionExpr fileError : Str) : List Signal :=
  if statValue = [] then []
  else [.send ⟨statValue, type, exclusionExpr ≠ [], exclusionExpr, fileError⟩]

/-- `IsPathExcluded`, with the expression that matches. -/
def excludedBy (pathMatch : Str → Str → Option Bool) (exclusions : List Str) (path : Str) : Option (Option Str) :=
  match exclusions with
  | [] => some none
  | excludedPath :: rest =>
      match pathMatch excludedPath path with
      | none => none
      | some true => some (some excludedPath)
      | some false => excludedBy pathMatch rest path

def examinedAs : FileType → ScanCounter
  | .file => .examinedFiles
  | .symlink => .examinedSymlinks
  | _ => .examinedUnknown

section Signals

variable (pathMatch : Str → Str → Option Bool) (cfg : ConfigBackup) (dereference : Bool) (v : Volume)
  (texts : ErrorTexts)

def itemSignals (path : Str) (stat : OnDisk) : List Signal :=
  .incrementCounter (examinedAs stat.fileType) path :: updateStatsText .file path [] []

/-- `walk`, up to its loop. -/
def enterSignals (path : Str) : List Signal :=
  .incrementCounter .examinedDirectories path ::
    match v.readDirNames path with
    | none => .incrementCounter .failedToEnumerate path :: updateStatsText .directory path [] (texts.enumerate path)
    | some _ => updateStatsText .directory path [] []

def childSignals (descend : Str → List Signal) (childPath : Str) : List Signal :=
  .select ::
    match excludedBy pathMatch cfg.exclusions childPath with
    | none =>
        .incrementCounter .failedToExamine childPath ::
          updateStatsText .unknown childPath [] (texts.isPathExcluded childPath)
    | some (some expr) => updateStatsText .unknown childPath expr [] ++ [.incrementCounter .excluded childPath]
    | some none =>
        match v.examine dereference childPath with
        | none =>
            .incrementCounter .failedToExamine childPath ::
              updateStatsText .unknown childPath [] (texts.examine childPath)
        | some fileInfo =>
            if fileInfo.fileType = .dir then descend childPath else itemSignals childPath fileInfo

/-- `walk`, down to a depth. -/
def walkSignals : ℕ → Str → List Signal
  | 0, path => enterSignals v texts path
  | depth + 1, path =>
      enterSignals v texts path ++ (v.namesIn path).flatMap fun name =>
        childSignals pathMatch cfg dereference v texts
          (fun childPath => walkSignals depth childPath ++ updateStatsText .directory path [] []) (join path name)

/-- `Path`. -/
def pathSignals (path : Str) : List Signal :=
  match v.examine dereference path with
  | none => [.incrementCounter .failedToExamine path]
  | some stat =>
      .select :: if stat.fileType = .dir then walkSignals pathMatch cfg dereference v texts v.pathMax path
        else itemSignals path stat

def dryRunBackupPaths : List Str → List Signal
  | [] => []
  | path :: rest =>
      .newV4 :: (pathSignals pathMatch cfg dereference v texts path ++
        if (v.examine dereference path).isSome then dryRunBackupPaths rest else [])

end Signals

/-! ### What is sent and counted -/

def Signal.report? : Signal → Option ScanEvalItemReport
  | .send r => some r
  | _ => none

def reports (l : List Signal) : List ScanEvalItemReport := l.filterMap Signal.report?

def counted (counter : ScanCounter) (l : List Signal) : ℕ :=
  l.countP fun
    | .incrementCounter c _ => c = counter
    | _ => false

def Signal.countedFor (counter : ScanCounter) : Signal → Option Str
  | .incrementCounter c path => if c = counter then some path else none
  | _ => none

theorem counted_eq_length (counter : ScanCounter) (l : List Signal) :
    counted counter l = (l.filterMap (Signal.countedFor counter)).length := by
  induction l with
  | nil => rfl
  | cons x l ih =>
      rw [counted, List.countP_cons, ← counted, ih]
      cases x with
      | incrementCounter c path => by_cases h : c = counter <;> simp [Signal.countedFor, h]
      | _ => rfl

def directoriesCounted (l : List Signal) : List Str := l.filterMap (Signal.countedFor .examinedDirectories)

def Signal.namedIn (type : ReportType) : Signal → Option Str
  | .send r => if r.type = type then some r.name else none
  | _ => none

def namesReported (type : ReportType) (l : List Signal) : List Str := l.filterMap (Signal.namedIn type)

def examinable (v : Volume) (dereference : Bool) (paths : List Str) : List Str :=
  paths.takeWhile fun path => (v.examine dereference path).isSome

def met (pathMatch : Str → Str → Option Bool) (cfg : ConfigBackup) (dereference : Bool) (v : Volume)
    (paths : List Str) : List Sight :=
  (examinable v dereference paths).flatMap (sights v dereference (notExcluded pathMatch cfg))

/-- What a scan hands to `Do`, of some types. -/
def handedAs (p : FileType → Bool) (l : List Sight) : List Str :=
  (l.filter (·.found.any fun stat => p stat.fileType)).map Sight.path

/-! ### A pass of the loop -/

section

variable {pathMatch : Str → Str → Option Bool} {cfg : ConfigBackup} {dereference : Bool} {v : Volume}
  {texts : ErrorTexts}

theorem isPathExcludedOrErr_eq (exclusions : List Str) (path : Str) :
    isPathExcludedOrErr pathMatch exclusions path = (excludedBy pathMatch exclusions path).map Option.isSome := by
  induction exclusions with
  | nil => rfl
  | cons excludedPath rest ih =>
      rw [excludedBy, isPathExcludedOrErr, ih]
      cases pathMatch excludedPath path with
      | none => rfl
      | some matched => cases matched <;> rfl

theorem of_excludedBy {exclusions : List Str} {path expr : Str}
    (h : excludedBy pathMatch exclusions path = some (some expr)) :
    expr ∈ exclusions ∧ pathMatch expr path = some true := by
  induction exclusions with
  | nil => cases h
  | cons excludedPath rest ih =>
      rw [excludedBy] at h
      split at h
      · cases h
      · rename_i hmatch
        obtain rfl := Option.some.inj (Option.some.inj h)
        exact ⟨List.mem_cons_self, hmatch⟩
      · exact (ih h).imp_left (List.mem_cons_of_mem _)

inductive Passed (pathMatch : Str → Str → Option Bool) (cfg : ConfigBackup) (texts : ErrorTexts) (path : Str) :
    List Signal → Prop
  | badPattern : Passed pathMatch cfg texts path
      (.incrementCounter .failedToExamine path :: updateStatsText .unknown path [] (texts.isPathExcluded path))
  | excluded {expr : Str} (h : expr ∈ cfg.exclusions ∧ pathMatch expr path = some true) :
      Passed pathMatch cfg texts path
        (updateStatsText .unknown path expr [] ++ [.incrementCounter .excluded path])
  | notExamined : Passed pathMatch cfg texts path
      (.incrementCounter .failedToExamine path :: updateStatsText .unknown path [] (texts.examine path))

variable (pathMatch cfg dereference v texts) in
/-- A scan sees something at the path, or it is passed over. -/
theorem childSignals_cases (descend : Str → List Signal) (path : Str) :
    (∃ stat, sight v dereference (notExcluded pathMatch cfg) path = ⟨path, some stat⟩ ∧
      childSignals pathMatch cfg dereference v texts descend path =
        .select :: if stat.fileType = .dir then descend path else itemSignals path stat) ∨
    (sight v dereference (notExcluded pathMatch cfg) path = ⟨path, none⟩ ∧
      ∃ l, Passed pathMatch cfg texts path l ∧
        childSignals pathMatch cfg dereference v texts descend path = .select :: l) := by
  rw [sight, notExcluded, isPathExcludedOrErr_eq, childSignals]
  cases hexcluded : excludedBy pathMatch cfg.exclusions path with
  | none => exact .inr ⟨rfl, _, .badPattern, rfl⟩
  | some expr =>
      cases expr with
      | some expr => exact .inr ⟨rfl, _, .excluded (of_excludedBy hexcluded), rfl⟩
      | none =>
          cases hfound : v.examine dereference path with
          | none => exact .inr ⟨by simp, _, .notExamined, rfl⟩
          | some stat => exact .inl ⟨stat, by simp, rfl⟩

/-! ### Lists that are put together pass by pass -/

/-- What `f` takes from the signals for a path, `g` tells from what is met there. -/
structure Tells {β : Type} (pathMatch : Str → Str → Option Bool) (cfg : ConfigBackup) (v : Volume)
    (texts : ErrorTexts) (f : Signal → Option β) (g : Sight → List β) : Prop where
  newV4 : f .newV4 = none
  select : f .select = none
  failed : ∀ path, f (.incrementCounter .failedToExamine path) = none
  back : ∀ path, (updateStatsText .directory path [] []).filterMap f = []
  passed : ∀ path l, path ≠ [] → Passed pathMatch cfg texts path l → l.filterMap f = g ⟨path, none⟩
  entered : ∀ path stat, path ≠ [] → stat.fileType = .dir →
    (enterSignals v texts path).filterMap f = g ⟨path, some stat⟩
  item : ∀ path stat, path ≠ [] → stat.fileType ≠ .dir → (itemSignals path stat).filterMap f = g ⟨path, some stat⟩

section

variable {β : Type} {f : Signal → Option β} {g : Sight → List β}

theorem Tells.walkSignals (h : Tells pathMatch cfg v texts f g) (depth : ℕ) {path : Str} (hpath : path ≠ [])
    {stat : OnDisk} (hdir : stat.fileType = .dir) :
    (walkSignals pathMatch cfg dereference v texts depth path).filterMap f =
      ((⟨path, some stat⟩ : Sight) ::
        below (sightsIn v dereference (notExcluded pathMatch cfg)) depth ⟨path, some stat⟩).flatMap g := by
  induction depth generalizing path stat with
  | zero => simp [DryScan.walkSignals, below, h.entered path stat hpath hdir]
  | succ depth ih =>
      rw [DryScan.walkSignals, List.filterMap_append, h.entered path stat hpath hdir, List.flatMap_cons, below,
        sightsIn, if_pos (by simpa using hdir), List.filterMap_flatMap, List.flatMap_assoc, List.flatMap_map]
      congr 1
      refine List.flatMap_congr fun name hname => ?_
      have hchild := join_ne_nil path (v.isName_of_mem hname).ne_nil
      rcases childSignals_cases pathMatch cfg dereference v texts _ (join path name) with
        ⟨stat', hsight, heq⟩ | ⟨hsight, l, hl, heq⟩
      · rw [heq, hsight, List.filterMap_cons_none h.select]
        split
        · rename_i hdir'
          rw [List.filterMap_append, h.back, List.append_nil, ih hchild hdir']
        · rename_i hitem
          rw [h.item _ _ hchild hitem, below_of_not_dir (by simpa using hitem), List.flatMap_cons,
            List.flatMap_nil, List.append_nil]
      · rw [heq, hsight, List.filterMap_cons_none h.select, h.passed _ _ hchild hl, below_of_not_dir rfl,
          List.flatMap_cons, List.flatMap_nil, List.append_nil]

theorem Tells.pathSignals (h : Tells pathMatch cfg v texts f g) {path : Str} (hpath : path ≠ []) :
    (pathSignals pathMatch cfg dereference v texts path).filterMap f =
      (sights v dereference (notExcluded pathMatch cfg) path).flatMap g := by
  rw [DryScan.pathSignals, sights]
  cases v.examine dereference path with
  | none => simp [h.failed]
  | some stat =>
      simp only [List.filterMap_cons_none h.select]
      split
      · rename_i hdir
        exact h.walkSignals _ hpath hdir
      · rename_i hitem
        rw [h.item _ _ hpath hitem, below_of_not_dir (by simpa using hitem), List.flatMap_cons, List.flatMap_nil,
          List.append_nil]

theorem Tells.dryRunBackupPaths (h : Tells pathMatch cfg v texts f g) {paths : List Str}
    (hpaths : ∀ path ∈ paths, path ≠ []) :
    (dryRunBackupPaths pathMatch cfg dereference v texts paths).filterMap f =
      (met pathMatch cfg dereference v paths).flatMap g := by
  induction paths with
  | nil => rfl
  | cons path rest ih =>
      rw [List.forall_mem_cons] at hpaths
      rw [DryScan.dryRunBackupPaths, List.filterMap_cons_none h.newV4, List.filterMap_append,
        h.pathSignals hpaths.1, met, examinable, List.takeWhile_cons]
      split
      · rw [List.flatMap_cons, List.flatMap_append, ih hpaths.2, met, examinable]
      · rename_i hnone
        simp [sights, Option.not_isSome_iff_eq_none.mp hnone]

theorem Tells.handedAs {f : Signal → Option Str} {p : FileType → Bool}
    (h : Tells pathMatch cfg v texts f fun x => if x.found.any fun stat => p stat.fileType then [x.path] else [])
    {paths : List Str} (hpaths : ∀ path ∈ paths, path ≠ []) :
    (DryScan.dryRunBackupPaths pathMatch cfg dereference v texts paths).filterMap f =
      DryScan.handedAs p (met pathMatch cfg dereference v paths) := by
  rw [h.dryRunBackupPaths hpaths, DryScan.handedAs]
  induction met pathMatch cfg dereference v paths with
  | nil => rfl
  | cons x l ih =>
      rw [List.flatMap_cons, ih, List.filter_cons]
      split <;> rfl

theorem updateStatsText_of_ne {type : ReportType} {statValue exclusionExpr fileError : Str} (h : statValue ≠ []) :
    updateStatsText type statValue exclusionExpr fileError =
      [.send ⟨statValue, type, exclusionExpr ≠ [], exclusionExpr, fileError⟩] :=
  if_neg h

theorem tells_of {f : Signal → Option Str} {p : FileType → Bool} (hnewV4 : f .newV4 = none)
    (hselect : f .select = none)
    (hskipped : ∀ path, ∀ c ∈ [ScanCounter.failedToExamine, .failedToEnumerate, .excluded],
      f (.incrementCounter c path) = none)
    (hother : ∀ r, r.type ≠ .file → f (.send r) = none)
    (hdirectory : ∀ path, f (.incrementCounter .examinedDirectories path) = if p .dir then some path else none)
    (hitem : ∀ path type, type ≠ .dir → [Signal.incrementCounter (examinedAs type) path,
      .send ⟨path, .file, false, [], []⟩].filterMap f = if p type then [path] else []) :
    Tells pathMatch cfg v texts f fun x => if x.found.any fun stat => p stat.fileType then [x.path] else [] where
  newV4 := hnewV4
  select := hselect
  failed path := hskipped path _ (by simp)
  back path := by
    unfold updateStatsText
    split
    · rfl
    · simp [hother]
  passed := by
    rintro path l hpath (_ | _ | _) <;>
      simp [updateStatsText_of_ne hpath, hskipped, hother]
  entered := by
    intro path stat hpath hdir
    unfold enterSignals
    split <;> cases hp : p .dir <;> simp [updateStatsText_of_ne hpath, hskipped, hother, hdirectory, hdir, hp]
  item := by
    intro path stat hpath hne
    simpa [itemSignals, updateStatsText_of_ne hpath] using hitem path stat.fileType hne

theorem tells_countedFor {counter : ScanCounter} {p : FileType → Bool}
    (hcounter : counter ∉ [ScanCounter.failedToExamine, .failedToEnumerate, .excluded])
    (hdirectory : p .dir = decide (ScanCounter.examinedDirectories = counter))
    (hitem : ∀ type, type ≠ .dir → p type = decide (examinedAs type = counter)) :
    Tells pathMatch cfg v texts (Signal.countedFor counter)
      fun x => if x.found.any fun stat => p stat.fileType then [x.path] else [] := by
  refine tells_of rfl rfl (fun path c hc => if_neg ?_) (fun _ _ => rfl) (fun path => ?_) fun path type htype => ?_
  · rintro rfl
    exact hcounter hc
  · rw [hdirectory, Signal.countedFor]
    simp
  · rw [hitem type htype]
    by_cases h : examinedAs type = counter <;> simp [Signal.countedFor, h, List.filterMap_cons]

theorem tells_filesCounted : Tells pathMatch cfg v texts (Signal.countedFor .examinedFiles)
    fun x => if x.found.any fun stat => stat.fileType = .file then [x.path] else [] :=
  tells_countedFor (p := (· = .file)) (by decide) rfl fun type _ => by
    cases type <;> rfl

theorem tells_directoriesCounted : Tells pathMatch cfg v texts (Signal.countedFor .examinedDirectories)
    fun x => if x.found.any fun stat => stat.fileType = .dir then [x.path] else [] :=
  tells_countedFor (p := (· = .dir)) (by decide) rfl fun type htype => by
    cases type <;> first | rfl | exact absurd rfl htype

theorem tells_namesReported : Tells pathMatch cfg v texts (Signal.namedIn .file)
    fun x => if x.found.any fun stat => stat.fileType ≠ .dir then [x.path] else [] := by
  refine tells_of (f := Signal.namedIn _) (p := (· ≠ .dir)) rfl rfl (fun _ _ _ => rfl) (fun r hr => if_neg hr)
    (fun _ => rfl) fun path type htype => ?_
  cases type with
  | dir => exact absurd rfl htype
  | _ => rfl

end

/-! ### Directories -/

def AgreeBut (dir : Str) (l : List Signal) : Prop :=
  ∀ path ≠ dir, path ∈ namesReported .directory l ↔ path ∈ directoriesCounted l

theorem AgreeBut.append {dir : Str} {l l' : List Signal} (h : AgreeBut dir l) (h' : AgreeBut dir l') :
    AgreeBut dir (l ++ l') := by
  intro path hne
  rw [namesReported, directoriesCounted, List.filterMap_append, List.filterMap_append, List.mem_append,
    List.mem_append, ← namesReported, ← namesReported, ← directoriesCounted, ← directoriesCounted, h path hne,
    h' path hne]

theorem AgreeBut.flatMap {dir : Str} {names : List Str} {f : Str → List Signal}
    (h : ∀ name ∈ names, AgreeBut dir (f name)) : AgreeBut dir (names.flatMap f) := by
  induction names with
  | nil => exact fun _ _ => Iff.rfl
  | cons name names ih =>
      rw [List.forall_mem_cons] at h
      exact h.1.append (ih h.2)

theorem agreeBut_back (dir : Str) : AgreeBut dir (updateStatsText .directory dir [] []) := by
  intro path hne
  unfold updateStatsText
  split
  · exact Iff.rfl
  · simp [namesReported, directoriesCounted, Signal.namedIn, Signal.countedFor, hne]

theorem agreeBut_item (dir : Str) {path : Str} {stat : OnDisk} (hpath : path ≠ []) :
    AgreeBut dir (itemSignals path stat) := by
  intro p _
  have hother : examinedAs stat.fileType ≠ .examinedDirectories := by
    cases stat.fileType <;> decide
  simp [itemSignals, updateStatsText_of_ne hpath, namesReported, directoriesCounted, Signal.namedIn, Signal.countedFor,
    hother]

theorem agreeBut_passed (dir : Str) {path : Str} {l : List Signal} (hpath : path ≠ [])
    (h : Passed pathMatch cfg texts path l) : AgreeBut dir l := by
  intro p _
  cases h <;>
    simp [updateStatsText_of_ne hpath, namesReported, directoriesCounted, Signal.namedIn, Signal.countedFor]

variable (v texts) in
theorem directories_enterSignals {path : Str} (hpath : path ≠ []) :
    namesReported .directory (enterSignals v texts path) = [path] ∧
      directoriesCounted (enterSignals v texts path) = [path] := by
  unfold enterSignals
  split <;>
    simp [updateStatsText_of_ne hpath, namesReported, directoriesCounted, Signal.namedIn, Signal.countedFor,
      List.filterMap_cons]

/-- A directory that is entered is reported and counted at once. -/
theorem agree_of_entered {path : Str} {l : List Signal} (hpath : path ≠ []) (h : AgreeBut path l) (dir : Str) :
    AgreeBut dir (enterSignals v texts path ++ l) := by
  intro p _
  obtain ⟨hreported, hcounted⟩ := directories_enterSignals v texts hpath
  rw [namesReported] at hreported ⊢
  rw [directoriesCounted] at hcounted ⊢
  rw [List.filterMap_append, List.filterMap_append, hreported, hcounted, List.mem_append, List.mem_append]
  by_cases hp : p = path
  · simp [hp]
  · exact or_congr_right (h p hp)

theorem agreeBut_walkSignals (depth : ℕ) {path : Str} (hpath : path ≠ []) (dir : Str) :
    AgreeBut dir (walkSignals pathMatch cfg dereference v texts depth path) := by
  induction depth generalizing path dir with
  | zero =>
      rw [walkSignals, ← List.append_nil (enterSignals v texts path)]
      exact agree_of_entered hpath (fun _ _ => Iff.rfl) dir
  | succ depth ih =>
      rw [walkSignals]
      refine agree_of_entered hpath (AgreeBut.flatMap fun name hname => ?_) dir
      have hchild := join_ne_nil path (v.isName_of_mem hname).ne_nil
      rcases childSignals_cases pathMatch cfg dereference v texts _ (join path name) with
        ⟨stat, -, heq⟩ | ⟨-, l, hl, heq⟩
      · rw [heq]
        split
        · exact (ih hchild path).append (agreeBut_back path)
        · exact agreeBut_item path hchild
      · have hpassed : AgreeBut path l := agreeBut_passed path hchild hl
        rw [heq]
        exact hpassed

theorem agreeBut_pathSignals {path : Str} (hpath : path ≠ []) (dir : Str) :
    AgreeBut dir (pathSignals pathMatch cfg dereference v texts path) := by
  unfold pathSignals
  split
  · exact fun _ _ => Iff.rfl
  · split
    · exact agreeBut_walkSignals _ hpath dir
    · exact agreeBut_item dir hpath

theorem agreeBut_dryRunBackupPaths {paths : List Str} (hpaths : ∀ path ∈ paths, path ≠ []) (dir : Str) :
    AgreeBut dir (dryRunBackupPaths pathMatch cfg dereference v texts paths) := by
  induction paths with
  | nil => exact fun _ _ => Iff.rfl
  | cons path rest ih =>
      rw [List.forall_mem_cons] at hpaths
      rw [dryRunBackupPaths]
      refine (agreeBut_pathSignals hpaths.1 dir).append ?_
      split
      · exact ih hpaths.2
      · exact fun _ _ => Iff.rfl

/-! ### Numbers -/

/-- No text of an error is empty, and an empty expression matches no path. -/
structure Legible (pathMatch : Str → Str → Option Bool) (cfg : ConfigBackup) (texts : ErrorTexts) : Prop where
  examine : ∀ path, texts.examine path ≠ []
  enumerate : ∀ path, texts.enumerate path ≠ []
  isPathExcluded : ∀ path, texts.isPathExcluded path ≠ []
  exclusions : ∀ expr ∈ cfg.exclusions, ∀ path, pathMatch expr path = some true → expr ≠ []

/-- The reports against the counters. Of directories there are two for each and some more, and
there may be errors without a report. -/
structure Tallied (more : ℤ) (unreported : ℕ) (l : List Signal) : Prop where
  excluded : (reports l).countP (·.excluded) = counted .excluded l
  errors : (reports l).countP (·.error ≠ []) + unreported = counted .failedToExamine l + counted .failedToEnumerate l
  directories : ((reports l).countP (·.type = .directory) : ℤ) = 2 * counted .examinedDirectories l + more

theorem Tallied.append {m m' : ℤ} {n n' : ℕ} {l l' : List Signal} (h : Tallied m n l) (h' : Tallied m' n' l') :
    Tallied (m + m') (n + n') (l ++ l') := by
  obtain ⟨hexcluded, herrors, hdirectories⟩ := h
  obtain ⟨hexcluded', herrors', hdirectories'⟩ := h'
  simp only [reports, counted] at hexcluded herrors hdirectories hexcluded' herrors' hdirectories'
  constructor <;>
    simp only [reports, counted, List.filterMap_append, List.countP_append] <;>
    omega

theorem Tallied.flatMap {names : List Str} {f : Str → List Signal} (h : ∀ name ∈ names, Tallied 0 0 (f name)) :
    Tallied 0 0 (names.flatMap f) := by
  induction names with
  | nil => exact ⟨rfl, rfl, rfl⟩
  | cons name names ih =>
      rw [List.forall_mem_cons] at h
      exact h.1.append (ih h.2)

theorem Tallied.select {m : ℤ} {n : ℕ} {l : List Signal} (h : Tallied m n l) : Tallied m n (.select :: l) :=
  ⟨h.excluded, h.errors, h.directories⟩

theorem Tallied.newV4 {m : ℤ} {n : ℕ} {l : List Signal} (h : Tallied m n l) : Tallied m n (.newV4 :: l) :=
  ⟨h.excluded, h.errors, h.directories⟩

theorem tallied_back {path : Str} (hpath : path ≠ []) : Tallied 1 0 (updateStatsText .directory path [] []) := by
  rw [updateStatsText_of_ne hpath]
  exact ⟨rfl, rfl, rfl⟩

theorem tallied_item {path : Str} {stat : OnDisk} (hpath : path ≠ []) : Tallied 0 0 (itemSignals path stat) := by
  rw [itemSignals, updateStatsText_of_ne hpath]
  cases stat.fileType <;> exact ⟨rfl, rfl, rfl⟩

theorem tallied_passed (hlegible : Legible pathMatch cfg texts) {path : Str} {l : List Signal} (hpath : path ≠ [])
    (h : Passed pathMatch cfg texts path l) : Tallied 0 0 l := by
  obtain ⟨hexamine, -, hexcluded, hexpr⟩ := hlegible
  cases h with
  | badPattern | notExamined =>
      constructor <;> simp [updateStatsText_of_ne hpath, reports, counted, Signal.report?,
        List.filterMap_cons, hexamine, hexcluded]
  | excluded hexcludes =>
      constructor <;> simp [updateStatsText_of_ne hpath, reports, counted, Signal.report?,
        List.filterMap_cons, hexpr _ hexcludes.1 _ hexcludes.2]

theorem tallied_enterSignals (hlegible : Legible pathMatch cfg texts) {path : Str} (hpath : path ≠ []) :
    Tallied (-1) 0 (enterSignals v texts path) := by
  unfold enterSignals
  constructor <;> split <;>
    simp [updateStatsText_of_ne hpath, reports, counted, Signal.report?,
      List.filterMap_cons, hlegible.enumerate]

theorem tallied_walkSignals (hlegible : Legible pathMatch cfg texts) (depth : ℕ) {path : Str} (hpath : path ≠ []) :
    Tallied (-1) 0 (walkSignals pathMatch cfg dereference v texts depth path) := by
  induction depth generalizing path with
  | zero => exact tallied_enterSignals hlegible hpath
  | succ depth ih =>
      rw [walkSignals]
      refine (tallied_enterSignals hlegible hpath).append (Tallied.flatMap fun name hname => ?_)
      have hchild := join_ne_nil path (v.isName_of_mem hname).ne_nil
      rcases childSignals_cases pathMatch cfg dereference v texts _ (join path name) with
        ⟨stat, -, heq⟩ | ⟨-, l, hl, heq⟩
      · rw [heq]
        refine Tallied.select ?_
        split
        · exact (ih hchild).append (tallied_back hpath)
        · exact tallied_item hchild
      · rw [heq]
        exact Tallied.select (tallied_passed hlegible hchild hl)

/-- Of a configured path that is a directory there is one report less. -/
theorem tallied_pathSignals (hlegible : Legible pathMatch cfg texts) {path : Str} (hpath : path ≠ []) {stat : OnDisk}
    (hfound : v.examine dereference path = some stat) : Tallied (if stat.fileType = .dir then -1 else 0) 0
      (pathSignals pathMatch cfg dereference v texts path) := by
  rw [pathSignals, hfound]
  refine Tallied.select ?_
  split
  · exact tallied_walkSignals hlegible _ hpath
  · exact tallied_item hpath

/-- How many of the paths that are gone through are directories. -/
def topDirectories (v : Volume) (dereference : Bool) (paths : List Str) : ℕ :=
  (examinable v dereference paths).countP fun path => (v.examine dereference path).any (·.fileType = .dir)

/-- There is a path that ends the dry run without a report. -/
def endsEarly (v : Volume) (dereference : Bool) (paths : List Str) : ℕ :=
  if paths.all fun path => (v.examine dereference path).isSome then 0 else 1

theorem tallied_dryRunBackupPaths (hlegible : Legible pathMatch cfg texts) {paths : List Str}
    (hpaths : ∀ path ∈ paths, path ≠ []) : Tallied (-topDirectories v dereference paths)
      (endsEarly v dereference paths) (dryRunBackupPaths pathMatch cfg dereference v texts paths) := by
  induction paths with
  | nil => exact ⟨rfl, rfl, rfl⟩
  | cons path rest ih =>
      rw [List.forall_mem_cons] at hpaths
      rw [dryRunBackupPaths, topDirectories, endsEarly, examinable, List.takeWhile_cons, List.all_cons]
      cases hfound : v.examine dereference path with
      | none =>
          rw [pathSignals, hfound]
          exact ⟨rfl, rfl, rfl⟩
      | some stat =>
          have hpath : Tallied (if stat.fileType = .dir then -1 else 0) 0
              (pathSignals pathMatch cfg dereference v texts path) := tallied_pathSignals hlegible hpaths.1 hfound
          have hall := (hpath.append (ih hpaths.2)).newV4
          have hmore : (if stat.fileType = .dir then -1 else 0) + -(topDirectories v dereference rest : ℤ) =
              -((path :: examinable v dereference rest).countP fun path =>
                (v.examine dereference path).any (·.fileType = .dir) : ℕ) := by
            rw [List.countP_cons, hfound, Option.any_some, topDirectories]
            by_cases hdir : stat.fileType = .dir <;> simp [hdir]
          rw [hmore, Nat.zero_add] at hall
          exact hall

/-! ### The whole dry run -/

theorem mem_namesReported {type : ReportType} {l : List Signal} {path : Str} :
    path ∈ namesReported type l ↔ ∃ r ∈ reports l, r.type = type ∧ r.name = path := by
  simp only [namesReported, reports, List.mem_filterMap]
  constructor
  · rintro ⟨x, hx, hname⟩
    cases x with
    | send r =>
        rw [Signal.namedIn, Option.ite_none_right_eq_some] at hname
        exact ⟨r, ⟨_, hx, rfl⟩, hname.1, Option.some.inj hname.2⟩
    | _ => cases hname
  · rintro ⟨r, ⟨x, hx, hreport⟩, rfl, rfl⟩
    cases x with
    | send =>
        obtain rfl := Option.some.inj hreport
        exact ⟨_, hx, if_pos rfl⟩
    | _ => cases hreport

section

variable {paths : List Str}

theorem namesReported_file (hpaths : ∀ path ∈ paths, path ≠ []) :
    namesReported .file (dryRunBackupPaths pathMatch cfg dereference v texts paths) =
      handedAs (· ≠ .dir) (met pathMatch cfg dereference v paths) :=
  tells_namesReported.handedAs hpaths

theorem mem_handedAs {p : FileType → Bool} {l : List Sight} {path : Str} :
    path ∈ handedAs p l ↔ ∃ stat, p stat.fileType = true ∧ ⟨path, some stat⟩ ∈ l := by
  rw [handedAs, List.mem_map]
  constructor
  · rintro ⟨⟨path, found⟩, hmem, rfl⟩
    rw [List.mem_filter, Option.any_eq_true] at hmem
    obtain ⟨hmem, stat, rfl, hp⟩ := hmem
    exact ⟨stat, hp, hmem⟩
  · rintro ⟨stat, hp, hmem⟩
    exact ⟨_, List.mem_filter.mpr ⟨hmem, hp⟩, rfl⟩

theorem directoriesCounted_eq (hpaths : ∀ path ∈ paths, path ≠ []) :
    directoriesCounted (dryRunBackupPaths pathMatch cfg dereference v texts paths) =
      handedAs (· = .dir) (met pathMatch cfg dereference v paths) :=
  Tells.handedAs (p := (· = .dir)) tells_directoriesCounted hpaths

theorem mem_namesReported_directory (hpaths : ∀ path ∈ paths, path ≠ []) {path : Str} :
    path ∈ namesReported .directory (dryRunBackupPaths pathMatch cfg dereference v texts paths) ↔
      path ∈ handedAs (· = .dir) (met pathMatch cfg dereference v paths) := by
  rw [agreeBut_dryRunBackupPaths hpaths ('/' :: path) path (by simp), directoriesCounted_eq hpaths]

theorem counted_examinedFiles (hpaths : ∀ path ∈ paths, path ≠ []) :
    counted .examinedFiles (dryRunBackupPaths pathMatch cfg dereference v texts paths) =
      (handedAs (· = .file) (met pathMatch cfg dereference v paths)).length := by
  rw [counted_eq_length]
  exact congrArg List.length (Tells.handedAs (p := (· = .file)) tells_filesCounted hpaths)

theorem counted_examinedDirectories (hpaths : ∀ path ∈ paths, path ≠ []) :
    counted .examinedDirectories (dryRunBackupPaths pathMatch cfg dereference v texts paths) =
      (handedAs (· = .dir) (met pathMatch cfg dereference v paths)).length := by
  rw [counted_eq_length, ← directoriesCounted, directoriesCounted_eq hpaths]

end

end

end CloudBackup.Backup.DryScan
