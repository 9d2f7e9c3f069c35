import CloudBackup.Backup.Item
import CloudBackup.Library.TreeWalk
import CloudBackup.Library.UnixPath

/-!
Package `scan`, and the disk that it reads.

`walk` descends into a directory and hands everything that it comes to to `Do`. What
it comes to does not depend on what `Do` makes of it, so it can be told from the disk
and the exclusions alone: `walk_eq` takes the recursion apart into the list of what
is met on the way, and one pass for each of it.
-/

namespace CloudBackup.Backup

open Database ObjectStore Iteration TreeWalk UnixPath

/-! ### The disk -/

/-- The disk as a run finds it: `os.Stat`, `os.Lstat` and `readDirNames`, with `none`
if the call fails. A directory has no name twice, and a path that is too long is
refused. -/
structure Volume where
  stat : Str → Option OnDisk
  lstat : Str → Option OnDisk
  readDirNames : Str → Option (List Str)
  pathMax : ℕ
  isName : ∀ dir names, readDirNames dir = some names → ∀ n ∈ names, IsName n
  nodup : ∀ dir names, readDirNames dir = some names → names.Nodup
  tooLong : ∀ path, pathMax ≤ path.length → stat path = none ∧ lstat path = none

/-- The properties of an item; `Dereference` decides if a link is followed. -/
def Volume.examine (v : Volume) (dereference : Bool) (path : Str) : Option OnDisk :=
  if dereference then v.stat path else v.lstat path

/-- The names in a directory. `walk` goes on with none if it cannot be read. -/
def Volume.namesIn (v : Volume) (dir : Str) : List Str := (v.readDirNames dir).getD []

/-- `IsPathExcluded` with its error, which `walk` looks at: `none` for a bad pattern. -/
def isPathExcludedOrErr (pathMatch : Str → Str → Option Bool) (exclusions : List Str) (path : Str) :
    Option Bool :=
  match exclusions with
  | [] => some false
  | excludedPath :: rest =>
      match pathMatch excludedPath path with
      | none => none
      | some true => some true
      | some false => isPathExcludedOrErr pathMatch rest path

/-! ### The scan -/

structure TopItem where
  jobId : Str
  path : Str
  type : FileType
  deriving DecidableEq, Repr

def topItemsInsert (rows : List TopItem) (row : TopItem) : Option (List TopItem) :=
  if rows.any (fun t => decide (t.jobId = row.jobId) && decide (t.path = row.path)) then none
  else some (rows ++ [row])

/-- The state of a run; `turn` counts the calls of `Do`. -/
structure Scanning where
  world : World
  topItems : List TopItem
  turn : ℕ

inductive ScanErr
  | examine
  | statement
  /-- The primary key of `top_items`. -/
  | primaryKey
  deriving DecidableEq, Repr

inductive ScanHalt
  | cancelled
  | error (e : ScanErr)
  deriving DecidableEq, Repr

/-- What happens outside of the program during a run: if the context is done when a
path is selected, if the statement for a top level path succeeds, and the
surroundings of each call of `Do`. -/
structure Surroundings where
  ctxDone : ℕ → Str → Bool
  topItemsOk : ℕ → Bool
  item : ℕ → Item

section Scan

variable (C : Cloud) (pathMatch : Str → Str → Option Bool) (cfg : ConfigBackup)
  (dereference dryRun : Bool) (v : Volume) (jobUuid : Str) (env : Surroundings)

def backupItem (path : Str) (stat : OnDisk) (s : Scanning) : Flow Scanning ScanHalt :=
  if dryRun then .next s
  else
    let r := walkItem C cfg jobUuid { env.item s.turn with path := path, disk := stat } s.world
    let s : Scanning := { s with world := r.world, turn := s.turn + 1 }
    if r.cancelled then .stop .cancelled s else .next s

/-- A pass of the loop of `walk` over the names in a directory. A directory is left to
the call of `walk` for it. -/
def walkChild (descend : Str → OnDisk → Scanning → Flow Scanning ScanHalt) (childPath : Str)
    (s : Scanning) : Flow Scanning ScanHalt :=
  if env.ctxDone s.turn childPath then .stop .cancelled s
  else
    match isPathExcludedOrErr pathMatch cfg.exclusions childPath with
    | none => .next s
    | some true => .next s
    | some false =>
        match v.examine dereference childPath with
        | none => .next s
        | some fileInfo =>
            if fileInfo.fileType = .dir then descend childPath fileInfo s
            else backupItem C cfg dryRun jobUuid env childPath fileInfo s

def walk : ℕ → Str → OnDisk → Scanning → Flow Scanning ScanHalt
  | 0, path, stat, s => backupItem C cfg dryRun jobUuid env path stat s
  | depth + 1, path, stat, s =>
      (backupItem C cfg dryRun jobUuid env path stat s).andThen <|
        forEach (fun name =>
          walkChild C pathMatch cfg dereference dryRun v jobUuid env (walk depth) (join path name))
          (v.namesIn path)

def addTopLevelJobPath (path : Str) (type : FileType) (s : Scanning) : Except ScanErr Scanning :=
  if !env.topItemsOk s.turn then .error .statement
  else
    match topItemsInsert s.topItems ⟨jobUuid, path, type⟩ with
    | none => .error .primaryKey
    | some rows => .ok { s with topItems := rows }

/-- `Path`. -/
def scanPath (path : Str) (s : Scanning) : Flow Scanning ScanHalt :=
  match v.examine dereference path with
  | none => .stop (.error .examine) s
  | some stat =>
      if env.ctxDone s.turn path then .stop .cancelled s
      else
        match if dryRun then .ok s else addTopLevelJobPath jobUuid env path stat.fileType s with
        | .error e => .stop (.error e) s
        | .ok s =>
            if stat.fileType = .dir then
              walk C pathMatch cfg dereference dryRun v jobUuid env v.pathMax path stat s
            else backupItem C cfg dryRun jobUuid env path stat s

end Scan

/-! ### What a scan meets -/

/-- A path that a scan comes to, with what was found there. There is nothing if the
path is passed over. -/
structure Sight where
  path : Str
  found : Option OnDisk

def handed (l : List Sight) : List Str := (l.filter (·.found.isSome)).map Sight.path

section Sights

variable (v : Volume) (dereference : Bool) (passes : Str → Bool)

def sight (path : Str) : Sight := ⟨path, if passes path then v.examine dereference path else none⟩

def sightsIn (x : Sight) : List Sight :=
  if x.found.any (·.fileType = .dir) then
    (v.namesIn x.path).map fun name => sight v dereference passes (join x.path name)
  else []

/-- A scan that starts at the root comes to the path, and something is found there. -/
def Scans (root path : Str) : Prop :=
  ∃ stat stat', v.examine dereference root = some stat ∧
    Descends (sightsIn v dereference passes) ⟨root, some stat⟩ ⟨path, some stat'⟩

def sights (root : Str) : List Sight :=
  match v.examine dereference root with
  | none => []
  | some stat => ⟨root, some stat⟩ :: below (sightsIn v dereference passes) v.pathMax ⟨root, some stat⟩

/-- The paths that a scan hands to `Do`. -/
def scanned (root : Str) : List Str := handed (sights v dereference passes root)

end Sights

def notExcluded (pathMatch : Str → Str → Option Bool) (cfg : ConfigBackup) (path : Str) : Bool :=
  decide (isPathExcludedOrErr pathMatch cfg.exclusions path = some false)

section

variable {C : Cloud} {pathMatch : Str → Str → Option Bool} {cfg : ConfigBackup}
  {dereference dryRun : Bool} {v : Volume} {jobUuid : Str} {env : Surroundings}

def meet (C : Cloud) (cfg : ConfigBackup) (dryRun : Bool) (jobUuid : Str) (env : Surroundings) (x : Sight)
    (s : Scanning) : Flow Scanning ScanHalt :=
  if env.ctxDone s.turn x.path then .stop .cancelled s
  else
    match x.found with
    | none => .next s
    | some stat => backupItem C cfg dryRun jobUuid env x.path stat s

/-- The loop over what is met from a path on is a pass of the loop over the names. -/
theorem walkChild_eq {descend : Str → OnDisk → Scanning → Flow Scanning ScanHalt}
    {rest : Sight → List Sight} (hrest : ∀ x : Sight, x.found.any (·.fileType = .dir) = false → rest x = [])
    (hdescend : ∀ path stat, stat.fileType = .dir → ∀ s, descend path stat s =
      (backupItem C cfg dryRun jobUuid env path stat s).andThen
        (forEach (meet C cfg dryRun jobUuid env) (rest ⟨path, some stat⟩)))
    (path : Str) (s : Scanning) :
    walkChild C pathMatch cfg dereference dryRun v jobUuid env descend path s =
      forEach (meet C cfg dryRun jobUuid env)
        (sight v dereference (notExcluded pathMatch cfg) path ::
          rest (sight v dereference (notExcluded pathMatch cfg) path)) s := by
  have hpassed : forEach (meet C cfg dryRun jobUuid env) (⟨path, none⟩ :: rest ⟨path, none⟩) s =
      if env.ctxDone s.turn path then .stop .cancelled s else .next s := by
    rw [hrest ⟨path, none⟩ rfl, forEach_singleton, meet]
  by_cases hexcluded : isPathExcludedOrErr pathMatch cfg.exclusions path = some false
  · have hpasses : notExcluded pathMatch cfg path = true := decide_eq_true hexcluded
    rw [sight, if_pos hpasses, walkChild, hexcluded]
    cases hfound : v.examine dereference path with
    | none => exact hpassed.symm
    | some stat =>
        rw [forEach_cons, meet]
        by_cases hdone : env.ctxDone s.turn path
        · simp [hdone]
        · by_cases hdir : stat.fileType = .dir
          · simp [hdone, hdir, hdescend path stat hdir]
          · have hleaf : rest ⟨path, some stat⟩ = [] := hrest _ (by simpa using hdir)
            simp only [hdone, hdir, hleaf, Bool.false_eq_true, if_false]
            cases backupItem C cfg dryRun jobUuid env path stat s <;> rfl
  · rw [sight, if_neg (by simpa [notExcluded] using hexcluded), hpassed, walkChild]
    cases hmatch : isPathExcludedOrErr pathMatch cfg.exclusions path with
    | none => rfl
    | some excluded =>
        cases excluded with
        | true => rfl
        | false => exact absurd hmatch hexcluded

theorem below_of_not_dir {passes : Str → Bool} {x : Sight} (h : x.found.any (·.fileType = .dir) = false)
    (depth : ℕ) : below (sightsIn v dereference passes) depth x = [] := by
  cases depth with
  | zero => rfl
  | succ depth => rw [below, sightsIn, h, if_neg Bool.false_ne_true, List.flatMap_nil]

/-- The recursion of `walk` is a loop over what it meets. -/
theorem walk_eq (depth : ℕ) (path : Str) (stat : OnDisk) (hdir : stat.fileType = .dir) (s : Scanning) :
    walk C pathMatch cfg dereference dryRun v jobUuid env depth path stat s =
      (backupItem C cfg dryRun jobUuid env path stat s).andThen
        (forEach (meet C cfg dryRun jobUuid env)
          (below (sightsIn v dereference (notExcluded pathMatch cfg)) depth ⟨path, some stat⟩)) := by
  induction depth generalizing path stat s with
  | zero =>
      rw [walk, below]
      cases backupItem C cfg dryRun jobUuid env path stat s <;> rfl
  | succ depth ih =>
      rw [walk, below]
      congr 1
      funext t
      rw [forEach_flatMap, sightsIn, if_pos (by simpa using hdir), forEach_map]
      congr 1
      funext name u
      exact walkChild_eq (fun x hx => below_of_not_dir hx depth) ih (join path name) u

end

/-! ### The tree of what is met -/

section

variable {v : Volume} {dereference : Bool} {passes : Str → Bool} {root : Str} {x y : Sight}

theorem found_dir_iff :
    x.found.any (·.fileType = .dir) = true ↔ ∃ stat, x.found = some stat ∧ stat.fileType = .dir := by
  simp [Option.any_eq_true]

theorem mem_sightsIn : y ∈ sightsIn v dereference passes x ↔
    (∃ stat, x.found = some stat ∧ stat.fileType = .dir) ∧
      ∃ name ∈ v.namesIn x.path, y = sight v dereference passes (join x.path name) := by
  rw [sightsIn, List.mem_ite_nil_right, found_dir_iff, List.mem_map]
  simp only [eq_comm (b := y)]

theorem Volume.isName_of_mem {dir name : Str} (h : name ∈ v.namesIn dir) : IsName name := by
  unfold Volume.namesIn at h
  cases hread : v.readDirNames dir with
  | none => simp [hread] at h
  | some names =>
      rw [hread] at h
      exact v.isName dir names hread name h

theorem Volume.nodup_namesIn (dir : Str) : (v.namesIn dir).Nodup := by
  unfold Volume.namesIn
  cases hread : v.readDirNames dir with
  | none => exact List.nodup_nil
  | some names => exact v.nodup dir names hread

theorem Volume.length_lt {path : Str} {stat : OnDisk} (h : v.examine dereference path = some stat) :
    path.length < v.pathMax := by
  by_contra hlong
  obtain ⟨hstat, hlstat⟩ := v.tooLong path (Nat.le_of_not_lt hlong)
  unfold Volume.examine at h
  split at h
  · rw [hstat] at h
    cases h
  · rw [hlstat] at h
    cases h

structure Met (v : Volume) (dereference : Bool) (x : Sight) : Prop where
  clean : IsClean x.path
  examined : ∀ stat, x.found = some stat → v.examine dereference x.path = some stat

theorem Met.sight (h : Met v dereference x) (hy : y ∈ sightsIn v dereference passes x) :
    Met v dereference y := by
  obtain ⟨-, name, hname, rfl⟩ := mem_sightsIn.mp hy
  refine ⟨(h.clean.join_name (v.isName_of_mem hname)).1, ?_⟩
  intro stat hstat
  rw [Backup.sight] at hstat
  dsimp only at hstat
  split at hstat
  · exact hstat
  · cases hstat

theorem Met.descends (h : Met v dereference x) (hd : Descends (sightsIn v dereference passes) x y) :
    Met v dereference y := by
  induction hd with
  | refl => exact h
  | tail _ hbc ih => exact ih.sight hbc

/-- The tree that a scan goes through, with the names on the way as addresses. -/
theorem addressed (h : Met v dereference x) :
    Addressed (sightsIn v dereference passes) (fun x => components x.path) v.pathMax x where
  child a ha b hb := by
    obtain ⟨-, name, hname, rfl⟩ := mem_sightsIn.mp hb
    exact ⟨name, ((h.descends ha).clean.join_name (v.isName_of_mem hname)).2⟩
  nodup a ha := by
    have hclean := (h.descends ha).clean
    unfold sightsIn
    split
    · rw [List.map_map]
      refine List.Nodup.map_on ?_ (v.nodup_namesIn a.path)
      intro name hname name' hname' heq
      simp only [Function.comp_apply, sight] at heq
      rw [(hclean.join_name (v.isName_of_mem hname)).2, (hclean.join_name (v.isName_of_mem hname')).2] at heq
      simpa using heq
    · exact List.nodup_nil
  depth a ha hdeep := by
    have hmet := h.descends ha
    apply List.eq_nil_iff_forall_not_mem.mpr
    intro b hb
    obtain ⟨⟨stat, hfound, -⟩, -⟩ := mem_sightsIn.mp hb
    have hlt := Volume.length_lt (hmet.examined stat hfound)
    have hle := hmet.clean.length_components_le
    omega

theorem met_root (hroot : IsClean root) {stat : OnDisk} (h : v.examine dereference root = some stat) :
    Met v dereference ⟨root, some stat⟩ :=
  ⟨hroot, fun stat' heq => by rw [h]; exact heq⟩

theorem mem_scanned (hroot : IsClean root) (path : Str) :
    path ∈ scanned v dereference passes root ↔ Scans v dereference passes root path := by
  unfold scanned sights Scans handed
  cases hexamine : v.examine dereference root with
  | none => simp
  | some stat =>
      have hbelow : ∀ y, y ∈ (⟨root, some stat⟩ : Sight) ::
          below (sightsIn v dereference passes) v.pathMax ⟨root, some stat⟩ ↔
          Descends (sightsIn v dereference passes) ⟨root, some stat⟩ y :=
        fun y => mem_below (addressed (met_root hroot hexamine)) (Nat.le_add_left _ _)
      simp only [List.mem_map, List.mem_filter, hbelow]
      constructor
      · rintro ⟨y, ⟨hy, hsome⟩, rfl⟩
        obtain ⟨stat', hfound⟩ := Option.isSome_iff_exists.mp hsome
        exact ⟨stat, stat', rfl, by rwa [← hfound]⟩
      · rintro ⟨stat₁, stat', hstat, hd⟩
        cases hstat
        exact ⟨_, ⟨hd, rfl⟩, rfl⟩

theorem nodup_scanned (hroot : IsClean root) : (scanned v dereference passes root).Nodup := by
  unfold scanned sights handed
  cases hexamine : v.examine dereference root with
  | none => exact List.nodup_nil
  | some stat =>
      have htree : Addressed (sightsIn v dereference passes) (fun x => components x.path) v.pathMax
          ⟨root, some stat⟩ := addressed (met_root hroot hexamine)
      have hnodup := nodup_below htree v.pathMax
      rw [← Function.comp_def, ← List.map_map] at hnodup
      exact (hnodup.of_map _).sublist (List.filter_sublist.map _)

/-! ### Paths on the way -/

theorem Scans.clean (hroot : IsClean root) {path : Str} (h : Scans v dereference passes root path) :
    IsClean path := by
  obtain ⟨stat, stat', hexamine, hd⟩ := h
  exact ((met_root hroot hexamine).descends hd).clean

theorem Scans.examined (hroot : IsClean root) {path : Str} (h : Scans v dereference passes root path) :
    ∃ stat, v.examine dereference path = some stat := by
  obtain ⟨stat, stat', hexamine, hd⟩ := h
  exact ⟨stat', ((met_root hroot hexamine).descends hd).examined stat' rfl⟩

theorem Scans.starts (hroot : IsClean root) {path : Str} (h : Scans v dereference passes root path) :
    components root <+: components path := by
  obtain ⟨stat, stat', hexamine, hd⟩ := h
  have hstarts := (addressed (met_root hroot hexamine)).starts hd
  exact hstarts

theorem scans_self {stat : OnDisk} (h : v.examine dereference root = some stat) :
    Scans v dereference passes root root :=
  ⟨stat, stat, h, .refl _⟩

theorem Scans.child {dir name : Str} {stat stat' : OnDisk} (hroot : IsClean root)
    (h : Scans v dereference passes root dir) (hdir : v.examine dereference dir = some stat)
    (htype : stat.fileType = .dir) (hname : name ∈ v.namesIn dir) (hpasses : passes (join dir name) = true)
    (hfound : v.examine dereference (join dir name) = some stat') :
    Scans v dereference passes root (join dir name) := by
  obtain ⟨stat₀, stat₁, hexamine, hd⟩ := h
  have hdir' := ((met_root hroot hexamine).descends hd).examined stat₁ rfl
  obtain rfl : stat₁ = stat := Option.some.inj (hdir'.symm.trans hdir)
  refine ⟨stat₀, stat', hexamine, hd.trans (.of_child ?_)⟩
  refine mem_sightsIn.mpr ⟨⟨stat₁, rfl, htype⟩, name, hname, ?_⟩
  rw [sight, if_pos hpasses, hfound]

theorem found_of_descends {stat : OnDisk} (h : Descends (sightsIn v dereference passes) x y)
    (hy : y.found = some stat) : ∃ stat', x.found = some stat' := by
  rcases descends_iff.mp h with rfl | ⟨c, hc, -⟩
  · exact ⟨stat, hy⟩
  · obtain ⟨⟨stat', hfound, -⟩, -⟩ := mem_sightsIn.mp hc
    exact ⟨stat', hfound⟩

/-- A scan that comes to a path has come to everything on the way. -/
theorem Scans.between (hroot : IsClean root) {path q : Str} (h : Scans v dereference passes root path)
    (hq : IsClean q) (habove : components root <+: components q) (hbelow : components q <+: components path) :
    Scans v dereference passes root q ∧ Scans v dereference passes q path := by
  obtain ⟨stat, stat', hexamine, hd⟩ := h
  have hmet := met_root hroot hexamine
  obtain ⟨c, hc, hrootc, hcpath⟩ := (addressed hmet).between hd habove hbelow
  obtain ⟨stat'', hfound⟩ := found_of_descends hcpath rfl
  have hpath : c.path = q := (hmet.descends hrootc).clean.ext hq hc
  have hsight : c = ⟨q, some stat''⟩ := by
    rw [← hpath, ← hfound]
  have hexamine' : v.examine dereference q = some stat'' := by
    rw [← hpath]
    exact (hmet.descends hrootc).examined stat'' hfound
  rw [hsight] at hrootc hcpath
  exact ⟨⟨stat, stat'', hexamine, hrootc⟩, ⟨stat'', stat', hexamine', hcpath⟩⟩

theorem passes_of_found {path : Str} {stat : OnDisk} (h : (sight v dereference passes path).found = some stat) :
    passes path = true := by
  by_contra hnot
  rw [sight, if_neg hnot] at h
  cases h

/-- What is handed to `Do` has passed, unless it is the root. -/
theorem Scans.passed {path : Str} (h : Scans v dereference passes root path) :
    path = root ∨ passes path = true := by
  obtain ⟨stat, stat', -, hd⟩ := h
  rcases hd.cases_tail with heq | ⟨b, -, hb⟩
  · exact .inl (congrArg Sight.path heq)
  · obtain ⟨-, name, -, heq⟩ := mem_sightsIn.mp hb
    right
    have hpath : path = join b.path name := congrArg Sight.path heq
    rw [hpath]
    exact passes_of_found (congrArg Sight.found heq).symm

theorem descends_of_passes {passes' : Str → Bool} {stat : OnDisk}
    (hd : Descends (sightsIn v dereference passes) x y) (hy : y.found = some stat)
    (hpasses : ∀ b, Descends (sightsIn v dereference passes) x b →
      ∀ c ∈ sightsIn v dereference passes b, Descends (sightsIn v dereference passes) c y →
        passes c.path = true → passes' c.path = true) :
    Descends (sightsIn v dereference passes') x y := by
  induction hd using Relation.ReflTransGen.head_induction_on with
  | refl => exact .refl y
  | head hxc hcy ih =>
      rename_i x c
      obtain ⟨stat', hfound⟩ := found_of_descends hcy hy
      have hnext := ih fun b hb => hpasses b ((Descends.of_child hxc).trans hb)
      refine (Descends.of_child ?_).trans hnext
      -- the next step was not passed over, and is not passed over now
      obtain ⟨hdir, name, hname, rfl⟩ := mem_sightsIn.mp hxc
      have hpass : passes (join x.path name) = true := passes_of_found hfound
      have hpass' : passes' (join x.path name) = true := hpasses x (.refl x) _ hxc hcy hpass
      refine mem_sightsIn.mpr ⟨hdir, name, hname, ?_⟩
      rw [sight, sight, if_pos hpass, if_pos hpass']

/-- Without the exclusions a scan comes to all that it comes to with them. -/
theorem Scans.mono {passes' : Str → Bool} (himp : ∀ path, passes path = true → passes' path = true)
    {path : Str} (h : Scans v dereference passes root path) : Scans v dereference passes' root path := by
  obtain ⟨stat, stat', hexamine, hd⟩ := h
  exact ⟨stat, stat', hexamine, descends_of_passes hd rfl fun _ _ c _ _ => himp c.path⟩

/-- A path that is found without the exclusions is found with them, if everything on
the way passes. -/
theorem Scans.of_passes (hroot : IsClean root) {path : Str} (h : Scans v dereference (fun _ => true) root path)
    (hpasses : ∀ q, IsClean q → Below root q → components q <+: components path → passes q = true) :
    Scans v dereference passes root path := by
  obtain ⟨stat, stat', hexamine, hd⟩ := h
  have hmet := met_root hroot hexamine
  refine ⟨stat, stat', hexamine, descends_of_passes hd rfl fun b hb c hc hcpath _ => ?_⟩
  have hrootc := hb.trans (.of_child hc)
  refine hpasses c.path (hmet.descends hrootc).clean ⟨(addressed hmet).starts hrootc, ?_⟩
    ((addressed (hmet.descends hrootc)).starts hcpath)
  obtain ⟨name, hname⟩ := (addressed hmet).child b hb c hc
  have hle := ((addressed hmet).starts hb).length_le
  intro heq
  have hlen := congrArg List.length heq
  rw [hname, List.length_append, List.length_singleton] at hlen
  dsimp only at hle hlen
  omega

end

/-! ### A disk with one file -/

def chainItem (file : Bool) : OnDisk := { smallFile 1 1 with fileType := if file then .file else .dir }

def chainVolume (names : Names) (h : ∀ n ∈ names, IsName n) : Volume :=
  let item : Str → Option OnDisk := fun path =>
    if IsClean path ∧ components path <+: names then some (chainItem (decide (components path = names)))
    else none
  { stat := item
    lstat := item
    readDirNames := fun dir =>
      if components dir <+: names then names[(components dir).length]?.map fun n => [n] else none
    pathMax := (text names).length + 1
    isName := by
      intro dir found hread n hn
      split at hread
      · obtain ⟨m, hm, rfl⟩ := Option.map_eq_some_iff.mp hread
        rw [List.mem_singleton.mp hn]
        exact h m (List.mem_of_getElem? hm)
      · cases hread
    nodup := by
      intro dir found hread
      split at hread
      · obtain ⟨m, hm, rfl⟩ := Option.map_eq_some_iff.mp hread
        exact List.nodup_singleton m
      · cases hread
    tooLong := by
      intro path hlong
      have hnone : ¬ (IsClean path ∧ components path <+: names) := by
        rintro ⟨hclean, hle⟩
        have hlen := length_text_le hle
        rw [← hclean.eq_text] at hlen
        omega
      exact ⟨if_neg hnone, if_neg hnone⟩ }

def deepVolume : Volume := chainVolume ["a".toList, "d".toList, "f".toList] (by decide)

theorem chainVolume_examine {names above : Names} (h : ∀ n ∈ names, IsName n) (dereference : Bool)
    (habove : above <+: names) : (chainVolume names h).examine dereference (text above) =
      some (chainItem (decide (above = names))) := by
  have hnames : ∀ n ∈ above, IsName n := fun n hn => h n (habove.subset hn)
  have hitem : (chainVolume names h).lstat (text above) = some (chainItem (decide (above = names))) := by
    unfold chainVolume
    dsimp only
    rw [components_text hnames, if_pos ⟨isClean_text hnames, habove⟩]
  unfold Volume.examine
  split
  · exact hitem
  · exact hitem

/-- The file of a disk with one file is scanned from the directory above it. -/
theorem scans_chainVolume {dir : Names} {n : Str} (h : ∀ m ∈ dir ++ [n], IsName m) (dereference : Bool)
    {passes : Str → Bool} (hpasses : passes (text (dir ++ [n])) = true) :
    Scans (chainVolume (dir ++ [n]) h) dereference passes (text dir) (text (dir ++ [n])) := by
  have hdir : ∀ m ∈ dir, IsName m := fun m hm => h m (List.mem_append_left _ hm)
  have hlist : n ∈ (chainVolume (dir ++ [n]) h).namesIn (text dir) := by
    unfold Volume.namesIn chainVolume
    dsimp only
    rw [components_text hdir, if_pos (List.prefix_append _ _)]
    simp
  refine ⟨chainItem (decide (dir = dir ++ [n])), chainItem (decide (dir ++ [n] = dir ++ [n])),
    chainVolume_examine h dereference (List.prefix_append _ _), .of_child ?_⟩
  refine mem_sightsIn.mpr ⟨⟨_, rfl, by simp [chainItem]⟩, n, hlist, ?_⟩
  rw [sight, join_name hdir (h n (by simp)), if_pos hpasses,
    chainVolume_examine h dereference (List.prefix_refl _)]

end CloudBackup.Backup
