import CloudBackup.Backup.Dereference

/-!
The disk as a finite graph: directories with their entries, links with what they finally lead
to, and files. The calls of `scan` go through it by the names of a path and follow the links on
the way, however many there are.

Directories are a tree, so without `dereference` every scan comes to an end. With it a
directory may lead back to itself through links; then only the exclusions can end the scan.
-/

namespace CloudBackup.Backup

open Database Descent UnixPath
open Relation (TransGen ReflTransGen)

/-! ### The graph -/

/-- What lies in a place: a directory with its entries, unless it cannot be listed; a link with
the place that it leads to in the end, if there is one; or something else. -/
inductive FileNode (ν : Type)
  | directory (entries : Option (List (Str × ν)))
  | link (destination : Option ν)
  | other

def Lists {ν : Type} (node : ν → FileNode ν) (d e : ν) : Prop :=
  (∃ entries, node d = .directory (some entries) ∧ ∃ name, (name, e) ∈ entries) ∧
    ∃ entries, node e = .directory entries

/-- A file system on the places of `ν`, with the properties of each of them, unless they cannot
be read. No directory is an entry of itself or of what is below it. -/
structure FileSystem (ν : Type) where
  node : ν → FileNode ν
  properties : ν → Option OnDisk
  top : ν
  isName : ∀ d entries, node d = .directory (some entries) → ∀ x ∈ entries, IsName x.1
  typed : ∀ x stat, properties x = some stat → (stat.fileType = .dir ↔ ∃ entries, node x = .directory entries)
  resolved : ∀ x y, node x = .link (some y) → ∀ destination, node y ≠ .link destination
  tree : ∀ d, ¬ TransGen (Lists node) d d

section

variable {ν : Type} (fs : FileSystem ν)

def FileSystem.entriesOf (d : ν) : Option (List (Str × ν)) :=
  match fs.node d with
  | .directory entries => entries
  | _ => none

def FileSystem.entry (d : ν) (name : Str) : Option ν :=
  (fs.entriesOf d).bind fun entries => (entries.find? fun x => x.1 = name).map Prod.snd

def FileSystem.follow (x : ν) : Option ν :=
  match fs.node x with
  | .link destination => destination
  | _ => some x

def FileSystem.locate (names : Names) : Option ν :=
  names.foldl (fun x name => (x.bind fs.follow).bind fun d => fs.entry d name) (some fs.top)

/-- The calls of `scan`. Neither the length of a path nor the links on it are bounded. -/
def FileSystem.calls : DiskCalls where
  stat path := ((fs.locate (components path)).bind fs.follow).bind fs.properties
  lstat path := (fs.locate (components path)).bind fs.properties
  readDirNames path :=
    ((fs.locate (components path)).bind fs.follow).bind fun d => (fs.entriesOf d).map (List.map Prod.fst)

def FileSystem.IsDirectory (d : ν) : Prop := ∃ stat, fs.properties d = some stat ∧ stat.fileType = .dir

def FileSystem.examined (dereference : Bool) (x : ν) : Option ν := if dereference then fs.follow x else some x

/-- The directory has an entry at which the other one is examined. -/
def FileSystem.Leads (dereference : Bool) (d e : ν) : Prop :=
  (∃ name x, fs.entry d name = some x ∧ fs.examined dereference x = some e) ∧ fs.IsDirectory e

/-- The path is that of a directory, maybe through links. -/
structure FileSystem.At (path : Str) (d : ν) : Prop where
  clean : IsClean path
  located : (fs.locate (components path)).bind fs.follow = some d
  isDirectory : fs.IsDirectory d

/-- From the directory with the path one leads to another that leads back to itself. -/
def FileSystem.ComesBack (dereference : Bool) (path : Str) : Prop :=
  ∃ d e, fs.At path d ∧ ReflTransGen (fs.Leads dereference) d e ∧ TransGen (fs.Leads dereference) e e

end

section

variable {ν : Type} {fs : FileSystem ν} {dereference : Bool} {passes : Str → Bool} {path name : Str} {d e x : ν}

theorem FileSystem.examine_eq (dereference : Bool) (path : Str) : fs.calls.examine dereference path =
    ((fs.locate (components path)).bind (fs.examined dereference)).bind fs.properties := by
  cases dereference with
  | true => rfl
  | false =>
      have hexamined : fs.examined false = some := rfl
      rw [hexamined, Option.bind_fun_some]
      rfl

theorem FileSystem.IsDirectory.node (h : fs.IsDirectory d) : ∃ entries, fs.node d = .directory entries := by
  obtain ⟨stat, hstat, hdir⟩ := h
  exact (fs.typed d stat hstat).mp hdir

theorem FileSystem.IsDirectory.follow (h : fs.IsDirectory d) : fs.follow d = some d := by
  obtain ⟨entries, hnode⟩ := h.node
  rw [FileSystem.follow, hnode]

/-- What is examined as a directory is where the place leads to. -/
theorem FileSystem.follow_of_examined (h : fs.examined dereference x = some e) (he : fs.IsDirectory e) :
    fs.follow x = some e := by
  cases dereference with
  | true => exact h
  | false =>
      obtain rfl : x = e := Option.some.inj h
      exact he.follow

theorem FileSystem.locate_join (hpath : fs.At path d) (hname : IsName name) :
    fs.locate (components (join path name)) = fs.entry d name := by
  have hlocated := hpath.located
  rw [(hpath.clean.join_name hname).2, FileSystem.locate, List.foldl_append]
  rw [FileSystem.locate] at hlocated
  rw [List.foldl_cons, List.foldl_nil, hlocated, Option.bind_some]

/-- A path that is examined as a directory leads to one. -/
theorem FileSystem.at_of_examine {stat : OnDisk} (hclean : IsClean path)
    (hexamine : fs.calls.examine dereference path = some stat) (hdir : stat.fileType = .dir) : ∃ d, fs.At path d := by
  rw [FileSystem.examine_eq, Option.bind_eq_some_iff] at hexamine
  obtain ⟨e, he, hstat⟩ := hexamine
  obtain ⟨x, hx, hexamined⟩ := Option.bind_eq_some_iff.mp he
  have hdirectory : fs.IsDirectory e := ⟨stat, hstat, hdir⟩
  refine ⟨e, hclean, ?_, hdirectory⟩
  rw [hx, Option.bind_some, FileSystem.follow_of_examined hexamined hdirectory]

theorem FileSystem.At.unique (h : fs.At path d) (h' : fs.At path e) : d = e :=
  Option.some.inj (h.located.symm.trans h'.located)

theorem FileSystem.At.child (h : fs.At path d) (hname : IsName name) {stat : OnDisk}
    (hexamine : fs.calls.examine dereference (join path name) = some stat) (hdir : stat.fileType = .dir) :
    ∃ e, fs.Leads dereference d e ∧ fs.At (join path name) e := by
  have hclean := (h.clean.join_name hname).1
  obtain ⟨e, he⟩ := FileSystem.at_of_examine hclean hexamine hdir
  rw [FileSystem.examine_eq, FileSystem.locate_join h hname, Option.bind_eq_some_iff] at hexamine
  obtain ⟨e', he', hstat⟩ := hexamine
  obtain ⟨x, hx, hexamined⟩ := Option.bind_eq_some_iff.mp he'
  have hdirectory : fs.IsDirectory e' := ⟨stat, hstat, hdir⟩
  refine ⟨e', ⟨⟨name, x, hx, hexamined⟩, hdirectory⟩, hclean, ?_, hdirectory⟩
  rw [FileSystem.locate_join h hname, hx, Option.bind_some, FileSystem.follow_of_examined hexamined hdirectory]

theorem FileSystem.At.exists_child (h : fs.At path d) (hleads : fs.Leads dereference d e) :
    ∃ name stat, name ∈ fs.calls.namesIn path ∧ fs.At (join path name) e ∧ stat.fileType = .dir ∧
      fs.calls.examine dereference (join path name) = some stat := by
  obtain ⟨⟨name, x, hentry, hexamined⟩, hdirectory⟩ := hleads
  obtain ⟨stat, hstat, hdir⟩ := id hdirectory
  obtain ⟨entries, hentries, hfind⟩ := Option.bind_eq_some_iff.mp hentry
  obtain ⟨found, hfound, -⟩ := Option.map_eq_some_iff.mp hfind
  have hfoundName : found.1 = name := by simpa using List.find?_some hfound
  have hmem : found ∈ entries := List.mem_of_find?_eq_some hfound
  have hnode : fs.node d = .directory (some entries) := by
    obtain ⟨entries', hnode⟩ := h.isDirectory.node
    rw [FileSystem.entriesOf, hnode] at hentries
    rw [hnode, ← hentries]
  have hname : IsName name := hfoundName ▸ fs.isName d entries hnode found hmem
  have hlocate := FileSystem.locate_join h hname
  refine ⟨name, stat, ?_, ⟨(h.clean.join_name hname).1, ?_, hdirectory⟩, hdir, ?_⟩
  · have hread : fs.calls.readDirNames path = some (entries.map Prod.fst) := by
      simp only [FileSystem.calls, h.located, Option.bind_some, hentries, Option.map_some]
    rw [DiskCalls.namesIn, hread, Option.getD_some, List.mem_map]
    exact ⟨found, hmem, hfoundName⟩
  · rw [hlocate, hentry, Option.bind_some, FileSystem.follow_of_examined hexamined hdirectory]
  · rw [FileSystem.examine_eq, hlocate, hentry, Option.bind_some, hexamined, Option.bind_some, hstat]

theorem FileSystem.At.isName (h : fs.At path d) (hname : name ∈ fs.calls.namesIn path) : IsName name := by
  have hread : fs.calls.readDirNames path = (fs.entriesOf d).map (List.map Prod.fst) := by
    simp only [FileSystem.calls, h.located, Option.bind_some]
  obtain ⟨entries, hnode⟩ := h.isDirectory.node
  rw [DiskCalls.namesIn, hread, FileSystem.entriesOf, hnode] at hname
  cases entries with
  | none => cases hname
  | some entries =>
      obtain ⟨found, hfound, rfl⟩ := List.mem_map.mp hname
      exact fs.isName d entries hnode found hfound

/-! ### Chains -/

/-- A step of a chain of sights is a step of the graph. -/
theorem FileSystem.At.step {x y : Sight} (h : fs.At x.path d) (hy : y ∈ sightsBelow dereference fs.calls passes x)
    (hdirectory : ∃ stat, y.found = some stat ∧ stat.fileType = .dir) :
    ∃ e, fs.Leads dereference d e ∧ fs.At y.path e := by
  obtain ⟨-, name, hname, rfl⟩ := mem_sightsBelow.mp hy
  obtain ⟨stat, hfound, hdir⟩ := hdirectory
  simp only [sightAt] at hfound
  split at hfound
  · exact h.child (h.isName hname) hfound hdir
  · cases hfound

/-- An endless chain of sights is one of the graph. -/
theorem FileSystem.At.chain {f : ℕ → Sight} (h : fs.At (f 0).path d)
    (hchain : ∀ i, f (i + 1) ∈ sightsBelow dereference fs.calls passes (f i)) :
    ∃ g : ℕ → ν, g 0 = d ∧ ∀ i, fs.Leads dereference (g i) (g (i + 1)) := by
  have hstep : ∀ i d, fs.At (f i).path d → ∃ e, fs.Leads dereference d e ∧ fs.At (f (i + 1)).path e :=
    fun i d hd => hd.step (hchain i) (mem_sightsBelow.mp (hchain (i + 1))).1
  have hat : ∀ i, ∃ d, fs.At (f i).path d := by
    intro i
    induction i with
    | zero => exact ⟨d, h⟩
    | succ i ih =>
        obtain ⟨d, hd⟩ := ih
        obtain ⟨e, -, he⟩ := hstep i d hd
        exact ⟨e, he⟩
  choose g hg using hat
  refine ⟨g, (hg 0).unique h, fun i => ?_⟩
  obtain ⟨e, hleads, he⟩ := hstep i (g i) (hg i)
  rwa [(hg (i + 1)).unique he]

theorem not_endless_of_not_comesBack [Finite ν] (h : ¬ fs.ComesBack dereference path) {stat : OnDisk}
    (hpath : IsClean path) (hexamine : fs.calls.examine dereference path = some stat) (hdir : stat.fileType = .dir) :
    ¬ Endless (sightsBelow dereference fs.calls passes) ⟨path, some stat⟩ := by
  rintro ⟨f, hstart, hchain⟩
  obtain ⟨d, hd⟩ := FileSystem.at_of_examine hpath hexamine hdir
  have hat : fs.At (f 0).path d := by rwa [hstart]
  obtain ⟨g, rfl, hleads⟩ := hat.chain hchain
  obtain ⟨i, hback⟩ := returns_of_chain hleads
  have hreach : ReflTransGen (fs.Leads dereference) (g 0) (g i) :=
    Nat.rel_of_forall_rel_succ_of_le (ReflTransGen (fs.Leads dereference)) (fun j => .single (hleads j)) (Nat.zero_le i)
  exact h ⟨g 0, g i, hd, hreach, hback⟩

/-- Without links to follow, a step goes from a directory to one of its entries. -/
theorem FileSystem.Leads.lists (h : fs.Leads false d e) : Lists fs.node d e := by
  obtain ⟨⟨name, x, hentry, hexamined⟩, hdirectory⟩ := h
  obtain rfl : x = e := Option.some.inj hexamined
  refine ⟨?_, hdirectory.node⟩
  obtain ⟨entries, hentries, hfind⟩ := Option.bind_eq_some_iff.mp hentry
  obtain ⟨found, hfound, rfl⟩ := Option.map_eq_some_iff.mp hfind
  refine ⟨entries, ?_, found.1, List.mem_of_find?_eq_some hfound⟩
  rw [FileSystem.entriesOf] at hentries
  split at hentries
  · rename_i hnode
    rw [hnode, hentries]
  · cases hentries

theorem not_comesBack_of_tree : ¬ fs.ComesBack false path := by
  rintro ⟨d, e, -, -, hback⟩
  exact fs.tree e (TransGen.mono (fun _ _ h => FileSystem.Leads.lists h) _ _ hback)

/-- Where no exclusion stops it, a chain goes round for ever. -/
theorem not_ends_of_comesBack (hpasses : ∀ path, passes path = true) {stat : OnDisk} (hdir : stat.fileType = .dir)
    (h : fs.ComesBack dereference path) (levels : ℕ) :
    ¬ Ends (sightsBelow dereference fs.calls passes) levels ⟨path, some stat⟩ := by
  obtain ⟨d, e, hat, hreach, hback⟩ := h
  induction levels generalizing path stat d e with
  | zero => exact id
  | succ levels ih =>
      -- from every directory that leads to such a one a step leads to another
      obtain ⟨d', e', hleads, hreach', hback'⟩ : ∃ d' e', fs.Leads dereference d d' ∧
          ReflTransGen (fs.Leads dereference) d' e' ∧ TransGen (fs.Leads dereference) e' e' := by
        rcases hreach.cases_head with rfl | ⟨d', hleads, hrest⟩
        · obtain ⟨d', hleads, hrest⟩ := TransGen.head'_iff.mp hback
          exact ⟨d', d, hleads, hrest, hback⟩
        · exact ⟨d', e, hleads, hrest, hback⟩
      obtain ⟨name, stat', hname, hat', hdir', hexamine⟩ := hat.exists_child hleads
      intro hends
      rw [Ends, sightsBelow_dir hdir, List.forall_mem_map] at hends
      have hsight : sightAt dereference fs.calls passes (join path name) = ⟨join path name, some stat'⟩ := by
        rw [sightAt, hpasses, if_pos rfl, hexamine]
      have hchild := hends name hname
      rw [hsight] at hchild
      exact ih hdir' d' e' hat' hreach' hback' hchild

end

/-! ### Scans of finite file systems -/

section

variable {ν : Type} [Finite ν] {fs : FileSystem ν} {C : ObjectStore.Cloud} {pathMatch : Str → Str → Option Bool}
  {cfg : ConfigBackup} {dereference dryRun : Bool} {jobUuid path : Str} {stat : OnDisk}

/-- On a finite file system `walk` returns if links are not followed. If they are, it returns
exactly if no endless chain of directories begins where it starts: there is none if no directory
leads back to itself, and if nothing is excluded there is one otherwise. -/
theorem walk_finite_returns (hpath : IsClean path) (hexamine : fs.calls.examine dereference path = some stat)
    (hdir : stat.fileType = .dir) :
    (dereference = false → WalkReturns C pathMatch cfg dereference dryRun fs.calls jobUuid path stat) ∧
    (WalkReturns C pathMatch cfg dereference dryRun fs.calls jobUuid path stat ↔
      ¬ Endless (sightsBelow dereference fs.calls (notExcluded pathMatch cfg)) ⟨path, some stat⟩) ∧
    (¬ fs.ComesBack dereference path →
      WalkReturns C pathMatch cfg dereference dryRun fs.calls jobUuid path stat) ∧
    (cfg.exclusions = [] → fs.ComesBack dereference path →
      ¬ WalkReturns C pathMatch cfg dereference dryRun fs.calls jobUuid path stat) := by
  have hreturns : ¬ fs.ComesBack dereference path →
      WalkReturns C pathMatch cfg dereference dryRun fs.calls jobUuid path stat := fun h =>
    (walkReturns_iff hdir).mpr (not_endless_of_not_comesBack h hpath hexamine hdir)
  refine ⟨?_, walkReturns_iff hdir, hreturns, ?_⟩
  · rintro rfl
    exact hreturns not_comesBack_of_tree
  · intro hexclusions hback hwalk
    have hpasses : ∀ path, notExcluded pathMatch cfg path = true := by
      intro path
      rw [notExcluded, hexclusions]
      rfl
    obtain ⟨levels, hends⟩ := ends_iff.mpr ((walkReturns_iff hdir).mp hwalk)
    exact not_ends_of_comesBack hpasses hdir hback levels hends

end

/-! ### A link to its own directory -/

def selfLinkNode (x : Bool) : FileNode Bool := if x then .directory (some [("l".toList, false)]) else .link (some true)

def directoryOnDisk : OnDisk := ⟨.dir, 0, 0, none, some 0, [], [], none, none, none⟩

def linkOnDisk : OnDisk := { directoryOnDisk with fileType := .symlink }

theorem not_lists_selfLink (d e : Bool) : ¬ Lists selfLinkNode d e := by
  rintro ⟨⟨entries, hnode, name, hmem⟩, entries', hnode'⟩
  cases d with
  | false => cases hnode
  | true =>
      obtain rfl := Option.some.inj (FileNode.directory.inj hnode)
      obtain ⟨-, rfl⟩ : name = ['l'] ∧ e = false := by simpa using hmem
      cases hnode'

def selfLink : FileSystem Bool where
  node := selfLinkNode
  properties x := some (if x then directoryOnDisk else linkOnDisk)
  top := true
  isName d entries h := by
    cases d with
    | false => cases h
    | true =>
        obtain rfl := Option.some.inj (FileNode.directory.inj h)
        decide
  typed x stat h := by
    obtain rfl := Option.some.inj h
    cases x with
    | false => exact iff_of_false (by decide) (by rintro ⟨entries, h⟩; cases h)
    | true => exact iff_of_true rfl ⟨_, rfl⟩
  resolved x y h := by
    cases x with
    | true => cases h
    | false =>
        obtain rfl := Option.some.inj (FileNode.link.inj h)
        exact nofun
  tree d h := by
    obtain ⟨e, hlists, -⟩ := TransGen.head'_iff.mp h
    exact not_lists_selfLink d e hlists

theorem walk_finite_returns_selfLink :
    WalkReturns ObjectStore.plainCloud (fun _ _ => some false) plainConfig false true selfLink.calls [] ['/']
      directoryOnDisk :=
  (walk_finite_returns (by decide) rfl rfl).1 rfl

theorem selfLink_comesBack : selfLink.ComesBack true ['/'] := by
  have hdirectory : selfLink.IsDirectory true := ⟨directoryOnDisk, rfl, rfl⟩
  have hleads : selfLink.Leads true true true := ⟨⟨"l".toList, false, by decide, rfl⟩, hdirectory⟩
  exact ⟨true, true, ⟨by decide, by decide, hdirectory⟩, .refl, .single hleads⟩

/-- A directory with a link to itself: nothing is excluded and links are followed. -/
theorem walk_selfLink_not_returns :
    ¬ WalkReturns ObjectStore.plainCloud (fun _ _ => some false) plainConfig true true selfLink.calls [] ['/']
      directoryOnDisk := by
  intro hreturns
  obtain ⟨levels, hends⟩ := ends_iff.mpr ((walkReturns_iff rfl).mp hreturns)
  exact not_ends_of_comesBack (fun _ => rfl) rfl selfLink_comesBack levels hends

end CloudBackup.Backup
