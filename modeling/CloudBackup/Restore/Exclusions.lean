import CloudBackup.Backup.Agreement
import CloudBackup.Restore.RestoreJob

/-!
Exclusions of a restore. `applyExclusions` looks at the items one by one, and a scan
looks at what it comes to on the way down; a pattern that matches a directory cuts off
what is below it in a scan, and only there.

`StoredTree` is what a backup has stored of a directory, and `StoredTree.volume` a disk
with the same tree. `applyExclusions_scanned_iff` says for which exclusions the two are
the same.
-/

namespace CloudBackup.Restore

open Database ObjectStore Backup UnixPath

/-- `applyExclusions`. A bad pattern is an error, which names the path that it was
tried on. -/
def applyExclusions (pathMatch : Str → Str → Option Bool) (exclusions : List Str) :
    List RemoteFile → Except Str (List RemoteFile)
  | [] => .ok []
  | item :: items =>
      match isPathExcludedOrErr pathMatch exclusions item.localPath with
      | none => .error item.localPath
      | some true => applyExclusions pathMatch exclusions items
      | some false => (applyExclusions pathMatch exclusions items).map (item :: ·)

/-- With good patterns the items are filtered, each one by itself. -/
theorem applyExclusions_eq (m : Str → Str → Bool) (exclusions : List Str) (items : List RemoteFile) :
    applyExclusions (totalMatch m) exclusions items =
      .ok (items.filter (!isPathExcluded (totalMatch m) exclusions ·.localPath)) := by
  induction items with
  | nil => rfl
  | cons item items ih =>
      obtain ⟨excluded, hexcluded⟩ := @isPathExcludedOrErr_totalMatch exclusions item.localPath m
      rw [applyExclusions, hexcluded, ih, List.filter_cons, isPathExcluded_eq, hexcluded]
      cases excluded <;> rfl

theorem applyExclusions_fetchItems (m : Str → Str → Bool) {db : Db} {req : Request} {items : List RemoteFile}
    (hitems : fetchItems db req = .ok items) (exclusions : List Str) :
    applyExclusions (totalMatch m) exclusions items = .ok (selectedItems (totalMatch m) db req exclusions) := by
  rw [← (fetchItems_ok_iff.mp hitems).2]
  exact applyExclusions_eq m exclusions (foundItems db req)

/-! ### A stored tree -/

/-- Items with clean paths, each path once. With an item below the root there is its
directory. -/
structure StoredTree where
  items : List RemoteFile
  root : Str
  clean : ∀ r ∈ items, IsClean r.localPath
  nodup : (items.map RemoteFile.localPath).Nodup
  root_mem : ∃ r ∈ items, r.localPath = root
  closed : ∀ r ∈ items, Below root r.localPath →
    ∃ p ∈ items, p.props.type = .dir ∧ components p.localPath = (components r.localPath).dropLast

namespace StoredTree

variable (t : StoredTree)

def onDisk (path : Str) : Option OnDisk :=
  (t.items.find? (·.localPath = path)).map fun r =>
    ⟨r.props.type, r.props.size, r.props.mtime, none, some r.props.ctime, r.props.owner,
      r.props.permissions, some r.props.linkTarget, some r.props.linkTarget, none⟩

def namesAt (dir : Str) : List Str :=
  (t.items.filterMap fun r =>
    if (components r.localPath).dropLast = components dir then (components r.localPath).getLast?
    else none).dedup

theorem exists_of_onDisk {path : Str} {stat : OnDisk} (h : t.onDisk path = some stat) :
    ∃ r ∈ t.items, r.localPath = path ∧ stat.fileType = r.props.type := by
  obtain ⟨r, hr, rfl⟩ := Option.map_eq_some_iff.mp h
  exact ⟨r, List.mem_of_find?_eq_some hr, by simpa using List.find?_some hr, rfl⟩

theorem onDisk_item {r : RemoteFile} (hr : r ∈ t.items) :
    ∃ stat, t.onDisk r.localPath = some stat ∧ stat.fileType = r.props.type := by
  obtain ⟨s, hs⟩ : ∃ s, t.items.find? (·.localPath = r.localPath) = some s := by
    rw [← Option.isSome_iff_exists, List.find?_isSome]
    exact ⟨r, hr, by simp⟩
  have hpath : s.localPath = r.localPath := by simpa using List.find?_some hs
  obtain rfl : s = r := List.inj_on_of_nodup_map t.nodup (List.mem_of_find?_eq_some hs) hr hpath
  exact ⟨_, by rw [onDisk, hs]; rfl, rfl⟩

theorem mem_namesAt {dir name : Str} : name ∈ t.namesAt dir ↔
    ∃ r ∈ t.items, components r.localPath = components dir ++ [name] := by
  simp only [namesAt, List.mem_dedup, List.mem_filterMap, Option.ite_none_right_eq_some]
  constructor
  · rintro ⟨r, hr, hdir, hlast⟩
    exact ⟨r, hr, by rw [← hdir]; exact (List.dropLast_append_getLast? name hlast).symm⟩
  · rintro ⟨r, hr, hcomponents⟩
    exact ⟨r, hr, by rw [hcomponents, List.dropLast_concat], by rw [hcomponents]; simp⟩

def volume : Volume where
  stat := t.onDisk
  lstat := t.onDisk
  readDirNames dir := some (t.namesAt dir)
  pathMax := (t.items.map RemoteFile.localPath).flatten.length + 1
  isName := by
    intro dir names hread n hn
    cases hread
    obtain ⟨r, hr, hcomponents⟩ := t.mem_namesAt.mp hn
    exact (t.clean r hr).isName n (by rw [hcomponents]; simp)
  nodup := by
    intro dir names hread
    cases hread
    exact List.nodup_dedup _
  tooLong := by
    intro path hlong
    have hnone : t.onDisk path = none := by
      cases hfound : t.onDisk path with
      | none => rfl
      | some stat =>
          obtain ⟨r, hr, rfl, -⟩ := t.exists_of_onDisk hfound
          have hmem : r.localPath ∈ t.items.map RemoteFile.localPath := List.mem_map_of_mem hr
          have hle := (List.sublist_flatten_of_mem hmem).length_le
          omega
    exact ⟨hnone, hnone⟩

theorem volume_examine (dereference : Bool) (path : Str) :
    t.volume.examine dereference path = t.onDisk path := by
  cases dereference <;> rfl

theorem root_clean : IsClean t.root := by
  obtain ⟨r, hr, hroot⟩ := t.root_mem
  rw [← hroot]
  exact t.clean r hr

/-- The directory of an item below the root, and the name of the item in it. -/
theorem exists_parent {r : RemoteFile} (hr : r ∈ t.items) {rest : List Str} {name : Str}
    (hcomponents : components t.root ++ (rest ++ [name]) = components r.localPath) :
    ∃ p ∈ t.items, p.props.type = .dir ∧ components t.root ++ rest = components p.localPath ∧
      components r.localPath = components p.localPath ++ [name] := by
  have hbelow : Below t.root r.localPath := by
    refine ⟨⟨rest ++ [name], hcomponents⟩, ?_⟩
    intro heq
    rw [heq] at hcomponents
    simp at hcomponents
  obtain ⟨p, hp, htype, hparent⟩ := t.closed r hr hbelow
  rw [← hcomponents, ← List.append_assoc, List.dropLast_concat] at hparent
  exact ⟨p, hp, htype, hparent.symm, by rw [hparent, ← hcomponents, List.append_assoc]⟩

theorem join_item {p r : RemoteFile} (hp : p ∈ t.items) (hr : r ∈ t.items) {name : Str}
    (hname : components r.localPath = components p.localPath ++ [name]) :
    name ∈ t.volume.namesIn p.localPath ∧ join p.localPath name = r.localPath := by
  have hmem : name ∈ t.volume.namesIn p.localPath := t.mem_namesAt.mpr ⟨r, hr, hname⟩
  obtain ⟨hclean, hcomponents⟩ := (t.clean p hp).join_name (t.volume.isName_of_mem hmem)
  exact ⟨hmem, hclean.ext (t.clean r hr) (hcomponents.trans hname.symm)⟩

/-- A scan from the root comes to the items at and below it, by induction on the number of
the names below the root. -/
theorem scans_volume_item (dereference : Bool) {r : RemoteFile} (hr : r ∈ t.items) {rest : List Str}
    (hrest : components t.root ++ rest = components r.localPath) :
    Scans t.volume dereference (fun _ => true) t.root r.localPath := by
  induction rest using List.reverseRecOn generalizing r with
  | nil =>
      obtain ⟨stat, hstat, -⟩ := t.onDisk_item hr
      have hroot : r.localPath = t.root := (t.clean r hr).ext t.root_clean (by simpa using hrest.symm)
      rw [hroot] at hstat ⊢
      exact scans_self (by rw [volume_examine]; exact hstat)
  | append_singleton rest name ih =>
      obtain ⟨p, hp, htype, hparent, hname⟩ := t.exists_parent hr hrest
      obtain ⟨hmem, hjoin⟩ := t.join_item hp hr hname
      obtain ⟨stat, hstat, hstatType⟩ := t.onDisk_item hp
      obtain ⟨stat', hstat', -⟩ := t.onDisk_item hr
      have hchild := (ih hp hparent).child t.root_clean (by rw [volume_examine]; exact hstat)
        (hstatType.trans htype) hmem rfl (by rw [volume_examine, hjoin]; exact hstat')
      rwa [hjoin] at hchild

/-- Without exclusions a scan from the root comes to all items that are there. -/
theorem scans_volume_iff (dereference : Bool) (path : Str) :
    Scans t.volume dereference (fun _ => true) t.root path ↔
      ∃ r ∈ t.items, r.localPath = path ∧ components t.root <+: components path := by
  constructor
  · intro h
    obtain ⟨stat, hstat⟩ := h.examined t.root_clean
    rw [volume_examine] at hstat
    obtain ⟨r, hr, hpath, -⟩ := t.exists_of_onDisk hstat
    exact ⟨r, hr, hpath, h.starts t.root_clean⟩
  · rintro ⟨r, hr, rfl, rest, hrest⟩
    exact t.scans_volume_item dereference hr hrest

end StoredTree

/-! ### The same exclusions -/

/-- The items at or below the root that `applyExclusions` keeps are what a scan of the
root hands to `Do`, with the same exclusions. -/
def KeepsScanned (m : Str → Str → Bool) (cfg : ConfigBackup) (dereference : Bool) (t : StoredTree) : Prop :=
  ∃ kept, applyExclusions (totalMatch m) cfg.exclusions t.items = .ok kept ∧
    ∀ path, (∃ r ∈ kept, r.localPath = path ∧ components t.root <+: components path) ↔
      path ∈ scanned t.volume dereference (notExcluded (totalMatch m) cfg) t.root

section

variable {m : Str → Str → Bool} {cfg : ConfigBackup} {dereference : Bool} {t : StoredTree}

/-- A scan comes to an item if nothing on the way to it is excluded. -/
theorem scans_item_iff {r : RemoteFile} (hr : r ∈ t.items) (hroot : components t.root <+: components r.localPath) :
    Scans t.volume dereference (notExcluded (totalMatch m) cfg) t.root r.localPath ↔
      ∀ q, IsClean q → Below t.root q → components q <+: components r.localPath → ¬ Excluded m cfg q := by
  constructor
  · intro h q hq hbelow habove
    rcases (h.between t.root_clean hq hbelow.1 habove).1.passed with rfl | hpasses
    · exact absurd rfl hbelow.2
    · simpa [notExcluded_eq, Excluded] using hpasses
  · intro h
    have hscans := (t.scans_volume_iff dereference r.localPath).mpr ⟨r, hr, rfl, hroot⟩
    refine hscans.of_passes t.root_clean fun q hq hbelow habove => ?_
    simpa [notExcluded_eq, Excluded] using h q hq hbelow habove

theorem item_between {r : RemoteFile} (hr : r ∈ t.items) {q : Str} (hq : IsClean q)
    (hbelow : components t.root <+: components q) (habove : components q <+: components r.localPath) :
    ∃ s ∈ t.items, s.localPath = q := by
  have hscans := (t.scans_volume_iff false r.localPath).mpr ⟨r, hr, rfl, hbelow.trans habove⟩
  obtain ⟨s, hs, hpath, -⟩ :=
    (t.scans_volume_iff false q).mp (hscans.between t.root_clean hq hbelow habove).1
  exact ⟨s, hs, hpath⟩

theorem keepsScanned_iff : KeepsScanned m cfg dereference t ↔
    ∀ r ∈ t.items, components t.root <+: components r.localPath → (¬ Excluded m cfg r.localPath ↔
      Scans t.volume dereference (notExcluded (totalMatch m) cfg) t.root r.localPath) := by
  have hkept : ∀ r, r ∈ t.items.filter (!isPathExcluded (totalMatch m) cfg.exclusions ·.localPath) ↔
      r ∈ t.items ∧ ¬ Excluded m cfg r.localPath := by
    intro r
    simp [Excluded]
  simp only [KeepsScanned, applyExclusions_eq, Except.ok.injEq, exists_eq_left', hkept,
    mem_scanned t.root_clean]
  constructor
  · intro h r hr hroot
    rw [← h r.localPath]
    constructor
    · intro hnot
      exact ⟨r, ⟨hr, hnot⟩, rfl, hroot⟩
    · rintro ⟨s, ⟨-, hnot⟩, hpath, -⟩
      rwa [← hpath]
  · intro h path
    constructor
    · rintro ⟨r, ⟨hr, hnot⟩, rfl, hroot⟩
      exact (h r hr hroot).mp hnot
    · intro hscans
      obtain ⟨r, hr, rfl, hroot⟩ := (t.scans_volume_iff dereference path).mp (hscans.mono fun _ _ => rfl)
      exact ⟨r, ⟨hr, (h r hr hroot).mpr hscans⟩, rfl, hroot⟩

end

/-- The same exclusions keep the same items if and only if the root matches none of
them, and everything below an excluded directory is excluded by itself. -/
theorem applyExclusions_scanned_iff (m : Str → Str → Bool) (cfg : ConfigBackup) (dereference : Bool)
    (t : StoredTree) : KeepsScanned m cfg dereference t ↔
      ¬ Excluded m cfg t.root ∧ ∀ r ∈ t.items, ∀ s ∈ t.items, Below t.root r.localPath →
        Below r.localPath s.localPath → Excluded m cfg r.localPath → Excluded m cfg s.localPath := by
  rw [keepsScanned_iff]
  constructor
  · intro h
    constructor
    · obtain ⟨r, hr, hroot⟩ := t.root_mem
      obtain ⟨stat, hstat, -⟩ := t.onDisk_item hr
      rw [← hroot]
      refine (h r hr (by rw [hroot])).mpr ?_
      rw [hroot]
      rw [hroot] at hstat
      exact scans_self (by rw [t.volume_examine]; exact hstat)
    · intro r hr s hs hbelow hunder hexcluded
      by_contra hnot
      have hscans := (h s hs (hbelow.1.trans hunder.1)).mp hnot
      exact (scans_item_iff hs (hbelow.1.trans hunder.1)).mp hscans r.localPath (t.clean r hr) hbelow
        hunder.1 hexcluded
  · rintro ⟨hroot, hdown⟩ r hr hbelow
    rw [scans_item_iff hr hbelow]
    constructor
    · intro hnot q hq hq' habove hexcluded
      obtain ⟨s, hs, rfl⟩ := item_between hr hq hq'.1 habove
      by_cases heq : components s.localPath = components r.localPath
      · rw [hq.ext (t.clean r hr) heq] at hexcluded
        exact hnot hexcluded
      · exact hnot (hdown s hs r hr hq' ⟨habove, heq⟩ hexcluded)
    · intro h
      by_cases heq : components t.root = components r.localPath
      · rwa [← t.root_clean.ext (t.clean r hr) heq]
      · exact h r.localPath (t.clean r hr) ⟨hbelow, heq⟩ (List.prefix_refl _)

def threeItems : StoredTree where
  items := [plainRow "/a" .dir, plainRow "/a/d" .dir, plainRow "/a/d/f" .file]
  root := "/a".toList
  clean := by decide
  nodup := by decide
  root_mem := by decide
  closed := by decide

/-- A pattern for the directory `/a/d` keeps the scan away from `/a/d/f`, but the file is
restored. -/
theorem applyExclusions_belowExcluded : ¬ ∀ (m : Str → Str → Bool) (cfg : ConfigBackup) (dereference : Bool)
    (t : StoredTree), KeepsScanned m cfg dereference t := by
  intro h
  obtain ⟨kept, hkept, hsame⟩ := h (fun pattern path => decide (pattern = path))
    { plainConfig with exclusions := ["/a/d".toList] } true threeItems
  have hfile := (hsame "/a/d/f".toList).mp ⟨plainRow "/a/d/f" .file, ?_, rfl, by decide⟩
  · revert hfile
    decide
  · rw [applyExclusions_eq, Except.ok.injEq] at hkept
    rw [← hkept]
    decide

end CloudBackup.Restore
