import CloudBackup.Backup.Scan
import CloudBackup.Library.Descent

/-!
If a scan comes to an end. A system refuses paths that are too long or that go through too many
links, and `CloudBackup.Backup.Scan` has a bound on the length of a path. Here there is none:
the disk is a finite graph of directories, links and files, and `walk` may call itself any
number of times.

Without links to follow, the directories are a tree. With `dereference` nothing keeps `walk`
from a directory that it is in already, and it comes to an end if and only if no endless chain
of directories begins where it starts (`walkReturns_iff`).
-/

namespace CloudBackup.Backup

open Database Descent Iteration UnixPath

/-! ### The scan without a bound -/

/-- `os.Stat`, `os.Lstat` and `readDirNames`, with `none` if the call fails. -/
structure DiskCalls where
  stat : Str → Option OnDisk
  lstat : Str → Option OnDisk
  readDirNames : Str → Option (List Str)

/-- The calls on a disk that refuses long paths. -/
def Volume.calls (v : Volume) : DiskCalls := ⟨v.stat, v.lstat, v.readDirNames⟩

def DiskCalls.examine (disk : DiskCalls) (dereference : Bool) (path : Str) : Option OnDisk :=
  if dereference then disk.stat path else disk.lstat path

def DiskCalls.namesIn (disk : DiskCalls) (dir : Str) : List Str := (disk.readDirNames dir).getD []

section Scan

variable (C : ObjectStore.Cloud) (pathMatch : Str → Str → Option Bool) (cfg : ConfigBackup)
  (dereference dryRun : Bool) (disk : DiskCalls) (jobUuid : Str) (env : Surroundings)

/-- A pass of the loop of `walk` over the names in a directory. The call of `walk` for a
directory may not return. -/
def walkChildFor (descend : Str → OnDisk → Scanning → Option (Flow Scanning ScanHalt)) (childPath : Str)
    (s : Scanning) : Option (Flow Scanning ScanHalt) :=
  if env.ctxDone s.turn childPath then some (.stop .cancelled s)
  else
    match isPathExcludedOrErr pathMatch cfg.exclusions childPath with
    | none => some (.next s)
    | some true => some (.next s)
    | some false =>
        match disk.examine dereference childPath with
        | none => some (.next s)
        | some fileInfo =>
            if fileInfo.fileType = .dir then descend childPath fileInfo s
            else some (backupItem C cfg dryRun jobUuid env childPath fileInfo s)

/-- `walk` with fewer than so many calls of itself inside each other; `none` if it is still
running. -/
def walkFor : ℕ → Str → OnDisk → Scanning → Option (Flow Scanning ScanHalt)
  | 0, _, _, _ => none
  | calls + 1, path, stat, s =>
      match backupItem C cfg dryRun jobUuid env path stat s with
      | .stop e s => some (.stop e s)
      | .next s =>
          loop (fun name =>
            walkChildFor C pathMatch cfg dereference dryRun disk jobUuid env (walkFor calls) (join path name))
            (disk.namesIn path) s

/-- `walk` returns, whatever happens outside of the program and whatever has been done before. -/
def WalkReturns (path : Str) (stat : OnDisk) : Prop :=
  ∀ (env : Surroundings) (s : Scanning), ∃ calls r,
    walkFor C pathMatch cfg dereference dryRun disk jobUuid env calls path stat s = some r

/-! ### What is met -/

def sightAt (passes : Str → Bool) (path : Str) : Sight :=
  ⟨path, if passes path then disk.examine dereference path else none⟩

def sightsBelow (passes : Str → Bool) (x : Sight) : List Sight :=
  if x.found.any (·.fileType = .dir) then
    (disk.namesIn x.path).map fun name => sightAt dereference disk passes (join x.path name)
  else []

end Scan

section

variable {C : ObjectStore.Cloud} {pathMatch : Str → Str → Option Bool} {cfg : ConfigBackup}
  {dereference dryRun : Bool} {disk : DiskCalls} {jobUuid : Str} {env : Surroundings} {passes : Str → Bool}

theorem sightsBelow_dir {path : Str} {stat : OnDisk} (hdir : stat.fileType = .dir) :
    sightsBelow dereference disk passes ⟨path, some stat⟩ =
      (disk.namesIn path).map fun name => sightAt dereference disk passes (join path name) :=
  if_pos (by simpa using hdir)

theorem mem_sightsBelow {x y : Sight} : y ∈ sightsBelow dereference disk passes x ↔
    (∃ stat, x.found = some stat ∧ stat.fileType = .dir) ∧
      ∃ name ∈ disk.namesIn x.path, y = sightAt dereference disk passes (join x.path name) := by
  rw [sightsBelow, List.mem_ite_nil_right, found_dir_iff, List.mem_map]
  simp only [eq_comm (b := y)]

theorem sightAt_of_found {path : Str} {stat : OnDisk} (h : (sightAt dereference disk passes path).found = some stat) :
    sightAt dereference disk passes path = ⟨path, some stat⟩ :=
  congrArg (Sight.mk path) h

theorem ends_one {x : Sight} (h : x.found.any (·.fileType = .dir) = false) :
    Ends (sightsBelow dereference disk passes) 1 x := by
  intro y hy
  rw [sightsBelow, h, if_neg Bool.false_ne_true] at hy
  cases hy

/-- What a pass does with a path, by what is met there. -/
theorem walkChildFor_eq (descend : Str → OnDisk → Scanning → Option (Flow Scanning ScanHalt)) (childPath : Str)
    (s : Scanning) : walkChildFor C pathMatch cfg dereference dryRun disk jobUuid env descend childPath s =
      if env.ctxDone s.turn childPath then some (.stop .cancelled s)
      else (sightAt dereference disk (notExcluded pathMatch cfg) childPath).found.elim (some (.next s)) fun stat =>
        if stat.fileType = .dir then descend childPath stat s
        else some (backupItem C cfg dryRun jobUuid env childPath stat s) := by
  rw [walkChildFor, sightAt, notExcluded]
  congr 1
  cases isPathExcludedOrErr pathMatch cfg.exclusions childPath with
  | none => rfl
  | some excluded =>
      cases excluded with
      | true => rfl
      | false =>
          simp only [decide_true, if_true]
          cases disk.examine dereference childPath <;> rfl

theorem isSome_walkFor {calls : ℕ} {path : Str} {stat : OnDisk} (hdir : stat.fileType = .dir)
    (h : Ends (sightsBelow dereference disk (notExcluded pathMatch cfg)) calls ⟨path, some stat⟩) (s : Scanning) :
    (walkFor C pathMatch cfg dereference dryRun disk jobUuid env calls path stat s).isSome := by
  induction calls generalizing path stat s with
  | zero => exact h.elim
  | succ calls ih =>
      rw [Ends, sightsBelow_dir hdir, List.forall_mem_map] at h
      rw [walkFor]
      cases backupItem C cfg dryRun jobUuid env path stat s with
      | stop e s => rfl
      | next s =>
          refine isSome_loop (fun name hname s => ?_) s
          rw [walkChildFor_eq]
          split
          · rfl
          · cases hfound : (sightAt dereference disk (notExcluded pathMatch cfg) (join path name)).found with
            | none => rfl
            | some child =>
                have hends := h name hname
                rw [sightAt_of_found hfound] at hends
                rw [Option.elim_some]
                split
                · rename_i hchild
                  exact ih hchild hends s
                · rfl

/-! ### A disk with a bound -/

/-- A pass is that of the `walk` with a bound, if the calls for a directory are. -/
theorem walkChildFor_eq_walkChild {v : Volume} {descendFor : Str → OnDisk → Scanning → Option (Flow Scanning ScanHalt)}
    {descend : Str → OnDisk → Scanning → Flow Scanning ScanHalt} {childPath : Str}
    (h : ∀ child, (sight v dereference (notExcluded pathMatch cfg) childPath).found = some child →
      child.fileType = .dir → ∀ s, descendFor childPath child s = some (descend childPath child s)) (s : Scanning) :
    walkChildFor C pathMatch cfg dereference dryRun v.calls jobUuid env descendFor childPath s =
      some (walkChild C pathMatch cfg dereference dryRun v jobUuid env descend childPath s) := by
  have hexamine : v.calls.examine dereference childPath = v.examine dereference childPath := rfl
  rw [sight, notExcluded] at h
  rw [walkChildFor, walkChild, hexamine]
  split
  · rfl
  · cases hexcluded : isPathExcludedOrErr pathMatch cfg.exclusions childPath with
    | none => rfl
    | some excluded =>
        cases excluded with
        | true => rfl
        | false =>
            rw [hexcluded] at h
            cases hfound : v.examine dereference childPath with
            | none => rfl
            | some child =>
                dsimp only
                split
                · rename_i hchild
                  exact h child hfound hchild s
                · rfl

/-- Where the tree has an end, this is the `walk` that goes down to it. -/
theorem walkFor_eq_walk {v : Volume} {depth : ℕ} {path : Str} {stat : OnDisk} (hdir : stat.fileType = .dir)
    (h : Ends (sightsIn v dereference (notExcluded pathMatch cfg)) (depth + 1) ⟨path, some stat⟩) (s : Scanning) :
    walkFor C pathMatch cfg dereference dryRun v.calls jobUuid env (depth + 1) path stat s =
      some (walk C pathMatch cfg dereference dryRun v jobUuid env depth path stat s) := by
  induction depth generalizing path stat s with
  | zero =>
      have hnames : v.namesIn path = [] := by
        rw [List.eq_nil_iff_forall_not_mem]
        intro name hname
        exact h _ (mem_sightsIn.mpr ⟨⟨stat, rfl, hdir⟩, name, hname, rfl⟩)
      have hcalls : v.calls.namesIn path = [] := hnames
      rw [walkFor, walk]
      cases backupItem C cfg dryRun jobUuid env path stat s with
      | stop e s => rfl
      | next s => rw [hcalls]; rfl
  | succ depth ih =>
      rw [walkFor, walk]
      cases backupItem C cfg dryRun jobUuid env path stat s with
      | stop e s => rfl
      | next s =>
          refine loop_eq_forEach (fun name hname s => walkChildFor_eq_walkChild (fun child hfound hchild s => ?_) s) s
          have hends := h _ (mem_sightsIn.mpr ⟨⟨stat, rfl, hdir⟩, name, hname, rfl⟩)
          have hsight : sight v dereference (notExcluded pathMatch cfg) (join path name) =
              ⟨join path name, some child⟩ := congrArg (Sight.mk _) hfound
          rw [hsight] at hends
          exact ih hchild hends s

/-- A disk that refuses long paths is scanned to the end, and `scanPath` goes deep enough. -/
theorem walkFor_volume {v : Volume} {root : Str} (hroot : IsClean root) {stat : OnDisk}
    (hexamine : v.examine dereference root = some stat) (hdir : stat.fileType = .dir) (s : Scanning) :
    walkFor C pathMatch cfg dereference dryRun v.calls jobUuid env (v.pathMax + 1) root stat s =
      some (walk C pathMatch cfg dereference dryRun v jobUuid env v.pathMax root stat s) :=
  walkFor_eq_walk hdir (ends_of_addressed (addressed (met_root hroot hexamine)) (Nat.le_add_left _ _)) s

/-! ### Runs that nobody cancels -/

structure Uncancelled (C : ObjectStore.Cloud) (cfg : ConfigBackup) (dryRun : Bool) (jobUuid : Str)
    (env : Surroundings) : Prop where
  ctxDone : ∀ turn path, env.ctxDone turn path = false
  item : ∀ path stat s, ∃ t, backupItem C cfg dryRun jobUuid env path stat s = .next t

def failing : Surroundings where
  ctxDone := fun _ _ => false
  topItemsOk := fun _ => true
  item := fun _ => { smoothItem "" (smallFile 1 1) [] with queryOk := false }

theorem uncancelled_failing : Uncancelled C cfg dryRun jobUuid failing where
  ctxDone _ _ := rfl
  item path stat s := by
    rw [backupItem]
    split
    · exact ⟨s, rfl⟩
    · have hrefused : (walkItem C cfg jobUuid { failing.item s.turn with path := path, disk := stat } s.world).cancelled =
          false := by
        simp [walkItem, doItem, decideItem, failing, smoothItem, getBackedupObjectPropertiesFromDb]
      simp only [hrefused, Bool.false_eq_true, if_false]
      exact ⟨_, rfl⟩

section

variable (hquiet : Uncancelled C cfg dryRun jobUuid env)
include hquiet

theorem walkChildFor_ne_stop {descend : Str → OnDisk → Scanning → Option (Flow Scanning ScanHalt)}
    (hdescend : ∀ path stat s e t, descend path stat s ≠ some (.stop e t)) (childPath : Str) (s : Scanning)
    (e : ScanHalt) (t : Scanning) :
    walkChildFor C pathMatch cfg dereference dryRun disk jobUuid env descend childPath s ≠ some (.stop e t) := by
  rw [walkChildFor_eq, hquiet.ctxDone, if_neg Bool.false_ne_true]
  cases (sightAt dereference disk (notExcluded pathMatch cfg) childPath).found with
  | none =>
      rw [Option.elim_none]
      simp
  | some stat =>
      rw [Option.elim_some]
      split
      · exact hdescend _ _ _ _ _
      · obtain ⟨t', ht⟩ := hquiet.item childPath stat s
        rw [ht]
        simp

theorem walkFor_ne_stop (calls : ℕ) (path : Str) (stat : OnDisk) (s : Scanning) (e : ScanHalt) (t : Scanning) :
    walkFor C pathMatch cfg dereference dryRun disk jobUuid env calls path stat s ≠ some (.stop e t) := by
  induction calls generalizing path stat s e t with
  | zero => exact nofun
  | succ calls ih =>
      obtain ⟨t', ht⟩ := hquiet.item path stat s
      rw [walkFor, ht]
      exact loop_ne_stop (fun name s e t => walkChildFor_ne_stop hquiet ih (join path name) s e t) t' e t

theorem walkFor_eq_none {path : Str} {stat : OnDisk} (hdir : stat.fileType = .dir)
    (h : ∀ n, ¬ Ends (sightsBelow dereference disk (notExcluded pathMatch cfg)) n ⟨path, some stat⟩) (calls : ℕ)
    (s : Scanning) : walkFor C pathMatch cfg dereference dryRun disk jobUuid env calls path stat s = none := by
  induction calls generalizing path stat s with
  | zero => rfl
  | succ calls ih =>
      obtain ⟨t, ht⟩ := hquiet.item path stat s
      obtain ⟨x, hx, hendless⟩ := exists_child h
      rw [sightsBelow_dir hdir, List.mem_map] at hx
      obtain ⟨name, hname, rfl⟩ := hx
      rw [walkFor, ht]
      refine loop_eq_none
        (fun name s e t => walkChildFor_ne_stop hquiet (walkFor_ne_stop hquiet calls) (join path name) s e t)
        hname (fun s => ?_) t
      rw [walkChildFor_eq, hquiet.ctxDone, if_neg Bool.false_ne_true]
      -- what has no end below it is a directory
      by_cases hfound : ∃ child, (sightAt dereference disk (notExcluded pathMatch cfg) (join path name)).found =
          some child ∧ child.fileType = .dir
      · obtain ⟨child, hfound, hchild⟩ := hfound
        rw [sightAt_of_found hfound] at hendless ⊢
        rw [Option.elim_some, if_pos hchild]
        exact ih hchild hendless s
      · refine absurd (ends_one ?_) (hendless 1)
        simpa [Option.any_eq_false] using hfound

end

/-- `walk` returns, in every run, if and only if no endless chain of directories begins where it
starts. -/
theorem walkReturns_iff {path : Str} {stat : OnDisk} (hdir : stat.fileType = .dir) :
    WalkReturns C pathMatch cfg dereference dryRun disk jobUuid path stat ↔
      ¬ Endless (sightsBelow dereference disk (notExcluded pathMatch cfg)) ⟨path, some stat⟩ := by
  rw [← ends_iff]
  constructor
  · intro hreturns
    by_contra hnone
    push Not at hnone
    obtain ⟨calls, r, hr⟩ := hreturns failing ⟨World.empty, [], 0⟩
    rw [walkFor_eq_none uncancelled_failing hdir hnone] at hr
    cases hr
  · rintro ⟨calls, hends⟩ env s
    exact ⟨calls, Option.isSome_iff_exists.mp (isSome_walkFor hdir hends s)⟩

end

end CloudBackup.Backup
