import CloudBackup.Library.FileTree
import CloudBackup.Restore.RestoreJob

/-!
What a restore does to the file system. Each row has its place below the restore
directory, as far as the text of the path goes; but links that were restored before
are followed on the way there, and the rows of links come first.

`restoreInto_outcome` connects a row on the disk with `restoreOne`. `done_restored` says
what is there when a row is marked as done.
-/

namespace CloudBackup.Restore

open Cbcrypto Database ObjectStore Backup UnixPath FileTree

def mapPathIntoRestoreDir (restoreDir sourcePath : Str) : Str :=
  join restoreDir (if isAbs (clean sourcePath) then (clean sourcePath).tail else clean sourcePath)

/-- What happens to a row outside of the program: if the restore is cancelled before
the loop gets to it, or while it waits for the store; if a download that is left alone
goes on at once; if the content can be written to the end, and else what of it is. -/
structure Conditions where
  ctxDone : Bool
  ctxDoneWaiting : Bool
  leaks : Bool
  writeOk : Bool
  part : Bytes
  deriving DecidableEq, Repr

section

variable (C : Cloud) (st : Store) (b : Bucket) (restoreDir : Str)

/-- A `Get` that fails has created the file before: S3 does so before it asks for the
object, the other stores when they have it. -/
def createsFile (e : GetErr) : Bool :=
  st.kind = .awsS3 || (e ≠ .notFound && e ≠ .badVersion)

/-- `Get` with the restore path. It returns an error, or what it has written. -/
def getInto (cond : Conditions) (item : RemoteFile) (dest : Names) (d : Disk Bytes) :
    Option (Option Bytes) × Disk Bytes :=
  match st.get C (restoreRecord item) item.version item.remoteVersion b with
  | .ok none => (some none, d)
  | .ok (some content) =>
      if cond.writeOk then
        match d.save content dest with
        | (some _, d) => (none, d)
        | (none, d) => (some (some content), d)
      else (none, (d.save cond.part dest).2)
  | .error e => (none, if createsFile st e then (d.save cond.part dest).2 else d)

/-- `restoreOne`, with the file system. -/
def restoreInto (cond : Conditions) (item : RemoteFile) (d : Disk Bytes) : Outcome × Disk Bytes :=
  let dest := components (mapPathIntoRestoreDir restoreDir item.localPath)
  match item.props.type with
  | .dir =>
      match d.mkdirAll dest with
      | (some _, d) => (.failed, d)
      | (none, d) => (.done none, d)
  | .symlink =>
      match d.mkdirAll dest.dropLast with
      | (some _, d) => (.failed, d)
      | (none, d) =>
          match d.symlink item.props.linkTarget dest with
          | (some e, d) => (if e = .exist then .done none else .failed, d)
          | (none, d) => (.done none, d)
  | .file =>
      match d.mkdirAll dest.dropLast with
      | (some _, d) => (.failed, d)
      | (none, d) =>
          if cond.ctxDoneWaiting then
            (.cancelled, if cond.leaks then (getInto C st b cond item dest d).2 else d)
          else
            match getInto C st b cond item dest d with
            | (none, d) => (.failed, d)
            | (some written, d) => (.done written, d)
  | .unknown => (.failed, d)

/-- A pass of the loop of `Do`: a row with the disk before it, how it ended, and the
disk after it. -/
structure Pass where
  item : RemoteFile
  before : Disk Bytes
  outcome : Outcome
  after : Disk Bytes

/-- The loop of `Do`, without the passes for delete markers, which only count. A download that
is left alone is followed to the end of its pass here, and beyond it in `restoreLoopWith`. -/
def restoreLoop (cond : RemoteFile → Conditions) : List RemoteFile → Disk Bytes → List Pass
  | [], _ => []
  | item :: items, d =>
      if (cond item).ctxDone then []
      else if item.deleteMarker then restoreLoop cond items d
      else
        let r := restoreInto C st b restoreDir (cond item) item d
        ⟨item, d, r.1, r.2⟩ :: if r.1 = .cancelled then [] else restoreLoop cond items r.2

/-- What `Do` does to the file system. -/
def restoreFiles (cond : RemoteFile → Conditions) (files : List RestoreFile) (d : Disk Bytes) : List Pass :=
  match d.mkdirAll (components restoreDir) with
  | (some _, _) => []
  | (none, d) => restoreLoop C st b restoreDir cond (loadPendingManifest files) d

/-! ### The outcome of a row -/

def surroundings (cond : Conditions) (item : RemoteFile) (d : Disk Bytes) : Surroundings :=
  let dest := components (mapPathIntoRestoreDir restoreDir item.localPath)
  let dir := if item.props.type = .dir then dest else dest.dropLast
  let mkdir := d.mkdirAll dir
  let symlink := mkdir.2.symlink item.props.linkTarget dest
  { mkdirOk := mkdir.1.isNone
    symlinkOk := symlink.1.isNone || symlink.1 = some .exist
    fileOk := (getInto C st b cond item dest mkdir.2).1.isSome
    ctxDone := cond.ctxDoneWaiting }

theorem getInto_result (cond : Conditions) (item : RemoteFile) (dest : Names) (d : Disk Bytes) :
    (getInto C st b cond item dest d).1 = none ∨
    ∃ written, st.get C (restoreRecord item) item.version item.remoteVersion b = .ok written ∧
      (getInto C st b cond item dest d).1 = some written := by
  unfold getInto
  split
  · exact .inr ⟨none, ‹_›, rfl⟩
  · rename_i content hget
    split
    · split
      · exact .inl rfl
      · exact .inr ⟨some content, hget, rfl⟩
    · exact .inl rfl
  · exact .inl rfl

/-- A row ends on the disk as it does in such surroundings. -/
theorem restoreInto_outcome (cond : Conditions) (item : RemoteFile) (d : Disk Bytes) :
    (restoreInto C st b restoreDir cond item d).1 =
      restoreOne C st item b (surroundings C st b restoreDir cond item d) := by
  unfold restoreInto restoreOne surroundings
  generalize components (mapPathIntoRestoreDir restoreDir item.localPath) = dest
  cases htype : item.props.type with
  | dir => rcases hmkdir : d.mkdirAll dest with ⟨_ | e, d'⟩ <;> simp [hmkdir]
  | symlink =>
      rcases hmkdir : d.mkdirAll dest.dropLast with ⟨_ | e, d'⟩
      · rcases hsymlink : d'.symlink item.props.linkTarget dest with ⟨_ | e, d''⟩
        · simp [hmkdir, hsymlink]
        · by_cases hexist : e = .exist <;> simp [hmkdir, hsymlink, hexist]
      · simp [hmkdir]
  | file =>
      rcases hmkdir : d.mkdirAll dest.dropLast with ⟨_ | e, d'⟩
      · by_cases hdone : cond.ctxDoneWaiting = true
        · simp [hmkdir, hdone]
        · rcases getInto_result C st b cond item dest d' with hfail | ⟨written, hget, hwritten⟩
          · rcases hinto : getInto C st b cond item dest d' with ⟨_ | written, d''⟩
            · rcases hget : st.get C (restoreRecord item) item.version item.remoteVersion b with e | written
              all_goals simp [hmkdir, hdone, hinto]
            · rw [hinto] at hfail
              cases hfail
          · rcases hinto : getInto C st b cond item dest d' with ⟨_ | written', d''⟩
            all_goals rw [hinto] at hwritten
            · cases hwritten
            · obtain rfl : written' = written := Option.some.inj hwritten
              simp [hmkdir, hdone, hinto, hget]
      · simp [hmkdir]
  | unknown => rfl

end

/-! ### The places of the rows -/

theorem getInto_disk (C : Cloud) (st : Store) (b : Bucket) (cond : Conditions) (item : RemoteFile)
    (dest : Names) (d : Disk Bytes) : (getInto C st b cond item dest d).2 = d ∨
      ∃ content, (getInto C st b cond item dest d).2 = (d.save content dest).2 := by
  unfold getInto
  split
  · exact .inl rfl
  · rename_i content _
    split
    · right
      refine ⟨content, ?_⟩
      split <;> rename_i hsave <;> rw [hsave]
    · exact .inr ⟨_, rfl⟩
  · dsimp only
    split
    · exact .inr ⟨_, rfl⟩
    · exact .inl rfl

inductive RowDisk (item : RemoteFile) (dest : Names) (d : Disk Bytes) : Disk Bytes → Prop
  | unknown (h : item.props.type = .unknown) : RowDisk item dest d d
  | dir (h : item.props.type = .dir) : RowDisk item dest d (d.mkdirAll dest).2
  | parent (h : item.props.type = .symlink ∨ item.props.type = .file) :
      RowDisk item dest d (d.mkdirAll dest.dropLast).2
  | link (h : item.props.type = .symlink) :
      RowDisk item dest d ((d.mkdirAll dest.dropLast).2.symlink item.props.linkTarget dest).2
  | file (h : item.props.type = .file) (content : Bytes) :
      RowDisk item dest d ((d.mkdirAll dest.dropLast).2.save content dest).2

theorem restoreInto_disk (C : Cloud) (st : Store) (b : Bucket) (restoreDir : Str) (cond : Conditions)
    (item : RemoteFile) (d : Disk Bytes) :
    RowDisk item (components (mapPathIntoRestoreDir restoreDir item.localPath)) d
      (restoreInto C st b restoreDir cond item d).2 := by
  unfold restoreInto
  generalize components (mapPathIntoRestoreDir restoreDir item.localPath) = dest
  cases htype : item.props.type with
  | dir =>
      have hdisk := @RowDisk.dir item dest d htype
      dsimp only
      rcases hmkdir : d.mkdirAll dest with ⟨_ | e, d'⟩ <;> rw [hmkdir] at hdisk <;> exact hdisk
  | symlink =>
      have hparent := @RowDisk.parent item dest d (.inl htype)
      have hlink := @RowDisk.link item dest d htype
      dsimp only
      rcases hmkdir : d.mkdirAll dest.dropLast with ⟨_ | e, d'⟩ <;> rw [hmkdir] at hparent hlink
      · dsimp only at hlink ⊢
        rcases hsymlink : d'.symlink item.props.linkTarget dest with ⟨_ | e, d''⟩ <;>
          rw [hsymlink] at hlink <;> exact hlink
      · exact hparent
  | file =>
      have hparent := @RowDisk.parent item dest d (.inr htype)
      have hfile := @RowDisk.file item dest d htype
      dsimp only
      rcases hmkdir : d.mkdirAll dest.dropLast with ⟨_ | e, d'⟩ <;> rw [hmkdir] at hparent hfile
      · have hget : RowDisk item dest d (getInto C st b cond item dest d').2 := by
          rcases getInto_disk C st b cond item dest d' with hsame | ⟨content, hsave⟩
          · rw [hsame]
            exact hparent
          · rw [hsave]
            exact hfile content
        dsimp only
        split
        · dsimp only
          split
          · exact hget
          · exact hparent
        · rcases hinto : getInto C st b cond item dest d' with ⟨_ | written, d''⟩ <;>
            rw [hinto] at hget <;> exact hget
      · exact hparent
  | unknown => exact .unknown htype

theorem mapPathIntoRestoreDir_eq_text {restoreDir path : Str} (hdir : isAbs restoreDir = true)
    (hpath : isAbs path = true) : mapPathIntoRestoreDir restoreDir path =
      text (components restoreDir ++ components path) := by
  rw [mapPathIntoRestoreDir, clean_of_isAbs hpath, isAbs_text, if_pos rfl]
  exact join_tail_text hdir fun n hn => isName_of_mem_components hpath hn

theorem isName_of_mem_mapped {restoreDir path : Str} (hdir : isAbs restoreDir = true)
    (hpath : isAbs path = true) : ∀ n ∈ components restoreDir ++ components path, IsName n := by
  intro n hn
  rcases List.mem_append.mp hn with hn | hn
  · exact isName_of_mem_components hdir hn
  · exact isName_of_mem_components hpath hn

theorem components_mapPathIntoRestoreDir {restoreDir path : Str} (hdir : isAbs restoreDir = true)
    (hpath : IsClean path) : components (mapPathIntoRestoreDir restoreDir path) =
      components restoreDir ++ components path := by
  rw [mapPathIntoRestoreDir_eq_text hdir hpath.1]
  exact components_text (isName_of_mem_mapped hdir hpath.1)

/-- A path has a place of its own in the restore directory, or it is the root and its
place is the directory itself. A `..` cannot lead out: it is resolved from the root on
before the path is moved. -/
theorem mapPathIntoRestoreDir_confined (restoreDir : Str) (hdir : IsClean restoreDir) :
    (∀ source, isAbs source = true →
      IsClean (mapPathIntoRestoreDir restoreDir source) ∧
      (mapPathIntoRestoreDir restoreDir source = restoreDir ∨
        Below restoreDir (mapPathIntoRestoreDir restoreDir source))) ∧
    ∀ source source', isAbs source = true → isAbs source' = true →
      mapPathIntoRestoreDir restoreDir source = mapPathIntoRestoreDir restoreDir source' →
        clean source = clean source' := by
  constructor
  · intro source hsource
    have hnames := isName_of_mem_mapped hdir.1 hsource
    rw [mapPathIntoRestoreDir_eq_text hdir.1 hsource]
    refine ⟨isClean_text hnames, ?_⟩
    by_cases hroot : components source = []
    · left
      rw [hroot, List.append_nil]
      exact hdir.eq_text.symm
    · right
      rw [Below, components_text hnames]
      refine ⟨List.prefix_append _ _, ?_⟩
      intro heq
      exact hroot (List.self_eq_append_right.mp heq)
  · intro source source' hsource hsource' heq
    rw [mapPathIntoRestoreDir_eq_text hdir.1 hsource, mapPathIntoRestoreDir_eq_text hdir.1 hsource'] at heq
    -- both texts are read again, and what is behind the directory is the same
    have hcomponents := congrArg components heq
    rw [components_text (isName_of_mem_mapped hdir.1 hsource),
      components_text (isName_of_mem_mapped hdir.1 hsource')] at hcomponents
    rw [clean_of_isAbs hsource, clean_of_isAbs hsource', List.append_cancel_left hcomponents]

theorem mapPathIntoRestoreDir_confined_root :
    (IsClean "/".toList ∧ isAbs "/a/../../b/./c".toList = true ∧
      IsClean (mapPathIntoRestoreDir "/".toList "/a/../../b/./c".toList) ∧
      (mapPathIntoRestoreDir "/".toList "/a/../../b/./c".toList = "/".toList ∨
        Below "/".toList (mapPathIntoRestoreDir "/".toList "/a/../../b/./c".toList))) ∧
    clean "/a//b/..".toList = clean "/./a".toList :=
  ⟨⟨by decide, by decide,
      (mapPathIntoRestoreDir_confined "/".toList (by decide)).1 "/a/../../b/./c".toList (by decide)⟩,
    (mapPathIntoRestoreDir_confined "/".toList (by decide)).2 "/a//b/..".toList "/./a".toList
      (by decide) (by decide) (by decide)⟩

/-! ### All rows -/

section

variable (C : Cloud) (st : Store) (b : Bucket) (restoreDir : Str) (cond : RemoteFile → Conditions)

def diskAfter (items : List RemoteFile) (d : Disk Bytes) : Disk Bytes :=
  items.foldl (fun d item =>
    if item.deleteMarker then d else (restoreInto C st b restoreDir (cond item) item d).2) d

variable {C st b restoreDir cond}

theorem diskAfter_concat (items : List RemoteFile) (item : RemoteFile) (d : Disk Bytes) :
    diskAfter C st b restoreDir cond (items ++ [item]) d =
      if item.deleteMarker then diskAfter C st b restoreDir cond items d
      else (restoreInto C st b restoreDir (cond item) item (diskAfter C st b restoreDir cond items d)).2 := by
  simp [diskAfter]

theorem mem_restoreLoop {items : List RemoteFile} {d : Disk Bytes} {pass : Pass}
    (h : pass ∈ restoreLoop C st b restoreDir cond items d) :
    ∃ pre post, items = pre ++ pass.item :: post ∧ pass.item.deleteMarker = false ∧
      pass.before = diskAfter C st b restoreDir cond pre d ∧
      restoreInto C st b restoreDir (cond pass.item) pass.item pass.before = (pass.outcome, pass.after) := by
  induction items generalizing d with
  | nil => cases h
  | cons item items ih =>
      rw [restoreLoop] at h
      split at h
      · cases h
      · split at h
        · rename_i hmarker
          obtain ⟨pre, post, rfl, hitem, hbefore, hpass⟩ := ih h
          refine ⟨item :: pre, post, rfl, hitem, ?_, hpass⟩
          rw [hbefore, diskAfter, diskAfter, List.foldl_cons, if_pos hmarker]
        · rename_i hmarker
          rcases List.mem_cons.mp h with rfl | h
          · exact ⟨[], items, rfl, by simpa using hmarker, rfl, rfl⟩
          · split at h
            · cases h
            · obtain ⟨pre, post, rfl, hitem, hbefore, hpass⟩ := ih h
              refine ⟨item :: pre, post, rfl, hitem, ?_, hpass⟩
              rw [hbefore, diskAfter, diskAfter, List.foldl_cons, if_neg hmarker]

theorem restoreInto_ne_cancelled {cond : Conditions} (hcond : cond.ctxDoneWaiting = false)
    (item : RemoteFile) (d : Disk Bytes) : (restoreInto C st b restoreDir cond item d).1 ≠ .cancelled := by
  rw [restoreInto_outcome]
  have hctx : (surroundings C st b restoreDir cond item d).ctxDone = false := hcond
  unfold restoreOne
  rw [hctx]
  repeat' split
  all_goals simp_all

theorem pass_mem_restoreLoop (hcond : ∀ item, (cond item).ctxDone = false ∧ (cond item).ctxDoneWaiting = false)
    (pre post : List RemoteFile) {item : RemoteFile} (hitem : item.deleteMarker = false) (d : Disk Bytes) :
    ∃ pass ∈ restoreLoop C st b restoreDir cond (pre ++ item :: post) d,
      pass.after = diskAfter C st b restoreDir cond (pre ++ [item]) d := by
  induction pre generalizing d with
  | nil =>
      rw [List.nil_append, restoreLoop, if_neg (by simp [hcond item]), if_neg (by simp [hitem])]
      exact ⟨_, List.mem_cons_self, by simp [diskAfter, hitem]⟩
  | cons first pre ih =>
      rw [List.cons_append, restoreLoop, if_neg (by simp [hcond first])]
      split
      · rename_i hmarker
        obtain ⟨pass, hpass, hafter⟩ := ih d
        refine ⟨pass, hpass, ?_⟩
        rw [hafter, diskAfter, diskAfter, List.cons_append, List.foldl_cons, if_pos hmarker]
      · rename_i hmarker
        dsimp only
        rw [if_neg (restoreInto_ne_cancelled (hcond first).2 first d)]
        obtain ⟨pass, hpass, hafter⟩ := ih (restoreInto C st b restoreDir (cond first) first d).2
        refine ⟨pass, List.mem_cons_of_mem _ hpass, ?_⟩
        rw [hafter, diskAfter, diskAfter, List.cons_append, List.foldl_cons, if_neg hmarker]

theorem RowDisk.grows {item : RemoteFile} {dest : Names} {d d' : Disk Bytes} (h : RowDisk item dest d d') :
    d.Grows d' := by
  cases h with
  | unknown => exact .refl d
  | dir => exact d.mkdirAll_grows _
  | parent => exact d.mkdirAll_grows _
  | link => exact (d.mkdirAll_grows _).trans (Disk.symlink_grows _ _ _)
  | file _ content => exact (d.mkdirAll_grows _).trans (Disk.save_grows _ _ _)

theorem diskAfter_grows (items : List RemoteFile) (d : Disk Bytes) :
    d.Grows (diskAfter C st b restoreDir cond items d) := by
  induction items using List.reverseRecOn with
  | nil => exact .refl d
  | append_singleton items item ih =>
      rw [diskAfter_concat]
      split
      · exact ih
      · exact ih.trans (restoreInto_disk C st b restoreDir (cond item) item _).grows

end

/-! ### What is done -/

theorem mem_loadPendingManifest_iff {files : List RestoreFile} {r : RemoteFile} :
    r ∈ loadPendingManifest files ↔ ∃ f ∈ files, f.state ≠ .done ∧ f.row = r := by
  simp [loadPendingManifest, List.mem_insertionSort, and_assoc]

section

variable (C : Cloud) (st : Store) (b : Bucket) (restoreDir : Str)

def stored (item : RemoteFile) : Except GetErr (Option Bytes) :=
  st.get C (restoreRecord item) item.version item.remoteVersion b

/-- The entry at the destination of a row is what the row says. -/
def Restored (pass : Pass) : Prop :=
  let entry := pass.after.tree.lstat (components (mapPathIntoRestoreDir restoreDir pass.item.localPath))
  match pass.item.props.type with
  | .dir => entry = .ok .dir
  | .symlink => entry = .ok (.symlink pass.item.props.linkTarget)
  | .file => ∃ content, stored C st b pass.item = .ok (some content) ∧ entry = .ok (.file content)
  | .unknown => False

/-- What is at the destination of a row that is done, with links followed. A link is
what the row says if it is new, or was it before. A file has the content of the object,
unless it is a device; if the test store has no object, nothing is written. -/
def DoneWith (pass : Pass) : Prop :=
  let dest := components (mapPathIntoRestoreDir restoreDir pass.item.localPath)
  match pass.item.props.type with
  | .dir => pass.after.tree.stat dest = .ok .dir
  | .symlink => (∀ v, pass.before.tree.lstat dest = .ok v → v = .symlink pass.item.props.linkTarget) →
      pass.after.tree.lstat dest = .ok (.symlink pass.item.props.linkTarget)
  | .file => (∃ content, stored C st b pass.item = .ok (some content) ∧
        (pass.before.tree.stat dest ≠ .ok .other → pass.after.tree.stat dest = .ok (.file content))) ∨
      st.kind = .testNull ∧ stored C st b pass.item = .ok none ∧
        ∀ v, pass.after.tree.lstat dest = .ok v ↔ pass.before.tree.lstat dest = .ok v
  | .unknown => False

variable {C st b restoreDir} {d d' : Disk Bytes} {dest : Names}

/-- With its directory there, an entry was there before, or nothing is there. -/
theorem lstat_mkdirParent (hnames : ∀ n ∈ dest, IsName n) (h : d.mkdirAll dest.dropLast = (none, d')) :
    d' = d ∨ ∀ v, d'.tree.lstat dest ≠ .ok v := by
  have hrun := d.mkdirAll_run dest.dropLast
  rw [h] at hrun
  rcases hrun.dir fun n hn => hnames n (List.mem_of_mem_dropLast hn) with ⟨rfl, -⟩ | ⟨dir, hleads, hdir, hempty⟩
  · exact .inl rfl
  · by_cases hroot : dest = []
    · rw [hroot, List.dropLast_nil, Disk.mkdirAll_nil] at h
      exact .inl (congrArg Prod.snd h).symm
    · right
      intro v hv
      obtain ⟨loc, hloc, hnode⟩ := Tree.lstat_eq_ok.mp hv
      rw [← List.dropLast_concat_getLast hroot] at hloc
      rw [hleads.concat hdir (hnames _ (List.getLast_mem hroot)) hloc, hempty] at hnode
      cases hnode

theorem lstat_mkdirParent_iff (hnames : ∀ n ∈ dest, IsName n) (h : d.mkdirAll dest.dropLast = (none, d'))
    (v : Node Bytes) : d'.tree.lstat dest = .ok v ↔ d.tree.lstat dest = .ok v := by
  rcases lstat_mkdirParent hnames h with rfl | hnone
  · rfl
  · have hgrows := d.mkdirAll_grows dest.dropLast
    rw [h] at hgrows
    refine ⟨fun hv => absurd hv (hnone v), fun hv => ?_⟩
    obtain ⟨loc, hleads, hnode⟩ := Tree.lstat_eq_ok.mp hv
    have hne : d.tree.node loc ≠ none := by simp [hnode]
    -- of a file the content could differ, but something would still be there
    obtain ⟨v', hv'⟩ : ∃ v', d'.tree.node loc = some v' := by
      rcases hgrows.keeps loc hne with heq | ⟨-, hfile⟩
      · exact ⟨v, by rw [heq, hnode]⟩
      · rcases hnode' : d'.tree.node loc with _ | v'
        · rw [hnode'] at hfile
          cases hfile
        · exact ⟨v', rfl⟩
    have hleads' := hleads.extends hgrows.keeps fun hnone => absurd hnone hne
    exact absurd (Tree.lstat_eq_ok.mpr ⟨loc, hleads', hv'⟩) (hnone v')

theorem symlink_done (hnames : ∀ n ∈ dest, IsName n) {d₁ : Disk Bytes} {target : Str}
    (hmkdir : d.mkdirAll dest.dropLast = (none, d₁))
    (hsymlink : d₁.symlink target dest = (none, d') ∨ d₁.symlink target dest = (some .exist, d'))
    (hbefore : ∀ v, d.tree.lstat dest = .ok v → v = .symlink target) :
    d'.tree.lstat dest = .ok (.symlink target) := by
  unfold Disk.symlink at hsymlink
  by_cases htarget : target = []
  · simp [htarget] at hsymlink
  · simp only [htarget, if_false] at hsymlink
    rcases hsymlink with hmake | hmake
    · obtain ⟨loc, hleads, hnone, hwrote⟩ := Disk.make_eq_none hmake
      refine Tree.lstat_eq_ok.mpr ⟨loc, ?_, by rw [hwrote.node, Function.update_self]⟩
      exact hleads.extends (hwrote.grows (.inl hnone)).keeps fun _ _ => rfl
    · obtain ⟨v, hv⟩ := Disk.make_eq_exist hmake
      have hsame : d' = d₁ := by
        rcases Disk.make_cases dest (.symlink target) d₁ with ⟨e, herror⟩ | ⟨loc, d₂, -, -, hmade, -⟩
        · rw [herror] at hmake
          exact (congrArg Prod.snd hmake).symm
        · rw [hmade] at hmake
          cases hmake
      obtain rfl := hbefore v ((lstat_mkdirParent_iff hnames hmkdir v).mp hv)
      rw [hsame, hv]

theorem save_done (hnames : ∀ n ∈ dest, IsName n) {d₁ : Disk Bytes} {content : Bytes}
    (hmkdir : d.mkdirAll dest.dropLast = (none, d₁)) (hsave : d₁.save content dest = (none, d'))
    (hbefore : d.tree.stat dest ≠ .ok .other) : d'.tree.stat dest = .ok (.file content) := by
  rcases d₁.save_cases content dest with ⟨e, herror⟩ | ⟨loc, d₂, hleads, hsaved, hplace⟩
  · rw [herror] at hsave
    cases hsave
  · obtain rfl : d₂ = d' := congrArg Prod.snd (hsaved.symm.trans hsave)
    rcases hplace with ⟨hwrote, hnode⟩ | ⟨hother, -⟩
    · have hfile : d₂.tree.node loc = some (.file content) := by rw [hwrote.node, Function.update_self]
      refine Tree.stat_eq_ok.mpr ⟨loc, ?_, hfile⟩
      refine hleads.extends (hwrote.grows (hnode.imp_right fun h => ⟨h, rfl⟩)).keeps ?_
      rw [hfile]
      nofun
    · rcases lstat_mkdirParent hnames hmkdir with rfl | hnone
      · exact absurd (Tree.stat_eq_ok.mpr ⟨loc, hleads, hother⟩) hbefore
      · obtain ⟨entry, hentry, hne⟩ := hleads.entry (by simp [hother])
        obtain ⟨v, hv⟩ := Option.ne_none_iff_exists'.mp hne
        exact absurd (Tree.lstat_eq_ok.mpr ⟨entry, hentry, hv⟩) (hnone v)

/-- `Get` has written the object, or the test store has none. -/
theorem getInto_done {cond : Conditions} {item : RemoteFile} (htype : item.props.type = .file)
    {written : Option Bytes} (h : getInto C st b cond item dest d = (some written, d')) :
    (∃ content, stored C st b item = .ok (some content) ∧ d.save content dest = (none, d')) ∨
    st.kind = .testNull ∧ stored C st b item = .ok none ∧ d' = d := by
  unfold getInto at h
  split at h
  · rename_i hget
    refine .inr ⟨?_, hget, (congrArg Prod.snd h).symm⟩
    have hrecord : (restoreRecord item).props.type = .file := htype
    rw [Store.get, if_neg (by simp [hrecord])] at hget
    split at hget
    · by_contra hkind
      simp [hkind] at hget
    · rename_i body _
      cases hdecode : decode C.aead.toAead st.enc (restoreRecord item).props.encrypted body <;>
        simp [hdecode, Except.map] at hget
  · rename_i content hget
    split at h
    · split at h
      · cases h
      · rename_i d₁ hsave
        refine .inl ⟨content, hget, ?_⟩
        rw [hsave, (Prod.mk.inj h).2]
    · cases h
  · cases h

theorem doneWith_restoreInto (hdir : isAbs restoreDir = true) {cond : Conditions} {item : RemoteFile}
    (hclean : IsClean item.localPath) {written : Option Bytes}
    (h : restoreInto C st b restoreDir cond item d = (.done written, d')) :
    DoneWith C st b restoreDir ⟨item, d, .done written, d'⟩ := by
  have hnames : ∀ n ∈ components (mapPathIntoRestoreDir restoreDir item.localPath), IsName n := by
    rw [components_mapPathIntoRestoreDir hdir hclean]
    intro n hn
    rcases List.mem_append.mp hn with hn | hn
    · exact isName_of_mem_components hdir hn
    · exact hclean.isName n hn
  unfold restoreInto at h
  unfold DoneWith
  dsimp only at h ⊢
  generalize components (mapPathIntoRestoreDir restoreDir item.localPath) = dest at h hnames ⊢
  split at h
  · split at h
    · cases h
    · rename_i d₁ hmkdir
      obtain rfl : d₁ = d' := congrArg Prod.snd h
      exact Disk.stat_mkdirAll hmkdir hnames
  · split at h
    · cases h
    · rename_i d₁ hmkdir
      refine symlink_done hnames hmkdir ?_
      split at h
      · rename_i e d₂ hsymlink
        split at h
        · rename_i hexist
          right
          rw [hsymlink, hexist, (Prod.mk.inj h).2]
        · cases h
      · rename_i d₂ hsymlink
        left
        rw [hsymlink, (Prod.mk.inj h).2]
  · rename_i htype
    split at h
    · cases h
    · rename_i d₁ hmkdir
      split at h
      · cases h
      · split at h
        · cases h
        · rename_i written' d₂ hinto
          obtain rfl : d₂ = d' := congrArg Prod.snd h
          rcases getInto_done htype hinto with ⟨content, hstored, hsave⟩ | ⟨hkind, hstored, rfl⟩
          · exact .inl ⟨content, hstored, save_done hnames hmkdir hsave⟩
          · exact .inr ⟨hkind, hstored, lstat_mkdirParent_iff hnames hmkdir⟩
  · cases h

end

def smoothConditions : Conditions := ⟨false, false, false, true, []⟩

def pendingFiles (rows : List (String × FileType)) : List RestoreFile :=
  rows.map fun row => ⟨plainRow row.1 row.2, .pending⟩

/-- Whenever a row is marked as done, its destination is as it should be. -/
theorem done_restored (C : Cloud) (st : Store) (b : Bucket) (restoreDir : Str) (cond : RemoteFile → Conditions)
    (files : List RestoreFile) (d : Disk Bytes) (hdir : IsClean restoreDir)
    (hclean : ∀ f ∈ files, IsClean f.row.localPath) :
    ∀ pass ∈ restoreFiles C st b restoreDir cond files d, ∀ written, pass.outcome = .done written →
      DoneWith C st b restoreDir pass := by
  intro pass hpass written hdone
  rw [restoreFiles] at hpass
  split at hpass
  · cases hpass
  · obtain ⟨pre, post, heq, -, -, hinto⟩ := mem_restoreLoop hpass
    have hitem : pass.item ∈ loadPendingManifest files := by simp [heq]
    obtain ⟨f, hf, -, hrow⟩ := mem_loadPendingManifest_iff.mp hitem
    rw [hdone] at hinto
    have hwith := doneWith_restoreInto hdir.1 (hrow ▸ hclean f hf) hinto
    exact hwith

def smallTree (dirs : List Names) (place : Names) (entry : Option (Node Bytes))
    (hdirs : [] ∈ dirs ∧ (∀ dir ∈ dirs, dir.dropLast ∈ dirs) ∧ place.dropLast ∈ dirs ∧ place ∉ dirs) :
    FileTree.Tree Bytes where
  node names := if names ∈ dirs then some .dir else if names = place then entry else none
  root := if_pos hdirs.1
  parent := by
    intro names n h
    have hmem : (names ++ [n]).dropLast ∈ dirs := by
      by_cases hdir : names ++ [n] ∈ dirs
      · exact hdirs.2.1 _ hdir
      · by_cases hplace : names ++ [n] = place
        · rw [hplace]
          exact hdirs.2.2.1
        · simp [hdir, hplace] at h
    rw [List.dropLast_concat] at hmem
    exact if_pos hmem

def smallDisk (entry : Option (Node Bytes)) : Disk Bytes :=
  ⟨smallTree [[], [['r']], [['o']]] [['r'], ['x']] entry (by decide), fun _ => true, []⟩

def oneByte : Bucket := { Bucket.empty with blobs := fun _ => some [1] }

theorem done_restored_replaced :
    (restoreFiles plainCloud (plainStore .testNull) oneByte ['/', 'r'] (fun _ => smoothConditions)
      (pendingFiles [("/x", .file)]) (smallDisk (some (.file [7])))).any
        (fun pass => pass.outcome = .done (some [1])) = true ∧
    ∀ pass ∈ restoreFiles plainCloud (plainStore .testNull) oneByte ['/', 'r'] (fun _ => smoothConditions)
      (pendingFiles [("/x", .file)]) (smallDisk (some (.file [7]))), ∀ written, pass.outcome = .done written →
        DoneWith plainCloud (plainStore .testNull) oneByte ['/', 'r'] pass :=
  ⟨by decide, done_restored plainCloud (plainStore .testNull) oneByte ['/', 'r']
    (fun _ => smoothConditions) (pendingFiles [("/x", .file)]) (smallDisk (some (.file [7]))) (by decide)
    (by decide)⟩

def AllRestored (b : Bucket) (rows : List (String × FileType)) (d : Disk Bytes) : Prop :=
  ∀ pass ∈ restoreFiles plainCloud (plainStore .testNull) b ['/', 'r'] (fun _ => smoothConditions)
    (pendingFiles rows) d, ∀ written, pass.outcome = .done written →
      Restored plainCloud (plainStore .testNull) b ['/', 'r'] pass

def missed (pass : Pass) : Bool :=
  let entry := (pass.after.tree.lstat (components (mapPathIntoRestoreDir ['/', 'r'] pass.item.localPath))).toOption
  (match pass.outcome with
    | .done _ => true
    | _ => false) &&
  match pass.item.props.type with
  | .dir => !isDir entry
  | .file => !isFile entry
  | _ => false

theorem not_allRestored {b : Bucket} {rows : List (String × FileType)} {d : Disk Bytes}
    (h : (restoreFiles plainCloud (plainStore .testNull) b ['/', 'r'] (fun _ => smoothConditions)
      (pendingFiles rows) d).any missed = true) : ¬ AllRestored b rows d := by
  intro hall
  obtain ⟨pass, hpass, hmissed⟩ := List.any_eq_true.mp h
  unfold missed at hmissed
  rw [Bool.and_eq_true] at hmissed
  obtain ⟨hdone, hkind⟩ := hmissed
  cases houtcome : pass.outcome with
  | done written =>
      have hrestored := hall pass hpass written houtcome
      unfold Restored at hrestored
      cases htype : pass.item.props.type with
      | dir =>
          simp only [htype] at hrestored hkind
          simp [hrestored, isDir, Except.toOption] at hkind
      | file =>
          simp only [htype] at hrestored hkind
          obtain ⟨content, -, hentry⟩ := hrestored
          simp [hentry, isFile, Except.toOption] at hkind
      | symlink => simp [htype] at hkind
      | unknown => simp [htype] at hkind
  | failed => simp [houtcome] at hdone
  | cancelled => simp [houtcome] at hdone

/-- The test store has no object, and there is no file; a link to a directory takes
the place of a directory; a link to a file that of a file; and so does a device. -/
theorem done_notRestored : ¬ AllRestored Bucket.empty [("/x", .file)] (smallDisk none) ∧
    ¬ AllRestored oneByte [("/x", .dir)] (smallDisk (some (.symlink "/o".toList))) ∧
    ¬ AllRestored oneByte [("/x", .file)] (smallDisk (some (.symlink "/o/y".toList))) ∧
    ¬ AllRestored oneByte [("/x", .file)] (smallDisk (some .other)) :=
  ⟨not_allRestored (by decide), not_allRestored (by decide),
    not_allRestored (by decide), not_allRestored (by decide)⟩

end CloudBackup.Restore
