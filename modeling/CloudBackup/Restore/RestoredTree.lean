import CloudBackup.Restore.Confinement

/-!
What is below the restore directory in the course of a restore job, which may be
cancelled, fail, crash and be resumed any number of times. At each point it is a part of
the tree that the rows describe (`Progress`); once all rows are done it is that tree.

A run that is cancelled leaves its download alone, and that may go on at any time, also
between the passes of the runs after it. `Abandoned` is about what it does to its file
when the row is restored again; here it may change the file until that is done.
-/

namespace CloudBackup.Restore

open Cbcrypto Database ObjectStore Backup UnixPath FileTree Iteration

/-! ### Downloads that nobody waits for -/

structure Leak where
  item : RemoteFile
  part : Bytes

/-- It has the path from its own pass, and opens the file when it gets there. -/
def Leak.into (restoreDir : Str) (d : Disk Bytes) (leak : Leak) : Disk Bytes :=
  (d.save leak.part (components (mapPathIntoRestoreDir restoreDir leak.item.localPath))).2

def restoreLoopWith (C : Cloud) (st : Store) (b : Bucket) (restoreDir : Str) (cond : RemoteFile → Conditions)
    (leaks : RemoteFile → List Leak) : List RemoteFile → Disk Bytes → List Pass
  | [], _ => []
  | item :: items, d =>
      if (cond item).ctxDone then []
      else if item.deleteMarker then restoreLoopWith C st b restoreDir cond leaks items d
      else
        let d := (leaks item).foldl (Leak.into restoreDir) d
        let r := restoreInto C st b restoreDir (cond item) item d
        ⟨item, d, r.1, r.2⟩ ::
          if r.1 = .cancelled then [] else restoreLoopWith C st b restoreDir cond leaks items r.2

theorem restoreLoopWith_nil (C : Cloud) (st : Store) (b : Bucket) (restoreDir : Str)
    (cond : RemoteFile → Conditions) (items : List RemoteFile) (d : Disk Bytes) :
    restoreLoopWith C st b restoreDir cond (fun _ => []) items d = restoreLoop C st b restoreDir cond items d := by
  induction items generalizing d with
  | nil => rfl
  | cons item items ih =>
      rw [restoreLoopWith, restoreLoop]
      simp only [List.foldl_nil, ih]

def abandonedBy (passes : List Pass) : List RemoteFile :=
  (passes.filter fun pass => pass.outcome = .cancelled).map Pass.item

/-- The download of a file is all that is left alone. -/
theorem restoreInto_cancelled {C : Cloud} {st : Store} {b : Bucket} {restoreDir : Str} {cond : Conditions}
    {item : RemoteFile} {d : Disk Bytes}
    (h : (restoreInto C st b restoreDir cond item d).1 = .cancelled) : item.props.type = .file := by
  rw [restoreInto_outcome] at h
  unfold restoreOne at h
  split at h
  · split at h <;> cases h
  · split at h <;> cases h
  · assumption
  · cases h

/-! ### The tree of some rows -/

def liveRows (rows : List RemoteFile) : List RemoteFile := rows.filter (!·.deleteMarker)

/-- Each row has a path of its own, and there are only directories above it. The restore
directory takes the place of the root. -/
structure TreeLike (rows : List RemoteFile) : Prop where
  clean : ∀ r ∈ rows, IsClean r.localPath
  once : ∀ r ∈ rows, ∀ s ∈ rows, r.localPath = s.localPath → r = s
  above : ∀ s ∈ rows, ∀ r ∈ rows, Below s.localPath r.localPath → s.props.type = .dir
  root : ∀ r ∈ rows, components r.localPath = [] → r.props.type = .dir

section

variable (content : RemoteFile → Bytes)

/-- What a row stands for; the content of a file is not part of the row. -/
def entryOf (r : RemoteFile) : Option (Node Bytes) :=
  match r.props.type with
  | .dir => some .dir
  | .symlink => some (.symlink r.props.linkTarget)
  | .file => some (.file (content r))
  | .unknown => none

/-- The entry of a row is there. -/
def Has (dir : Names) (r : RemoteFile) (d : Disk Bytes) : Prop :=
  ∃ v, entryOf content r = some v ∧ d.tree.node (dir ++ components r.localPath) = some v

/-- The entries of the rows, and the directories on the way to them. -/
def treeOf (rows : List RemoteFile) (way : Names) : Option (Node Bytes) :=
  match rows.find? fun r => components r.localPath = way with
  | some r => entryOf content r
  | none =>
      if rows.any fun r => way.isPrefixOf (components r.localPath) then some .dir else none

end

section

variable {rows : List RemoteFile}

theorem mem_liveRows {r : RemoteFile} : r ∈ liveRows rows ↔ r ∈ rows ∧ r.deleteMarker = false := by
  simp [liveRows]

theorem TreeLike.eq_of_components (h : TreeLike rows) {r s : RemoteFile} (hr : r ∈ rows) (hs : s ∈ rows)
    (heq : components r.localPath = components s.localPath) : r = s :=
  h.once r hr s hs ((h.clean r hr).ext (h.clean s hs) heq)

theorem TreeLike.not_throughLink (h : TreeLike rows) {r s : RemoteFile} (hr : r ∈ rows) (hs : s ∈ rows) :
    ¬ ThroughLink s r := by
  intro hthrough
  have hlink := hthrough.link
  rcases hthrough.through with hbelow | ⟨htype, heq⟩
  · rw [h.above s hs r hr hbelow] at hlink
    cases hlink
  · rw [h.eq_of_components hs hr heq, htype] at hlink
    cases hlink

variable {content : RemoteFile → Bytes} {C : Cloud} {st : Store} {b : Bucket} {restoreDir : Str} {dir : Names}
  {d₁ d d' : Disk Bytes} {r : RemoteFile}

/-- In the place of a row there is nothing but what the row asks for; only the content
of a file may be another one. -/
theorem Kept.entry (h : Kept dir d₁ rows d) (htree : TreeLike rows) (hr : r ∈ rows)
    (hroot : components r.localPath ≠ []) {v : Node Bytes}
    (hnode : d.tree.node (dir ++ components r.localPath) = some v) :
    v = .dir ∧ r.props.type = .dir ∨ v = .symlink r.props.linkTarget ∧ r.props.type = .symlink ∨
      (∃ c, v = .file c) ∧ r.props.type = .file := by
  rcases h.inside _ hroot v hnode with @⟨s, hs, -, hway, hend⟩ | @⟨s, hs, htype, -, hway⟩ | @⟨s, hs, htype, hway, c⟩
  · left
    by_cases heq : components r.localPath = components s.localPath
    · obtain rfl := htree.eq_of_components hr hs heq
      exact ⟨rfl, hend rfl⟩
    · exact ⟨rfl, htree.above r hr s hs ⟨hway, heq⟩⟩
  · obtain rfl := htree.eq_of_components hs hr hway
    exact .inr (.inl ⟨rfl, htype⟩)
  · obtain rfl := htree.eq_of_components hs hr hway
    exact .inr (.inr ⟨⟨c, rfl⟩, htype⟩)

theorem Kept.clear (h : Kept dir d₁ rows d) (htree : TreeLike rows) (hr : r ∈ rows) {way : Names}
    (hne : way ≠ []) (hway : way <+: components r.localPath)
    (hend : way = components r.localPath → r.props.type ≠ .symlink) :
    isLink (d.tree.node (dir ++ way)) = false := by
  rw [Bool.eq_false_iff]
  intro hlink
  obtain ⟨s, hs, htype, -, rfl⟩ := h.link hne hlink
  by_cases heq : components s.localPath = components r.localPath
  · obtain rfl := htree.eq_of_components hs hr heq
    exact hend rfl htype
  · rw [htree.above s hs r hr ⟨hway, heq⟩] at htype
    cases htype

/-- A path of a row leads to the place of the row. -/
theorem Kept.place (h : Kept dir d₁ rows d) (hempty : EmptyDir (components restoreDir) dir d₁)
    (htree : TreeLike rows) (hr : r ∈ rows) {follow : Bool} {loc : Names}
    (hleads : d.tree.Leads follow Tree.maxLinks [] (components restoreDir ++ components r.localPath) loc)
    (hfollow : follow = true ↔ r.props.type ≠ .symlink) : loc = dir ++ components r.localPath := by
  obtain ⟨hbase, hdir⟩ := h.leads hempty
  by_cases hroot : components r.localPath = []
  · obtain rfl : follow = true := hfollow.mpr (by simp [htree.root r hr hroot])
    rw [hroot, List.append_nil] at hleads ⊢
    exact hleads.unique hbase
  · obtain ⟨k', hk'⟩ := hbase.append_iff hdir hroot
    exact ((hk' follow loc).mp hleads).noLink (htree.clean r hr).isName fun way hne hway hend =>
      h.clear htree hr hne hway fun heq => hfollow.mp (hend heq)

theorem Kept.restoreInto (h : Kept dir d₁ rows d) (hempty : EmptyDir (components restoreDir) dir d₁)
    (hdir : isAbs restoreDir = true) (htree : TreeLike rows) (hr : r ∈ rows) (hmarker : r.deleteMarker = false)
    (C : Cloud) (st : Store) (b : Bucket) (cond : Conditions) :
    Kept dir d₁ rows (restoreInto C st b restoreDir cond r d).2 := by
  refine (h.step hdir hempty (htree.clean r hr) hmarker (fun s hs => htree.not_throughLink hr hs) C st b cond).mono ?_
  intro s hs
  rcases List.mem_append.mp hs with hs | hs
  · exact hs
  · exact List.mem_singleton.mp hs ▸ hr

theorem Kept.node_save (h : Kept dir d₁ rows d) (hempty : EmptyDir (components restoreDir) dir d₁)
    (htree : TreeLike rows) (hr : r ∈ rows) (htype : r.props.type = .file) (part : Bytes) {loc : Names}
    (hloc : loc ≠ dir ++ components r.localPath) :
    (d.save part (components restoreDir ++ components r.localPath)).2.tree.node loc = d.tree.node loc := by
  rcases Disk.save_cases part (components restoreDir ++ components r.localPath) d with
    ⟨e, herror⟩ | ⟨place, d₂, hleads, hsave, ⟨hwrote, -⟩ | ⟨-, rfl⟩⟩
  · rw [herror]
  · obtain rfl := h.place hempty htree hr hleads (by simp [htype])
    rw [hsave, hwrote.node, Function.update_of_ne hloc]
  · rw [hsave]

/-- What is there already stays as it is, but for the file of the row itself. -/
theorem Kept.node_restoreInto (h : Kept dir d₁ rows d) (hempty : EmptyDir (components restoreDir) dir d₁)
    (hdir : isAbs restoreDir = true) (htree : TreeLike rows) (hr : r ∈ rows) (hmarker : r.deleteMarker = false)
    (cond : Conditions) {loc : Names} (hne : d.tree.node loc ≠ none)
    (hloc : loc ≠ dir ++ components r.localPath) :
    (Restore.restoreInto C st b restoreDir cond r d).2.tree.node loc = d.tree.node loc := by
  have hclean := htree.clean r hr
  have hdisk := restoreInto_disk C st b restoreDir cond r d
  rw [components_mapPathIntoRestoreDir hdir hclean] at hdisk
  have hparent := Disk.node_mkdirAll (components restoreDir ++ components r.localPath).dropLast hne
  generalize (Restore.restoreInto C st b restoreDir cond r d).2 = d' at hdisk ⊢
  cases hdisk with
  | unknown => rfl
  | dir => exact Disk.node_mkdirAll _ hne
  | parent => exact hparent
  | link => rw [Disk.node_symlink _ _ (by rwa [hparent]), hparent]
  | file htype content =>
      -- with its directory there, the file is written in the place of the row
      have hkept := h.mkdirParent hempty hr hclean ⟨hmarker, by simp [htype]⟩ fun way hway hpre _ =>
        h.clear htree hr hway hpre fun _ => by simp [htype]
      rw [hkept.node_save hempty htree hr htype content hloc, hparent]

theorem Kept.done (h : Kept dir d₁ rows d) (hempty : EmptyDir (components restoreDir) dir d₁)
    (hdir : isAbs restoreDir = true) (htree : TreeLike rows) (hr : r ∈ rows) (hmarker : r.deleteMarker = false)
    {cond : Conditions} (hcontent : r.props.type = .file → ∀ w, stored C st b r = .ok w → w = some (content r))
    {written : Option Bytes} (hdone : Restore.restoreInto C st b restoreDir cond r d = (.done written, d')) :
    Has content dir r d' := by
  have hclean := htree.clean r hr
  have hkept := h.restoreInto hempty hdir htree hr hmarker C st b cond
  have hwith := doneWith_restoreInto hdir hclean hdone
  rw [hdone] at hkept
  unfold DoneWith at hwith
  rw [components_mapPathIntoRestoreDir hdir hclean] at hwith
  cases htype : r.props.type with
  | dir =>
      simp only [htype] at hwith
      obtain ⟨loc, hleads, hnode⟩ := Tree.stat_eq_ok.mp hwith
      obtain rfl := hkept.place hempty htree hr hleads (by simp [htype])
      exact ⟨.dir, by simp [entryOf, htype], hnode⟩
  | symlink =>
      simp only [htype] at hwith
      have hroot : components r.localPath ≠ [] := fun hnil => by simp [htree.root r hr hnil] at htype
      have hentry := hwith fun v hv => by
        obtain ⟨loc, hleads, hnode⟩ := Tree.lstat_eq_ok.mp hv
        obtain rfl := h.place hempty htree hr hleads (by simp [htype])
        rcases h.entry htree hr hroot hnode with ⟨-, hother⟩ | ⟨rfl, -⟩ | ⟨-, hother⟩
        · simp [htype] at hother
        · rfl
        · simp [htype] at hother
      obtain ⟨loc, hleads, hnode⟩ := Tree.lstat_eq_ok.mp hentry
      obtain rfl := hkept.place hempty htree hr hleads (by simp [htype])
      exact ⟨.symlink r.props.linkTarget, by simp [entryOf, htype], hnode⟩
  | file =>
      simp only [htype] at hwith
      have hroot : components r.localPath ≠ [] := fun hnil => by simp [htree.root r hr hnil] at htype
      rcases hwith with ⟨c, hstored, hfile⟩ | ⟨-, hstored, -⟩
      · obtain rfl : c = content r := Option.some.inj (hcontent htype _ hstored)
        have hstat := hfile fun hother => by
          obtain ⟨loc, hleads, hnode⟩ := Tree.stat_eq_ok.mp hother
          obtain rfl := h.place hempty htree hr hleads (by simp [htype])
          rcases h.entry htree hr hroot hnode with ⟨hv, -⟩ | ⟨hv, -⟩ | ⟨⟨c, hv⟩, -⟩ <;> cases hv
        obtain ⟨loc, hleads, hnode⟩ := Tree.stat_eq_ok.mp hstat
        obtain rfl := hkept.place hempty htree hr hleads (by simp [htype])
        exact ⟨.file (content r), by simp [entryOf, htype], hnode⟩
      · cases hcontent htype _ hstored
  | unknown =>
      simp only [htype] at hwith

theorem Kept.leak (h : Kept dir d₁ rows d) (hempty : EmptyDir (components restoreDir) dir d₁)
    (hdir : isAbs restoreDir = true) (htree : TreeLike rows) {leak : Leak} (hr : leak.item ∈ rows)
    (htype : leak.item.props.type = .file) :
    Kept dir d₁ rows (leak.into restoreDir d) ∧ ∀ loc, loc ≠ dir ++ components leak.item.localPath →
      (leak.into restoreDir d).tree.node loc = d.tree.node loc := by
  have hclean := htree.clean _ hr
  unfold Leak.into
  rw [components_mapPathIntoRestoreDir hdir hclean]
  refine ⟨h.save hempty hr hclean htype ?_ leak.part, fun loc hloc => h.node_save hempty htree hr htype _ hloc⟩
  exact fun way hne hway => h.clear htree hr hne hway fun _ => by simp [htype]

theorem Kept.leaks {leaks : List Leak} (h : Kept dir d₁ rows d) (hempty : EmptyDir (components restoreDir) dir d₁)
    (hdir : isAbs restoreDir = true) (htree : TreeLike rows)
    (hleaks : ∀ leak ∈ leaks, leak.item ∈ rows ∧ leak.item.props.type = .file) :
    Kept dir d₁ rows (leaks.foldl (Leak.into restoreDir) d) ∧
      ∀ loc, (∀ leak ∈ leaks, loc ≠ dir ++ components leak.item.localPath) →
        (leaks.foldl (Leak.into restoreDir) d).tree.node loc = d.tree.node loc := by
  induction leaks generalizing d with
  | nil => exact ⟨h, fun _ _ => rfl⟩
  | cons leak leaks ih =>
      obtain ⟨hr, htype⟩ := hleaks leak List.mem_cons_self
      obtain ⟨hnext, hsame⟩ := h.leak hempty hdir htree hr htype
      obtain ⟨hkept, hframe⟩ := ih hnext fun leak' hleak' => hleaks leak' (List.mem_cons_of_mem leak hleak')
      refine ⟨hkept, fun loc hloc => ?_⟩
      rw [List.foldl_cons, hframe loc fun leak' hleak' => hloc leak' (List.mem_cons_of_mem leak hleak'),
        hsame loc (hloc leak List.mem_cons_self)]

def finalDisk (passes : List Pass) (d : Disk Bytes) : Disk Bytes := (passes.getLast?.map Pass.after).getD d

@[simp] theorem finalDisk_nil (d : Disk Bytes) : finalDisk [] d = d := rfl

@[simp] theorem finalDisk_cons (pass : Pass) (passes : List Pass) (d : Disk Bytes) :
    finalDisk (pass :: passes) d = finalDisk passes pass.after := by
  cases passes <;> simp [finalDisk, List.getLast?_cons]

/-- The downloads that go on before the passes are those of files, and no longer when
a pass has restored the file. -/
structure InTime (rows : List RemoteFile) (leaks : RemoteFile → List Leak) (passes : List Pass) : Prop where
  files : ∀ pass ∈ passes, ∀ leak ∈ leaks pass.item, leak.item ∈ rows ∧ leak.item.props.type = .file
  failed : passes.Pairwise fun before pass => ∀ leak ∈ leaks pass.item, leak.item = before.item →
    before.outcome = .failed

/-- What the loop does to the disk: the rows of its items are written, and those whose
downloads go on, and nothing else that is there; and what is done is there in the end. -/
structure Looped (content : RemoteFile → Bytes) (dir : Names) (d₁ : Disk Bytes) (rows items : List RemoteFile)
    (leaks : RemoteFile → List Leak) (passes : List Pass) (d d' : Disk Bytes) : Prop where
  kept : Kept dir d₁ rows d'
  frame : ∀ loc, d.tree.node loc ≠ none →
    (∀ r ∈ items, r.deleteMarker = false → loc ≠ dir ++ components r.localPath) →
    (∀ pass ∈ passes, ∀ leak ∈ leaks pass.item, loc ≠ dir ++ components leak.item.localPath) →
      d'.tree.node loc = d.tree.node loc
  done : ∀ pass ∈ passes, ∀ written, pass.outcome = .done written → Has content dir pass.item d'
  abandoned : ∀ r ∈ abandonedBy passes, r ∈ rows ∧ r.props.type = .file

theorem Looped.nil {leaks : RemoteFile → List Leak} {items : List RemoteFile} (h : Kept dir d₁ rows d) :
    Looped content dir d₁ rows items leaks [] d d :=
  ⟨h, fun _ _ _ _ => rfl, fun _ hpass => absurd hpass List.not_mem_nil, fun _ hr => absurd hr List.not_mem_nil⟩

theorem restoreLoopWith_looped {cond : RemoteFile → Conditions} {leaks : RemoteFile → List Leak}
    {items : List RemoteFile} (hempty : EmptyDir (components restoreDir) dir d₁) (hdir : isAbs restoreDir = true)
    (htree : TreeLike rows)
    (hcontent : ∀ r ∈ rows, r.props.type = .file → ∀ w, stored C st b r = .ok w → w = some (content r))
    (hnodup : items.Nodup) (hitems : ∀ r ∈ items, r.deleteMarker = false → r ∈ rows) (h : Kept dir d₁ rows d)
    (htime : InTime rows leaks (restoreLoopWith C st b restoreDir cond leaks items d)) :
    Looped content dir d₁ rows items leaks (restoreLoopWith C st b restoreDir cond leaks items d) d
      (finalDisk (restoreLoopWith C st b restoreDir cond leaks items d) d) := by
  induction items generalizing d with
  | nil => exact .nil h
  | cons item items ih =>
      obtain ⟨hitem, hnodup⟩ := List.nodup_cons.mp hnodup
      have hitems' : ∀ r ∈ items, r.deleteMarker = false → r ∈ rows := fun r hr =>
        hitems r (List.mem_cons_of_mem item hr)
      rw [restoreLoopWith] at htime ⊢
      split
      · exact .nil h
      · rename_i hctx
        rw [if_neg hctx] at htime
        split
        · rename_i hmarker
          rw [if_pos hmarker] at htime
          obtain ⟨hkept, hframe, hdone, habandoned⟩ := ih hnodup hitems' h htime
          exact ⟨hkept, fun loc hne hloc => hframe loc hne fun r hr => hloc r (List.mem_cons_of_mem item hr), hdone,
            habandoned⟩
        · rename_i hmarker
          rw [if_neg hmarker] at htime
          have hmarker : item.deleteMarker = false := by simpa using hmarker
          have hr : item ∈ rows := hitems item List.mem_cons_self hmarker
          obtain ⟨hfiles, hpairs⟩ := htime
          obtain ⟨hleaked, hleakFrame⟩ := h.leaks hempty hdir htree (hfiles _ List.mem_cons_self)
          obtain ⟨hafter, hpairs⟩ := List.pairwise_cons.mp hpairs
          dsimp only at hleaked hleakFrame hafter hpairs hfiles ⊢
          generalize (leaks item).foldl (Leak.into restoreDir) d = d₂ at hleaked hleakFrame hafter hpairs hfiles ⊢
          have hnext := hleaked.restoreInto hempty hdir htree hr hmarker C st b (cond item)
          have hplace : ∀ loc, d₂.tree.node loc ≠ none → loc ≠ dir ++ components item.localPath →
              (Restore.restoreInto C st b restoreDir (cond item) item d₂).2.tree.node loc = d₂.tree.node loc :=
            fun loc => hleaked.node_restoreInto hempty hdir htree hr hmarker (cond item)
          have hhas : ∀ written, (Restore.restoreInto C st b restoreDir (cond item) item d₂).1 = .done written →
              Has content dir item (Restore.restoreInto C st b restoreDir (cond item) item d₂).2 :=
            fun written hout => hleaked.done hempty hdir htree hr hmarker (hcontent item hr) (Prod.ext hout rfl)
          have hcancelled := @restoreInto_cancelled C st b restoreDir (cond item) item d₂
          rw [finalDisk_cons]
          generalize Restore.restoreInto C st b restoreDir (cond item) item d₂ = result at *
          split
          · -- the loop ends here
            rename_i hend
            refine ⟨hnext, fun loc hne hloc hleaks => ?_, ?_, ?_⟩
            · have hsame := hleakFrame loc (hleaks _ List.mem_cons_self)
              exact (hplace loc (by rwa [hsame]) (hloc item List.mem_cons_self hmarker)).trans hsame
            · intro pass hpass written hout
              rw [List.mem_singleton.mp hpass] at hout ⊢
              exact hhas written hout
            · intro r hmem
              rw [abandonedBy, List.filter_cons_of_pos (by simpa using hend)] at hmem
              obtain rfl : r = item := by simpa using hmem
              exact ⟨hr, hcancelled hend⟩
          · rename_i hgoes
            rw [if_neg hgoes] at hafter hpairs hfiles
            obtain ⟨hkept, hframe, hdone, habandoned⟩ := ih hnodup hitems' hnext
              ⟨fun pass hpass => hfiles pass (List.mem_cons_of_mem _ hpass), hpairs⟩
            refine ⟨hkept, ?_, ?_, ?_⟩
            · intro loc hne hloc hleaks
              have hsame := hleakFrame loc (hleaks _ List.mem_cons_self)
              have hsame' := (hplace loc (by rwa [hsame]) (hloc item List.mem_cons_self hmarker)).trans hsame
              rw [hframe loc (by rwa [hsame']) (fun r hr => hloc r (List.mem_cons_of_mem item hr))
                fun pass hpass => hleaks pass (List.mem_cons_of_mem _ hpass), hsame']
            · intro pass hpass written hout
              rcases List.mem_cons.mp hpass with rfl | hpass
              · obtain ⟨v, hv, hnode⟩ := hhas written hout
                refine ⟨v, hv, ?_⟩
                rw [hframe _ (by rw [hnode]; simp), hnode]
                · -- the other items have other places
                  intro r hr' hlive heq
                  have hsame := htree.eq_of_components hr (hitems' r hr' hlive) (List.append_cancel_left heq)
                  exact hitem (hsame ▸ hr')
                · -- and what goes on later is not the download of this one
                  intro later hlater leak hleak heq
                  obtain ⟨hleakRow, -⟩ := hfiles later (List.mem_cons_of_mem _ hlater) leak hleak
                  have hsame := htree.eq_of_components hr hleakRow (List.append_cancel_left heq)
                  have hfailed := hafter later hlater leak hleak hsame.symm
                  cases hfailed.symm.trans hout
              · exact hdone pass hpass written hout
            · intro r hmem
              rw [abandonedBy, List.filter_cons_of_neg (by simpa using hgoes)] at hmem
              exact habandoned r hmem

end

/-! ### The manifest -/

/-- The manifest has rows that the request selects, each once; and all of them, once it
is written. -/
structure Manifested (selected : List RemoteFile) (files : List RestoreFile) : Prop where
  rows : ∀ f ∈ files, f.row ∈ selected
  uuids : (files.map (·.row.uuid)).Nodup
  whole : files = [] ∨ ∀ r ∈ selected, r.uuid ∈ files.map (·.row.uuid)

section

variable {selected rows : List RemoteFile} {files : List RestoreFile}

theorem subset_insertManifest (rows : List RemoteFile) (files : List RestoreFile) :
    files ⊆ rows.foldl insertManifestRow files := by
  induction rows generalizing files with
  | nil => exact List.Subset.refl files
  | cons row rows ih =>
      refine List.Subset.trans ?_ (ih (insertManifestRow files row))
      unfold insertManifestRow
      split
      · exact List.Subset.refl files
      · exact List.subset_append_left files _

theorem mem_insertManifest {f : RestoreFile} (hf : f ∈ rows.foldl insertManifestRow files) :
    f ∈ files ∨ f.row ∈ rows ∧ f.state = .pending := by
  induction rows generalizing files with
  | nil => exact .inl hf
  | cons row rows ih =>
      rcases ih hf with hf | ⟨hrow, hstate⟩
      · unfold insertManifestRow at hf
        split at hf
        · exact .inl hf
        · rcases List.mem_append.mp hf with hf | hf
          · exact .inl hf
          · obtain rfl := List.mem_singleton.mp hf
            exact .inr ⟨List.mem_cons_self, rfl⟩
      · exact .inr ⟨List.mem_cons_of_mem row hrow, hstate⟩

theorem nodup_insertManifest (h : (files.map (·.row.uuid)).Nodup) (rows : List RemoteFile) :
    ((rows.foldl insertManifestRow files).map (·.row.uuid)).Nodup := by
  induction rows generalizing files with
  | nil => exact h
  | cons row rows ih => exact ih (nodup_insertManifestRow h row)

theorem mem_setState {f : RestoreFile} {uuid : Str} {state : FileState} (hf : f ∈ setState uuid state files) :
    f.row.uuid = uuid ∧ f.state = state ∧ (∃ f' ∈ files, f'.row = f.row) ∨ f ∈ files := by
  obtain ⟨f', hf', rfl⟩ := List.mem_map.mp hf
  by_cases huuid : f'.row.uuid = uuid
  · rw [if_pos huuid]
    exact .inl ⟨huuid, rfl, f', hf', rfl⟩
  · rw [if_neg huuid]
    exact .inr hf'

theorem Manifested.eq_of_uuid (h : Manifested selected files) {f f' : RestoreFile} (hf : f ∈ files)
    (hf' : f' ∈ files) (huuid : f.row.uuid = f'.row.uuid) : f = f' :=
  List.inj_on_of_nodup_map h.uuids hf hf' huuid

theorem Manifested.nodup_loadPendingManifest (h : Manifested selected files) :
    (loadPendingManifest files).Nodup := by
  have hrows : (files.map RestoreFile.row).Nodup := by
    refine List.Nodup.of_map RemoteFile.uuid ?_
    rw [List.map_map]
    exact h.uuids
  exact (List.perm_insertionSort _ _).nodup_iff.mpr (hrows.sublist (List.filter_sublist.map RestoreFile.row))

theorem Manifested.apply (h : Manifested selected files) {e : Effect} {s : Stored} (hs : s.restoreFiles = files)
    (he : ∀ rows, e = .insertManifest rows → rows = selected) : Manifested selected (e.apply s).restoreFiles := by
  subst hs
  cases e with
  | insertManifest rows =>
      obtain rfl := he rows rfl
      refine ⟨?_, nodup_insertManifest h.uuids rows, .inr (mem_manifest_insert rows s.restoreFiles)⟩
      intro f hf
      rcases mem_insertManifest hf with hf | ⟨hrow, -⟩
      · exact h.rows f hf
      · exact hrow
  | setFileState uuid state =>
      refine ⟨?_, ?_, ?_⟩
      · intro f hf
        rcases mem_setState hf with ⟨-, -, f', hf', hrow⟩ | hf
        · exact hrow ▸ h.rows f' hf'
        · exact h.rows f hf
      · rw [Effect.apply, map_uuid_setState]
        exact h.uuids
      · rcases h.whole with hnil | hall
        · exact .inl (by rw [Effect.apply, hnil]; rfl)
        · refine .inr fun r hr => ?_
          rw [Effect.apply, map_uuid_setState]
          exact hall r hr
  | insertJob => exact h
  | initCounterRow => exact h
  | updateJobState state => exact h
  | bumpCounter name n => exact h
  | updateJobFinal state => exact h
  | incrementCounter name => exact h
  | seedCounters counters => exact h

theorem Manifested.applyAll {effects : List Effect} {s : Stored} (h : Manifested selected s.restoreFiles)
    (heffects : ∀ rows, Effect.insertManifest rows ∈ effects → rows = selected) :
    Manifested selected (applyAll effects s).restoreFiles := by
  induction effects generalizing s with
  | nil => exact h
  | cons e effects ih =>
      exact ih (h.apply rfl fun rows hrows => heffects rows (hrows ▸ List.mem_cons_self)) fun rows hrows =>
        heffects rows (List.mem_cons_of_mem e hrows)

/-- A row is marked as done by an effect, or was so before. -/
theorem done_of_applyAll {effects : List Effect} {s : Stored} {f : RestoreFile}
    (hf : f ∈ (Restore.applyAll effects s).restoreFiles) (hdone : f.state = .done) :
    f ∈ s.restoreFiles ∨ .setFileState f.row.uuid .done ∈ effects := by
  induction effects generalizing s with
  | nil => exact .inl hf
  | cons e effects ih =>
      rcases ih hf with hbefore | hmem
      · cases e with
        | insertManifest rows =>
            rcases mem_insertManifest hbefore with hbefore | ⟨-, hpending⟩
            · exact .inl hbefore
            · rw [hpending] at hdone
              cases hdone
        | setFileState uuid state =>
            rcases mem_setState hbefore with ⟨rfl, rfl, -⟩ | hbefore
            · exact .inr (hdone ▸ List.mem_cons_self)
            · exact .inl hbefore
        | insertJob => exact .inl hbefore
        | initCounterRow => exact .inl hbefore
        | updateJobState state => exact .inl hbefore
        | bumpCounter name n => exact .inl hbefore
        | updateJobFinal state => exact .inl hbefore
        | incrementCounter name => exact .inl hbefore
        | seedCounters counters => exact .inl hbefore
      · exact .inr (List.mem_cons_of_mem e hmem)

variable {env : Env} {s : Stored}

theorem mem_initRestoreJob {e : Effect} (he : e ∈ (initRestoreJob selected env s).1.flatten) :
    e = .insertManifest selected ∨ e.inProcess = true ∧ (∀ uuid state, e ≠ .setFileState uuid state) ∨
      e = .insertJob ∨ e = .initCounterRow := by
  unfold initRestoreJob at he
  split at he
  · split at he
    · cases he
    · split at he
      · simp_all
      · split at he
        · simp at he
          rcases he with rfl | rfl <;> simp
        · simp at he
          rcases he with rfl | rfl | rfl <;> simp
  · split at he
    · cases he
    · split at he
      · simp at he
        simp [he, Effect.inProcess]
      · simp at he
        rcases he with rfl | rfl <;> simp [Effect.inProcess]

theorem setDone_mem_processItem {item : RemoteFile} {uuid : Str}
    (h : Effect.setFileState uuid .done ∈ processItem env item) :
    uuid = item.uuid ∧ item.deleteMarker = false ∧ ∃ written, env.outcome item = .done written := by
  have hattempt : ∀ {e : Effect}, Effect.setFileState uuid .done ∈ env.attempt item e → e = .setFileState uuid .done :=
    fun hmem => (mem_attempt hmem).symm
  unfold processItem at h
  split at h
  · simp only [List.mem_append, List.mem_singleton] at h
    rcases h with (h | h) | h
    · cases h
    · cases hattempt h
    · cases hattempt h
  · rename_i hmarker
    rcases List.mem_append.mp h with h | h
    · cases hattempt h
    · split at h
      · rename_i written houtcome
        simp only [List.mem_append] at h
        rcases h with (h | h) | h
        · simp [countDone] at h
        · cases hattempt h
          exact ⟨rfl, by simpa using hmarker, written, houtcome⟩
        · unfold bumpDone at h
          split at h
          · cases h
          · rcases List.mem_append.mp h with h | h
            · cases hattempt h
            · split at h
              · cases hattempt h
              · cases h
      · simp only [List.mem_append, List.mem_singleton] at h
        rcases h with (h | h) | h
        · cases h
        · cases hattempt h
        · cases hattempt h
      · cases h

theorem insert_mem_jobScript (h : Effect.insertManifest rows ∈ (jobScript selected env s).flatten) :
    rows = selected := by
  have hfinalize : ∀ state, Effect.insertManifest rows ∉ (finalize env state).flatten := by
    intro state
    unfold finalize
    split <;> simp
  have hinit : Effect.insertManifest rows ∈ (initRestoreJob selected env s).1.flatten → rows = selected := by
    intro hmem
    rcases mem_initRestoreJob hmem with heq | ⟨heq, -⟩ | heq | heq
    · cases heq
      rfl
    · cases heq
    · cases heq
    · cases heq
  unfold jobScript at h
  split at h
  · split at h
    · exact absurd h (hfinalize _)
    · cases h
  · rw [List.flatten_append, List.mem_append] at h
    rcases h with h | h
    · unfold doRestore at h
      dsimp only at h
      split at h
      · exact hinit h
      · split at h
        · exact hinit h
        · rw [List.flatten_append, List.mem_append] at h
          rcases h with h | h
          · exact hinit h
          · cases processItems_inProcess env _ _ _ h
    · exact absurd h (hfinalize _)

/-- A run that marks a row as done has got to its loop, and has restored the row. -/
theorem setDone_mem_jobScript {uuid : Str}
    (h : Effect.setFileState uuid .done ∈ (jobScript selected env s).flatten) :
    ∃ item ∈ loadPendingManifest (Restore.applyAll (initRestoreJob selected env s).1.flatten s).restoreFiles,
      item.uuid = uuid ∧ item.deleteMarker = false ∧ ∃ written, env.outcome item = .done written := by
  have hfinalize : ∀ state, Effect.setFileState uuid .done ∉ (finalize env state).flatten := by
    intro state
    unfold finalize
    split <;> simp
  have hinit : Effect.setFileState uuid .done ∉ (initRestoreJob selected env s).1.flatten := by
    intro hmem
    rcases mem_initRestoreJob hmem with heq | ⟨-, hne⟩ | heq | heq
    · cases heq
    · exact hne _ _ rfl
    · cases heq
    · cases heq
  unfold jobScript at h
  split at h
  · split at h
    · exact absurd h (hfinalize _)
    · cases h
  · rw [List.flatten_append, List.mem_append] at h
    replace h := h.resolve_right (hfinalize _)
    unfold doRestore at h
    dsimp only at h
    split at h
    · exact absurd h hinit
    · split at h
      · exact absurd h hinit
      · rw [List.flatten_append, List.mem_append] at h
        have hloop := h.resolve_left hinit
        rw [processItems_fst] at hloop
        obtain ⟨group, hgroup, hset⟩ := List.mem_flatten.mp hloop
        obtain ⟨item, hitem, rfl⟩ := List.mem_map.mp hgroup
        obtain ⟨rfl, hmarker, hdone⟩ := setDone_mem_processItem hset
        exact ⟨item, (reachedItems_sublist env _).subset hitem, rfl, hmarker, hdone⟩

end

/-! ### The life of a job -/

/-- What one run meets outside of the program. What comes of `restoreOne` is not part of
it: that depends on the disk. `mkdirs` is for a run that fails before its loop, and has
made the restore directory by then; `leaks` is what goes on before the pass of a row. -/
structure Encounter where
  env : Env
  mkdirs : Bool
  st : Store
  b : Bucket
  cond : RemoteFile → Conditions
  leaks : RemoteFile → List Leak

/-- A job with its tables, the disk that it is restored to, and the files whose
downloads its runs have left alone. -/
structure Life where
  stored : Stored
  disk : Disk Bytes
  abandoned : List RemoteFile

/-- A step in the life of a job, with what it meets. -/
inductive LifeEvent
  | start (m : Encounter)
  | resume (m : Encounter)
  | restart (queryOk : Bool)
  | leak (leak : Leak)

def outcomeIn (passes : List Pass) (item : RemoteFile) : Outcome :=
  ((passes.find? (·.item = item)).map Pass.outcome).getD .cancelled

section

variable (C : Cloud) (restoreDir : Str) (selected : List RemoteFile)

def Encounter.passes (m : Encounter) (s : Stored) (d : Disk Bytes) : List Pass :=
  if m.env.bringUp = .ok ∧ (initRestoreJob selected m.env s).2 = true ∧ m.env.loadOk = true then
    match d.mkdirAll (components restoreDir) with
    | (some _, _) => []
    | (none, d) =>
        restoreLoopWith C m.st m.b restoreDir m.cond m.leaks
          (loadPendingManifest (applyAll (initRestoreJob selected m.env s).1.flatten s).restoreFiles) d
  else []

/-- The disk after a run. If the process dies, those passes that it has no time for are
cancelled by the conditions of the encounter. -/
def Encounter.diskAfterRun (m : Encounter) (s : Stored) (d : Disk Bytes) : Disk Bytes :=
  if m.env.bringUp = .ok ∨ m.mkdirs = true then
    finalDisk (m.passes C restoreDir selected s d) (d.mkdirAll (components restoreDir)).2
  else d

def Encounter.envOn (m : Encounter) (s : Stored) (d : Disk Bytes) : Env :=
  { m.env with
    bringUp := if m.env.bringUp = .ok ∧ (d.mkdirAll (components restoreDir)).1 ≠ none then .failed true
      else m.env.bringUp
    ctxDone := fun item => (m.cond item).ctxDone
    outcome := outcomeIn (m.passes C restoreDir selected s d) }

def NotDone (files : List RestoreFile) (r : RemoteFile) : Prop := ∀ f ∈ files, f.row = r → f.state ≠ .done

/-- Before a pass only such downloads go on as were left alone before the run, and whose
rows are not done by then: not in the manifest, and not by a pass of the run. -/
def Encounter.InTime (m : Encounter) (s : Stored) (d : Disk Bytes) (abandoned : List RemoteFile) : Prop :=
  (∀ pass ∈ m.passes C restoreDir selected s d, ∀ leak ∈ m.leaks pass.item,
    leak.item ∈ abandoned ∧ NotDone s.restoreFiles leak.item) ∧
  (m.passes C restoreDir selected s d).Pairwise fun before pass => ∀ leak ∈ m.leaks pass.item,
    leak.item = before.item → before.outcome = .failed

/-- The downloads that are left alone end with the process. -/
def lifeStep : LifeEvent → Life → Life
  | .start m, l =>
      let s := markRestoreRunning l.stored
      ⟨step selected (.start (m.envOn C restoreDir selected s l.disk)) l.stored,
        m.diskAfterRun C restoreDir selected s l.disk,
        abandonedBy (m.passes C restoreDir selected s l.disk) ++ l.abandoned⟩
  | .resume m, l =>
      let s := markRestoreRunning l.stored
      let stored := step selected (.resume (m.envOn C restoreDir selected s l.disk)) l.stored
      if m.env.opening = .ok ∧ s.jobs.any JobState.isResumable = true then
        ⟨stored, m.diskAfterRun C restoreDir selected s l.disk,
          abandonedBy (m.passes C restoreDir selected s l.disk) ++ l.abandoned⟩
      else ⟨stored, l.disk, l.abandoned⟩
  | .restart queryOk, l => ⟨step selected (.restart queryOk) l.stored, l.disk, []⟩
  | .leak late, l => { l with disk := late.into restoreDir l.disk }

/-- A download that was left alone changes its file no more once that is done. -/
def LifeEvent.InTime : LifeEvent → Life → Prop
  | .start m, l => m.InTime C restoreDir selected (markRestoreRunning l.stored) l.disk l.abandoned
  | .resume m, l => m.InTime C restoreDir selected (markRestoreRunning l.stored) l.disk l.abandoned
  | .restart _, _ => True
  | .leak late, l => late.item ∈ l.abandoned ∧ NotDone l.stored.restoreFiles late.item

variable (content : RemoteFile → Bytes)

/-- What the store returns for the file of a row is its content. -/
def Encounter.faithful (m : Encounter) : Prop :=
  ∀ r ∈ liveRows selected, r.props.type = .file → ∀ w, stored C m.st m.b r = .ok w → w = some (content r)

/-- The store returns the content of a file, or an error. -/
def LifeEvent.faithful : LifeEvent → Prop
  | .start m => m.faithful C selected content
  | .resume m => m.faithful C selected content
  | .restart _ => True
  | .leak _ => True

/-- How far a job has come: the directory is a part of the tree of its rows, and the
rows that are done have their entries. What goes on are the files of rows. -/
structure Progress (dir : Names) (d₀ d₁ : Disk Bytes) (l : Life) : Prop where
  manifest : Manifested selected l.stored.restoreFiles
  disk : l.disk = d₀ ∧ l.abandoned = [] ∨ Kept dir d₁ (liveRows selected) l.disk
  done : ∀ f ∈ l.stored.restoreFiles, f.state = .done →
    f.row.deleteMarker = false ∧ Has content dir f.row l.disk
  abandoned : ∀ r ∈ l.abandoned, r ∈ liveRows selected ∧ r.props.type = .file

end

section

variable {C : Cloud} {restoreDir : Str} {selected : List RemoteFile} {content : RemoteFile → Bytes} {dir : Names}
  {d₀ d₁ d : Disk Bytes} {m : Encounter} {s : Stored} {abandoned : List RemoteFile}

theorem exists_pass_of_outcomeIn {passes : List Pass} {item : RemoteFile} {written : Option Bytes}
    (h : outcomeIn passes item = .done written) :
    ∃ pass ∈ passes, pass.item = item ∧ pass.outcome = .done written := by
  unfold outcomeIn at h
  cases hfind : passes.find? (·.item = item) with
  | none => simp [hfind] at h
  | some pass =>
      refine ⟨pass, List.mem_of_find?_eq_some hfind, by simpa using List.find?_some hfind, ?_⟩
      simpa [hfind] using h

/-- A run that no download disturbs does what `Do` does on its own. -/
theorem Encounter.passes_eq (hleaks : m.leaks = fun _ => []) : m.passes C restoreDir selected s d =
    if m.env.bringUp = .ok ∧ (initRestoreJob selected m.env s).2 = true ∧ m.env.loadOk = true then
      restoreFiles C m.st m.b restoreDir m.cond
        (applyAll (initRestoreJob selected m.env s).1.flatten s).restoreFiles d
    else [] := by
  unfold Encounter.passes restoreFiles
  rw [hleaks]
  rcases d.mkdirAll (components restoreDir) with ⟨_ | e, d'⟩
  · dsimp only
    rw [restoreLoopWith_nil]
  · rfl

/-- What is in a manifest before the loop was there, or is pending. -/
theorem initRestoreJob_restoreFiles (selected : List RemoteFile) (env : Env) (s : Stored) :
    (applyAll (initRestoreJob selected env s).1.flatten s).restoreFiles = s.restoreFiles ∨
      (applyAll (initRestoreJob selected env s).1.flatten s).restoreFiles =
        selected.foldl insertManifestRow s.restoreFiles := by
  unfold initRestoreJob
  split
  · split
    · exact .inl rfl
    · split
      · exact .inl rfl
      · split
        · exact .inl rfl
        · exact .inr rfl
  · split
    · exact .inl rfl
    · split <;> exact .inl rfl

theorem kept_mkdirAll {rows : List RemoteFile} (hmkdir : d₀.mkdirAll (components restoreDir) = (none, d₁))
    (hempty : EmptyDir (components restoreDir) dir d₁) (h : d = d₀ ∨ Kept dir d₁ rows d) :
    ∃ d', d.mkdirAll (components restoreDir) = (none, d') ∧ Kept dir d₁ rows d' := by
  rcases h with rfl | hkept
  · exact ⟨d₁, hmkdir, (Kept.start hempty).mono (by simp)⟩
  · obtain ⟨hleads, hnode⟩ := hkept.leads hempty
    exact ⟨d, Disk.mkdirAll_of_dir (Tree.stat_eq_ok.mpr ⟨dir, hleads, hnode⟩), hkept⟩

theorem manifested_initRestoreJob (h : Manifested selected s.restoreFiles) (env : Env) :
    Manifested selected (applyAll (initRestoreJob selected env s).1.flatten s).restoreFiles := by
  refine h.applyAll fun rows hrows => ?_
  rcases mem_initRestoreJob hrows with heq | ⟨heq, -⟩ | heq | heq
  · cases heq
    rfl
  · cases heq
  · cases heq
  · cases heq

theorem Progress.congr {l : Life} (h : Progress selected content dir d₀ d₁ l) {s : Stored}
    (hs : s.restoreFiles = l.stored.restoreFiles) :
    Progress selected content dir d₀ d₁ ⟨s, l.disk, l.abandoned⟩ where
  manifest := hs ▸ h.manifest
  disk := h.disk
  done := fun f hf => h.done f (hs ▸ hf)
  abandoned := h.abandoned

/-- A download that goes on reaches no row that is done. -/
theorem Progress.leak {l : Life} (h : Progress selected content dir d₀ d₁ l)
    (hempty : EmptyDir (components restoreDir) dir d₁) (hdir : isAbs restoreDir = true)
    (htree : TreeLike (liveRows selected)) {leak : Leak} (hleak : leak.item ∈ l.abandoned)
    (hpending : NotDone l.stored.restoreFiles leak.item) :
    Progress selected content dir d₀ d₁ { l with disk := leak.into restoreDir l.disk } := by
  obtain ⟨hr, htype⟩ := h.abandoned _ hleak
  rcases h.disk with ⟨-, hnone⟩ | hkept
  · rw [hnone] at hleak
    cases hleak
  · obtain ⟨hafter, hframe⟩ := hkept.leak hempty hdir htree hr htype
    refine ⟨h.manifest, .inr hafter, fun f hf hdone => ?_, h.abandoned⟩
    obtain ⟨hmarker, v, hv, hnode⟩ := h.done f hf hdone
    refine ⟨hmarker, v, hv, ?_⟩
    rw [hframe _ fun heq => ?_, hnode]
    have hsame := htree.eq_of_components (mem_liveRows.mpr ⟨h.manifest.rows f hf, hmarker⟩) hr
      (List.append_cancel_left heq)
    exact hpending f hf hsame hdone

theorem runScript_finalize (env : Env) (state : JobState) (s : Stored) :
    (runScript env (finalize env state) s).restoreFiles = s.restoreFiles := by
  unfold runScript finalize
  split <;> split
  · rfl
  · rfl
  · rename_i n _ _
    cases n with
    | zero => rfl
    | succ n =>
        rw [List.take_of_length_le (by simp)]
        rfl
  · rw [List.flatten_nil, List.take_nil]
    rfl

section

variable (hmkdir : d₀.mkdirAll (components restoreDir) = (none, d₁))
  (hempty : EmptyDir (components restoreDir) dir d₁) (hdir : isAbs restoreDir = true)
  (htree : TreeLike (liveRows selected))

include hmkdir hempty hdir htree

/-- What a run does to the disk, if it does anything. -/
theorem Encounter.looped (hfaithful : m.faithful C selected content)
    (hmanifest : Manifested selected s.restoreFiles) (hdisk : d = d₀ ∨ Kept dir d₁ (liveRows selected) d)
    (htime : Restore.InTime (liveRows selected) m.leaks (m.passes C restoreDir selected s d)) :
    m.diskAfterRun C restoreDir selected s d = d ∧ m.passes C restoreDir selected s d = [] ∨
      Looped content dir d₁ (liveRows selected)
        (loadPendingManifest (applyAll (initRestoreJob selected m.env s).1.flatten s).restoreFiles) m.leaks
        (m.passes C restoreDir selected s d) d (m.diskAfterRun C restoreDir selected s d) := by
  obtain ⟨d', hmade, hkept⟩ := kept_mkdirAll hmkdir hempty hdisk
  have hsame : ∀ loc, d.tree.node loc ≠ none → d'.tree.node loc = d.tree.node loc := by
    intro loc hne
    have hnode := Disk.node_mkdirAll (components restoreDir) hne
    rwa [hmade] at hnode
  have hfiles := manifested_initRestoreJob hmanifest m.env
  unfold Encounter.diskAfterRun
  by_cases hrun : m.env.bringUp = .ok ∨ m.mkdirs = true
  · right
    rw [if_pos hrun, hmade]
    unfold Encounter.passes at htime ⊢
    split
    · rename_i hloops
      rw [if_pos hloops, hmade] at htime
      rw [hmade]
      dsimp only at htime ⊢
      obtain ⟨hkept', hframe, hdone, habandoned⟩ := restoreLoopWith_looped hempty hdir htree
        hfaithful hfiles.nodup_loadPendingManifest
        (fun r hr hmarker => by
          obtain ⟨f, hf, -, rfl⟩ := mem_loadPendingManifest_iff.mp hr
          exact mem_liveRows.mpr ⟨hfiles.rows f hf, hmarker⟩) hkept htime
      refine ⟨hkept', fun loc hne hloc hleaks => ?_, hdone, habandoned⟩
      rw [hframe loc (by rwa [hsame loc hne]) hloc hleaks, hsame loc hne]
    · exact ⟨hkept, fun loc hne _ _ => hsame loc hne, fun _ hpass => absurd hpass List.not_mem_nil,
        fun _ hr => absurd hr List.not_mem_nil⟩
  · left
    rw [if_neg hrun]
    refine ⟨rfl, ?_⟩
    unfold Encounter.passes
    rw [if_neg fun hloops => hrun (.inl hloops.1)]

theorem Progress.run (huuids : ∀ r ∈ selected, ∀ r' ∈ selected, r.uuid = r'.uuid → r = r')
    (hfaithful : m.faithful C selected content) (htime : m.InTime C restoreDir selected s d abandoned)
    (h : Progress selected content dir d₀ d₁ ⟨s, d, abandoned⟩)
    {effects : List Effect} (heffects : ∀ e ∈ effects,
      e ∈ (jobScript selected (m.envOn C restoreDir selected s d) s).flatten) :
    Progress selected content dir d₀ d₁ ⟨applyAll effects s, m.diskAfterRun C restoreDir selected s d,
      abandonedBy (m.passes C restoreDir selected s d) ++ abandoned⟩ := by
  have hfiles : Manifested selected (applyAll effects s).restoreFiles :=
    h.manifest.applyAll fun rows hrows => insert_mem_jobScript (heffects _ hrows)
  obtain ⟨hleaks, hfailed⟩ := htime
  have hlooped := m.looped hmkdir hempty hdir htree hfaithful h.manifest (h.disk.imp_left And.left)
    ⟨fun pass hpass leak hleak => h.abandoned _ (hleaks pass hpass leak hleak).1, hfailed⟩
  have hload := manifested_initRestoreJob h.manifest m.env
  refine ⟨hfiles, ?_, ?_, ?_⟩
  · rcases hlooped with ⟨hsame, hnone⟩ | hlooped
    · rw [hsame, hnone]
      exact h.disk
    · exact .inr hlooped.kept
  · intro f hf hdone
    rcases done_of_applyAll hf hdone with hbefore | hset
    · -- it was done before, and so it is not in the loop
      obtain ⟨hmarker, v, hv, hnode⟩ := h.done f hbefore hdone
      refine ⟨hmarker, v, hv, ?_⟩
      rcases hlooped with ⟨hsame, -⟩ | hlooped
      · rw [hsame]
        exact hnode
      · have hrow := mem_liveRows.mpr ⟨h.manifest.rows f hbefore, hmarker⟩
        rw [hlooped.frame _ (by rw [hnode]; simp), hnode]
        · intro r hr hlive heq
          obtain ⟨f', hf', hpending, rfl⟩ := mem_loadPendingManifest_iff.mp hr
          have hsame : f.row = f'.row := htree.eq_of_components hrow
            (mem_liveRows.mpr ⟨hload.rows f' hf', hlive⟩) (List.append_cancel_left heq)
          have hloaded : f ∈ (applyAll (initRestoreJob selected m.env s).1.flatten s).restoreFiles := by
            rcases initRestoreJob_restoreFiles selected m.env s with heq | heq
            · exact heq ▸ hbefore
            · exact heq ▸ subset_insertManifest selected _ hbefore
          exact hpending (hload.eq_of_uuid hf' hloaded (by rw [hsame]) ▸ hdone)
        · -- nor does its download go on
          intro pass hpass leak hleak heq
          obtain ⟨habandoned, hpending⟩ := hleaks pass hpass leak hleak
          have hsame := htree.eq_of_components hrow (h.abandoned _ habandoned).1 (List.append_cancel_left heq)
          exact hpending f hbefore hsame hdone
    · -- its pass is one of the loop
      obtain ⟨item, hitem, huuid, hmarker, written, houtcome⟩ := setDone_mem_jobScript (heffects _ hset)
      obtain ⟨pass, hpass, rfl, hout⟩ := exists_pass_of_outcomeIn houtcome
      obtain ⟨f', hf', -, hrow⟩ := mem_loadPendingManifest_iff.mp hitem
      have heq : pass.item = f.row := huuids _ (hrow ▸ hload.rows f' hf') _ (hfiles.rows f hf) huuid
      rw [← heq]
      refine ⟨hmarker, ?_⟩
      rcases hlooped with ⟨-, hnone⟩ | hlooped
      · rw [hnone] at hpass
        cases hpass
      · exact hlooped.done pass hpass written hout
  · intro r hr
    rcases List.mem_append.mp hr with hr | hr
    · rcases hlooped with ⟨-, hnone⟩ | hlooped
      · rw [hnone] at hr
        cases hr
      · exact hlooped.abandoned r hr
    · exact h.abandoned r hr

theorem Progress.runScript (huuids : ∀ r ∈ selected, ∀ r' ∈ selected, r.uuid = r'.uuid → r = r')
    (hfaithful : m.faithful C selected content) (htime : m.InTime C restoreDir selected s d abandoned)
    (h : Progress selected content dir d₀ d₁ ⟨s, d, abandoned⟩) :
    Progress selected content dir d₀ d₁
      ⟨runScript (m.envOn C restoreDir selected s d)
        (jobScript selected (m.envOn C restoreDir selected s d) s) s,
      m.diskAfterRun C restoreDir selected s d,
      abandonedBy (m.passes C restoreDir selected s d) ++ abandoned⟩ := by
  unfold Restore.runScript
  split
  · exact h.run hmkdir hempty hdir htree huuids hfaithful htime fun _ he => he
  · exact (h.run hmkdir hempty hdir htree huuids hfaithful htime fun _ he => List.mem_of_mem_take he).congr rfl

theorem Progress.lifeStep (huuids : ∀ r ∈ selected, ∀ r' ∈ selected, r.uuid = r'.uuid → r = r') {ev : LifeEvent}
    {l : Life} (h : Progress selected content dir d₀ d₁ l) (hfaithful : ev.faithful C selected content)
    (htime : ev.InTime C restoreDir selected l) :
    Progress selected content dir d₀ d₁ (lifeStep C restoreDir selected ev l) := by
  have hrunning : Progress selected content dir d₀ d₁ ⟨markRestoreRunning l.stored, l.disk, l.abandoned⟩ := h.congr rfl
  cases ev with
  | start m => exact hrunning.runScript hmkdir hempty hdir htree huuids hfaithful htime
  | resume m =>
      have hrun := hrunning.runScript hmkdir hempty hdir htree huuids hfaithful htime
      have hopening : (m.envOn C restoreDir selected (markRestoreRunning l.stored) l.disk).opening =
        m.env.opening := rfl
      unfold Restore.lifeStep step
      dsimp only
      rw [hopening]
      cases hopen : m.env.opening with
      | failed =>
          simp only [reduceCtorEq, false_and, if_false]
          exact hrunning.congr (runScript_finalize _ _ _)
      | fetchFailed =>
          simp only [reduceCtorEq, false_and, if_false]
          exact hrunning
      | ok =>
          by_cases hresumable : (markRestoreRunning l.stored).jobs.any JobState.isResumable = true
          · simp only [hresumable, if_true, and_self]
            exact hrun
          · simp only [hresumable]
            exact hrunning
  | restart queryOk =>
      exact ⟨h.manifest, h.disk.imp_left fun hsame => ⟨hsame.1, rfl⟩, h.done, fun _ hr => absurd hr List.not_mem_nil⟩
  | leak leak => exact h.leak hempty hdir htree htime.1 htime.2

end

end

/-! ### The tree that is restored -/

/-- All rows that can be restored are marked as done. -/
def AllDone (selected : List RemoteFile) (files : List RestoreFile) : Prop :=
  ∀ r ∈ liveRows selected, ∃ f ∈ files, f.row = r ∧ f.state = .done

section

variable {selected : List RemoteFile} {content : RemoteFile → Bytes} {dir : Names}
  {d₀ d₁ : Disk Bytes} {l : Life}

/-- If all rows are done, the directory is the tree of the rows. -/
theorem Progress.node_eq (h : Progress selected content dir d₀ d₁ l) (hgrows : d₀.Grows d₁)
    (hstart : ∀ way, way ≠ [] → d₁.tree.node (dir ++ way) = none)
    (hdone : AllDone selected l.stored.restoreFiles) {way : Names} (hway : way ≠ []) :
    l.disk.tree.node (dir ++ way) = treeOf content (liveRows selected) way := by
  have hhas : ∀ r ∈ liveRows selected, Has content dir r l.disk := by
    intro r hr
    obtain ⟨f, hf, rfl, hstate⟩ := hdone r hr
    exact (h.done f hf hstate).2
  unfold treeOf
  split
  · rename_i r hfind
    obtain ⟨v, hv, hnode⟩ := hhas r (List.mem_of_find?_eq_some hfind)
    have hcomponents : components r.localPath = way := by simpa using List.find?_some hfind
    rw [hv, ← hcomponents, hnode]
  · rename_i hfind
    have hother : ∀ r ∈ liveRows selected, components r.localPath ≠ way := by simpa using hfind
    split
    · rename_i hprefix
      obtain ⟨r, hr, hpre⟩ := List.any_eq_true.mp hprefix
      obtain ⟨below, hbelow⟩ := List.isPrefixOf_iff_prefix.mp hpre
      obtain ⟨v, -, hnode⟩ := hhas r hr
      have hne : below ≠ [] := fun hnil => hother r hr (by rw [← hbelow, hnil, List.append_nil])
      exact Tree.node_of_append hne (by rw [List.append_assoc, hbelow, hnode]; simp)
    · rename_i hprefix
      by_contra hne
      obtain ⟨v, hv⟩ := Option.ne_none_iff_exists'.mp hne
      have hrow : ∀ r ∈ liveRows selected, ¬ way <+: components r.localPath := fun r hr hpre =>
        hprefix (List.any_eq_true.mpr ⟨r, hr, List.isPrefixOf_iff_prefix.mpr hpre⟩)
      rcases h.disk with ⟨hsame, -⟩ | hkept
      · -- nothing has been restored, and nothing was there
        rw [hsame] at hne
        rcases hgrows.keeps (dir ++ way) hne with heq | ⟨-, hfile⟩
        · exact hne (heq.symm.trans (hstart way hway))
        · rw [hstart way hway] at hfile
          cases hfile
      · rcases hkept.inside way hway v hv with ⟨hs, -, hpre, -⟩ | ⟨hs, -, -, heq⟩ | ⟨hs, -, heq, -⟩
        · exact hrow _ hs hpre
        · exact hother _ hs heq
        · exact hother _ hs heq

theorem progress_of_reaches {C : Cloud} {restoreDir : Str} (hmkdir : d₀.mkdirAll (components restoreDir) = (none, d₁))
    (hempty : EmptyDir (components restoreDir) dir d₁) (hdir : isAbs restoreDir = true)
    (htree : TreeLike (liveRows selected))
    (huuids : ∀ r ∈ selected, ∀ r' ∈ selected, r.uuid = r'.uuid → r = r')
    (hlife : Reaches (fun ev l => ev.faithful C selected content ∧ ev.InTime C restoreDir selected l)
      (lifeStep C restoreDir selected) ⟨Stored.empty, d₀, []⟩ l) : Progress selected content dir d₀ d₁ l := by
  have hnone : ∀ f : RestoreFile, f ∉ Stored.empty.restoreFiles := fun _ => List.not_mem_nil
  refine hlife.invariant ⟨⟨fun f hf => absurd hf (hnone f), List.nodup_nil, .inl rfl⟩, .inl ⟨rfl, rfl⟩,
    fun f hf => absurd hf (hnone f), fun _ hr => absurd hr List.not_mem_nil⟩ ?_
  exact fun ev l h hallowed => h.lifeStep hmkdir hempty hdir htree huuids hallowed.1 hallowed.2

theorem start_of_mkdirAll {restoreDir : Str} (hmkdir : d₀.mkdirAll (components restoreDir) = (none, d₁))
    (hempty : EmptyDir (components restoreDir) dir d₁) :
    d₀.Grows d₁ ∧ ∀ way, way ≠ [] → d₁.tree.node (dir ++ way) = none := by
  have hmade := d₀.mkdirAll_grows (components restoreDir)
  rw [hmkdir] at hmade
  refine ⟨hmade, fun way hway => ?_⟩
  by_contra hne
  obtain ⟨v, hv⟩ := Option.ne_none_iff_exists'.mp hne
  cases (Kept.start hempty).inside way hway v hv <;> contradiction

end

def dirWithFiles : List RemoteFile := [plainRow "/a" .dir, plainRow "/a/x" .file, plainRow "/a/y" .file]

def smoothEncounter (cond : RemoteFile → Conditions) (leaks : RemoteFile → List Leak) : Encounter :=
  ⟨smoothEnv, true, plainStore .testNull, oneByte, cond, leaks⟩

def leftAlone : Life :=
  lifeStep plainCloud ['/', 'r'] dirWithFiles
    (.start (smoothEncounter (fun r => { smoothConditions with ctxDoneWaiting := r.localPath = "/a/y".toList })
      fun _ => [])) ⟨Stored.empty, outsideDisk true, []⟩

def lateFile : Leak := ⟨plainRow "/a/y" .file, [9]⟩

def goneOn : Life := lifeStep plainCloud ['/', 'r'] dirWithFiles (.leak lateFile) leftAlone

theorem treeLike_dirWithFiles : TreeLike (liveRows dirWithFiles) where
  clean := by decide
  once := by decide
  above := by decide
  root := by decide

theorem mkdirAll_outsideDisk (withDir : Bool) :
    (outsideDisk withDir).mkdirAll (components ['/', 'r']) = (none, outsideDisk withDir) :=
  Disk.mkdirAll_of_dir (Tree.stat_eq_ok.mpr ⟨[['r']], (emptyDir_outsideDisk withDir).leads,
    (emptyDir_outsideDisk withDir).isDir⟩)

theorem faithful_smoothEncounter (cond : RemoteFile → Conditions) (leaks : RemoteFile → List Leak) :
    (smoothEncounter cond leaks).faithful plainCloud dirWithFiles fun _ => [1] := by
  intro r hr htype w hw
  have hall : ∀ r ∈ dirWithFiles, r.props.type = .file →
      stored plainCloud (plainStore .testNull) oneByte r = .ok (some [1]) := by decide
  exact (Except.ok.inj ((hall r hr htype).symm.trans hw)).symm

theorem reaches_goneOn : Reaches (fun ev l => ev.faithful plainCloud dirWithFiles (fun _ => [1]) ∧
      ev.InTime plainCloud ['/', 'r'] dirWithFiles l)
    (lifeStep plainCloud ['/', 'r'] dirWithFiles) ⟨Stored.empty, outsideDisk true, []⟩ goneOn := by
  refine .step (LifeEvent.leak lateFile) (.step (LifeEvent.start _) .refl ⟨faithful_smoothEncounter _ _, ?_, ?_⟩)
    ⟨trivial, ?_, ?_⟩
  · exact fun _ _ _ hleak => absurd hleak List.not_mem_nil
  · exact List.pairwise_of_forall fun _ _ _ hleak => absurd hleak List.not_mem_nil
  · decide
  · unfold NotDone
    decide

section

variable {rows : List RemoteFile} {C : Cloud} {st : Store} {b : Bucket} {restoreDir : Str} {dir : Names}
  {d₁ d : Disk Bytes} {r : RemoteFile}

/-- Where a row wants a directory, there is one, or nothing. -/
theorem Kept.node_way (h : Kept dir d₁ rows d) (hisDir : d.tree.node dir = some .dir) (htree : TreeLike rows)
    (hr : r ∈ rows) {way : Names} (hway : way <+: components r.localPath)
    (hend : way = components r.localPath → r.props.type = .dir) :
    d.tree.node (dir ++ way) = none ∨ d.tree.node (dir ++ way) = some .dir := by
  by_cases hnil : way = []
  · rw [hnil, List.append_nil]
    exact .inr hisDir
  · have htype : ∀ s ∈ rows, components s.localPath = way → s.props.type = .dir := by
      rintro s hs rfl
      by_cases heq : components s.localPath = components r.localPath
      · rw [htree.eq_of_components hs hr heq]
        exact hend heq
      · exact htree.above s hs r hr ⟨hway, heq⟩
    rcases hnode : d.tree.node (dir ++ way) with _ | v
    · exact .inl rfl
    · rcases h.inside way hnil v hnode with _ | ⟨hs, hlink, -, heq⟩ | ⟨hs, hfile, heq, -⟩
      · exact .inr rfl
      · rw [htype _ hs heq] at hlink
        cases hlink
      · rw [htype _ hs heq] at hfile
        cases hfile

theorem Kept.parent (h : Kept dir d₁ rows d) (hempty : EmptyDir (components restoreDir) dir d₁)
    (htree : TreeLike rows) (hallowed : ∀ loc, d₁.allowed loc = true) (hr : r ∈ rows)
    (hmarker : r.deleteMarker = false) (hknown : r.props.type ≠ .unknown)
    (hroot : components r.localPath ≠ []) :
    ∃ d', d.mkdirAll (components restoreDir ++ components r.localPath).dropLast = (none, d') ∧
      Kept dir d₁ rows d' ∧ d'.tree.node (dir ++ (components r.localPath).dropLast) = some .dir := by
  have hclean := htree.clean r hr
  obtain ⟨hbase, hisDir⟩ := h.leads hempty
  have hproper : ∀ way, way <+: (components r.localPath).dropLast →
      way <+: components r.localPath ∧ way ≠ components r.localPath := by
    intro way hway
    refine ⟨hway.trans (List.dropLast_prefix _), ?_⟩
    rintro rfl
    have hlen := hway.length_le
    have hpos := List.length_pos_of_ne_nil hroot
    rw [List.length_dropLast] at hlen
    omega
  obtain ⟨d', hmkdir, hparent⟩ := Disk.mkdirAll_of_dirs hbase hisDir hempty.names
    (fun n hn => hclean.isName n (List.mem_of_mem_dropLast hn))
    (fun loc => by rw [h.grows.allowed]; exact hallowed loc)
    fun way hway => h.node_way hisDir htree hr (hproper way hway).1 fun heq => absurd heq (hproper way hway).2
  rw [← List.dropLast_append_of_ne_nil hroot] at hmkdir
  have hkept := h.mkdirParent hempty hr hclean ⟨hmarker, hknown⟩ fun way hne hway hne' =>
    h.clear htree hr hne hway fun heq => absurd heq hne'
  rw [hmkdir] at hkept
  exact ⟨d', hmkdir, hkept, hparent⟩

/-- A file can be written in the place of a row. -/
theorem Kept.save_ok (h : Kept dir d₁ rows d) (hempty : EmptyDir (components restoreDir) dir d₁)
    (htree : TreeLike rows) (hallowed : ∀ loc, d₁.allowed loc = true) (hr : r ∈ rows)
    (htype : r.props.type = .file) (hroot : components r.localPath ≠ [])
    (hparent : d.tree.node (dir ++ (components r.localPath).dropLast) = some .dir) (content : Bytes) :
    ∃ d', d.save content (components restoreDir ++ components r.localPath) = (none, d') := by
  obtain ⟨hbase, hisDir⟩ := h.leads hempty
  have hnotLink := h.clear htree hr hroot List.prefix_rfl fun _ => by simp [htype]
  have hleads : d.tree.Leads true Tree.maxLinks [] (components restoreDir ++ components r.localPath)
      (dir ++ components r.localPath) := by
    refine hbase.onward hisDir (htree.clean r hr).isName (fun hnil => absurd hnil hroot) hparent ?_
    rw [hnotLink]
    nofun
  have hallowed : d.allowed (dir ++ components r.localPath) = true := by
    rw [h.grows.allowed]
    exact hallowed _
  rcases hnode : d.tree.node (dir ++ components r.localPath) with _ | v
  · obtain ⟨d', hsave, -⟩ := Disk.save_of_leads content hleads hnode hallowed
    exact ⟨d', hsave⟩
  · have hfile : isFile (d.tree.node (dir ++ components r.localPath)) = true := by
      rcases h.entry htree hr hroot hnode with ⟨-, hother⟩ | ⟨-, hother⟩ | ⟨⟨c, rfl⟩, -⟩
      · simp [htype] at hother
      · simp [htype] at hother
      · rw [hnode]
        rfl
    obtain ⟨d', hsave, -⟩ := Disk.save_of_file content hleads hfile hallowed
    exact ⟨d', hsave⟩

theorem Kept.restores (h : Kept dir d₁ rows d) (hempty : EmptyDir (components restoreDir) dir d₁)
    (hdir : isAbs restoreDir = true) (htree : TreeLike rows) (hallowed : ∀ loc, d₁.allowed loc = true)
    (hr : r ∈ rows) (hmarker : r.deleteMarker = false) (hknown : r.props.type ≠ .unknown)
    (htarget : r.props.type = .symlink → r.props.linkTarget ≠ []) {cond : Conditions}
    (hcond : cond.ctxDoneWaiting = false ∧ cond.writeOk = true)
    (hstored : r.props.type = .file → ∃ content, stored C st b r = .ok (some content)) :
    ∃ written, (Restore.restoreInto C st b restoreDir cond r d).1 = .done written := by
  have hclean := htree.clean r hr
  have hdest : components (mapPathIntoRestoreDir restoreDir r.localPath) =
      components restoreDir ++ components r.localPath := components_mapPathIntoRestoreDir hdir hclean
  have hroot : r.props.type ≠ .dir → components r.localPath ≠ [] := fun hne hnil => hne (htree.root r hr hnil)
  unfold Restore.restoreInto
  rw [hdest]
  cases htype : r.props.type with
  | unknown => exact absurd htype hknown
  | dir =>
      obtain ⟨hbase, hisDir⟩ := h.leads hempty
      obtain ⟨d', hmkdir, -⟩ := Disk.mkdirAll_of_dirs hbase hisDir hempty.names hclean.isName
        (fun loc => by rw [h.grows.allowed]; exact hallowed loc)
        fun way hway => h.node_way hisDir htree hr hway fun _ => htype
      dsimp only
      rw [hmkdir]
      exact ⟨none, rfl⟩
  | symlink =>
      have hroot := hroot (by simp [htype])
      obtain ⟨d', hmkdir, hkept, hparent⟩ := h.parent hempty htree hallowed hr hmarker hknown hroot
      obtain ⟨hbase, hisDir⟩ := hkept.leads hempty
      have hleads := hbase.onward hisDir hclean.isName (fun hnil => absurd hnil hroot) hparent
        (fun _ => (rfl : false = false))
      dsimp only
      rw [hmkdir]
      dsimp only
      rw [Disk.symlink, if_neg (htarget htype)]
      by_cases hnone : d'.tree.node (dir ++ components r.localPath) = none
      · obtain ⟨d'', hmake, -⟩ := Disk.make_of_leads (.symlink r.props.linkTarget) hleads hnone
          (by rw [hkept.grows.allowed]; exact hallowed _)
        rw [hmake]
        exact ⟨none, rfl⟩
      · rw [Disk.make_of_some _ hleads hnone]
        exact ⟨none, rfl⟩
  | file =>
      have hroot := hroot (by simp [htype])
      obtain ⟨d', hmkdir, hkept, hparent⟩ := h.parent hempty htree hallowed hr hmarker hknown hroot
      obtain ⟨content, hstored⟩ := hstored htype
      obtain ⟨d'', hsave⟩ := hkept.save_ok hempty htree hallowed hr htype hroot hparent content
      unfold stored at hstored
      dsimp only
      rw [hmkdir]
      dsimp only
      rw [hcond.1, getInto, hstored]
      simp [hcond.2, hsave]

theorem restoreLoopWith_done {cond : RemoteFile → Conditions} {leaks : RemoteFile → List Leak}
    {items : List RemoteFile}
    (hempty : EmptyDir (components restoreDir) dir d₁) (hdir : isAbs restoreDir = true) (htree : TreeLike rows)
    (hallowed : ∀ loc, d₁.allowed loc = true) (hknown : ∀ r ∈ rows, r.props.type ≠ .unknown)
    (htarget : ∀ r ∈ rows, r.props.type = .symlink → r.props.linkTarget ≠ [])
    (hcond : ∀ r, (cond r).ctxDone = false ∧ (cond r).ctxDoneWaiting = false ∧ (cond r).writeOk = true)
    (hstored : ∀ r ∈ rows, r.props.type = .file → ∃ content, stored C st b r = .ok (some content))
    (hitems : ∀ r ∈ items, r.deleteMarker = false → r ∈ rows) (h : Kept dir d₁ rows d)
    (hleaks : ∀ pass ∈ restoreLoopWith C st b restoreDir cond leaks items d, ∀ leak ∈ leaks pass.item,
      leak.item ∈ rows ∧ leak.item.props.type = .file) :
    (∀ r ∈ items, r.deleteMarker = false →
      ∃ pass ∈ restoreLoopWith C st b restoreDir cond leaks items d, pass.item = r) ∧
      ∀ pass ∈ restoreLoopWith C st b restoreDir cond leaks items d, ∃ written, pass.outcome = .done written := by
  induction items generalizing d with
  | nil =>
      exact ⟨fun _ hr => absurd hr List.not_mem_nil, fun _ hpass => absurd hpass List.not_mem_nil⟩
  | cons item items ih =>
      have hitems' : ∀ r ∈ items, r.deleteMarker = false → r ∈ rows := fun r hr =>
        hitems r (List.mem_cons_of_mem item hr)
      rw [restoreLoopWith, if_neg (by simp [hcond item])] at hleaks ⊢
      by_cases hmarker : item.deleteMarker = true
      · rw [if_pos hmarker] at hleaks ⊢
        obtain ⟨hpasses, hdone⟩ := ih hitems' h hleaks
        refine ⟨fun r hr hlive => ?_, hdone⟩
        rcases List.mem_cons.mp hr with rfl | hr
        · rw [hmarker] at hlive
          cases hlive
        · exact hpasses r hr hlive
      · rw [if_neg hmarker] at hleaks ⊢
        have hmarker : item.deleteMarker = false := by simpa using hmarker
        have hr := hitems item List.mem_cons_self hmarker
        obtain ⟨hleaked, -⟩ := h.leaks hempty hdir htree (hleaks _ List.mem_cons_self)
        have hnext := hleaked.restoreInto hempty hdir htree hr hmarker C st b (cond item)
        obtain ⟨written, houtcome⟩ := hleaked.restores hempty hdir htree hallowed hr hmarker (hknown item hr)
          (htarget item hr) (hcond item).2 (hstored item hr)
        dsimp only at houtcome hleaks ⊢
        rw [houtcome, if_neg (by simp)] at hleaks ⊢
        obtain ⟨hpasses, hdone⟩ := ih hitems' hnext fun pass hpass => hleaks pass (List.mem_cons_of_mem _ hpass)
        constructor
        · intro r hr hlive
          rcases List.mem_cons.mp hr with rfl | hr
          · exact ⟨_, List.mem_cons_self, rfl⟩
          · obtain ⟨pass, hpass, hitem⟩ := hpasses r hr hlive
            exact ⟨pass, List.mem_cons_of_mem _ hpass, hitem⟩
        · intro pass hpass
          rcases List.mem_cons.mp hpass with rfl | hpass
          · exact ⟨written, rfl⟩
          · exact hdone pass hpass

end

section

variable {selected : List RemoteFile} {env : Env} {s : Stored}

theorem outcomeIn_done {passes : List Pass} (hdone : ∀ pass ∈ passes, ∃ written, pass.outcome = .done written)
    {item : RemoteFile} (hitem : ∃ pass ∈ passes, pass.item = item) :
    ∃ written, outcomeIn passes item = .done written := by
  unfold outcomeIn
  cases hfind : passes.find? (·.item = item) with
  | none =>
      obtain ⟨pass, hpass, rfl⟩ := hitem
      have hnot := List.find?_eq_none.mp hfind pass hpass
      simp at hnot
  | some pass => exact hdone pass (List.mem_of_find?_eq_some hfind)

theorem setState_of_ne {uuid : Str} {state : FileState} {files : List RestoreFile} {f : RestoreFile}
    (hf : f ∈ files) (hne : f.row.uuid ≠ uuid) : f ∈ setState uuid state files :=
  List.mem_map.mpr ⟨f, hf, if_neg hne⟩

theorem processItem_done (hok : env.NoFailures) {item : RemoteFile} (hmarker : item.deleteMarker = false)
    {written : Option Bytes} (houtcome : env.outcome item = .done written) :
    (applyAll (processItem env item) s).restoreFiles = setState item.uuid .done s.restoreFiles := by
  have hattempt : ∀ e, env.attempt item e = [e] := fun e => if_pos (hok.stmt item e)
  have hset : ∀ state s, applyAll (env.attempt item (.setFileState item.uuid state)) s =
      { s with restoreFiles := setState item.uuid state s.restoreFiles } := by
    intro state s
    rw [hattempt]
    rfl
  have hcount : ∀ s, (applyAll (countDone item) s).restoreFiles = s.restoreFiles := by
    intro s
    unfold countDone
    cases restoredCounter item.props.type <;> rfl
  have hbump : ∀ s, (applyAll (bumpDone env item) s).restoreFiles = s.restoreFiles := by
    intro s
    unfold bumpDone
    split
    · rfl
    · rw [hattempt, hattempt, applyAll_append]
      split <;> rfl
  unfold processItem
  rw [hmarker, houtcome, if_neg Bool.false_ne_true]
  simp only [applyAll_append, hset, hcount, hbump, setState_twice]

/-- What is done already, or comes in the loop, is done in the end. -/
theorem done_of_items (hok : env.NoFailures) {items : List RemoteFile}
    (houtcome : ∀ item ∈ items, item.deleteMarker = false → ∃ written, env.outcome item = .done written)
    (hnodup : (items.map RemoteFile.uuid).Nodup) {f : RestoreFile} (hf : f ∈ s.restoreFiles)
    (hmarker : f.row.deleteMarker = false)
    (h : f.state = .done ∧ f.row.uuid ∉ items.map RemoteFile.uuid ∨ f.row ∈ items) :
    ∃ f' ∈ (applyAll (items.map (processItem env)).flatten s).restoreFiles, f'.row = f.row ∧ f'.state = .done := by
  induction items generalizing s f with
  | nil =>
      rcases h with ⟨hdone, -⟩ | hitem
      · exact ⟨f, hf, rfl, hdone⟩
      · cases hitem
  | cons item items ih =>
      rw [List.map_cons, List.nodup_cons] at hnodup
      rw [List.map_cons, List.flatten_cons, applyAll_append]
      have hrest := fun item' hitem' => houtcome item' (List.mem_cons_of_mem item hitem')
      -- the other rows are left alone
      have hother : f.row.uuid ≠ item.uuid → f ∈ (applyAll (processItem env item) s).restoreFiles := by
        intro hne
        have hcancel : cancelledAt env item = false := by
          unfold cancelledAt
          cases hlive : item.deleteMarker with
          | true => rfl
          | false =>
              obtain ⟨written, hwritten⟩ := houtcome item List.mem_cons_self hlive
              simp [hwritten]
        obtain ⟨state, -, hstate⟩ := processItem_restoreFiles (fun i st => hok.stmt i _) hcancel s
        rw [hstate]
        exact setState_of_ne hf hne
      by_cases hsame : f.row.uuid = item.uuid
      · rcases h with ⟨-, hnot⟩ | hitem
        · simp [hsame] at hnot
        · rcases List.mem_cons.mp hitem with rfl | hitem
          · obtain ⟨written, hwritten⟩ := houtcome f.row List.mem_cons_self hmarker
            have hdone := processItem_done (s := s) hok hmarker hwritten
            have hmem : { f with state := .done } ∈ (applyAll (processItem env f.row) s).restoreFiles := by
              rw [hdone]
              exact List.mem_map.mpr ⟨f, hf, if_pos rfl⟩
            have hkept := ih hrest hnodup.2 hmem hmarker (.inl ⟨rfl, hnodup.1⟩)
            exact hkept
          · exact absurd (hsame ▸ List.mem_map_of_mem hitem) hnodup.1
      · refine ih hrest hnodup.2 (hother hsame) hmarker ?_
        rcases h with ⟨hdone, hnot⟩ | hitem
        · exact .inl ⟨hdone, fun hmem => hnot (List.mem_cons_of_mem _ hmem)⟩
        · rcases List.mem_cons.mp hitem with rfl | hitem
          · exact absurd rfl hsame
          · exact .inr hitem

theorem reachedItems_eq {items : List RemoteFile} (hctx : ∀ item, env.ctxDone item = false)
    (houtcome : ∀ item ∈ items, item.deleteMarker = false → ∃ written, env.outcome item = .done written) :
    reachedItems env items = items := by
  induction items with
  | nil => rfl
  | cons item items ih =>
      have hcancel : cancelledAt env item = false := by
        unfold cancelledAt
        cases hlive : item.deleteMarker with
        | true => rfl
        | false =>
            obtain ⟨written, hwritten⟩ := houtcome item List.mem_cons_self hlive
            simp [hwritten]
      rw [reachedItems, hctx, if_neg Bool.false_ne_true, hcancel, if_neg Bool.false_ne_true,
        ih fun item' hitem' => houtcome item' (List.mem_cons_of_mem item hitem')]

theorem allDone_jobScript (hok : env.NoFailures) (hbringUp : env.bringUp = .ok)
    (hctx : ∀ item, env.ctxDone item = false) (hmanifest : Manifested selected s.restoreFiles)
    (huuids : ∀ r ∈ selected, ∀ r' ∈ selected, r.uuid = r'.uuid → r = r')
    (hwhole : s.jobs = none ∨ s.restoreFiles ≠ [])
    (houtcome : (initRestoreJob selected env s).2 = true → ∀ item ∈ loadPendingManifest
      (applyAll (initRestoreJob selected env s).1.flatten s).restoreFiles, item.deleteMarker = false →
      ∃ written, env.outcome item = .done written) :
    AllDone selected (applyAll (jobScript selected env s).flatten s).restoreFiles := by
  intro r hr
  obtain ⟨hr, hmarker⟩ := mem_liveRows.mp hr
  have hselected : selected ≠ [] := List.ne_nil_of_mem hr
  have hinit : (initRestoreJob selected env s).2 = true := by
    unfold initRestoreJob
    simp only [hok.insertJob, hok.initCounterRow, hok.fetch, hok.manifest, hok.readCounters, hok.updateState,
      hselected]
    split <;> rfl
  have hload := manifested_initRestoreJob hmanifest env
  -- the row is in the manifest
  obtain ⟨f, hf, rfl⟩ : ∃ f ∈ (applyAll (initRestoreJob selected env s).1.flatten s).restoreFiles, f.row = r := by
    have huuid : r.uuid ∈ (applyAll (initRestoreJob selected env s).1.flatten s).restoreFiles.map (·.row.uuid) := by
      rcases hload.whole with hnil | hall
      · by_cases hjobs : s.jobs = none
        · have hinsert : (applyAll (initRestoreJob selected env s).1.flatten s).restoreFiles =
              selected.foldl insertManifestRow s.restoreFiles := by
            unfold initRestoreJob
            simp only [hjobs, hok.insertJob, hok.initCounterRow, hok.fetch, hok.manifest, hselected]
            rfl
          rw [hinsert]
          exact mem_manifest_insert selected s.restoreFiles r hr
        · rcases initRestoreJob_restoreFiles selected env s with heq | heq
          · exact absurd (heq ▸ hnil) (hwhole.resolve_left hjobs)
          · exact absurd (List.eq_nil_of_subset_nil (hnil ▸ heq ▸ subset_insertManifest selected s.restoreFiles))
              (hwhole.resolve_left hjobs)
      · exact hall r hr
    obtain ⟨f, hf, heq⟩ := List.mem_map.mp huuid
    exact ⟨f, hf, huuids _ (hload.rows f hf) r hr heq⟩
  have hfinal : ∀ state s, (applyAll (finalize env state).flatten s).restoreFiles = s.restoreFiles := by
    intro state s
    unfold finalize
    split <;> rfl
  unfold jobScript
  rw [hbringUp]
  dsimp only
  rw [List.flatten_append, applyAll_append, hfinal, doRestore, hinit, hok.load]
  dsimp only
  rw [if_neg (by simp)]
  by_cases hdone : f.state = .done
  · split
    · exact ⟨f, hf, rfl, hdone⟩
    · rw [List.flatten_append, applyAll_append, processItems_fst, reachedItems_eq hctx (houtcome hinit)]
      refine done_of_items hok (houtcome hinit) (nodup_loadPendingManifest hload.uuids) hf hmarker (.inl ⟨hdone, ?_⟩)
      intro hmem
      obtain ⟨item, hitem, huuid⟩ := List.mem_map.mp hmem
      obtain ⟨f', hf', hrow, hpending⟩ := exists_of_mem_loadPendingManifest hitem
      rw [← hrow] at huuid
      exact hpending (hload.eq_of_uuid hf' hf huuid ▸ hdone)
  · have hitem := mem_loadPendingManifest hf hdone
    rw [if_neg (List.ne_nil_of_mem hitem), List.flatten_append, applyAll_append, processItems_fst,
      reachedItems_eq hctx (houtcome hinit)]
    exact done_of_items hok (houtcome hinit) (nodup_loadPendingManifest hload.uuids) hf hmarker (.inr hitem)

end

/-- A run that meets no trouble, and a store that returns all files. -/
structure Encounter.Smooth (C : Cloud) (selected : List RemoteFile) (content : RemoteFile → Bytes) (m : Encounter) :
    Prop where
  bringUp : m.env.bringUp = .ok
  ok : m.env.NoFailures
  crash : m.env.crashAfter = none
  cond : ∀ r, (m.cond r).ctxDone = false ∧ (m.cond r).ctxDoneWaiting = false ∧ (m.cond r).writeOk = true
  store : ∀ r ∈ liveRows selected, r.props.type = .file → stored C m.st m.b r = .ok (some (content r))

theorem Encounter.Smooth.faithful {C : Cloud} {selected : List RemoteFile} {content : RemoteFile → Bytes}
    {m : Encounter} (h : m.Smooth C selected content) : m.faithful C selected content := by
  intro r hr htype w hw
  rw [h.store r hr htype] at hw
  exact (Except.ok.inj hw).symm

/-- The rows can be restored: their types are known, and no link is without a target. -/
def Restorable (rows : List RemoteFile) : Prop :=
  ∀ r ∈ rows, r.props.type ≠ .unknown ∧ (r.props.type = .symlink → r.props.linkTarget ≠ [])

instance (rows : List RemoteFile) : Decidable (Restorable rows) :=
  inferInstanceAs (Decidable (∀ r ∈ rows, _ ∧ (_ → _)))

theorem Progress.allDone {C : Cloud} {restoreDir : Str} {selected : List RemoteFile}
    {content : RemoteFile → Bytes} {dir : Names} {d₀ d₁ d : Disk Bytes} {s : Stored} {abandoned : List RemoteFile}
    {m : Encounter} (h : Progress selected content dir d₀ d₁ ⟨s, d, abandoned⟩) (hdir : isAbs restoreDir = true)
    (hmkdir : d₀.mkdirAll (components restoreDir) = (none, d₁))
    (hempty : EmptyDir (components restoreDir) dir d₁) (htree : TreeLike (liveRows selected))
    (hrestorable : Restorable (liveRows selected)) (hallowed : ∀ loc, d₀.allowed loc = true)
    (huuids : ∀ r ∈ selected, ∀ r' ∈ selected, r.uuid = r'.uuid → r = r') (hsmooth : m.Smooth C selected content)
    (htime : m.InTime C restoreDir selected s d abandoned) (hwhole : s.jobs = none ∨ s.restoreFiles ≠ []) :
    AllDone selected (Restore.runScript (m.envOn C restoreDir selected s d)
      (jobScript selected (m.envOn C restoreDir selected s d) s) s).restoreFiles := by
  obtain ⟨d', hmade, hkept⟩ := kept_mkdirAll hmkdir hempty (h.disk.imp_left And.left)
  have hallowed : ∀ loc, d₁.allowed loc = true := by
    intro loc
    rw [(start_of_mkdirAll hmkdir hempty).1.allowed]
    exact hallowed loc
  have hcrash : (m.envOn C restoreDir selected s d).crashAfter = none := hsmooth.crash
  have hbringUp : (m.envOn C restoreDir selected s d).bringUp = .ok := by
    unfold Encounter.envOn
    rw [hmade]
    simp [hsmooth.bringUp]
  have hok : (m.envOn C restoreDir selected s d).NoFailures :=
    ⟨hsmooth.ok.opening, hsmooth.ok.insertJob, hsmooth.ok.initCounterRow, hsmooth.ok.fetch, hsmooth.ok.manifest,
      hsmooth.ok.readCounters, hsmooth.ok.updateState, hsmooth.ok.load, hsmooth.ok.finalize, hsmooth.ok.stmt⟩
  unfold Restore.runScript
  rw [hcrash]
  refine allDone_jobScript hok hbringUp (fun item => (hsmooth.cond item).1) h.manifest huuids hwhole ?_
  intro hinit item hitem hmarker
  have hload := manifested_initRestoreJob h.manifest m.env
  have hpasses : m.passes C restoreDir selected s d = restoreLoopWith C m.st m.b restoreDir m.cond m.leaks
      (loadPendingManifest (applyAll (initRestoreJob selected m.env s).1.flatten s).restoreFiles) d' := by
    unfold Encounter.passes
    rw [if_pos ⟨hsmooth.bringUp, hinit, hsmooth.ok.load⟩, hmade]
  -- the passes of the loop are those of its items, and all end well
  have hloop := restoreLoopWith_done hempty hdir htree hallowed (fun r hr => (hrestorable r hr).1)
    (fun r hr => (hrestorable r hr).2) hsmooth.cond
    (fun r hr htype => ⟨content r, hsmooth.store r hr htype⟩)
    (fun r hr hlive => by
      obtain ⟨f, hf, -, rfl⟩ := mem_loadPendingManifest_iff.mp hr
      exact mem_liveRows.mpr ⟨hload.rows f hf, hlive⟩) hkept
    (fun pass hpass leak hleak => h.abandoned _ (htime.1 pass (hpasses ▸ hpass) leak hleak).1)
  have hdone := outcomeIn_done hloop.2 (hloop.1 item hitem hmarker)
  rw [← hpasses] at hdone
  exact hdone

/-- A run that starts the job, or resumes it. -/
def TakesUp (m : Encounter) (ev : LifeEvent) (l : Life) : Prop :=
  ev = .start m ∧ l.stored.jobs = none ∨
    ev = .resume m ∧ l.stored.jobs.any JobState.isResumable = true ∧ l.stored.restoreFiles ≠ []

/-- From wherever the job is, a run without trouble completes it. -/
theorem Progress.completes {C : Cloud} {restoreDir : Str} {selected : List RemoteFile}
    {content : RemoteFile → Bytes} {dir : Names} {d₀ d₁ : Disk Bytes} {l : Life} {m : Encounter} {ev : LifeEvent}
    (h : Progress selected content dir d₀ d₁ l) (hdir : isAbs restoreDir = true)
    (hmkdir : d₀.mkdirAll (components restoreDir) = (none, d₁))
    (hempty : EmptyDir (components restoreDir) dir d₁) (htree : TreeLike (liveRows selected))
    (hrestorable : Restorable (liveRows selected)) (hallowed : ∀ loc, d₀.allowed loc = true)
    (huuids : ∀ r ∈ selected, ∀ r' ∈ selected, r.uuid = r'.uuid → r = r') (hsmooth : m.Smooth C selected content)
    (hev : TakesUp m ev l) (htime : ev.InTime C restoreDir selected l) :
    AllDone selected (Restore.lifeStep C restoreDir selected ev l).stored.restoreFiles ∧
      ∀ way, way ≠ [] → (Restore.lifeStep C restoreDir selected ev l).disk.tree.node (dir ++ way) =
        treeOf content (liveRows selected) way := by
  obtain ⟨hgrows, hstart⟩ := start_of_mkdirAll hmkdir hempty
  have hfaithful : ev.faithful C selected content := by
    rcases hev with ⟨rfl, -⟩ | ⟨rfl, -⟩
    · exact hsmooth.faithful
    · exact hsmooth.faithful
  have hafter := h.lifeStep hmkdir hempty hdir htree huuids hfaithful htime
  suffices hdone : AllDone selected (Restore.lifeStep C restoreDir selected ev l).stored.restoreFiles from
    ⟨hdone, fun way hway => hafter.node_eq hgrows hstart hdone hway⟩
  have hrunning : Progress selected content dir d₀ d₁ ⟨markRestoreRunning l.stored, l.disk, l.abandoned⟩ := h.congr rfl
  have hall := hrunning.allDone hdir hmkdir hempty htree hrestorable hallowed huuids hsmooth
  rcases hev with ⟨rfl, hjobs⟩ | ⟨rfl, hresumable, hfiles⟩
  · exact hall htime (.inl hjobs)
  · have hopening : (m.envOn C restoreDir selected (markRestoreRunning l.stored) l.disk).opening = .ok :=
      hsmooth.ok.opening
    have hjobs : (markRestoreRunning l.stored).jobs.any JobState.isResumable = true := hresumable
    unfold Restore.lifeStep step
    dsimp only
    rw [hopening]
    dsimp only
    rw [if_pos hjobs, if_pos ⟨hsmooth.ok.opening, hjobs⟩]
    exact hall htime (.inr hfiles)

def secondTry : Encounter := smoothEncounter (fun _ => smoothConditions) fun r =>
  if r.props.type = .file then [lateFile] else []

theorem inTime_secondTry : (LifeEvent.resume secondTry).InTime plainCloud ['/', 'r'] dirWithFiles goneOn := by
  unfold LifeEvent.InTime Encounter.InTime NotDone
  decide

end CloudBackup.Restore
