import CloudBackup.Restore.Files

/-!
A restore writes into its directory, as far as the text of the paths goes. What is in
the directory comes from the rows that were restored before (`Kept`), as long as no
row goes through one that was restored as a link. The first one that does can be led
out of it: `confined_iff`.
-/

namespace CloudBackup.Restore

open Cbcrypto Database ObjectStore Backup UnixPath FileTree

/-- The way to a row goes through another one, which is restored as a link; or it ends
there, and is written as a file. The root is a directory, and no link takes its place. -/
structure ThroughLink (s r : RemoteFile) : Prop where
  link : s.props.type = .symlink
  restored : s.deleteMarker = false
  ne_root : components s.localPath ≠ []
  acts : r.deleteMarker = false ∧ r.props.type ≠ .unknown
  through : Below s.localPath r.localPath ∨
    r.props.type = .file ∧ components s.localPath = components r.localPath

/-- A path leads to an empty directory. -/
structure EmptyDir (base dir : Names) (d : Disk Bytes) : Prop where
  names : ∀ n ∈ base, IsName n
  leads : d.tree.Leads true Tree.maxLinks [] base dir
  isDir : d.tree.node dir = some .dir
  empty : ∀ n, d.tree.node (dir ++ [n]) = none

/-- What is at the end of a way comes from a row: a directory on the way to it, or its
own entry. -/
inductive FromRow (rows : List RemoteFile) (way : Names) : Node Bytes → Prop
  | dir {s : RemoteFile} (hs : s ∈ rows) (hacts : s.deleteMarker = false ∧ s.props.type ≠ .unknown)
      (hway : way <+: components s.localPath)
      (hend : way = components s.localPath → s.props.type = .dir) : FromRow rows way .dir
  | link {s : RemoteFile} (hs : s ∈ rows) (htype : s.props.type = .symlink) (hmarker : s.deleteMarker = false)
      (hway : components s.localPath = way) : FromRow rows way (.symlink s.props.linkTarget)
  | file {s : RemoteFile} (hs : s ∈ rows) (htype : s.props.type = .file)
      (hway : components s.localPath = way) (content : Bytes) : FromRow rows way (.file content)

/-- The disk after some rows: outside of the directory nothing has changed, and what
is in it comes from the rows. -/
structure Kept (dir : Names) (d₀ : Disk Bytes) (rows : List RemoteFile) (d : Disk Bytes) : Prop where
  grows : d₀.Grows d
  outside : ∀ loc, ¬ dir <+: loc → d₀.Untouched d loc
  inside : ∀ way, way ≠ [] → ∀ v, d.tree.node (dir ++ way) = some v → FromRow rows way v

section

variable {base dir : Names} {d₀ d d' : Disk Bytes} {rows : List RemoteFile}

theorem FromRow.mono {way : Names} {v : Node Bytes} (h : FromRow rows way v) {rows' : List RemoteFile}
    (hrows : ∀ r ∈ rows, r ∈ rows') : FromRow rows' way v := by
  cases h with
  | dir hs hacts hway hend => exact .dir (hrows _ hs) hacts hway hend
  | link hs htype hmarker hway => exact .link (hrows _ hs) htype hmarker hway
  | file hs htype hway content => exact .file (hrows _ hs) htype hway content

theorem Kept.start (hempty : EmptyDir base dir d) : Kept dir d [] d where
  grows := .refl d
  outside := fun loc _ => .refl d loc
  inside := fun way hne v hv => by
    obtain ⟨n, way, rfl⟩ := List.exists_cons_of_ne_nil hne
    -- what is further down would need its directory
    have hdir : d.tree.node (dir ++ [n]) ≠ none := by
      by_cases hway : way = []
      · rw [hway] at hv
        rw [hv]
        simp
      · rw [Tree.node_of_append hway (by rw [List.append_assoc, List.singleton_append, hv]; simp)]
        simp
    exact absurd (hempty.empty n) hdir

theorem Kept.mono (h : Kept dir d₀ rows d) {rows' : List RemoteFile} (hrows : ∀ r ∈ rows, r ∈ rows') :
    Kept dir d₀ rows' d where
  grows := h.grows
  outside := h.outside
  inside := fun way hne v hv => (h.inside way hne v hv).mono hrows

theorem Kept.write (h : Kept dir d₀ rows d) {way : Names} {v : Node Bytes}
    (hwrote : d.Wrote (dir ++ way) v d') (hgrows : d.Grows d') (hrow : FromRow rows way v) :
    Kept dir d₀ rows d' where
  grows := h.grows.trans hgrows
  outside := fun loc hloc => (h.outside loc hloc).trans (hwrote.untouched (by
    rintro rfl
    exact hloc (List.prefix_append dir way)))
  inside := fun way' hne v' hv' => by
    by_cases heq : way' = way
    · subst heq
      rw [hwrote.node, Function.update_self] at hv'
      exact Option.some.inj hv' ▸ hrow
    · rw [hwrote.node, Function.update_of_ne (by simpa using heq)] at hv'
      exact h.inside way' hne v' hv'

theorem Kept.leads (h : Kept dir d₀ rows d) (hempty : EmptyDir base dir d₀) :
    d.tree.Leads true Tree.maxLinks [] base dir ∧ d.tree.node dir = some .dir :=
  ⟨hempty.leads.extends h.grows.keeps (by rw [hempty.isDir]; nofun),
    h.grows.keeps.node_eq hempty.isDir rfl⟩

theorem Kept.link (h : Kept dir d₀ rows d) {way : Names} (hne : way ≠ [])
    (hlink : isLink (d.tree.node (dir ++ way)) = true) :
    ∃ s ∈ rows, s.props.type = .symlink ∧ s.deleteMarker = false ∧ components s.localPath = way := by
  rcases hnode : d.tree.node (dir ++ way) with _ | v
  · rw [hnode] at hlink
    cases hlink
  · rw [hnode] at hlink
    rcases h.inside way hne v hnode with _ | ⟨hs, htype, hmarker, hway⟩ | _
    · cases hlink
    · exact ⟨_, hs, htype, hmarker, hway⟩
    · cases hlink

/-- No link is on the way to a row, if it is through none of the rows before. -/
theorem Kept.noLink (h : Kept dir d₀ rows d) {r : RemoteFile}
    (hacts : r.deleteMarker = false ∧ r.props.type ≠ .unknown) (hthrough : ∀ s ∈ rows, ¬ ThroughLink s r)
    {way : Names} (hne : way ≠ []) (hway : way <+: components r.localPath)
    (hend : way = components r.localPath → r.props.type = .file) :
    isLink (d.tree.node (dir ++ way)) = false := by
  rw [Bool.eq_false_iff]
  intro hlink
  obtain ⟨s, hs, htype, hmarker, rfl⟩ := h.link hne hlink
  refine hthrough s hs ⟨htype, hmarker, hne, hacts, ?_⟩
  by_cases hproper : components s.localPath = components r.localPath
  · exact .inr ⟨hend hproper, hproper⟩
  · exact .inl ⟨hway, hproper⟩

theorem Kept.mkdirAll (h : Kept dir d₀ rows d) (hempty : EmptyDir base dir d₀) {rest : Names}
    (hnames : ∀ n ∈ rest, IsName n)
    (hlink : ∀ way, way ≠ [] → way <+: rest → way ≠ rest → isLink (d.tree.node (dir ++ way)) = false)
    (hrow : ∃ r ∈ rows, (r.deleteMarker = false ∧ r.props.type ≠ .unknown) ∧
      rest <+: components r.localPath ∧ (rest = components r.localPath → r.props.type = .dir)) :
    Kept dir d₀ rows (d.mkdirAll (base ++ rest)).2 := by
  obtain ⟨hbase, hdir⟩ := h.leads hempty
  have htouched := d.mkdirAll_touched hbase hdir hnames hlink
  refine ⟨h.grows.trans (d.mkdirAll_grows _), ?_, ?_⟩
  · intro loc hloc
    refine (h.outside loc hloc).trans ?_
    rcases htouched loc with huntouched | ⟨way, -, -, rfl, -⟩
    · exact huntouched
    · exact absurd (List.prefix_append dir way) hloc
  · intro way hne v hv
    rcases htouched (dir ++ way) with huntouched | ⟨way', -, hway, heq, hmade⟩
    · rw [huntouched.node] at hv
      exact h.inside way hne v hv
    · obtain rfl : way = way' := List.append_cancel_left heq
      obtain rfl : v = .dir := Option.some.inj (hv.symm.trans hmade)
      obtain ⟨r, hr, hacts, hrest, htype⟩ := hrow
      refine .dir hr hacts (hway.trans hrest) ?_
      intro hend
      have hback : components r.localPath <+: rest := hend ▸ hway
      exact htype (hrest.eq_of_length (Nat.le_antisymm hrest.length_le hback.length_le))

theorem Kept.mkdirParent (h : Kept dir d₀ rows d) (hempty : EmptyDir base dir d₀) {r : RemoteFile}
    (hr : r ∈ rows) (hclean : IsClean r.localPath)
    (hacts : r.deleteMarker = false ∧ r.props.type ≠ .unknown)
    (hlink : ∀ way, way ≠ [] → way <+: components r.localPath → way ≠ components r.localPath →
      isLink (d.tree.node (dir ++ way)) = false) :
    Kept dir d₀ rows (d.mkdirAll (base ++ components r.localPath).dropLast).2 := by
  by_cases hrest : components r.localPath = []
  · -- the parent of the restore directory is there
    obtain ⟨hbase, -⟩ := h.leads hempty
    suffices hsame : d.mkdirAll base.dropLast = (none, d) by
      rw [hrest, List.append_nil, hsame]
      exact h
    by_cases hroot : base = []
    · rw [hroot]
      rfl
    · rw [← List.dropLast_concat_getLast hroot] at hbase
      obtain ⟨parent, hleads, hdir⟩ := hbase.parent (hempty.names _ (List.getLast_mem hroot)) d.tree.root
      exact Disk.mkdirAll_of_dir (Tree.stat_eq_ok.mpr ⟨parent, hleads, hdir⟩)
  · rw [List.dropLast_append_of_ne_nil hrest]
    have hpre := List.dropLast_prefix (components r.localPath)
    have hproper : (components r.localPath).dropLast ≠ components r.localPath := by
      intro heq
      have hlen := congrArg List.length heq
      have hpos := List.length_pos_of_ne_nil hrest
      rw [List.length_dropLast] at hlen
      omega
    refine h.mkdirAll hempty (fun n hn => hclean.isName n (List.mem_of_mem_dropLast hn)) ?_
      ⟨r, hr, hacts, hpre, fun heq => absurd heq hproper⟩
    intro way hne hway _
    refine hlink way hne (hway.trans hpre) ?_
    rintro rfl
    exact hproper (hpre.eq_of_length (Nat.le_antisymm hpre.length_le hway.length_le))

theorem Kept.symlink (h : Kept dir d₀ rows d) (hempty : EmptyDir base dir d₀) {r : RemoteFile}
    (hr : r ∈ rows) (hclean : IsClean r.localPath) (htype : r.props.type = .symlink)
    (hmarker : r.deleteMarker = false)
    (hlink : ∀ way, way ≠ [] → way <+: components r.localPath → way ≠ components r.localPath →
      isLink (d.tree.node (dir ++ way)) = false) :
    Kept dir d₀ rows (d.symlink r.props.linkTarget (base ++ components r.localPath)).2 := by
  unfold Disk.symlink
  split
  · exact h
  · rcases d.make_cases (base ++ components r.localPath) (.symlink r.props.linkTarget) with
      ⟨e, herror⟩ | ⟨loc, d', hleads, hnone, hmake, hwrote⟩
    · rw [herror]
      exact h
    · obtain ⟨hbase, hdir⟩ := h.leads hempty
      rw [hmake]
      by_cases hrest : components r.localPath = []
      · obtain ⟨loc', hleads', hne⟩ := hbase.entry (by rw [hdir]; simp)
        rw [hrest, List.append_nil] at hleads
        rw [hleads.unique hleads'] at hnone
        exact absurd hnone hne
      · obtain ⟨k', hk'⟩ := hbase.append_iff hdir hrest
        have hloc : loc = dir ++ components r.localPath := by
          refine ((hk' false loc).mp hleads).noLink hclean.isName ?_
          exact fun way hne hway hend => hlink way hne hway fun heq => absurd (hend heq) (by simp)
        rw [hloc] at hwrote hnone
        exact h.write hwrote (hwrote.grows (.inl hnone)) (.link hr htype hmarker rfl)

theorem Kept.save (h : Kept dir d₀ rows d) (hempty : EmptyDir base dir d₀) {r : RemoteFile}
    (hr : r ∈ rows) (hclean : IsClean r.localPath) (htype : r.props.type = .file)
    (hlink : ∀ way, way ≠ [] → way <+: components r.localPath →
      isLink (d.tree.node (dir ++ way)) = false)
    (content : Bytes) : Kept dir d₀ rows (d.save content (base ++ components r.localPath)).2 := by
  obtain ⟨hbase, hdir⟩ := h.leads hempty
  have hplace : ∀ loc, d.tree.Leads true Tree.maxLinks [] (base ++ components r.localPath) loc →
      loc = dir ++ components r.localPath := by
    intro loc hleads
    by_cases hrest : components r.localPath = []
    · rw [hrest, List.append_nil] at hleads ⊢
      exact hleads.unique hbase
    · obtain ⟨k', hk'⟩ := hbase.append_iff hdir hrest
      exact ((hk' true loc).mp hleads).noLink hclean.isName fun way hne hway _ => hlink way hne hway
  rcases d.save_cases content (base ++ components r.localPath) with
    ⟨e, herror⟩ | ⟨loc, d', hleads, hsave, ⟨hwrote, hnode⟩ | ⟨-, rfl⟩⟩
  · rw [herror]
    exact h
  · rw [hsave]
    rw [hplace loc hleads] at hwrote hnode
    exact h.write hwrote (hwrote.grows (hnode.imp_right fun hfile => ⟨hfile, rfl⟩))
      (.file hr htype rfl content)
  · rw [hsave]
    have hgrows := d.save_grows content (base ++ components r.localPath)
    rw [hsave] at hgrows
    refine ⟨h.grows.trans hgrows, ?_, h.inside⟩
    intro place houtside
    refine (h.outside place houtside).trans ⟨rfl, fun hmem => (List.mem_cons.mp hmem).resolve_left ?_⟩
    rintro rfl
    rw [hplace place hleads] at houtside
    exact houtside (List.prefix_append dir _)

/-- One more row, if it goes through none of those before. -/
theorem Kept.step {restoreDir : Str} (hdir : isAbs restoreDir = true) (h : Kept dir d₀ rows d)
    (hempty : EmptyDir (components restoreDir) dir d₀) {r : RemoteFile} (hclean : IsClean r.localPath)
    (hmarker : r.deleteMarker = false) (hthrough : ∀ s ∈ rows, ¬ ThroughLink s r) (C : Cloud) (st : Store)
    (b : Bucket) (cond : Conditions) :
    Kept dir d₀ (rows ++ [r]) (restoreInto C st b restoreDir cond r d).2 := by
  have hdisk := restoreInto_disk C st b restoreDir cond r d
  rw [components_mapPathIntoRestoreDir hdir hclean] at hdisk
  have hr : r ∈ rows ++ [r] := by simp
  have hmono : Kept dir d₀ (rows ++ [r]) d := h.mono fun s hs => by simp [hs]
  have hlink : r.props.type ≠ .unknown → ∀ way, way ≠ [] → way <+: components r.localPath →
      (way = components r.localPath → r.props.type = .file) → isLink (d.tree.node (dir ++ way)) = false :=
    fun htype way hne hway hend => h.noLink ⟨hmarker, htype⟩ hthrough hne hway hend
  have hparent : r.props.type ≠ .unknown →
      Kept dir d₀ (rows ++ [r]) (d.mkdirAll (components restoreDir ++ components r.localPath).dropLast).2 :=
    fun htype => hmono.mkdirParent hempty hr hclean ⟨hmarker, htype⟩ fun way hne hway hproper =>
      hlink htype way hne hway fun heq => absurd heq hproper
  -- the directories on the way put no link there
  have hlink' : r.props.type ≠ .unknown → ∀ way, way ≠ [] → way <+: components r.localPath →
      (way = components r.localPath → r.props.type = .file) → isLink ((d.mkdirAll (components restoreDir ++
        components r.localPath).dropLast).2.tree.node (dir ++ way)) = false := by
    intro htype way hne hway hend
    rw [Bool.eq_false_iff]
    intro hmade
    rw [(d.mkdirAll_run _).link hmade, hlink htype way hne hway hend] at hmade
    cases hmade
  generalize (restoreInto C st b restoreDir cond r d).2 = d' at hdisk
  cases hdisk with
  | unknown => exact hmono
  | dir htype =>
      refine hmono.mkdirAll hempty hclean.isName ?_ 
        ⟨r, hr, ⟨hmarker, by simp [htype]⟩, List.prefix_rfl, fun _ => htype⟩
      exact fun way hne hway hproper => hlink (by simp [htype]) way hne hway fun heq => absurd heq hproper
  | parent htype => exact hparent (by rcases htype with htype | htype <;> simp [htype])
  | link htype =>
      refine (hparent (by simp [htype])).symlink hempty hr hclean htype hmarker ?_
      exact fun way hne hway hproper => hlink' (by simp [htype]) way hne hway fun heq => absurd heq hproper
  | file htype content =>
      refine (hparent (by simp [htype])).save hempty hr hclean htype ?_ content
      exact fun way hne hway => hlink' (by simp [htype]) way hne hway fun _ => htype

end

section

variable {C : Cloud} {st : Store} {b : Bucket} {restoreDir : Str} {cond : RemoteFile → Conditions}

def NoneThroughLink (items : List RemoteFile) : Prop := items.Pairwise fun s r => ¬ ThroughLink s r

theorem kept_diskAfter (hdir : isAbs restoreDir = true) {dir : Names} {d₀ : Disk Bytes}
    (hempty : EmptyDir (components restoreDir) dir d₀) {items : List RemoteFile}
    (hclean : ∀ r ∈ items, IsClean r.localPath) (hnone : NoneThroughLink items) :
    Kept dir d₀ items (diskAfter C st b restoreDir cond items d₀) := by
  induction items using List.reverseRecOn with
  | nil => exact .start hempty
  | append_singleton items r ih =>
      obtain ⟨hitems, -, hthrough⟩ := List.pairwise_append.mp hnone
      have hkept := ih (fun s hs => hclean s (by simp [hs])) hitems
      rw [diskAfter_concat]
      split
      · exact hkept.mono fun s hs => by simp [hs]
      · rename_i hmarker
        exact hkept.step hdir hempty (hclean r (by simp)) (by simpa using hmarker)
          (fun s hs => hthrough s hs r (by simp)) C st b (cond r)

end

/-! ### The order of the rows -/

theorem textLe_total (s t : Str) : textLe s t = true ∨ textLe t s = true := by
  induction s generalizing t with
  | nil => exact .inl rfl
  | cons c s ih =>
      cases t with
      | nil => exact .inr rfl
      | cons d t =>
          rcases Nat.lt_trichotomy c.toNat d.toNat with hlt | heq | hgt
          · exact .inl (by simp [textLe, hlt])
          · exact (ih t).imp (fun h => by simp [textLe, heq, h]) fun h => by simp [textLe, heq, h]
          · exact .inr (by simp [textLe, hgt])

theorem textLe_trans {s t u : Str} (h : textLe s t = true) (h' : textLe t u = true) : textLe s u = true := by
  induction s generalizing t u with
  | nil => rfl
  | cons c s ih =>
      cases t with
      | nil => cases h
      | cons d t =>
          cases u with
          | nil => cases h'
          | cons e u =>
              simp only [textLe, Bool.or_eq_true, decide_eq_true_eq, Bool.and_eq_true] at h h' ⊢
              rcases h with hlt | ⟨heq, hle⟩
              · rcases h' with hlt' | ⟨heq', -⟩
                · exact .inl (hlt.trans hlt')
                · exact .inl (heq' ▸ hlt)
              · rcases h' with hlt' | ⟨heq', hle'⟩
                · exact .inl (heq ▸ hlt')
                · exact .inr ⟨heq.trans heq', ih hle hle'⟩

/-- A text does not come before what it goes on from. -/
theorem textLe_append_cons (s : Str) (c : Char) (t : Str) : textLe (s ++ c :: t) s = false := by
  induction s with
  | nil => rfl
  | cons d s ih => simp [textLe, ih]

theorem typeRank_injective {type type' : FileType} (h : typeRank type = typeRank type') : type = type' := by
  cases type <;> cases type' <;> first | rfl | cases h

def RowLe (r r' : RemoteFile) : Prop :=
  rowLe r.props.type r.localPath r'.props.type r'.localPath = true

theorem rowLe_iff {r r' : RemoteFile} : RowLe r r' ↔ typeRank r'.props.type < typeRank r.props.type ∨
    r.props.type = r'.props.type ∧ textLe r.localPath r'.localPath = true := by
  simp [RowLe, rowLe]

theorem rowLe_total (r r' : RemoteFile) : RowLe r r' ∨ RowLe r' r := by
  rw [rowLe_iff, rowLe_iff]
  rcases Nat.lt_trichotomy (typeRank r.props.type) (typeRank r'.props.type) with hlt | heq | hgt
  · exact .inr (.inl hlt)
  · have htype := typeRank_injective heq
    exact (textLe_total r.localPath r'.localPath).imp (fun h => .inr ⟨htype, h⟩) fun h => .inr ⟨htype.symm, h⟩
  · exact .inl (.inl hgt)

theorem rowLe_trans {r r' r'' : RemoteFile} (h : RowLe r r') (h' : RowLe r' r'') : RowLe r r'' := by
  rw [rowLe_iff] at h h' ⊢
  rcases h with hlt | ⟨htype, hle⟩
  · rcases h' with hlt' | ⟨htype', -⟩
    · exact .inl (hlt'.trans hlt)
    · exact .inl (htype' ▸ hlt)
  · rcases h' with hlt' | ⟨htype', hle'⟩
    · exact .inl (htype ▸ hlt')
    · exact .inr ⟨htype.trans htype', textLe_trans hle hle'⟩

instance : DecidableRel RowLe := fun r r' =>
  inferInstanceAs (Decidable (rowLe r.props.type r.localPath r'.props.type r'.localPath = true))

instance : Std.Total RowLe := ⟨rowLe_total⟩

instance : IsTrans RemoteFile RowLe := ⟨fun _ _ _ => rowLe_trans⟩

theorem sorted_loadPendingManifest (files : List RestoreFile) :
    (loadPendingManifest files).Pairwise RowLe := by
  exact List.pairwise_insertionSort RowLe _

theorem not_rowLe_of_throughLink {s r : RemoteFile} (hs : IsClean s.localPath) (hr : IsClean r.localPath)
    (h : ThroughLink s r) : ¬ RowLe r s := by
  rw [rowLe_iff, h.link]
  rintro (hlt | ⟨htype, hle⟩)
  · have hunknown := h.acts.2
    cases htype : r.props.type <;> simp [htype, typeRank] at hlt hunknown
  · have hbelow : Below s.localPath r.localPath :=
      h.through.resolve_right fun hfile => by simp [htype] at hfile
    have hroot : s.localPath ≠ ['/'] := fun heq => h.ne_root (by rw [heq]; rfl)
    obtain ⟨t, ht⟩ := (below_iff_starts hs hr hroot).mp hbelow
    rw [← ht, List.append_assoc, List.singleton_append, textLe_append_cons] at hle
    cases hle

/-- In the order of the manifest it is enough to look at the rows before. -/
theorem noneThroughLink_iff {items : List RemoteFile} (hclean : ∀ r ∈ items, IsClean r.localPath)
    (hsorted : items.Pairwise RowLe) :
    NoneThroughLink items ↔ ∀ s ∈ items, ∀ r ∈ items, ¬ ThroughLink s r := by
  constructor
  · intro hnone
    have hflip : items.Pairwise (flip fun s r => ¬ ThroughLink s r) := by
      refine hsorted.imp_of_mem ?_
      exact fun hs hr hle h => not_rowLe_of_throughLink (hclean _ hr) (hclean _ hs) h hle
    have hirrefl : ∀ s ∈ items, ¬ ThroughLink s s := fun s _ h =>
      h.through.elim (fun hbelow => hbelow.2 rfl) fun hfile => by simp [h.link] at hfile
    exact fun s hs r hr => List.Pairwise.forall_of_forall_of_flip hirrefl hnone hflip hs hr
  · intro hall
    exact List.pairwise_of_forall_mem_list fun s hs r hr => hall s hs r hr

theorem exists_first_throughLink {items : List RemoteFile} (h : ¬ NoneThroughLink items) :
    ∃ pre r post, items = pre ++ r :: post ∧ NoneThroughLink pre ∧ ∃ s ∈ pre, ThroughLink s r := by
  induction items using List.reverseRecOn with
  | nil => exact absurd List.Pairwise.nil h
  | append_singleton items r ih =>
      by_cases hitems : NoneThroughLink items
      · refine ⟨items, r, [], rfl, hitems, ?_⟩
        by_contra hnone
        push Not at hnone
        exact h (List.pairwise_append.mpr ⟨hitems, List.pairwise_singleton _ _, by simpa using hnone⟩)
      · obtain ⟨pre, first, post, rfl, hpre, hthrough⟩ := ih hitems
        exact ⟨pre, first, post ++ [r], by simp, hpre, hthrough⟩

/-! ### A way out -/

section

variable {C : Cloud} {st : Store} {b : Bucket} {restoreDir : Str} {cond : RemoteFile → Conditions}
  {dir : Names} {d₀ : Disk Bytes} {target : Str} {pre : List RemoteFile} {s : RemoteFile}

/-- Among the rows before that of a link, only links have left anything. -/
theorem type_of_rowLe (hlink : s.props.type = .symlink) {r : RemoteFile} (hle : RowLe r s)
    (hacts : r.props.type ≠ .unknown) : r.props.type = .symlink := by
  rw [rowLe_iff, hlink] at hle
  cases htype : r.props.type <;> simp [htype, typeRank] at hle hacts ⊢

theorem restoreInto_symlink {r : RemoteFile} (htype : r.props.type = .symlink) {c : Conditions}
    {d d' : Disk Bytes}
    (hmkdir : d.mkdirAll (components (mapPathIntoRestoreDir restoreDir r.localPath)).dropLast = (none, d')) :
    (restoreInto C st b restoreDir c r d).2 =
      (d'.symlink r.props.linkTarget (components (mapPathIntoRestoreDir restoreDir r.localPath))).2 := by
  unfold restoreInto
  rw [htype]
  dsimp only
  rw [hmkdir]
  dsimp only
  split <;> rename_i hsymlink <;> rw [hsymlink]

theorem Kept.clear_way {d : Disk Bytes} (hkept : Kept dir d₀ pre d) (hisDir : d.tree.node dir = some .dir)
    (hthrough : ∀ r ∈ pre, ¬ ThroughLink r s) (hbefore : ∀ r ∈ pre, RowLe r s) (hlink : s.props.type = .symlink)
    (hmarker : s.deleteMarker = false) (hroot : components s.localPath ≠ []) {way : Names}
    (hway : way <+: (components s.localPath).dropLast) :
    d.tree.node (dir ++ way) = none ∨ d.tree.node (dir ++ way) = some .dir := by
  have hne : way ≠ components s.localPath := by
    rintro rfl
    have hlen := hway.length_le
    have hpos := List.length_pos_of_ne_nil hroot
    rw [List.length_dropLast] at hlen
    omega
  by_cases hnil : way = []
  · rw [hnil, List.append_nil]
    exact .inr hisDir
  · rcases hnode : d.tree.node (dir ++ way) with _ | v
    · exact .inl rfl
    · rcases hkept.inside way hnil v hnode with _ | ⟨hr, htype, hrestored, rfl⟩ | ⟨hr, htype, -, -⟩
      · exact .inr rfl
      · -- the link of this row would go through another one
        exact absurd ⟨htype, hrestored, hnil, ⟨hmarker, by simp [hlink]⟩,
          .inl ⟨hway.trans (List.dropLast_prefix _), hne⟩⟩ (hthrough _ hr)
      · have hsymlink := type_of_rowLe hlink (hbefore _ hr) (by simp [htype])
        simp [htype] at hsymlink

/-- Whatever is there in the place of a link is the link of a row with the same path. -/
theorem Kept.eq_symlink {d : Disk Bytes} (hkept : Kept dir d₀ (pre ++ [s]) d)
    (hclean : ∀ r ∈ pre ++ [s], IsClean r.localPath) (hbefore : ∀ r ∈ pre, RowLe r s)
    (htargets : ∀ r ∈ pre ++ [s], r.props.linkTarget = target) (hlink : s.props.type = .symlink)
    (hmarker : s.deleteMarker = false) (hroot : components s.localPath ≠ []) {v : Node Bytes}
    (hnode : d.tree.node (dir ++ components s.localPath) = some v) : v = .symlink target := by
  have hsymlink : ∀ r ∈ pre ++ [s], r.props.type ≠ .unknown → r.props.type = .symlink := by
    intro r hr hacts
    rcases List.mem_append.mp hr with hr | hr
    · exact type_of_rowLe hlink (hbefore r hr) hacts
    · rw [List.mem_singleton.mp hr, hlink]
  rcases hkept.inside _ hroot v hnode with @⟨r, hr, hacts, hway, hend⟩ | ⟨hr, -, -, -⟩ | ⟨hr, htype, -, -⟩
  · have hne : components s.localPath ≠ components r.localPath := by
      intro heq
      have htype := hsymlink r hr hacts.2
      rw [hend heq] at htype
      cases htype
    rcases List.mem_append.mp hr with hr | hr
    · -- a row below the link comes after it
      have hafter : ThroughLink s r := ⟨hlink, hmarker, hroot, hacts, .inl ⟨hway, hne⟩⟩
      exact absurd (hbefore r hr) (not_rowLe_of_throughLink (hclean s (by simp)) (hclean r (by simp [hr])) hafter)
    · rw [List.mem_singleton.mp hr] at hne
      exact absurd rfl hne
  · rw [htargets _ hr]
  · have hlinked := hsymlink _ hr (by simp [htype])
    rw [htype] at hlinked
    cases hlinked

/-- The link of a row is made, if the rows before it in the manifest leave the way to
it alone. -/
theorem linked_diskAfter (hdir : isAbs restoreDir = true) (hempty : EmptyDir (components restoreDir) dir d₀)
    (hallowed : ∀ loc, d₀.allowed loc = true) (hclean : ∀ r ∈ pre ++ [s], IsClean r.localPath)
    (hnone : NoneThroughLink (pre ++ [s])) (hsorted : (pre ++ [s]).Pairwise RowLe)
    (htarget : target ≠ []) (htargets : ∀ r ∈ pre ++ [s], r.props.linkTarget = target)
    (hlink : s.props.type = .symlink) (hmarker : s.deleteMarker = false) (hroot : components s.localPath ≠ []) :
    (diskAfter C st b restoreDir cond (pre ++ [s]) d₀).tree.node (dir ++ components s.localPath) =
      some (.symlink target) := by
  obtain ⟨hpre, -, hthrough⟩ := List.pairwise_append.mp hnone
  obtain ⟨-, -, hbefore⟩ := List.pairwise_append.mp hsorted
  have hs : IsClean s.localPath := hclean s (by simp)
  have hpreClean : ∀ r ∈ pre, IsClean r.localPath := fun r hr => hclean r (by simp [hr])
  have hkept : Kept dir d₀ pre (diskAfter C st b restoreDir cond pre d₀) :=
    kept_diskAfter hdir hempty hpreClean hpre
  rw [diskAfter_concat, if_neg (by simp [hmarker])]
  generalize diskAfter C st b restoreDir cond pre d₀ = d₁ at hkept
  obtain ⟨hbase, hisDir⟩ := hkept.leads hempty
  have hparentNames : ∀ n ∈ (components s.localPath).dropLast, IsName n :=
    fun n hn => hs.isName n (List.mem_of_mem_dropLast hn)
  have hway : ∀ way, way <+: (components s.localPath).dropLast →
      d₁.tree.node (dir ++ way) = none ∨ d₁.tree.node (dir ++ way) = some .dir := fun way hway =>
    hkept.clear_way hisDir (fun r hr => hthrough r hr s (by simp)) (fun r hr => hbefore r hr s (by simp)) hlink
      hmarker hroot hway
  obtain ⟨d₂, hmkdir, hparent⟩ := Disk.mkdirAll_of_dirs hbase hisDir hempty.names hparentNames
    (fun loc => by rw [hkept.grows.allowed]; exact hallowed loc) hway
  have hdest : components (mapPathIntoRestoreDir restoreDir s.localPath) =
      components restoreDir ++ components s.localPath := components_mapPathIntoRestoreDir hdir hs
  have hdropLast : (components restoreDir ++ components s.localPath).dropLast =
      components restoreDir ++ (components s.localPath).dropLast := List.dropLast_append_of_ne_nil hroot
  rw [restoreInto_symlink hlink (by rw [hdest, hdropLast, hmkdir]), hdest, htargets s (by simp)]
  have hkept₂ : Kept dir d₀ (pre ++ [s]) d₂ := by
    have hmono : Kept dir d₀ (pre ++ [s]) d₁ := hkept.mono fun r hr => by simp [hr]
    have hmade := hmono.mkdirParent hempty (by simp) hs ⟨hmarker, by simp [hlink]⟩
      fun way hne hpre hne' => hkept.noLink ⟨hmarker, by simp [hlink]⟩ (fun r hr => hthrough r hr s (by simp))
        hne hpre fun heq => absurd heq hne'
    rwa [hdropLast, hmkdir] at hmade
  obtain ⟨hbase₂, hisDir₂⟩ := hkept₂.leads hempty
  rcases hnode : d₂.tree.node (dir ++ components s.localPath) with _ | v
  · have hleads := hbase₂.onward hisDir₂ hs.isName (fun hnil => absurd hnil hroot) hparent
      (fun _ => (rfl : false = false))
    obtain ⟨d₃, hmake, hwrote⟩ := Disk.make_of_leads (.symlink target : Node Bytes) hleads hnode
      (by rw [hkept₂.grows.allowed]; exact hallowed _)
    rw [Disk.symlink, if_neg htarget, hmake, hwrote.node, Function.update_self]
  · obtain rfl := hkept₂.eq_symlink hclean (fun r hr => hbefore r hr s (by simp)) htargets hlink hmarker hroot hnode
    exact (Disk.symlink_grows _ _ d₂).keeps.node_eq hnode rfl

theorem getInto_awsS3 (hstore : st.kind = .awsS3) {r : RemoteFile} (htype : r.props.type = .file)
    (c : Conditions) (dest : Names) (d : Disk Bytes) :
    ∃ content, (getInto C st b c r dest d).2 = (d.save content dest).2 := by
  have hget : st.get C (restoreRecord r) r.version r.remoteVersion b ≠ .ok none := by
    have hrecord : (restoreRecord r).props.type = .file := htype
    rw [Store.get, if_neg (by simp [hrecord])]
    split
    · simp [hstore]
    · rename_i body _
      rcases decode C.aead.toAead st.enc (restoreRecord r).props.encrypted body with e | content <;>
        simp [Except.map]
  unfold getInto
  split
  · exact absurd ‹_› hget
  · rename_i content _
    split
    · refine ⟨content, ?_⟩
      split <;> rename_i hsave <;> rw [hsave]
    · exact ⟨_, rfl⟩
  · rw [createsFile, hstore]
    exact ⟨c.part, rfl⟩

theorem restoreInto_file {r : RemoteFile} (hstore : st.kind = .awsS3) (htype : r.props.type = .file)
    {c : Conditions} (hcond : c.ctxDoneWaiting = false) {d d' : Disk Bytes}
    (hmkdir : d.mkdirAll (components (mapPathIntoRestoreDir restoreDir r.localPath)).dropLast = (none, d')) :
    ∃ content, (restoreInto C st b restoreDir c r d).2 =
      (d'.save content (components (mapPathIntoRestoreDir restoreDir r.localPath))).2 := by
  obtain ⟨content, hget⟩ := @getInto_awsS3 C st b hstore r htype c
    (components (mapPathIntoRestoreDir restoreDir r.localPath)) d'
  refine ⟨content, ?_⟩
  rw [← hget]
  unfold restoreInto
  rw [htype]
  dsimp only
  rw [hmkdir]
  dsimp only
  rw [hcond, if_neg (by simp)]
  split <;> rename_i hinto <;> rw [hinto]

/-- A row whose directory is a directory outside leaves something in it. -/
theorem written_of_beside {outside : Names} {d : Disk Bytes} {r : RemoteFile} (hdir : isAbs restoreDir = true)
    (hclean : IsClean r.localPath) (hallowed : ∀ loc, d.allowed loc = true) {way : Names} {n : List Char}
    (hway : components r.localPath = way ++ [n])
    (hleads : d.tree.Leads true Tree.maxLinks [] (components restoreDir ++ way) outside)
    (hisDir : d.tree.node outside = some .dir) (hempty : d.tree.node (outside ++ [n]) = none)
    (hacts : r.props.type ≠ .unknown) (hstore : st.kind = .awsS3) {c : Conditions}
    (hcond : c.ctxDoneWaiting = false) (htarget : r.props.linkTarget ≠ []) :
    outside ++ [n] ∈ (restoreInto C st b restoreDir c r d).2.written := by
  have hn : IsName n := hclean.isName n (by simp [hway])
  have hdest : components (mapPathIntoRestoreDir restoreDir r.localPath) =
      components restoreDir ++ way ++ [n] := by
    rw [components_mapPathIntoRestoreDir hdir hclean, hway, List.append_assoc]
  have hmkdir : d.mkdirAll (components (mapPathIntoRestoreDir restoreDir r.localPath)).dropLast =
      (none, d) := by
    rw [hdest, List.dropLast_concat]
    exact Disk.mkdirAll_of_dir (Tree.stat_eq_ok.mpr ⟨outside, hleads, hisDir⟩)
  have hentry : ∀ follow, d.tree.Leads follow Tree.maxLinks []
      (components (mapPathIntoRestoreDir restoreDir r.localPath)) (outside ++ [n]) := by
    intro follow
    rw [hdest]
    refine hleads.onward hisDir (by simpa using hn) (by simp) (by simpa using hisDir) ?_
    rw [hempty]
    nofun
  cases htype : r.props.type with
  | dir =>
      have hdisk := restoreInto_disk C st b restoreDir c r d
      generalize (restoreInto C st b restoreDir c r d).2 = d' at hdisk
      cases hdisk with
      | dir =>
          rw [hdest]
          exact Disk.mem_written_mkdirAll hleads hisDir hn hempty hallowed
      | unknown h => simp [htype] at h
      | parent h => simp [htype] at h
      | link h => simp [htype] at h
      | file h => simp [htype] at h
  | symlink =>
      obtain ⟨d', hmake, hwrote⟩ := Disk.make_of_leads (.symlink r.props.linkTarget : Node Bytes)
        (hentry false) hempty (hallowed _)
      rw [restoreInto_symlink htype hmkdir, Disk.symlink, if_neg htarget, hmake, hwrote.written]
      exact List.mem_cons_self
  | file =>
      obtain ⟨content, hinto⟩ := @restoreInto_file C st b restoreDir r hstore htype c hcond d d hmkdir
      obtain ⟨d', hsave, hwrote⟩ := Disk.save_of_leads content (hentry true) hempty (hallowed _)
      rw [hinto, hsave, hwrote.written]
      exact List.mem_cons_self
  | unknown => exact absurd htype hacts

/-- A row that goes through a link to a directory leaves something there. -/
theorem written_of_below {outside : Names} {d : Disk Bytes} {r : RemoteFile} (hdir : isAbs restoreDir = true)
    (hclean : IsClean r.localPath) (hallowed : ∀ loc, d.allowed loc = true) {way rest : Names} {n : List Char}
    (hway : components r.localPath = way ++ n :: rest)
    (hleads : d.tree.Leads true Tree.maxLinks [] (components restoreDir ++ way) outside)
    (hisDir : d.tree.node outside = some .dir) (hempty : d.tree.node (outside ++ [n]) = none)
    (hacts : r.props.type ≠ .unknown) (hstore : st.kind = .awsS3) {c : Conditions}
    (hcond : c.ctxDoneWaiting = false) (htarget : r.props.linkTarget ≠ []) :
    outside ++ [n] ∈ (restoreInto C st b restoreDir c r d).2.written := by
  by_cases hrest : rest = []
  · rw [hrest] at hway
    exact written_of_beside hdir hclean hallowed hway hleads hisDir hempty hacts hstore hcond htarget
  · -- `n` is a directory on the way, which is made before anything else
    have hn : IsName n := hclean.isName n (by simp [hway])
    have hmade := fun rest' : Names =>
      @Disk.mem_written_mkdirAll _ d _ _ rest' n hleads hisDir hn hempty hallowed
    have hdest : components (mapPathIntoRestoreDir restoreDir r.localPath) =
        components restoreDir ++ way ++ n :: rest := by
      rw [components_mapPathIntoRestoreDir hdir hclean, hway, List.append_assoc]
    have hdropLast : (components (mapPathIntoRestoreDir restoreDir r.localPath)).dropLast =
        components restoreDir ++ way ++ n :: rest.dropLast := by
      rw [hdest, List.dropLast_append_of_ne_nil (by simp), List.dropLast_cons_of_ne_nil hrest]
    have hdisk := restoreInto_disk C st b restoreDir c r d
    generalize (restoreInto C st b restoreDir c r d).2 = d' at hdisk
    have hparent := hdropLast ▸ hmade rest.dropLast
    cases hdisk with
    | unknown h => exact absurd h hacts
    | dir => exact hdest ▸ hmade rest
    | parent => exact hparent
    | link => exact (Disk.symlink_grows _ _ _).log _ hparent
    | file _ content => exact (Disk.save_grows _ _ _).log _ hparent

/-- So does a file that is written in the place of a link. -/
theorem written_of_file {outside : Names} {d : Disk Bytes} {r : RemoteFile} (hdir : isAbs restoreDir = true)
    (hclean : IsClean r.localPath) (hallowed : ∀ loc, d.allowed loc = true) (htype : r.props.type = .file)
    (hleads : d.tree.Leads true Tree.maxLinks [] (components restoreDir ++ components r.localPath) outside)
    (hparent : d.tree.stat (components restoreDir ++ components r.localPath).dropLast = .ok .dir)
    (hempty : d.tree.node outside = none) (hstore : st.kind = .awsS3) {c : Conditions}
    (hcond : c.ctxDoneWaiting = false) : outside ∈ (restoreInto C st b restoreDir c r d).2.written := by
  have hdest := components_mapPathIntoRestoreDir hdir hclean
  rw [← hdest] at hleads hparent
  obtain ⟨content, hinto⟩ :=
    @restoreInto_file C st b restoreDir r hstore htype c hcond d d (Disk.mkdirAll_of_dir hparent)
  obtain ⟨d', hsave, hwrote⟩ := Disk.save_of_leads content hleads hempty (hallowed _)
  rw [hinto, hsave, hwrote.written]
  exact List.mem_cons_self

end

/-! ### Confinement -/

def relink (targets : RemoteFile → Str) (f : RestoreFile) : RestoreFile :=
  { f with row := { f.row with props := { f.row.props with linkTarget := targets f.row } } }

/-- Whatever the links lead to, the rows are restored into an empty directory without
anything being written outside of it. -/
def Confines (files : List RestoreFile) : Prop :=
  ∀ (targets : RemoteFile → Str) (C : Cloud) (st : Store) (b : Bucket) (cond : RemoteFile → Conditions)
    (restoreDir : Str) (dir : Names) (d : Disk Bytes), IsClean restoreDir →
    EmptyDir (components restoreDir) dir d → d.written = [] →
    ∀ pass ∈ restoreFiles C st b restoreDir cond (files.map (relink targets)) d,
      ∀ loc ∈ pass.after.written, dir <+: loc

def outsideTree (withDir : Bool) : FileTree.Tree Bytes where
  node names := if names = [] ∨ names = [['r']] ∨ withDir = true ∧ names = [['o']] then some .dir else none
  root := by simp
  parent := by
    intro names n h
    have hnil : names = [] := by
      by_contra hne
      have hlen : 2 ≤ (names ++ [n]).length := by
        have hpos := List.length_pos_of_ne_nil hne
        simp
        omega
      apply h
      rw [if_neg]
      rintro (heq | heq | ⟨-, heq⟩) <;> rw [heq] at hlen <;> simp at hlen
    rw [hnil]
    simp

def outsideDisk (withDir : Bool) : Disk Bytes := ⟨outsideTree withDir, fun _ => true, []⟩

theorem emptyDir_outsideDisk (withDir : Bool) : EmptyDir [['r']] [['r']] (outsideDisk withDir) where
  names := by
    intro n hn
    obtain rfl := List.mem_singleton.mp hn
    exact ⟨by simp, by simp, by simp, by simp⟩
  leads := .enter ⟨by simp, by simp⟩ (by simp [outsideDisk, outsideTree]) (.here _ _)
  isDir := by simp [outsideDisk, outsideTree]
  empty := fun n => by simp [outsideDisk, outsideTree]

theorem mem_loadPendingManifest_relink {files : List RestoreFile} {targets : RemoteFile → Str}
    {r : RemoteFile} : r ∈ loadPendingManifest (files.map (relink targets)) ↔
      ∃ r₀ ∈ loadPendingManifest files,
        r = { r₀ with props := { r₀.props with linkTarget := targets r₀ } } := by
  simp only [mem_loadPendingManifest_iff, List.mem_map]
  constructor
  · rintro ⟨_, ⟨f, hf, rfl⟩, hstate, rfl⟩
    exact ⟨f.row, ⟨f, hf, hstate, rfl⟩, rfl⟩
  · rintro ⟨_, ⟨f, hf, hstate, rfl⟩, rfl⟩
    exact ⟨_, ⟨f, hf, rfl⟩, hstate, rfl⟩

/-- The target of a link plays no part in whether a row goes through it. -/
theorem throughLink_relink {s r : RemoteFile} {t u : Str} :
    ThroughLink { s with props := { s.props with linkTarget := t } }
      { r with props := { r.props with linkTarget := u } } ↔ ThroughLink s r :=
  ⟨fun ⟨h₁, h₂, h₃, h₄, h₅⟩ => ⟨h₁, h₂, h₃, h₄, h₅⟩, fun ⟨h₁, h₂, h₃, h₄, h₅⟩ => ⟨h₁, h₂, h₃, h₄, h₅⟩⟩

theorem restoreFiles_of_emptyDir {C : Cloud} {st : Store} {b : Bucket} {restoreDir : Str}
    {cond : RemoteFile → Conditions} {dir : Names} {d : Disk Bytes}
    (hempty : EmptyDir (components restoreDir) dir d) (files : List RestoreFile) :
    restoreFiles C st b restoreDir cond files d =
      restoreLoop C st b restoreDir cond (loadPendingManifest files) d := by
  rw [restoreFiles, Disk.mkdirAll_of_dir (Tree.stat_eq_ok.mpr ⟨dir, hempty.leads, hempty.isDir⟩)]

/-- What the rows before leave of the disk for one that goes through a link: the link
is there, and nothing has changed outside. -/
theorem beforeThroughLink {pre : List RemoteFile} (hclean : ∀ r ∈ pre, IsClean r.localPath)
    (hsorted : pre.Pairwise RowLe) (htargets : ∀ r ∈ pre, r.props.linkTarget = ['/', 'o'])
    (hnone : NoneThroughLink pre) {s : RemoteFile} (hs : s ∈ pre) (hlink : s.props.type = .symlink)
    (hmarker : s.deleteMarker = false) (hroot : components s.localPath ≠ []) (withDir : Bool) :
    ∃ d, diskAfter plainCloud (plainStore .awsS3) Bucket.empty ['/', 'r'] (fun _ => smoothConditions) pre
        (outsideDisk withDir) = d ∧ (∀ loc, d.allowed loc = true) ∧
      d.tree.node ([['r']] ++ components s.localPath) = some (.symlink ['/', 'o']) ∧
      ∀ rest, d.tree.node (['o'] :: rest) = (outsideDisk withDir).tree.node (['o'] :: rest) := by
  have hempty : EmptyDir (components ['/', 'r']) [['r']] (outsideDisk withDir) := emptyDir_outsideDisk withDir
  have hkept := @kept_diskAfter plainCloud (plainStore .awsS3) Bucket.empty ['/', 'r']
    (fun _ => smoothConditions) rfl _ _ hempty pre hclean hnone
  refine ⟨_, rfl, ?_, ?_, ?_⟩
  · intro loc
    rw [hkept.grows.allowed]
    rfl
  · obtain ⟨pre₁, pre₂, rfl⟩ := List.append_of_mem hs
    have hfirst : pre₁ ++ [s] <+: pre₁ ++ s :: pre₂ := ⟨pre₂, by simp⟩
    have hlinked := @linked_diskAfter plainCloud (plainStore .awsS3) Bucket.empty ['/', 'r']
      (fun _ => smoothConditions) _ _ ['/', 'o'] pre₁ s rfl hempty (fun _ => rfl)
      (fun r hr => hclean r (hfirst.subset hr)) (hnone.sublist hfirst.sublist)
      (hsorted.sublist hfirst.sublist) (by simp) (fun r hr => htargets r (hfirst.subset hr)) hlink hmarker hroot
    have hsplit : pre₁ ++ s :: pre₂ = (pre₁ ++ [s]) ++ pre₂ := by simp
    rw [hsplit, diskAfter, List.foldl_append]
    exact (diskAfter_grows pre₂ _).keeps.node_eq hlinked rfl
  · intro rest
    refine (hkept.outside _ ?_).node
    simp

theorem leads_outside {d : Disk Bytes} {loc : Names} (hnames : ∀ n ∈ loc, IsName n) (hne : loc ≠ [])
    (hnode : d.tree.node loc = some (.symlink ['/', 'o'])) (hend : isLink (d.tree.node [['o']]) = false) :
    d.tree.Leads true Tree.maxLinks [] loc [['o']] := by
  have hrest : d.tree.Leads true 39 [] [['o']] ([] ++ [['o']]) := by
    refine Tree.leads_name ⟨by simp, by simp, by simp, by simp⟩ ?_
    rw [List.nil_append, hend]
    nofun
  have hlinked : d.tree.Leads true (39 + 1) [] (loc ++ []) [['o']] :=
    Tree.leads_link hnames hne hnode (fun _ => rfl) (.skip (.inl rfl) hrest)
  rwa [List.append_nil] at hlinked

theorem escapes_of_throughLink {items : List RemoteFile} (hclean : ∀ r ∈ items, IsClean r.localPath)
    (hsorted : items.Pairwise RowLe) (htargets : ∀ r ∈ items, r.props.linkTarget = ['/', 'o'])
    (hthrough : ¬ NoneThroughLink items) : ∃ withDir, ∃ pass ∈ restoreLoop plainCloud (plainStore .awsS3)
      Bucket.empty ['/', 'r'] (fun _ => smoothConditions) items (outsideDisk withDir),
      ∃ loc ∈ pass.after.written, ¬ [['r']] <+: loc := by
  obtain ⟨pre, r, post, rfl, hnone, s, hs, hlink, hmarker, hroot, hacts, hthrough⟩ :=
    exists_first_throughLink hthrough
  have hsub : pre <+: pre ++ r :: post := List.prefix_append pre _
  have hr : IsClean r.localPath := hclean r (by simp)
  have hsNames : ∀ n ∈ [['r']] ++ components s.localPath, IsName n := by
    intro n hn
    rcases List.mem_append.mp hn with hn | hn
    · exact (emptyDir_outsideDisk true).names n hn
    · exact (hclean s (hsub.subset hs)).isName n hn
  have hbefore := beforeThroughLink (fun x hx => hclean x (hsub.subset hx)) (hsorted.sublist hsub.sublist)
    (fun x hx => htargets x (hsub.subset hx)) hnone hs hlink hmarker hroot
  have hpass := fun withDir => @pass_mem_restoreLoop plainCloud (plainStore .awsS3) Bucket.empty ['/', 'r']
    (fun _ => smoothConditions) (fun _ => ⟨rfl, rfl⟩) pre post r hacts.1 (outsideDisk withDir)
  simp only [diskAfter_concat, hacts.1, Bool.false_eq_true, if_false] at hpass
  have hleads := fun d : Disk Bytes =>
    @leads_outside d (components ['/', 'r'] ++ components s.localPath) hsNames (List.cons_ne_nil _ _)
  rcases hthrough with ⟨hpre, hne⟩ | ⟨htype, heq⟩
  · -- the link leads to a directory, which takes in what is below
    obtain ⟨d, hd, hallowed, hnode, houtside⟩ := hbefore true
    obtain ⟨pass, hmem, hafter⟩ := hpass true
    obtain ⟨n, rest, hway⟩ : ∃ n rest, components r.localPath = components s.localPath ++ n :: rest := by
      obtain ⟨rest, hrest⟩ := hpre
      cases rest with
      | nil => exact absurd (by simpa using hrest) hne
      | cons n rest => exact ⟨n, rest, hrest.symm⟩
    have hisDir : d.tree.node [['o']] = some .dir := by
      rw [houtside]
      simp [outsideDisk, outsideTree]
    refine ⟨true, pass, hmem, [['o']] ++ [n], ?_, by simp⟩
    rw [hafter, hd]
    refine written_of_below rfl hr hallowed hway (hleads d hnode (by rw [hisDir]; rfl)) hisDir ?_ hacts.2
      rfl rfl ?_
    · rw [List.singleton_append, houtside]
      simp [outsideDisk, outsideTree]
    · rw [htargets r (by simp)]
      simp
  · -- the link leads nowhere, and a file is created there
    obtain ⟨d, hd, hallowed, hnode, houtside⟩ := hbefore false
    obtain ⟨pass, hmem, hafter⟩ := hpass false
    have hmissing : d.tree.node [['o']] = none := by
      rw [houtside]
      simp [outsideDisk, outsideTree]
    have hparent : d.tree.stat (components ['/', 'r'] ++ components r.localPath).dropLast = .ok .dir := by
      rw [← heq]
      refine Tree.stat_of_dir (fun n hn => hsNames n (List.mem_of_mem_dropLast hn)) ?_
      have hne : d.tree.node ([['r']] ++ components s.localPath) ≠ none := by
        rw [hnode]
        simp
      exact Tree.node_dropLast hne (List.cons_ne_nil _ _)
    refine ⟨false, pass, hmem, [['o']], ?_, by simp⟩
    rw [hafter, hd]
    exact written_of_file rfl hr hallowed htype (heq ▸ hleads d hnode (by rw [hmissing]; rfl)) hparent hmissing
      rfl rfl

/-- A restore is confined if no row goes through a link; and only then. -/
theorem confined_iff (files : List RestoreFile) (hclean : ∀ f ∈ files, IsClean f.row.localPath) :
    Confines files ↔
      ∀ s ∈ loadPendingManifest files, ∀ r ∈ loadPendingManifest files, ¬ ThroughLink s r := by
  have hitems : ∀ targets, ∀ r ∈ loadPendingManifest (files.map (relink targets)), IsClean r.localPath := by
    intro targets r hr
    obtain ⟨f', hf', -, rfl⟩ := mem_loadPendingManifest_iff.mp hr
    obtain ⟨f, hf, rfl⟩ := List.mem_map.mp hf'
    exact hclean f hf
  have hnone : ∀ targets, NoneThroughLink (loadPendingManifest (files.map (relink targets))) ↔
      ∀ s ∈ loadPendingManifest files, ∀ r ∈ loadPendingManifest files, ¬ ThroughLink s r := by
    intro targets
    rw [noneThroughLink_iff (hitems targets) (sorted_loadPendingManifest _)]
    constructor
    · intro h s hs r hr hthrough
      exact h _ (mem_loadPendingManifest_relink.mpr ⟨s, hs, rfl⟩) _
        (mem_loadPendingManifest_relink.mpr ⟨r, hr, rfl⟩) (throughLink_relink.mpr hthrough)
    · intro h s hs r hr hthrough
      obtain ⟨s₀, hs₀, rfl⟩ := mem_loadPendingManifest_relink.mp hs
      obtain ⟨r₀, hr₀, rfl⟩ := mem_loadPendingManifest_relink.mp hr
      exact h s₀ hs₀ r₀ hr₀ (throughLink_relink.mp hthrough)
  constructor
  · intro hconfines
    rw [← hnone fun _ => ['/', 'o']]
    by_contra hthrough
    obtain ⟨withDir, pass, hpass, loc, hloc, hout⟩ := escapes_of_throughLink (hitems _)
      (sorted_loadPendingManifest _) (by
        intro r hr
        obtain ⟨r, -, rfl⟩ := mem_loadPendingManifest_relink.mp hr
        rfl) hthrough
    have hempty : EmptyDir (components ['/', 'r']) [['r']] (outsideDisk withDir) :=
      emptyDir_outsideDisk withDir
    refine hout (hconfines (fun _ => ['/', 'o']) plainCloud (plainStore .awsS3) Bucket.empty
      (fun _ => smoothConditions) ['/', 'r'] [['r']] (outsideDisk withDir) (by decide) hempty rfl pass ?_ loc hloc)
    rw [restoreFiles_of_emptyDir hempty]
    exact hpass
  · intro h targets C st b cond restoreDir dir d hdir hempty hwritten pass hpass loc hloc
    rw [restoreFiles_of_emptyDir hempty] at hpass
    obtain ⟨pre, post, heq, hmarker, hbefore, hafter⟩ := mem_restoreLoop hpass
    have hfirst : pre ++ [pass.item] <+: loadPendingManifest (files.map (relink targets)) :=
      ⟨post, by rw [heq]; simp⟩
    have hkept : Kept dir d (pre ++ [pass.item]) (diskAfter C st b restoreDir cond (pre ++ [pass.item]) d) :=
      kept_diskAfter hdir.1 hempty (fun r hr => hitems targets r (hfirst.subset hr))
        (((hnone targets).mpr h).sublist hfirst.sublist)
    rw [diskAfter_concat, if_neg (by simp [hmarker]), ← hbefore, hafter] at hkept
    by_contra hout
    have hmem := (hkept.outside loc hout).log hloc
    rw [hwritten] at hmem
    cases hmem

instance (s r : RemoteFile) : Decidable (ThroughLink s r) :=
  decidable_of_iff (s.props.type = .symlink ∧ s.deleteMarker = false ∧ components s.localPath ≠ [] ∧
      (r.deleteMarker = false ∧ r.props.type ≠ .unknown) ∧ (Below s.localPath r.localPath ∨
        r.props.type = .file ∧ components s.localPath = components r.localPath))
    ⟨fun ⟨h₁, h₂, h₃, h₄, h₅⟩ => ⟨h₁, h₂, h₃, h₄, h₅⟩, fun ⟨h₁, h₂, h₃, h₄, h₅⟩ => ⟨h₁, h₂, h₃, h₄, h₅⟩⟩

theorem confined_besideLink :
    Confines (pendingFiles [("/a", .dir), ("/a/x", .file), ("/b", .symlink)]) :=
  (confined_iff (pendingFiles [("/a", .dir), ("/a/x", .file), ("/b", .symlink)])
    (by decide)).mpr (by decide)

def fileBelowLink : List RestoreFile :=
  (pendingFiles [("/a", .symlink), ("/a/x", .file)]).map (relink fun _ => ['/', 'o'])

theorem confined_fileBelowLink : ¬ ∀ (files : List RestoreFile) (C : Cloud) (st : Store) (b : Bucket)
    (cond : RemoteFile → Conditions) (restoreDir : Str) (dir : Names) (d : Disk Bytes),
    (∀ f ∈ files, IsClean f.row.localPath) → IsClean restoreDir → EmptyDir (components restoreDir) dir d →
    d.written = [] → ∀ pass ∈ restoreFiles C st b restoreDir cond files d,
      ∀ loc ∈ pass.after.written, dir <+: loc := by
  intro hall
  have hconfined := hall fileBelowLink plainCloud (plainStore .awsS3) Bucket.empty (fun _ => smoothConditions)
    ['/', 'r'] [['r']] (outsideDisk true) (by decide) (by decide) (emptyDir_outsideDisk true) rfl
  have hout : (restoreFiles plainCloud (plainStore .awsS3) Bucket.empty ['/', 'r'] (fun _ => smoothConditions)
      fileBelowLink (outsideDisk true)).any (fun pass => pass.after.written.contains [['o'], ['x']]) = true := by
    decide
  obtain ⟨pass, hpass, hmem⟩ := List.any_eq_true.mp hout
  have hinside := hconfined pass hpass [['o'], ['x']] (by simpa using hmem)
  revert hinside
  decide

end CloudBackup.Restore
