import CloudBackup.Backup.Entries
import CloudBackup.Backup.Scan
import CloudBackup.Library.SqlAffinity

/-!
`runBackup`, from the loop over the configured paths on, and what it means for a run
that these paths may overlap: an item that is scanned twice is collected twice, and a
path that is configured twice ends the run at the primary key of `top_items`. The entries
of a collection are counted by the value that is kept of their target: the column is
numeric, so that two targets may have names that are the same there.
-/

namespace CloudBackup.Backup

open Database ObjectStore Iteration SqlAffinity TreeWalk UnixPath

/-! ### The run -/

section Run

variable (C : Cloud) (pathMatch : Str → Str → Option Bool) (cfg : ConfigBackup)
  (dereference : Bool) (v : Volume) (jobUuid : Str) (env : Surroundings)

/-- A pass of the loop of `runBackup` over the configured paths. -/
def scanRoot (path : Str) (s : Scanning) : Flow Scanning ScanHalt :=
  if env.ctxDone s.turn path then .stop .cancelled s
  else scanPath C pathMatch cfg dereference false v jobUuid env (clean path) s

/-- How a run ends. Its job gets the state `failed` in the second case. -/
inductive RunEnding
  | cancelled
  | failed (e : ScanErr)
  | marked (ending : Ending)
  deriving DecidableEq, Repr

/-- The number of paths that a call of `FindAndMarkDeleted` asks for. -/
def maxResults : ℕ := 5000

/-- `runBackup`, from the loop over the paths on. The name of the first target is
`target`. -/
def runBackup (target : Str) (rounds : ℕ → Round) (fuel : ℕ) (s : Scanning) :
    Option (RunEnding × Scanning) :=
  match forEach (scanRoot C pathMatch cfg dereference v jobUuid env) cfg.paths s with
  | .stop .cancelled s => some (.cancelled, s)
  | .stop (.error e) s => some (.failed e, s)
  | .next s =>
      (findAndMarkDeleted C pathMatch cfg jobUuid target maxResults rounds fuel ⟨s.world, []⟩).map
        fun r => (.marked r.1, { s with world := r.2.world })

end Run

/-! ### Scanning -/

section

variable {C : Cloud} {pathMatch : Str → Str → Option Bool} {cfg : ConfigBackup} {dereference : Bool}
  {v : Volume} {jobUuid : Str} {env : Surroundings} {names walked : List Str} {s : Scanning}

theorem OneEntry.mono {w : World} {walked' : List Str} {marking : Bool}
    (h : OneEntry jobUuid names ⟨w, walked, marking⟩) (hsub : walked ⊆ walked') :
    OneEntry jobUuid names ⟨w, walked', marking⟩ :=
  ⟨h.keyed, h.le_one, h.target, fun hm target path hne => hsub (h.walked hm target path hne)⟩

theorem backupItem_state (path : Str) (stat : OnDisk) (s : Scanning) :
    (backupItem C cfg false jobUuid env path stat s).state =
      { s with
        world := (walkItem C cfg jobUuid { env.item s.turn with path := path, disk := stat } s.world).world
        turn := s.turn + 1 } := by
  rw [backupItem, if_neg Bool.false_ne_true]
  dsimp only
  split <;> rfl

theorem backupItem_oneEntry (hnames : names.Nodup)
    (htargets : ∀ turn, (env.item turn).targets.map (·.store.name) = names) {path : Str} (stat : OnDisk)
    (h : OneEntry jobUuid names ⟨s.world, walked, false⟩) (hnew : path ∉ walked) :
    OneEntry jobUuid names
      ⟨(backupItem C cfg false jobUuid env path stat s).state.world, walked ++ [path], false⟩ := by
  have hstep := @oneEntry_step C (fun _ _ => none) jobUuid names ⟨s.world, walked, false⟩ hnames
    (.walk cfg jobUuid { env.item s.turn with path := path, disk := stat }) h
    (fun _ => ⟨htargets s.turn, nofun⟩) fun _ => hnew
  rw [backupItem_state]
  simpa [Trace.step, Action.apply, Action.run, Action.scans, Action.jobUuid] using hstep

theorem meet_oneEntry (hnames : names.Nodup)
    (htargets : ∀ turn, (env.item turn).targets.map (·.store.name) = names) {x : Sight}
    (h : OneEntry jobUuid names ⟨s.world, walked, false⟩) (hnew : ∀ path ∈ handed [x], path ∉ walked) :
    OneEntry jobUuid names
      ⟨(meet C cfg false jobUuid env x s).state.world, walked ++ handed [x], false⟩ := by
  unfold meet
  split
  · exact h.mono (List.subset_append_left _ _)
  · split
    · exact h.mono (List.subset_append_left _ _)
    · rename_i stat hfound
      have hhanded : handed [x] = [x.path] := by simp [handed, hfound]
      rw [hhanded] at hnew ⊢
      exact backupItem_oneEntry hnames htargets stat h (hnew x.path (by simp))

theorem meet_topItems (x : Sight) (s : Scanning) :
    (meet C cfg false jobUuid env x s).state.topItems = s.topItems := by
  unfold meet
  split
  · rfl
  · split
    · rfl
    · rw [backupItem_state]

theorem handed_append (l l' : List Sight) : handed (l ++ l') = handed l ++ handed l' := by
  simp [handed]

/-- Things that are met, none of them twice or again. -/
theorem meetAll_oneEntry (hnames : names.Nodup)
    (htargets : ∀ turn, (env.item turn).targets.map (·.store.name) = names) {l : List Sight}
    (h : OneEntry jobUuid names ⟨s.world, walked, false⟩) (hnodup : (handed l).Nodup)
    (hnew : ∀ path ∈ handed l, path ∉ walked) :
    OneEntry jobUuid names
        ⟨(forEach (meet C cfg false jobUuid env) l s).state.world, walked ++ handed l, false⟩ ∧
      (forEach (meet C cfg false jobUuid env) l s).state.topItems = s.topItems := by
  have hstep : ∀ pre x post t, l = pre ++ x :: post →
      OneEntry jobUuid names ⟨t.world, walked ++ handed pre, false⟩ ∧ t.topItems = s.topItems →
      OneEntry jobUuid names
        ⟨(meet C cfg false jobUuid env x t).state.world, walked ++ handed (pre ++ [x]), false⟩ ∧
      (meet C cfg false jobUuid env x t).state.topItems = s.topItems := by
    rintro pre x post t rfl ⟨hone, htop⟩
    have hsplit : handed (pre ++ x :: post) = handed pre ++ (handed [x] ++ handed post) := by
      rw [handed_append, ← List.singleton_append, handed_append]
    rw [hsplit] at hnodup hnew
    have hx : ∀ path ∈ handed [x], path ∉ walked ++ handed pre := by
      intro path hpath hmem
      rcases List.mem_append.mp hmem with hmem | hmem
      · exact hnew path (by simp [hpath]) hmem
      · exact (List.nodup_append.mp hnodup).2.2 path hmem path (List.mem_append_left _ hpath) rfl
    refine ⟨?_, by rw [meet_topItems, htop]⟩
    rw [handed_append, ← List.append_assoc]
    exact meet_oneEntry hnames htargets hone hx
  obtain ⟨pre, hpre, ⟨hone, htop⟩, -⟩ := forEach_visited
    (I := fun pre t => OneEntry jobUuid names ⟨t.world, walked ++ handed pre, false⟩ ∧ t.topItems = s.topItems)
    (s := s) ⟨h.mono (List.subset_append_left _ _), rfl⟩ hstep
  refine ⟨hone.mono ?_, htop⟩
  obtain ⟨post, rfl⟩ := hpre
  rw [handed_append, ← List.append_assoc]
  exact List.subset_append_left _ _

theorem addTopLevelJobPath_cases (path : Str) (type : FileType) (s : Scanning) :
    (∃ e, addTopLevelJobPath jobUuid env path type s = .error e ∧
      (e = .primaryKey → ∃ row ∈ s.topItems, row.jobId = jobUuid ∧ row.path = path)) ∨
    addTopLevelJobPath jobUuid env path type s =
      .ok { s with topItems := s.topItems ++ [⟨jobUuid, path, type⟩] } := by
  unfold addTopLevelJobPath topItemsInsert
  split
  · exact .inl ⟨.statement, rfl, nofun⟩
  · dsimp only
    cases hkey : s.topItems.any fun t => decide (t.jobId = jobUuid) && decide (t.path = path) with
    | true =>
        obtain ⟨row, hrow, heq⟩ := List.any_eq_true.mp hkey
        rw [Bool.and_eq_true, decide_eq_true_eq, decide_eq_true_eq] at heq
        exact .inl ⟨.primaryKey, rfl, fun _ => ⟨row, hrow, heq.1, heq.2⟩⟩
    | false => exact .inr rfl

theorem backupItem_stop {path : Str} {stat : OnDisk} {halt : ScanHalt} {t : Scanning}
    (h : backupItem C cfg false jobUuid env path stat s = .stop halt t) : halt = .cancelled := by
  rw [backupItem, if_neg Bool.false_ne_true] at h
  dsimp only at h
  split at h
  · cases h
    rfl
  · cases h

/-- Once the path is in `top_items`, only the context can stop a scan. -/
theorem meetAll_stop {l : List Sight} {halt : ScanHalt} {t : Scanning}
    (h : forEach (meet C cfg false jobUuid env) l s = .stop halt t) : halt = .cancelled := by
  obtain ⟨pre, x, post, u, -, -, hstop⟩ := forEach_stop h
  unfold meet at hstop
  split at hstop
  · cases hstop
    rfl
  · split at hstop
    · cases hstop
    · exact backupItem_stop hstop

/-- A scan, once its path is in `top_items`: none of the items was scanned before, and
only the context can stop it. -/
theorem handAll_oneEntry (hnames : names.Nodup)
    (htargets : ∀ turn, (env.item turn).targets.map (·.store.name) = names) {path : Str} {stat : OnDisk}
    {l : List Sight} {flow : Flow Scanning ScanHalt}
    (hflow : flow = (backupItem C cfg false jobUuid env path stat s).andThen
      (forEach (meet C cfg false jobUuid env) l))
    (h : OneEntry jobUuid names ⟨s.world, walked, false⟩) (hnodup : (path :: handed l).Nodup)
    (hnew : ∀ p ∈ path :: handed l, p ∉ walked) :
    OneEntry jobUuid names ⟨flow.state.world, walked ++ path :: handed l, false⟩ ∧
      flow.state.topItems = s.topItems ∧ ∀ halt t, flow = .stop halt t → halt = .cancelled := by
  have hfirst := @backupItem_oneEntry C cfg jobUuid env names walked s hnames htargets path stat h
    (hnew path (by simp))
  have htop := congrArg Scanning.topItems (@backupItem_state C cfg jobUuid env path stat s)
  rw [List.append_cons]
  cases hb : backupItem C cfg false jobUuid env path stat s with
  | stop halt t =>
      rw [hb] at hfirst htop hflow
      rw [hflow]
      refine ⟨hfirst.mono (List.subset_append_left _ _), htop, fun halt' t' heq => ?_⟩
      cases heq
      exact backupItem_stop hb
  | next t =>
      rw [hb] at hfirst htop hflow
      have hrest : ∀ p ∈ handed l, p ∉ walked ++ [path] := by
        intro p hp hmem
        rcases List.mem_append.mp hmem with hmem | hmem
        · exact hnew p (List.mem_cons_of_mem path hp) hmem
        · obtain rfl := List.mem_singleton.mp hmem
          exact (List.nodup_cons.mp hnodup).1 hp
      obtain ⟨hone, htop'⟩ := @meetAll_oneEntry C cfg jobUuid env names (walked ++ [path]) t hnames htargets l
        hfirst (List.nodup_cons.mp hnodup).2 hrest
      rw [hflow]
      exact ⟨hone, htop'.trans htop, fun halt u heq => meetAll_stop heq⟩

theorem scanPath_cases (path : Str) (s : Scanning) :
    let flow := scanPath C pathMatch cfg dereference false v jobUuid env path s
    (∃ halt, flow = .stop halt s ∧ (halt = .error .primaryKey → (v.examine dereference path).isSome ∧
      ∃ row ∈ s.topItems, row.jobId = jobUuid ∧ row.path = path)) ∨
    ∃ stat, v.examine dereference path = some stat ∧
      flow = (backupItem C cfg false jobUuid env path stat
        { s with topItems := s.topItems ++ [⟨jobUuid, path, stat.fileType⟩] }).andThen
          (forEach (meet C cfg false jobUuid env)
            (below (sightsIn v dereference (notExcluded pathMatch cfg)) v.pathMax ⟨path, some stat⟩)) := by
  unfold scanPath
  cases hexamine : v.examine dereference path with
  | none => exact .inl ⟨_, rfl, nofun⟩
  | some stat =>
      dsimp only
      split
      · exact .inl ⟨_, rfl, nofun⟩
      · rw [if_neg Bool.false_ne_true]
        rcases @addTopLevelJobPath_cases jobUuid env path stat.fileType s with ⟨e, hadd, hkey⟩ | hadd
        · rw [hadd]
          exact .inl ⟨.error e, rfl, fun heq => ⟨rfl, hkey (ScanHalt.error.inj heq)⟩⟩
        · rw [hadd]
          refine .inr ⟨stat, rfl, ?_⟩
          by_cases hdir : stat.fileType = .dir
          · dsimp only
            rw [if_pos hdir]
            exact walk_eq v.pathMax path stat hdir _
          · -- nothing is below anything else
            dsimp only
            rw [if_neg hdir, below_of_not_dir (by simpa using hdir)]
            cases backupItem C cfg false jobUuid env path stat _ <;> rfl

/-! ### The configured paths -/

/-- Neither path is scanned from the other one. -/
def Apart (pathMatch : Str → Str → Option Bool) (cfg : ConfigBackup) (dereference : Bool) (v : Volume)
    (root root' : Str) : Prop :=
  ¬ Scans v dereference (notExcluded pathMatch cfg) (clean root) (clean root') ∧
    ¬ Scans v dereference (notExcluded pathMatch cfg) (clean root') (clean root)

def scannedAll (pathMatch : Str → Str → Option Bool) (cfg : ConfigBackup) (dereference : Bool) (v : Volume)
    (roots : List Str) : List Str :=
  roots.flatMap fun root => scanned v dereference (notExcluded pathMatch cfg) (clean root)

theorem scanned_of_examine {passes : Str → Bool} {root : Str} {stat : OnDisk}
    (h : v.examine dereference root = some stat) : scanned v dereference passes root =
      root :: handed (below (sightsIn v dereference passes) v.pathMax ⟨root, some stat⟩) := by
  rw [scanned, sights, h]
  rfl

theorem not_mem_scanned_of_apart {root root' path : Str} (habs : isAbs root = true) (habs' : isAbs root' = true)
    (h : Apart pathMatch cfg dereference v root root')
    (hpath : path ∈ scanned v dereference (notExcluded pathMatch cfg) (clean root)) :
    path ∉ scanned v dereference (notExcluded pathMatch cfg) (clean root') := by
  have hclean := isClean_clean habs
  have hclean' := isClean_clean habs'
  intro hpath'
  have hscans := (mem_scanned hclean path).mp hpath
  have hscans' := (mem_scanned hclean' path).mp hpath'
  -- one of the two lies on the way from the other to the path
  rcases List.prefix_or_prefix_of_prefix (hscans.starts hclean) (hscans'.starts hclean') with hle | hle
  · exact h.1 (hscans.between hclean hclean' hle (hscans'.starts hclean')).1
  · exact h.2 (hscans'.between hclean' hclean hle (hscans.starts hclean)).1

/-- What holds of a run when it has gone through some of the configured paths. -/
structure Once (pathMatch : Str → Str → Option Bool) (cfg : ConfigBackup) (dereference : Bool) (v : Volume)
    (jobUuid : Str) (names : List Str) (done : List Str) (s : Scanning) : Prop where
  oneEntry : OneEntry jobUuid names ⟨s.world, scannedAll pathMatch cfg dereference v done, false⟩
  topItems : ∀ row ∈ s.topItems, row.jobId = jobUuid → ∃ root ∈ done, row.path = clean root ∧
    (v.examine dereference (clean root)).isSome

theorem Once.start (hkeyed : Keyed s.world.db) (hnew : ∀ c ∈ s.world.db.backupCollections, c.jobId ≠ jobUuid)
    (htop : ∀ row ∈ s.topItems, row.jobId ≠ jobUuid) :
    Once pathMatch cfg dereference v jobUuid names [] s :=
  ⟨.start names hkeyed hnew, fun row hrow hjob => absurd hjob (htop row hrow)⟩

theorem Once.append {done : List Str} {root : Str}
    (h : Once pathMatch cfg dereference v jobUuid names done s) :
    Once pathMatch cfg dereference v jobUuid names (done ++ [root]) s := by
  constructor
  · rw [scannedAll, List.flatMap_append]
    exact h.oneEntry.mono (List.subset_append_left _ _)
  · intro row hrow hjob
    obtain ⟨root', hroot', hrest⟩ := h.topItems row hrow hjob
    exact ⟨root', List.mem_append_left _ hroot', hrest⟩

/-- A configured path that is apart from those before it. -/
theorem scanRoot_once (hnames : names.Nodup)
    (htargets : ∀ turn, (env.item turn).targets.map (·.store.name) = names) {done : List Str} {root : Str}
    (habs : ∀ r ∈ done ++ [root], isAbs r = true)
    (hapart : ∀ r ∈ done, Apart pathMatch cfg dereference v r root)
    (h : Once pathMatch cfg dereference v jobUuid names done s) :
    Once pathMatch cfg dereference v jobUuid names (done ++ [root])
        (scanRoot C pathMatch cfg dereference v jobUuid env root s).state ∧
      ∀ t, scanRoot C pathMatch cfg dereference v jobUuid env root s ≠ .stop (.error .primaryKey) t := by
  have hclean : IsClean (clean root) := isClean_clean (habs root (by simp))
  unfold scanRoot
  split
  · exact ⟨h.append, nofun⟩
  · rcases @scanPath_cases C pathMatch cfg dereference v jobUuid env (clean root) s with
      ⟨halt, hflow, hkey⟩ | ⟨stat, hexamine, hflow⟩
    · rw [hflow]
      refine ⟨h.append, fun t heq => ?_⟩
      obtain ⟨hhalt, -⟩ := Flow.stop.inj heq
      obtain ⟨-, row, hrow, hjob, hpath⟩ := hkey hhalt
      -- the row is there for the same path further up the list, which leads to this one
      obtain ⟨root', hroot', hpath', hsome⟩ := h.topItems row hrow hjob
      obtain ⟨stat, hstat⟩ := Option.isSome_iff_exists.mp hsome
      apply (hapart root' hroot').1
      rw [← hpath, hpath']
      exact scans_self hstat
    · have hlist := @scanned_of_examine dereference v (notExcluded pathMatch cfg) (clean root) stat hexamine
      have hnodup : (scanned v dereference (notExcluded pathMatch cfg) (clean root)).Nodup :=
        nodup_scanned hclean
      have hnew : ∀ path ∈ scanned v dereference (notExcluded pathMatch cfg) (clean root),
          path ∉ scannedAll pathMatch cfg dereference v done := by
        intro path hpath hmem
        obtain ⟨root', hroot', hmem⟩ := List.mem_flatMap.mp hmem
        exact not_mem_scanned_of_apart (habs root' (List.mem_append_left _ hroot')) (habs root (by simp))
          (hapart root' hroot') hmem hpath
      rw [hlist] at hnodup hnew
      obtain ⟨hone, htop, hstop⟩ := handAll_oneEntry hnames htargets hflow h.oneEntry hnodup hnew
      refine ⟨⟨?_, ?_⟩, fun t heq => ?_⟩
      · rw [scannedAll, List.flatMap_append, List.flatMap_singleton, hlist]
        exact hone
      · rw [htop]
        intro row hrow hjob
        rcases List.mem_append.mp hrow with hrow | hrow
        · obtain ⟨root', hroot', hrest⟩ := h.topItems row hrow hjob
          exact ⟨root', List.mem_append_left _ hroot', hrest⟩
        · obtain rfl := List.mem_singleton.mp hrow
          exact ⟨root, by simp, rfl, by rw [hexamine]; rfl⟩
      · cases hstop _ t heq

/-- The same for one of several paths that are all apart from each other. -/
theorem scanRoot_once_of_pairwise (hnames : names.Nodup)
    (htargets : ∀ turn, (env.item turn).targets.map (·.store.name) = names) {done rest : List Str} {root : Str}
    (habs : ∀ r ∈ done ++ root :: rest, isAbs r = true)
    (hapart : (done ++ root :: rest).Pairwise (Apart pathMatch cfg dereference v))
    (h : Once pathMatch cfg dereference v jobUuid names done s) :
    Once pathMatch cfg dereference v jobUuid names (done ++ [root])
        (scanRoot C pathMatch cfg dereference v jobUuid env root s).state ∧
      ∀ t, scanRoot C pathMatch cfg dereference v jobUuid env root s ≠ .stop (.error .primaryKey) t := by
  refine scanRoot_once hnames htargets (fun r hr => habs r ?_) (fun r hr => ?_) h
  · rcases List.mem_append.mp hr with hr | hr
    · exact List.mem_append_left _ hr
    · simp [List.mem_singleton.mp hr]
  · exact (List.pairwise_append.mp hapart).2.2 r hr root (by simp)

/-- The loop over configured paths that are all apart from each other. -/
theorem scanRoots_once (hnames : names.Nodup)
    (htargets : ∀ turn, (env.item turn).targets.map (·.store.name) = names) {roots : List Str}
    (habs : ∀ r ∈ roots, isAbs r = true) (hapart : roots.Pairwise (Apart pathMatch cfg dereference v))
    (h : Once pathMatch cfg dereference v jobUuid names [] s) :
    ∃ done, done <+: roots ∧
      Once pathMatch cfg dereference v jobUuid names done
        (forEach (scanRoot C pathMatch cfg dereference v jobUuid env) roots s).state ∧
      ∀ t, forEach (scanRoot C pathMatch cfg dereference v jobUuid env) roots s = .next t → done = roots := by
  refine forEach_visited (I := Once pathMatch cfg dereference v jobUuid names) h ?_
  rintro done root rest t rfl hdone
  exact (scanRoot_once_of_pairwise hnames htargets habs hapart hdone).1

theorem scanRoots_not_primaryKey (hnames : names.Nodup)
    (htargets : ∀ turn, (env.item turn).targets.map (·.store.name) = names) {roots : List Str}
    (habs : ∀ r ∈ roots, isAbs r = true) (hapart : roots.Pairwise (Apart pathMatch cfg dereference v))
    (h : Once pathMatch cfg dereference v jobUuid names [] s) (t : Scanning) :
    forEach (scanRoot C pathMatch cfg dereference v jobUuid env) roots s ≠ .stop (.error .primaryKey) t := by
  intro hstop
  obtain ⟨done, root, rest, u, rfl, hdone, hroot⟩ := forEach_stop hstop
  have hsub : done.Sublist (done ++ root :: rest) := List.sublist_append_left _ _
  obtain ⟨done', -, honce, heq⟩ := @scanRoots_once C pathMatch cfg dereference v jobUuid env names s hnames
    htargets done (fun r hr => habs r (hsub.subset hr)) (hapart.sublist hsub) h
  obtain rfl := heq u hdone
  rw [hdone] at honce
  exact (scanRoot_once_of_pairwise hnames htargets habs hapart honce).2 t hroot

end

/-! ### Deleted items -/

section

variable {C : Cloud} {pathMatch : Str → Str → Option Bool} {cfg : ConfigBackup} {jobUuid target : Str}
  {names walked : List Str} {rounds : ℕ → Round} {db₀ : Db}

/-- What the job has collected for some target but not for the first one is still there
when `markDeleted` looks for it. -/
def KeptElsewhere (pathMatch : Str → Str → Option Bool) (cfg : ConfigBackup) (jobUuid target : Str)
    (names : List Str) (rounds : ℕ → Round) (db : Db) : Prop :=
  ∀ path ∈ candidates jobUuid target db, (∃ n ∈ names, path ∈ collectedPaths db jobUuid n) →
    ∀ k, StillThere pathMatch cfg db.files (rounds k) path

/-- The markers that were put since then are for paths that are no longer in `files`. -/
structure Since (jobUuid : Str) (db₀ db : Db) : Prop where
  files : db.files ⊆ db₀.files
  failedFiles : db.failedFiles = db₀.failedFiles
  collected : ∀ path ∈ db.files.map FilesRow.path, ∀ target,
    path ∈ collectedPaths db jobUuid target ↔ path ∈ collectedPaths db₀ jobUuid target

theorem Since.refl (db : Db) : Since jobUuid db db := ⟨List.Subset.refl _, rfl, fun _ _ _ => Iff.rfl⟩

theorem Since.candidates {db : Db} (h : Since jobUuid db₀ db) :
    candidates jobUuid target db ⊆ candidates jobUuid target db₀ := by
  intro path hpath
  obtain ⟨hfiles, hcollected, hfailed⟩ := mem_candidates.mp hpath
  refine mem_candidates.mpr ⟨?_, ?_, by rwa [← h.failedFiles]⟩
  · obtain ⟨row, hrow, heq⟩ := List.mem_map.mp hfiles
    exact List.mem_map.mpr ⟨row, h.files hrow, heq⟩
  · exact fun hmem => hcollected ((h.collected path hfiles target).mpr hmem)

theorem Since.markEntry {e : Entry} {w : World} (h : Since jobUuid db₀ w.db) :
    Since jobUuid db₀ (markEntry C pathMatch cfg jobUuid e w).world.db := by
  cases hmarks : marks C pathMatch cfg jobUuid e w with
  | false =>
      rw [markEntry_of_not_marks hmarks]
      exact h
  | true =>
      have hunlisted := (markEntry_of_marks hmarks).2
      refine ⟨?_, hunlisted.failedFiles.trans h.failedFiles, ?_⟩
      · rw [hunlisted.files]
        exact fun row hrow => h.files (List.mem_of_mem_filter hrow)
      · intro path hpath n
        obtain ⟨hold, hne⟩ := hunlisted.mem_files.mp hpath
        exact (hunlisted.collected path hne jobUuid n).trans (h.collected path hold n)

structure MarkedOnce (jobUuid : Str) (names walked : List Str) (db₀ : Db) (s : Marking) : Prop where
  oneEntry : OneEntry jobUuid names ⟨s.world, walked, true⟩
  since : Since jobUuid db₀ s.world.db

theorem markEntry_once (hnames : names.Nodup)
    (htargets : ∀ k path, ((rounds k).entry path).targets.map (·.store.name) = names)
    (hkept : KeptElsewhere pathMatch cfg jobUuid target names rounds db₀) (k : ℕ) {path : Str}
    (hpath : path ∈ candidates jobUuid target db₀) {w : World}
    (h : MarkedOnce jobUuid names walked db₀ ⟨w, []⟩) :
    MarkedOnce jobUuid names walked db₀
      ⟨(markEntry C pathMatch cfg jobUuid { (rounds k).entry path with path := path } w).world, []⟩ := by
  have hfirst : FirstTime pathMatch jobUuid names
      (.mark cfg jobUuid { (rounds k).entry path with path := path }) ⟨w, walked, true⟩ := by
    intro _ rec hrec hgone n hn hmem
    obtain ⟨row, hrow, hrowPath, rfl⟩ := getBackedup_row hrec
    have hfile : path ∈ w.db.files.map FilesRow.path := List.mem_map.mpr ⟨row, hrow, hrowPath⟩
    have hmem₀ := (h.since.collected path hfile n).mp hmem
    have hthere := hkept path hpath ⟨n, hn, hmem₀⟩ k row (h.since.files hrow) hrowPath
    exact absurd hgone (by rw [hthere]; exact Bool.false_ne_true)
  have hstep := @oneEntry_step C pathMatch jobUuid names ⟨w, walked, true⟩ hnames
    (.mark cfg jobUuid { (rounds k).entry path with path := path }) h.oneEntry
    (fun _ => ⟨htargets k path, fun _ => rfl⟩) hfirst
  refine ⟨?_, h.since.markEntry⟩
  simpa [Trace.step, Action.apply, Action.run, Action.scans, Action.jobUuid] using hstep

theorem call_once (hnames : names.Nodup)
    (htargets : ∀ k path, ((rounds k).entry path).targets.map (·.store.name) = names)
    (hkept : KeptElsewhere pathMatch cfg jobUuid target names rounds db₀) (limit k : ℕ) {s : Marking}
    (h : MarkedOnce jobUuid names walked db₀ s) :
    MarkedOnce jobUuid names walked db₀ (call C pathMatch cfg jobUuid target limit (rounds k) s).state := by
  have hcall : MarkedOnce jobUuid names walked db₀
      ⟨(call C pathMatch cfg jobUuid target limit (rounds k) s).state.world, []⟩ :=
    call_invariant (I := fun w => MarkedOnce jobUuid names walked db₀ ⟨w, []⟩) ⟨h.oneEntry, h.since⟩
      fun path hpath w hw =>
        markEntry_once hnames htargets hkept k (h.since.candidates (mem_foundEntries hpath)) hw
  exact ⟨hcall.oneEntry, hcall.since⟩

end

/-! ### Whole runs -/

section

variable {ν : Type} [DecidableEq ν] (toNumber : Str → Option ν)

def storedTarget (c : Collected) : Value ν := stored toNumber (affinityOf collectedTargetType) c.target

/-- The entries of a job for a path, with a value of the target. -/
def storedEntries (db : Db) (jobUuid : Str) (target : Value ν) (path : Str) : List Collected :=
  db.backupCollections.filter fun c =>
    decide (c.jobId = jobUuid) && decide (storedTarget toNumber c = target) && decide (StandsFor db c path)

/-- No two names read as the same number. -/
def ReadApart (names : List Str) : Prop :=
  ∀ n ∈ names, ∀ n' ∈ names, ∀ x, toNumber n = some x → toNumber n' = some x → n = n'

example : affinityOf collectedTargetType = .numeric ∧ affinityOf "TEXT".toList = .text := by decide

variable {toNumber}

omit [DecidableEq ν] in
theorem ReadApart.stored_inj {names : List Str} (h : ReadApart toNumber names) {n n' : Str} (hn : n ∈ names)
    (hn' : n' ∈ names) (heq : stored toNumber .numeric n = stored toNumber .numeric n') : n = n' := by
  rcases (stored_eq_iff toNumber _ _).mp heq with heq | ⟨x, hx, hx'⟩
  · exact heq
  · exact h n hn n' hn' x hx hx'

/-- A query by target compares the values that are kept. For the names of a run that is
comparing the names. -/
theorem collectedPaths_stored {db : Db} {jobUuid target : Str} {names : List Str}
    (hapart : ReadApart toNumber names) (hname : target ∈ names)
    (htarget : ∀ c ∈ db.backupCollections, c.jobId = jobUuid → c.target ∈ names) :
    (db.remoteFiles.filter fun r => db.backupCollections.any fun c => c.fileUuid = r.uuid ∧ c.jobId = jobUuid ∧
      storedTarget toNumber c = stored toNumber (affinityOf collectedTargetType) target).map RemoteFile.localPath =
      collectedPaths db jobUuid target := by
  rw [collectedPaths]
  congr 1
  refine List.filter_congr fun r _ => ?_
  rw [Bool.eq_iff_iff, List.any_eq_true, List.any_eq_true]
  refine exists_congr fun c => and_congr_right fun hc => ?_
  simp only [decide_eq_true_eq]
  refine and_congr_right fun _ => and_congr_right fun hjob => ?_
  exact ⟨hapart.stored_inj (htarget c hc hjob) hname, congrArg _⟩

/-- Entries with the same value are of the same target, and so of one list. -/
theorem storedEntries_le_one {db : Db} {jobUuid : Str} {names : List Str} (hapart : ReadApart toNumber names)
    (htarget : ∀ c ∈ db.backupCollections, c.jobId = jobUuid → c.target ∈ names)
    (hle : ∀ target path, (entries db jobUuid target path).length ≤ 1) (target : Value ν) (path : Str) :
    (storedEntries toNumber db jobUuid target path).length ≤ 1 := by
  cases hstored : storedEntries toNumber db jobUuid target path with
  | nil => simp
  | cons c rest =>
      have hmem : ∀ c' ∈ storedEntries toNumber db jobUuid target path, c'.target = c.target := by
        have hvalue : ∀ c' ∈ storedEntries toNumber db jobUuid target path,
            c'.target ∈ names ∧ stored toNumber .numeric c'.target = target := by
          intro c' hc'
          simp only [storedEntries, List.mem_filter, Bool.and_eq_true, decide_eq_true_eq] at hc'
          exact ⟨htarget c' hc'.1 hc'.2.1.1, hc'.2.1.2⟩
        intro c' hc'
        obtain ⟨hname, hkept⟩ := hvalue c (hstored ▸ List.mem_cons_self)
        obtain ⟨hname', hkept'⟩ := hvalue c' hc'
        exact hapart.stored_inj hname' hname (hkept'.trans hkept.symm)
      refine le_trans ?_ (hle c.target path)
      rw [← hstored, storedEntries, entries, ← List.countP_eq_length_filter, ← List.countP_eq_length_filter]
      apply List.countP_mono_left
      intro c' hc' hin
      have hsame := hmem c' (List.mem_filter.mpr ⟨hc', hin⟩)
      simp only [Bool.and_eq_true, decide_eq_true_eq] at hin ⊢
      exact ⟨⟨hin.1.1, hsame⟩, hin.2⟩

/-- A run for which no configured path is scanned from another one, and which puts no
marker for what it has collected, has one entry for a target and a path at most, and
does not fail at the primary key of `top_items`. -/
theorem runBackup_once {C : Cloud} {pathMatch : Str → Str → Option Bool} {cfg : ConfigBackup}
    {dereference : Bool} {v : Volume} {jobUuid target : Str} {env : Surroundings} {names : List Str}
    {rounds : ℕ → Round} {s : Scanning} (habs : ∀ root ∈ cfg.paths, isAbs root = true) (hnames : names.Nodup)
    (hnumbers : ReadApart toNumber names) (hitems : ∀ turn, (env.item turn).targets.map (·.store.name) = names)
    (hentries : ∀ k path, ((rounds k).entry path).targets.map (·.store.name) = names)
    (hkeyed : Keyed s.world.db) (hnew : ∀ c ∈ s.world.db.backupCollections, c.jobId ≠ jobUuid)
    (htop : ∀ row ∈ s.topItems, row.jobId ≠ jobUuid)
    (hapart : cfg.paths.Pairwise (Apart pathMatch cfg dereference v))
    (hkept : ∀ t, forEach (scanRoot C pathMatch cfg dereference v jobUuid env) cfg.paths s = .next t →
      KeptElsewhere pathMatch cfg jobUuid target names rounds t.world.db) :
    (∀ fuel ending t, runBackup C pathMatch cfg dereference v jobUuid env target rounds fuel s =
        some (ending, t) →
      ending ≠ .failed .primaryKey ∧
        ∀ target path, (storedEntries toNumber t.world.db jobUuid target path).length ≤ 1) ∧
    ∀ t n u, forEach (scanRoot C pathMatch cfg dereference v jobUuid env) cfg.paths s = .next t →
      atCall C pathMatch cfg jobUuid target maxResults rounds n ⟨t.world, []⟩ = some u →
        ∀ target path, (storedEntries toNumber u.world.db jobUuid target path).length ≤ 1 := by
  have hcounts : ∀ {s : Trace}, OneEntry jobUuid names s →
      ∀ target path, (storedEntries toNumber s.world.db jobUuid target path).length ≤ 1 :=
    fun hone => storedEntries_le_one hnumbers hone.target hone.le_one
  have hstart : Once pathMatch cfg dereference v jobUuid names [] s := .start hkeyed hnew htop
  obtain ⟨done, -, honce, -⟩ := @scanRoots_once C pathMatch cfg dereference v jobUuid env names s hnames hitems
    cfg.paths habs hapart hstart
  have hmarking : ∀ t, forEach (scanRoot C pathMatch cfg dereference v jobUuid env) cfg.paths s = .next t →
      MarkedOnce jobUuid names (scannedAll pathMatch cfg dereference v done) t.world.db ⟨t.world, []⟩ := by
    intro t ht
    rw [ht] at honce
    have hone := honce.oneEntry
    exact ⟨⟨hone.keyed, hone.le_one, hone.target, nofun⟩, .refl _⟩
  constructor
  · intro fuel ending t hrun
    unfold runBackup at hrun
    split at hrun
    · -- the job is stopped while it collects
      rename_i u hscan
      cases hrun
      rw [hscan] at honce
      exact ⟨nofun, hcounts honce.oneEntry⟩
    · -- an error ends the collection
      rename_i e u hscan
      cases hrun
      refine ⟨?_, ?_⟩
      · intro heq
        cases heq
        exact scanRoots_not_primaryKey hnames hitems habs hapart hstart t hscan
      · rw [hscan] at honce
        exact hcounts honce.oneEntry
    · -- all is collected, and the deleted items are marked
      rename_i u hscan
      obtain ⟨⟨ending', m⟩, hmark, heq⟩ := Option.map_eq_some_iff.mp hrun
      cases heq
      refine ⟨nofun, ?_⟩
      have hcalls : MarkedOnce jobUuid names (scannedAll pathMatch cfg dereference v done) u.world.db m :=
        untilStop_invariant (fun k _ hk => call_once hnames hentries (hkept u hscan) maxResults k hk)
          (hmarking u hscan) hmark
      exact hcounts hcalls.oneEntry
  · intro t n u hscan hcall
    have hcalls : MarkedOnce jobUuid names (scannedAll pathMatch cfg dereference v done) t.world.db u :=
      atPass_invariant (fun k _ hk => call_once hnames hentries (hkept t hscan) maxResults k hk)
        (hmarking t hscan) hcall
    exact hcounts hcalls.oneEntry

end

/-- The targets of a run in which nothing goes wrong. Every call of `Do` has uuids of
its own. -/
def namedTargets (names : List String) (turn : ℕ) : List Target :=
  names.map fun name => smoothTarget { plainStore .awsS3 with name := name.toList } 7
    (name ++ String.ofList (List.replicate (turn + 1) 'u'))

def namedSurroundings (names : List String) : Surroundings :=
  ⟨fun _ _ => false, fun _ => true, fun turn => smoothItem "" (smallFile 1 1) (namedTargets names turn)⟩

def namedRound (names : List String) : Round :=
  ⟨true, none, fun _ => .ok, fun _ => false, fun path =>
    ⟨path, true, .found .file, ⟨true, true, true⟩, namedTargets names 0⟩⟩

def smoothRound : Round := namedRound ["target"]

/-- The first run on a disk with `/a/d/f`, without an error and not cancelled. A
pattern matches only itself. -/
def smoothRun (names : List String) (paths exclusions : List Str) : Option (RunEnding × Scanning) :=
  runBackup plainCloud (fun pattern path => some (decide (pattern = path)))
    { plainConfig with paths := paths, exclusions := exclusions } false deepVolume "job".toList
    (namedSurroundings names) (names.headD "").toList (fun _ => namedRound names) 2 ⟨World.empty, [], 0⟩

def smoothNumber (name : Str) : Option ℕ :=
  if name = "1".toList ∨ name = "1.0".toList then some 1 else if name = "2".toList then some 2 else none

/-- The file is below `/a`, but the scan of `/a` does not come to it. -/
theorem runBackup_once_excluded : ∃ t,
    smoothRun ["1", "2"] ["/a".toList, "/a/d/f".toList] ["/a/d".toList] = some (.marked (.returned false), t) ∧
      ∀ target path, (storedEntries smoothNumber t.world.db "job".toList target path).length ≤ 1 := by
  have hending : (smoothRun ["1", "2"] ["/a".toList, "/a/d/f".toList] ["/a/d".toList]).map Prod.fst =
      some (.marked (.returned false)) := by
    decide
  obtain ⟨⟨ending, t⟩, hrun, rfl⟩ := Option.map_eq_some_iff.mp hending
  have hitems : ∀ turn, ((namedSurroundings ["1", "2"]).item turn).targets.map (·.store.name) =
      ["1".toList, "2".toList] := fun _ => rfl
  refine ⟨t, hrun, ((runBackup_once ?_ ?_ ?_ hitems ?_ ?_ ?_ ?_ ?_ ?_).1 _ _ _ hrun).2⟩
  · decide
  · decide
  · simp [ReadApart, smoothNumber]
  · exact fun k path => rfl
  · exact keyed_empty
  · exact nofun
  · exact nofun
  · rw [List.pairwise_pair, Apart, ← mem_scanned (by decide), ← mem_scanned (by decide)]
    decide
  · rintro t ht path hpath -
    have hnone : candidates "job".toList "1".toList (forEach (scanRoot plainCloud
        (fun pattern path => some (decide (pattern = path)))
        { plainConfig with paths := ["/a".toList, "/a/d/f".toList], exclusions := ["/a/d".toList] } false deepVolume
        "job".toList (namedSurroundings ["1", "2"])) ["/a".toList, "/a/d/f".toList]
        ⟨World.empty, [], 0⟩).state.world.db = ∅ := by
      decide
    rw [ht] at hnone
    exact absurd (hnone ▸ hpath) (Finset.notMem_empty path)

/-- Below `/a` there is `/a/d`, which is then collected twice; `/a/` is the same path as
`/a`; and the names `1` and `1.0` are the same number. -/
theorem runBackup_twice :
    (¬ ∀ paths : List Str, (∀ root ∈ paths, isAbs root = true) →
      ∀ ending t, smoothRun ["target"] paths [] = some (ending, t) →
        ∀ target path, (storedEntries smoothNumber t.world.db "job".toList target path).length ≤ 1) ∧
    (¬ ∀ paths : List Str, (∀ root ∈ paths, isAbs root = true) →
      ∀ ending t, smoothRun ["target"] paths [] = some (ending, t) → ending ≠ .failed .primaryKey) ∧
    ¬ ∀ ending t, smoothRun ["1", "1.0"] ["/a".toList] [] = some (ending, t) →
      ∀ target path, (storedEntries smoothNumber t.world.db "job".toList target path).length ≤ 1 := by
  refine ⟨?_, ?_, ?_⟩
  · intro h
    have hcount : (smoothRun ["target"] ["/a".toList, "/a/d".toList] []).map (fun r =>
        (storedEntries smoothNumber r.2.world.db "job".toList (.text "target".toList) "/a/d".toList).length) =
          some 2 := by
      decide
    obtain ⟨⟨ending, t⟩, hrun, hlen⟩ := Option.map_eq_some_iff.mp hcount
    have hle := h _ (by decide) ending t hrun (.text "target".toList) "/a/d".toList
    dsimp only at hlen
    omega
  · intro h
    have hending : (smoothRun ["target"] ["/a".toList, "/a/".toList] []).map Prod.fst =
        some (.failed .primaryKey) := by
      decide
    obtain ⟨⟨ending, t⟩, hrun, heq⟩ := Option.map_eq_some_iff.mp hending
    exact h _ (by decide) ending t hrun heq
  · intro h
    have hcount : (smoothRun ["1", "1.0"] ["/a".toList] []).map (fun r =>
        (storedEntries smoothNumber r.2.world.db "job".toList (.number 1) "/a/d/f".toList).length) = some 2 := by
      decide
    obtain ⟨⟨ending, t⟩, hrun, hlen⟩ := Option.map_eq_some_iff.mp hcount
    have hle := h ending t hrun (.number 1) "/a/d/f".toList
    dsimp only at hlen
    omega

end CloudBackup.Backup
