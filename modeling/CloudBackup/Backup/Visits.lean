import CloudBackup.Backup.Run

/-!
The calls of `Do` in a run. `Visits` says that a run calls `Do` for an item, and in
which world. What every visit keeps holds at each of them and at the end of the scan
(`visits_invariant`); what a visit brings about and the others keep holds at the end
(`Visits.lasts`). A scan that goes through visits all that there is to be seen
(`visits_of_seen`).
-/

namespace CloudBackup.Backup

open Database ObjectStore Iteration UnixPath

section

variable (pathMatch : Str → Str → Option Bool) (cfg : ConfigBackup) (dereference : Bool) (v : Volume)

def sightsFrom (root : Str) : List Sight := sights v dereference (notExcluded pathMatch cfg) (clean root)

/-- There is something for a run to see at the path. -/
def Seen (path : Str) (stat : OnDisk) : Prop :=
  ∃ root ∈ cfg.paths, ⟨path, some stat⟩ ∈ sightsFrom pathMatch cfg dereference v root

variable (C : Cloud) (jobUuid : Str) (env : Surroundings)

/-- The scan of a configured path begins: it can be examined, the context is not done
either time it is looked at, and the path is in `top_items` then. -/
def Begins (root : Str) (r r' : Scanning) : Prop :=
  env.ctxDone r.turn root = false ∧ env.ctxDone r.turn (clean root) = false ∧
    ∃ stat, v.examine dereference (clean root) = some stat ∧
      addTopLevelJobPath jobUuid env (clean root) stat.fileType r = .ok r'

/-- A run calls `Do` for the item. -/
def Visits (s : Scanning) (it : Item) (w : World) : Prop :=
  ∃ root r r' path stat t,
    ComesTo (scanRoot C pathMatch cfg dereference v jobUuid env) cfg.paths s root r ∧
      Begins dereference v jobUuid env root r r' ∧
      ComesTo (meet C cfg false jobUuid env) (sightsFrom pathMatch cfg dereference v root) r'
        ⟨path, some stat⟩ t ∧
      env.ctxDone t.turn path = false ∧
      it = { env.item t.turn with path := path, disk := stat } ∧ w = t.world

end

section

variable {C : Cloud} {pathMatch : Str → Str → Option Bool} {cfg : ConfigBackup} {dereference : Bool}
  {v : Volume} {jobUuid : Str} {env : Surroundings} {s : Scanning} {it : Item} {w : World}

/-! ### What there is to be seen -/

theorem examined_of_mem_below {passes : Str → Bool} {depth : ℕ} {x : Sight} {path : Str} {stat : OnDisk}
    (h : ⟨path, some stat⟩ ∈ TreeWalk.below (sightsIn v dereference passes) depth x) :
    v.examine dereference path = some stat := by
  induction depth generalizing x with
  | zero => cases h
  | succ depth ih =>
      obtain ⟨y, hy, hmem⟩ := List.mem_flatMap.mp h
      rcases List.mem_cons.mp hmem with rfl | hmem
      · obtain ⟨-, name, -, heq⟩ := mem_sightsIn.mp hy
        rw [sight] at heq
        obtain ⟨hpath, hfound⟩ := Sight.mk.inj heq
        rw [← hpath] at hfound
        split at hfound
        · exact hfound.symm
        · cases hfound
      · exact ih hmem

/-- What is seen at a path is what the disk has there. -/
theorem Seen.examined {path : Str} {stat : OnDisk} (h : Seen pathMatch cfg dereference v path stat) :
    v.examine dereference path = some stat := by
  obtain ⟨root, -, hmem⟩ := h
  unfold sightsFrom sights at hmem
  cases hexamine : v.examine dereference (clean root) with
  | none =>
      rw [hexamine] at hmem
      cases hmem
  | some stat' =>
      rw [hexamine] at hmem
      rcases List.mem_cons.mp hmem with heq | hmem
      · cases heq
        exact hexamine
      · exact examined_of_mem_below hmem

theorem Seen.unique {path : Str} {stat stat' : OnDisk} (h : Seen pathMatch cfg dereference v path stat)
    (h' : Seen pathMatch cfg dereference v path stat') : stat = stat' :=
  Option.some.inj (h.examined.symm.trans h'.examined)

/-! ### The passes of a run -/

theorem Begins.world {root : Str} {r r' : Scanning} (h : Begins dereference v jobUuid env root r r') :
    r'.world = r.world ∧ r'.turn = r.turn := by
  obtain ⟨-, -, stat, -, hadd⟩ := h
  rcases @addTopLevelJobPath_cases jobUuid env (clean root) stat.fileType r with ⟨e, herr, -⟩ | hok
  · rw [herr] at hadd
    cases hadd
  · rw [hok] at hadd
    cases hadd
    exact ⟨rfl, rfl⟩

theorem scanRoot_of_begins {root : Str} {r r' : Scanning} (h : Begins dereference v jobUuid env root r r') :
    scanRoot C pathMatch cfg dereference v jobUuid env root r =
      forEach (meet C cfg false jobUuid env) (sightsFrom pathMatch cfg dereference v root) r' := by
  have hturn := h.world.2
  obtain ⟨hroot, hclean, stat, hexamine, hadd⟩ := h
  have hmeet : meet C cfg false jobUuid env ⟨clean root, some stat⟩ r' =
      backupItem C cfg false jobUuid env (clean root) stat r' := by
    rw [meet, hturn, hclean, if_neg Bool.false_ne_true]
  rw [scanRoot, hroot, if_neg Bool.false_ne_true, scanPath, hexamine]
  dsimp only
  rw [hclean, if_neg Bool.false_ne_true, if_neg Bool.false_ne_true, hadd]
  dsimp only
  rw [sightsFrom, sights, hexamine, forEach_cons, hmeet]
  by_cases hdir : stat.fileType = .dir
  · rw [if_pos hdir]
    exact walk_eq v.pathMax (clean root) stat hdir r'
  · -- nothing is below anything else
    rw [if_neg hdir, below_of_not_dir (by simpa using hdir)]
    cases backupItem C cfg false jobUuid env (clean root) stat r' <;> rfl

theorem scanRoot_cases (root : Str) (r : Scanning) :
    (∃ halt, scanRoot C pathMatch cfg dereference v jobUuid env root r = .stop halt r) ∨
      ∃ r', Begins dereference v jobUuid env root r r' := by
  cases hroot : env.ctxDone r.turn root with
  | true => exact .inl ⟨.cancelled, by rw [scanRoot, hroot, if_pos rfl]⟩
  | false =>
      rw [scanRoot, hroot, if_neg Bool.false_ne_true, scanPath]
      cases hexamine : v.examine dereference (clean root) with
      | none => exact .inl ⟨_, rfl⟩
      | some stat =>
          dsimp only
          cases hclean : env.ctxDone r.turn (clean root) with
          | true => exact .inl ⟨.cancelled, if_pos rfl⟩
          | false =>
              rw [if_neg Bool.false_ne_true, if_neg Bool.false_ne_true]
              cases hadd : addTopLevelJobPath jobUuid env (clean root) stat.fileType r with
              | error e => exact .inl ⟨.error e, rfl⟩
              | ok r' => exact .inr ⟨r', hroot, hclean, stat, hexamine, hadd⟩

theorem meet_world (path : Str) (stat : OnDisk) {t : Scanning} (h : env.ctxDone t.turn path = false) :
    (meet C cfg false jobUuid env ⟨path, some stat⟩ t).state.world =
      (walkItem C cfg jobUuid { env.item t.turn with path := path, disk := stat } t.world).world := by
  rw [meet, h, if_neg Bool.false_ne_true]
  dsimp only
  rw [backupItem_state]

theorem meet_state_of_not_handed {x : Sight} {t : Scanning}
    (h : env.ctxDone t.turn x.path = true ∨ x.found = none) :
    (meet C cfg false jobUuid env x t).state = t := by
  unfold meet
  split
  · rfl
  · rename_i hdone
    rw [h.resolve_left hdone]
    rfl

/-! ### Rules -/

theorem Visits.seen (h : Visits pathMatch cfg dereference v C jobUuid env s it w) :
    Seen pathMatch cfg dereference v it.path it.disk := by
  obtain ⟨root, r, r', path, stat, t, hroot, -, hmeet, -, rfl, -⟩ := h
  exact ⟨root, hroot.mem, hmeet.mem⟩

theorem Visits.item (h : Visits pathMatch cfg dereference v C jobUuid env s it w) :
    ∃ turn, it = { env.item turn with path := it.path, disk := it.disk } := by
  obtain ⟨root, r, r', path, stat, t, -, -, -, -, rfl, -⟩ := h
  exact ⟨t.turn, rfl⟩

/-- What is kept by the visits from one configured path. -/
theorem meetAll_invariant {I : World → Prop} {root : Str} {r r' : Scanning}
    (hvisits : ∀ it w, Visits pathMatch cfg dereference v C jobUuid env s it w → I w →
      I (walkItem C cfg jobUuid it w).world)
    (hcomes : ComesTo (scanRoot C pathMatch cfg dereference v jobUuid env) cfg.paths s root r)
    (hbegins : Begins dereference v jobUuid env root r r') {x : Sight} {t : Scanning}
    (hx : ComesTo (meet C cfg false jobUuid env) (sightsFrom pathMatch cfg dereference v root) r' x t)
    (h : I t.world) : I (meet C cfg false jobUuid env x t).state.world := by
  obtain ⟨path, found⟩ := x
  cases hdone : env.ctxDone t.turn path with
  | true =>
      rw [meet_state_of_not_handed (.inl hdone)]
      exact h
  | false =>
      cases found with
      | none =>
          rw [meet_state_of_not_handed (.inr rfl)]
          exact h
      | some stat =>
          rw [meet_world path stat hdone]
          exact hvisits _ _ ⟨root, r, r', path, stat, t, hcomes, hbegins, hx, hdone, rfl, rfl⟩ h

theorem scanRoot_invariant {I : World → Prop} {root : Str} {r : Scanning}
    (hvisits : ∀ it w, Visits pathMatch cfg dereference v C jobUuid env s it w → I w →
      I (walkItem C cfg jobUuid it w).world)
    (hcomes : ComesTo (scanRoot C pathMatch cfg dereference v jobUuid env) cfg.paths s root r)
    (h : I r.world) : I (scanRoot C pathMatch cfg dereference v jobUuid env root r).state.world := by
  rcases @scanRoot_cases C pathMatch cfg dereference v jobUuid env root r with ⟨halt, hstop⟩ | ⟨r', hbegins⟩
  · rw [hstop]
    exact h
  · rw [scanRoot_of_begins hbegins]
    refine (comesTo_invariant (I := fun t : Scanning => I t.world) ?_ fun x t hx => ?_).1
    · rw [hbegins.world.1]
      exact h
    · exact meetAll_invariant hvisits hcomes hbegins hx

/-- What every visit keeps holds at each of them, and at the end of the scan. -/
theorem visits_invariant {I : World → Prop} (hs : I s.world)
    (hvisits : ∀ it w, Visits pathMatch cfg dereference v C jobUuid env s it w → I w →
      I (walkItem C cfg jobUuid it w).world) :
    I (forEach (scanRoot C pathMatch cfg dereference v jobUuid env) cfg.paths s).state.world ∧
      ∀ it w, Visits pathMatch cfg dereference v C jobUuid env s it w → I w := by
  obtain ⟨hend, hroots⟩ := comesTo_invariant (I := fun t : Scanning => I t.world) (s := s) hs
    fun root r hr => scanRoot_invariant hvisits hr
  refine ⟨hend, ?_⟩
  rintro it w ⟨root, r, r', path, stat, t, hroot, hbegins, hmeet, -, -, rfl⟩
  have hstart : I r'.world := by
    rw [hbegins.world.1]
    exact hroots root r hroot
  exact (comesTo_invariant (I := fun t : Scanning => I t.world) hstart fun x t hx =>
    meetAll_invariant hvisits hroot hbegins hx).2 _ t hmeet

/-- What a visit brings about and the others keep holds at the end of the scan. -/
theorem Visits.lasts {P : World → Prop} (h : Visits pathMatch cfg dereference v C jobUuid env s it w)
    (hvisits : ∀ it w, Visits pathMatch cfg dereference v C jobUuid env s it w → P w →
      P (walkItem C cfg jobUuid it w).world) (hit : P (walkItem C cfg jobUuid it w).world) :
    P (forEach (scanRoot C pathMatch cfg dereference v jobUuid env) cfg.paths s).state.world := by
  obtain ⟨root, r, r', path, stat, t, hroot, hbegins, hmeet, hdone, rfl, rfl⟩ := h
  refine hroot.lasts (P := fun t : Scanning => P t.world) (fun _ _ => scanRoot_invariant hvisits) ?_
  rw [scanRoot_of_begins hbegins]
  refine hmeet.lasts (P := fun t : Scanning => P t.world)
    (fun _ _ => meetAll_invariant hvisits hroot hbegins) ?_
  rw [meet_world path stat hdone]
  exact hit

theorem meet_next {path : Str} {stat : OnDisk} {t t' : Scanning}
    (h : meet C cfg false jobUuid env ⟨path, some stat⟩ t = .next t') : env.ctxDone t.turn path = false ∧
      (walkItem C cfg jobUuid { env.item t.turn with path := path, disk := stat } t.world).cancelled = false := by
  unfold meet at h
  split at h
  · cases h
  · rename_i hdone
    dsimp only at h
    rw [backupItem, if_neg Bool.false_ne_true] at h
    dsimp only at h
    split at h
    · cases h
    · rename_i hcan
      exact ⟨Bool.eq_false_iff.mpr hdone, Bool.eq_false_iff.mpr hcan⟩

/-- A scan that goes through visits all that is to be seen, and none of the visits is
cancelled. -/
theorem visits_of_seen {s' : Scanning} {path : Str} {stat : OnDisk}
    (hscan : forEach (scanRoot C pathMatch cfg dereference v jobUuid env) cfg.paths s = .next s')
    (h : Seen pathMatch cfg dereference v path stat) :
    ∃ it w, Visits pathMatch cfg dereference v C jobUuid env s it w ∧ it.path = path ∧ it.disk = stat ∧
      (walkItem C cfg jobUuid it w).cancelled = false := by
  obtain ⟨root, hroot, hmem⟩ := h
  obtain ⟨r, r₁, hcomes, hnext⟩ := comesTo_of_next hscan hroot
  rcases @scanRoot_cases C pathMatch cfg dereference v jobUuid env root r with ⟨halt, hstop⟩ | ⟨r', hbegins⟩
  · rw [hstop] at hnext
    cases hnext
  · rw [scanRoot_of_begins hbegins] at hnext
    obtain ⟨t, t', hmeet, hpass⟩ := comesTo_of_next hnext hmem
    obtain ⟨hdone, hcan⟩ := meet_next hpass
    exact ⟨_, _, ⟨root, r, r', path, stat, t, hcomes, hbegins, hmeet, hdone, rfl, rfl⟩, rfl, rfl, hcan⟩

/-- The first visit of a run, if the first path can be scanned. -/
theorem visits_first {root : Str} {rest : List Str} {r' : Scanning} {stat : OnDisk}
    (hpaths : cfg.paths = root :: rest) (hbegins : Begins dereference v jobUuid env root s r')
    (hexamine : v.examine dereference (clean root) = some stat) :
    Visits pathMatch cfg dereference v C jobUuid env s
      { env.item s.turn with path := clean root, disk := stat } s.world := by
  obtain ⟨hworld, hturn⟩ := hbegins.world
  refine ⟨root, s, r', clean root, stat, r', ?_, hbegins, ?_, ?_, ?_, hworld.symm⟩
  · rw [hpaths]
    exact comesTo_head root rest s
  · rw [sightsFrom, sights, hexamine]
    exact comesTo_head _ _ r'
  · rw [hturn]
    exact hbegins.2.1
  · rw [hturn]

structure Single (pathMatch : Str → Str → Option Bool) (cfg : ConfigBackup) (dereference : Bool) (v : Volume)
    (path : Str) (stat : OnDisk) : Prop where
  paths : cfg.paths = [path]
  clean : clean path = path
  examine : v.examine dereference path = some stat
  leaf : stat.fileType ≠ .dir

theorem Single.sightsFrom {path : Str} {stat : OnDisk} (h : Single pathMatch cfg dereference v path stat) :
    sightsFrom pathMatch cfg dereference v path = [⟨path, some stat⟩] := by
  rw [Backup.sightsFrom, sights, h.clean, h.examine]
  dsimp only
  rw [below_of_not_dir (by simpa using h.leaf)]

theorem Single.seen {path path' : Str} {stat stat' : OnDisk} (h : Single pathMatch cfg dereference v path stat)
    (hseen : Seen pathMatch cfg dereference v path' stat') : path' = path ∧ stat' = stat := by
  obtain ⟨root, hroot, hmem⟩ := hseen
  rw [h.paths] at hroot
  obtain rfl := List.mem_singleton.mp hroot
  rw [h.sightsFrom] at hmem
  cases List.mem_singleton.mp hmem
  exact ⟨rfl, rfl⟩

/-- The run visits the item at its path, first and last. -/
theorem Single.visits {path : Str} {stat : OnDisk} {r' : Scanning}
    (h : Single pathMatch cfg dereference v path stat) (hbegins : Begins dereference v jobUuid env path s r') :
    Visits pathMatch cfg dereference v C jobUuid env s it w ↔
      it = { env.item s.turn with path := path, disk := stat } ∧ w = s.world := by
  constructor
  · rintro ⟨root, r, r₁, path', stat', t, hroot, hbegins', hmeet, -, rfl, rfl⟩
    rw [h.paths] at hroot
    rcases comesTo_cons hroot with ⟨rfl, rfl⟩ | ⟨x, -, hx⟩
    · rw [h.sightsFrom] at hmeet
      rcases comesTo_cons hmeet with ⟨heq, rfl⟩ | ⟨x, -, hx⟩
      · cases heq
        rw [hbegins'.world.1, hbegins'.world.2]
        exact ⟨rfl, rfl⟩
      · cases hx.mem
    · cases hx.mem
  · rintro ⟨rfl, rfl⟩
    have hfirst := @visits_first C pathMatch cfg dereference v jobUuid env s path [] r' stat h.paths hbegins
      (by rw [h.clean]; exact h.examine)
    rw [h.clean] at hfirst
    exact hfirst

/-- The scan of such a run, if its visit is not cancelled. -/
theorem Single.scan {path : Str} {stat : OnDisk} {r' : Scanning}
    (h : Single pathMatch cfg dereference v path stat) (hbegins : Begins dereference v jobUuid env path s r')
    (hcan : (walkItem C cfg jobUuid { env.item s.turn with path := path, disk := stat } s.world).cancelled = false) :
    ∃ t, forEach (scanRoot C pathMatch cfg dereference v jobUuid env) cfg.paths s = .next t ∧
      t.world = (walkItem C cfg jobUuid { env.item s.turn with path := path, disk := stat } s.world).world := by
  obtain ⟨hworld, hturn⟩ := hbegins.world
  have hdone := hbegins.1
  rw [← hworld, ← hturn] at hcan ⊢
  rw [← hturn] at hdone
  rw [h.paths, forEach_singleton, scanRoot_of_begins hbegins, h.sightsFrom, forEach_singleton, meet, hdone,
    if_neg Bool.false_ne_true]
  dsimp only
  rw [backupItem, if_neg Bool.false_ne_true]
  dsimp only
  rw [hcan, if_neg Bool.false_ne_true]
  exact ⟨_, rfl, rfl⟩

end

end CloudBackup.Backup
