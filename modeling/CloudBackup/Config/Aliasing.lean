import CloudBackup.Config.Sanitize
import CloudBackup.Library.Slices

/-!
The configuration as it lies in memory, with slices that refer to arrays. A value of type
`CfgTemplate` that is passed on shares its arrays with the one it was copied from.
`GetCopyWithLock` makes new arrays for everything that is starred by `SanitizeCfgTemplate`, so
that the configuration of the daemon is never touched. But `SanitizeCfgTemplate` itself writes
into the arrays that it is given, and the caller finds the stars in its own value.
-/

namespace CloudBackup.Config

open Database Casing Slices

/-! ### The arrays -/

structure TargetCell where
  fields : ConfigBackupTarget
  parameters : Slice

structure BackupCell where
  fields : ConfigBackup
  target : Slice

structure CfgRef where
  fields : CfgTemplate
  user : Slice
  backup : Slice
  email : Slice

structure Heaps where
  user : Heap ConfigUser
  backup : Heap BackupCell
  target : Heap TargetCell
  parameters : Heap ConfigBackupTargetParams
  email : Heap ConfigNotificationEmail

def viewTarget (hp : Heap ConfigBackupTargetParams) (t : TargetCell) : ConfigBackupTarget :=
  { t.fields with parameters := elems hp t.parameters }

def viewBackup (h : Heaps) (b : BackupCell) : ConfigBackup :=
  { b.fields with target := (elems h.target b.target).map (viewTarget h.parameters) }

def view (h : Heaps) (c : CfgRef) : CfgTemplate :=
  { c.fields with
    user := elems h.user c.user
    backup := (elems h.backup c.backup).map (viewBackup h)
    notifications := { c.fields.notifications with email := elems h.email c.email } }

structure Holds (h : Heaps) (c : CfgRef) : Prop where
  user : c.user.Within h.user
  backup : c.backup.Within h.backup
  email : c.email.Within h.email
  target : ∀ b ∈ elems h.backup c.backup, b.target.Within h.target
  parameters : ∀ b ∈ elems h.backup c.backup, ∀ t ∈ elems h.target b.target, t.parameters.Within h.parameters

/-- The configuration of the daemon, with the arrays of all that is in memory. -/
structure RuntimeConfig where
  heaps : Heaps
  config : CfgRef
  holds : Holds heaps config

/-! ### Copies -/

def copyTargetCells (hp : Heap ConfigBackupTargetParams) :
    List TargetCell → Heap ConfigBackupTargetParams × List TargetCell
  | [] => (hp, [])
  | t :: ts =>
      let parameters := elems hp t.parameters
      let rest := copyTargetCells (alloc hp parameters) ts
      (rest.1, { t with parameters := newSlice hp parameters } :: rest.2)

def copyConfigBackupStruct (h : Heaps) (b : BackupCell) : Heaps × BackupCell :=
  let copied := copyTargetCells h.parameters (elems h.target b.target)
  ({ h with parameters := copied.1, target := alloc h.target copied.2 },
    { b with target := newSlice h.target copied.2 })

def copyBackupCells (h : Heaps) : List BackupCell → Heaps × List BackupCell
  | [] => (h, [])
  | b :: bs =>
      let copied := copyConfigBackupStruct h b
      let rest := copyBackupCells copied.1 bs
      (rest.1, copied.2 :: rest.2)

def getCopyWithLock (cfg : RuntimeConfig) : Heaps × CfgRef :=
  let user := elems cfg.heaps.user cfg.config.user
  let email := elems cfg.heaps.email cfg.config.email
  let copied := copyBackupCells cfg.heaps (elems cfg.heaps.backup cfg.config.backup)
  ({ copied.1 with
      user := alloc cfg.heaps.user user
      backup := alloc cfg.heaps.backup copied.2
      email := alloc cfg.heaps.email email },
    { cfg.config with
      user := newSlice cfg.heaps.user user
      backup := newSlice cfg.heaps.backup copied.2
      email := newSlice cfg.heaps.email email })

/-! ### Stars -/

def parameterSlices (h : Heaps) (c : CfgRef) : List Slice :=
  (elems h.backup c.backup).flatMap fun b => (elems h.target b.target).map TargetCell.parameters

def starBackupCell (b : BackupCell) : BackupCell :=
  { b with fields := { b.fields with encryptPass := starred b.fields.encryptPass } }

/-- `SanitizeCfgTemplate`, by what it writes. It returns the value that it was given. -/
def sanitizeInPlace (u : Tables) (h : Heaps) (c : CfgRef) : Heaps × CfgRef :=
  ({ h with
      user := update sanitizeUser h.user c.user
      backup := update starBackupCell h.backup c.backup
      parameters := updateAll (sanitizeParameter u) h.parameters (parameterSlices h c)
      email := update sanitizeEmail h.email c.email }, c)

def saveSanitizedCfgToTmpFile (u : Tables) (h : Heaps) (c : CfgRef) : Heaps × CfgTemplate :=
  let sanitized := sanitizeInPlace u h c
  (sanitized.1, view sanitized.1 sanitized.2)

/-- `cleanupAfterBackup`, as far as it has to do with the configuration: what is left in
memory, and the emails that `notifications.Execute` finds. -/
def cleanupAfterBackup (u : Tables) (cancelled failed : Bool) (h : Heaps) (serverConfigCopy : CfgRef) :
    Heaps × List ConfigNotificationEmail :=
  let h := if !cancelled && !failed then (saveSanitizedCfgToTmpFile u h serverConfigCopy).1 else h
  (h, (view h serverConfigCopy).notifications.email)

/-! ### What the stars overwrite -/

variable {u : Tables}

theorem starred_starred (s : Str) : starred (starred s) = starred s := by
  by_cases h : s = []
  · simp [starred, h]
  · simp [starred, h, show secretReplace ≠ [] by decide]

theorem sanitizeUser_idem (user : ConfigUser) : sanitizeUser (sanitizeUser user) = sanitizeUser user := by
  simp [sanitizeUser, starred_starred]

theorem sanitizeEmail_idem (email : ConfigNotificationEmail) :
    sanitizeEmail (sanitizeEmail email) = sanitizeEmail email := by
  simp [sanitizeEmail, starred_starred]

theorem sanitizeParameter_idem (p : ConfigBackupTargetParams) :
    sanitizeParameter u (sanitizeParameter u p) = sanitizeParameter u p := by
  by_cases h : isSecretName u p.name = true <;> simp [sanitizeParameter, h]

theorem starBackupCell_idem (b : BackupCell) : starBackupCell (starBackupCell b) = starBackupCell b := by
  simp [starBackupCell, starred_starred]

/-- The caller reads through its own value what a sanitized configuration is. -/
theorem view_sanitizeInPlace (h : Heaps) (c : CfgRef) :
    view (sanitizeInPlace u h c).1 c = sanitizeCfgTemplate u (view h c) := by
  have hbackup : (elems (update starBackupCell h.backup c.backup) c.backup).map (viewBackup (sanitizeInPlace u h c).1) =
      ((elems h.backup c.backup).map (viewBackup h)).map (sanitizeBackup u) := by
    rw [elems_update_self starBackupCell_idem, List.map_map, List.map_map]
    refine List.map_congr_left fun b hb => ?_
    have htarget : (elems h.target b.target).map (viewTarget (sanitizeInPlace u h c).1.parameters) =
        ((elems h.target b.target).map (viewTarget h.parameters)).map (sanitizeTarget u) := by
      rw [List.map_map]
      refine List.map_congr_left fun t ht => ?_
      have hslice : t.parameters ∈ parameterSlices h c :=
        List.mem_flatMap.mpr ⟨b, hb, List.mem_map_of_mem ht⟩
      simp [viewTarget, sanitizeInPlace, sanitizeTarget, elems_updateAll sanitizeParameter_idem hslice]
    simp only [Function.comp, viewBackup, starBackupCell, sanitizeBackup]
    rw [← htarget]
    rfl
  have huser := elems_update_self (h := h.user) sanitizeUser_idem c.user
  have hemail := elems_update_self (h := h.email) sanitizeEmail_idem c.email
  simp only [view, sanitizeInPlace, sanitizeCfgTemplate, huser, hemail] at hbackup ⊢
  rw [hbackup]

/-! ### What a copy is -/

structure Heaps.Extends (h h' : Heaps) : Prop where
  user : h.user <+: h'.user
  backup : h.backup <+: h'.backup
  target : h.target <+: h'.target
  parameters : h.parameters <+: h'.parameters
  email : h.email <+: h'.email

theorem Heaps.Extends.refl (h : Heaps) : h.Extends h :=
  ⟨List.prefix_refl _, List.prefix_refl _, List.prefix_refl _, List.prefix_refl _, List.prefix_refl _⟩

theorem Heaps.Extends.trans {h h' h'' : Heaps} (hx : h.Extends h') (hx' : h'.Extends h'') : h.Extends h'' :=
  ⟨hx.user.trans hx'.user, hx.backup.trans hx'.backup, hx.target.trans hx'.target,
    hx.parameters.trans hx'.parameters, hx.email.trans hx'.email⟩

structure BackupCell.Holds (h : Heaps) (b : BackupCell) : Prop where
  target : b.target.Within h.target
  parameters : ∀ t ∈ elems h.target b.target, t.parameters.Within h.parameters

theorem viewTarget_of_isPrefix {hp hp' : Heap ConfigBackupTargetParams} (hx : hp <+: hp') {t : TargetCell}
    (ht : t.parameters.Within hp) : viewTarget hp' t = viewTarget hp t := by
  rw [viewTarget, elems_of_isPrefix hx ht, viewTarget]

section

variable {h h' : Heaps} {b : BackupCell}

theorem BackupCell.Holds.extends (hb : b.Holds h) (hx : h.Extends h') : b.Holds h' where
  target := hb.target.of_isPrefix hx.target
  parameters t ht := by
    rw [elems_of_isPrefix hx.target hb.target] at ht
    exact (hb.parameters t ht).of_isPrefix hx.parameters

theorem viewBackup_of_extends (hb : b.Holds h) (hx : h.Extends h') : viewBackup h' b = viewBackup h b := by
  have htargets : (elems h.target b.target).map (viewTarget h'.parameters) =
      (elems h.target b.target).map (viewTarget h.parameters) :=
    List.map_congr_left fun t ht => viewTarget_of_isPrefix hx.parameters (hb.parameters t ht)
  rw [viewBackup, elems_of_isPrefix hx.target hb.target, htargets, viewBackup]

end

/-- The copies of targets have arrays of their own, with what the old ones have. -/
structure TargetsCopied (hp : Heap ConfigBackupTargetParams) (ts : List TargetCell)
    (r : Heap ConfigBackupTargetParams × List TargetCell) : Prop where
  extended : hp <+: r.1
  within : ∀ t ∈ r.2, t.parameters.Within r.1
  fresh : ∀ t ∈ r.2, hp.length ≤ t.parameters.addr
  same : r.2.map (viewTarget r.1) = ts.map (viewTarget hp)

theorem targetsCopied {hp : Heap ConfigBackupTargetParams} {ts : List TargetCell}
    (hts : ∀ t ∈ ts, t.parameters.Within hp) : TargetsCopied hp ts (copyTargetCells hp ts) := by
  induction ts generalizing hp with
  | nil => exact ⟨List.prefix_refl _, by simp [copyTargetCells], by simp [copyTargetCells], rfl⟩
  | cons t ts ih =>
      have hext := isPrefix_alloc hp (elems hp t.parameters)
      have hrest : TargetsCopied (alloc hp (elems hp t.parameters)) ts _ :=
        ih fun t' ht' => (hts t' (List.mem_cons_of_mem _ ht')).of_isPrefix hext
      have hnew : (newSlice hp (elems hp t.parameters)).Within (copyTargetCells hp (t :: ts)).1 :=
        (newSlice_within hp _).of_isPrefix hrest.extended
      refine ⟨hext.trans hrest.extended, ?_, ?_, ?_⟩
      · exact List.forall_mem_cons.mpr ⟨hnew, hrest.within⟩
      · refine List.forall_mem_cons.mpr ⟨Nat.le_refl _, fun t' ht' => ?_⟩
        exact hext.length_le.trans (hrest.fresh t' ht')
      · have hts' : ts.map (viewTarget (alloc hp (elems hp t.parameters))) = ts.map (viewTarget hp) :=
          List.map_congr_left fun t' ht' =>
            viewTarget_of_isPrefix hext (hts t' (List.mem_cons_of_mem _ ht'))
        have hread : elems (copyTargetCells hp (t :: ts)).1 (newSlice hp (elems hp t.parameters)) =
            elems hp t.parameters := by
          rw [copyTargetCells, elems_of_isPrefix hrest.extended (newSlice_within hp _), elems_alloc_newSlice]
        simp only [copyTargetCells, List.map_cons, hrest.same, hts', List.cons.injEq, and_true]
        simp only [viewTarget]
        exact congrArg (fun ps => { t.fields with parameters := ps }) hread

def BackupCell.Fresh (h h' : Heaps) (b : BackupCell) : Prop :=
  ∀ t ∈ elems h'.target b.target, h.parameters.length ≤ t.parameters.addr

/-- The copies of backups have arrays of their own, with what the old ones have. -/
structure BackupsCopied (h : Heaps) (bs : List BackupCell) (r : Heaps × List BackupCell) : Prop where
  extended : h.Extends r.1
  unchanged : r.1.user = h.user ∧ r.1.backup = h.backup ∧ r.1.email = h.email
  holds : ∀ b ∈ r.2, b.Holds r.1
  fresh : ∀ b ∈ r.2, b.Fresh h r.1
  same : r.2.map (viewBackup r.1) = bs.map (viewBackup h)

section

variable {h : Heaps}

theorem backupCopied {b : BackupCell} (hb : b.Holds h) :
    BackupsCopied h [b] ((copyConfigBackupStruct h b).1, [(copyConfigBackupStruct h b).2]) := by
  have htargets := targetsCopied hb.parameters
  have hread : elems (copyConfigBackupStruct h b).1.target (copyConfigBackupStruct h b).2.target =
      (copyTargetCells h.parameters (elems h.target b.target)).2 :=
    elems_alloc_newSlice h.target _
  refine ⟨⟨List.prefix_refl _, List.prefix_refl _, isPrefix_alloc _ _, htargets.extended, List.prefix_refl _⟩,
    ⟨rfl, rfl, rfl⟩, ?_, ?_, ?_⟩
  · refine List.forall_mem_singleton.mpr ⟨newSlice_within _ _, ?_⟩
    rw [hread]
    exact htargets.within
  · refine List.forall_mem_singleton.mpr ?_
    unfold BackupCell.Fresh
    rw [hread]
    exact htargets.fresh
  · have hview : viewBackup (copyConfigBackupStruct h b).1 (copyConfigBackupStruct h b).2 = viewBackup h b := by
      rw [viewBackup, hread]
      exact congrArg (fun ts => { b.fields with target := ts }) htargets.same
    rw [List.map_singleton, List.map_singleton, hview]

theorem backupsCopied {bs : List BackupCell} (hbs : ∀ b ∈ bs, b.Holds h) :
    BackupsCopied h bs (copyBackupCells h bs) := by
  induction bs generalizing h with
  | nil => exact ⟨.refl h, ⟨rfl, rfl, rfl⟩, by simp [copyBackupCells], by simp [copyBackupCells], rfl⟩
  | cons b bs ih =>
      have hfirst := backupCopied (hbs b List.mem_cons_self)
      have hrest := ih (h := (copyConfigBackupStruct h b).1) fun b' hb' =>
        (hbs b' (List.mem_cons_of_mem _ hb')).extends hfirst.extended
      have hholds := hfirst.holds _ (List.mem_singleton.mpr rfl)
      have hfresh := hfirst.fresh _ (List.mem_singleton.mpr rfl)
      refine ⟨hfirst.extended.trans hrest.extended, ?_, ?_, ?_, ?_⟩
      · obtain ⟨hu, hb, he⟩ := hrest.unchanged
        exact ⟨hu, hb, he⟩
      · exact List.forall_mem_cons.mpr ⟨hholds.extends hrest.extended, hrest.holds⟩
      · refine List.forall_mem_cons.mpr ⟨?_, fun b' hb' t ht => ?_⟩
        · intro t ht
          rw [copyBackupCells, elems_of_isPrefix hrest.extended.target hholds.target] at ht
          exact hfresh t ht
        · exact hfirst.extended.parameters.length_le.trans (hrest.fresh b' hb' t ht)
      · have hbs' : bs.map (viewBackup (copyConfigBackupStruct h b).1) = bs.map (viewBackup h) :=
          List.map_congr_left fun b' hb' =>
            viewBackup_of_extends (hbs b' (List.mem_cons_of_mem _ hb')) hfirst.extended
        have hview : viewBackup (copyBackupCells h (b :: bs)).1 (copyConfigBackupStruct h b).2 = viewBackup h b := by
          rw [copyBackupCells, viewBackup_of_extends hholds hrest.extended]
          simpa using hfirst.same
        simp only [copyBackupCells, List.map_cons, hrest.same, hbs', List.cons.injEq, and_true]
        exact hview

end

section

variable (cfg : RuntimeConfig)

theorem RuntimeConfig.cells_hold : ∀ b ∈ elems cfg.heaps.backup cfg.config.backup, b.Holds cfg.heaps :=
  fun b hb => ⟨cfg.holds.target b hb, cfg.holds.parameters b hb⟩

theorem getCopyWithLock_extends : cfg.heaps.Extends (getCopyWithLock cfg).1 := by
  have hcopied := backupsCopied cfg.cells_hold
  exact ⟨isPrefix_alloc _ _, isPrefix_alloc _ _, hcopied.extended.target, hcopied.extended.parameters,
    isPrefix_alloc _ _⟩

theorem view_getCopyWithLock : view (getCopyWithLock cfg).1 (getCopyWithLock cfg).2 = view cfg.heaps cfg.config := by
  have hcopied := backupsCopied cfg.cells_hold
  have hbackup : (elems (getCopyWithLock cfg).1.backup (getCopyWithLock cfg).2.backup).map
      (viewBackup (getCopyWithLock cfg).1) = (elems cfg.heaps.backup cfg.config.backup).map (viewBackup cfg.heaps) := by
    have hread : elems (getCopyWithLock cfg).1.backup (getCopyWithLock cfg).2.backup =
        (copyBackupCells cfg.heaps (elems cfg.heaps.backup cfg.config.backup)).2 :=
      elems_alloc_newSlice _ _
    rw [hread, ← hcopied.same]
    rfl
  have huser : elems (getCopyWithLock cfg).1.user (getCopyWithLock cfg).2.user = elems cfg.heaps.user cfg.config.user :=
    elems_alloc_newSlice _ _
  have hemail : elems (getCopyWithLock cfg).1.email (getCopyWithLock cfg).2.email =
      elems cfg.heaps.email cfg.config.email :=
    elems_alloc_newSlice _ _
  rw [view, huser, hbackup, hemail, view]
  rfl

/-- The stars of a copy are written beyond the arrays of the original. -/
theorem fresh_parameterSlices : ∀ s ∈ parameterSlices (getCopyWithLock cfg).1 (getCopyWithLock cfg).2,
    cfg.heaps.parameters.length ≤ s.addr := by
  have hcopied := backupsCopied cfg.cells_hold
  intro s hs
  obtain ⟨b, hb, hs⟩ := List.mem_flatMap.mp hs
  obtain ⟨t, ht, rfl⟩ := List.mem_map.mp hs
  have hread : elems (getCopyWithLock cfg).1.backup (getCopyWithLock cfg).2.backup =
      (copyBackupCells cfg.heaps (elems cfg.heaps.backup cfg.config.backup)).2 :=
    elems_alloc_newSlice _ _
  rw [hread] at hb
  exact hcopied.fresh b hb t ht

theorem view_sanitizeInPlace_getCopyWithLock :
    view (sanitizeInPlace u (getCopyWithLock cfg).1 (getCopyWithLock cfg).2).1 cfg.config =
      view cfg.heaps cfg.config := by
  have hext := getCopyWithLock_extends cfg
  have hholds := cfg.holds
  have huser : elems (update sanitizeUser (getCopyWithLock cfg).1.user (getCopyWithLock cfg).2.user) cfg.config.user =
      elems cfg.heaps.user cfg.config.user :=
    elems_update_of_isPrefix sanitizeUser_idem hext.user le_rfl hholds.user
  have hemail : elems (update sanitizeEmail (getCopyWithLock cfg).1.email (getCopyWithLock cfg).2.email)
      cfg.config.email = elems cfg.heaps.email cfg.config.email :=
    elems_update_of_isPrefix sanitizeEmail_idem hext.email le_rfl hholds.email
  have hbackup : elems (update starBackupCell (getCopyWithLock cfg).1.backup (getCopyWithLock cfg).2.backup)
      cfg.config.backup = elems cfg.heaps.backup cfg.config.backup :=
    elems_update_of_isPrefix starBackupCell_idem hext.backup le_rfl hholds.backup
  have hcells : (elems cfg.heaps.backup cfg.config.backup).map
      (viewBackup (sanitizeInPlace u (getCopyWithLock cfg).1 (getCopyWithLock cfg).2).1) =
        (elems cfg.heaps.backup cfg.config.backup).map (viewBackup cfg.heaps) := by
    refine List.map_congr_left fun b hb => ?_
    have htargets : elems (getCopyWithLock cfg).1.target b.target = elems cfg.heaps.target b.target :=
      elems_of_isPrefix hext.target (hholds.target b hb)
    have hparams : ∀ t ∈ elems cfg.heaps.target b.target,
        viewTarget (sanitizeInPlace u (getCopyWithLock cfg).1 (getCopyWithLock cfg).2).1.parameters t =
          viewTarget cfg.heaps.parameters t := by
      intro t ht
      rw [viewTarget, sanitizeInPlace, elems_updateAll_of_isPrefix sanitizeParameter_idem hext.parameters
        (fresh_parameterSlices cfg) (hholds.parameters b hb t ht), viewTarget]
    simp only [viewBackup]
    exact congrArg (fun ts => { b.fields with target := ts }) ((congrArg _ htargets).trans (List.map_congr_left hparams))
  simp only [sanitizeInPlace, view, huser, hemail, hbackup] at hcells ⊢
  rw [hcells]

end

/-! ### When a caller does not notice -/

/-- A secret that is empty or is made of these stars already. -/
def Starless (secret : Str) : Prop := secret = [] ∨ secret = secretReplace

/-- There is nothing that `SanitizeCfgTemplate` would overwrite. -/
structure NothingToStar (u : Tables) (c : CfgTemplate) : Prop where
  user : ∀ user ∈ c.user, Starless user.pass
  encryptPass : ∀ b ∈ c.backup, Starless b.encryptPass
  parameters : ∀ b ∈ c.backup, ∀ t ∈ b.target, ∀ p ∈ t.parameters, isSecretName u p.name = true →
    p.value = secretReplace
  email : ∀ email ∈ c.notifications.email, Starless email.pass

theorem starred_eq_self_iff {s : Str} : starred s = s ↔ Starless s := by
  unfold starred Starless
  by_cases h : s = []
  · simp [h]
  · simp [h, eq_comm]

theorem map_eq_self_iff {α : Type} {f : α → α} {l : List α} : l.map f = l ↔ ∀ a ∈ l, f a = a := by
  induction l with
  | nil => simp
  | cons a l ih => simp [ih]

theorem sanitizeBackup_eq_self_iff {b : ConfigBackup} : sanitizeBackup u b = b ↔
    Starless b.encryptPass ∧ ∀ t ∈ b.target, ∀ p ∈ t.parameters, isSecretName u p.name = true →
      p.value = secretReplace := by
  have hparam : ∀ p : ConfigBackupTargetParams, sanitizeParameter u p = p ↔
      (isSecretName u p.name = true → p.value = secretReplace) := by
    intro p
    obtain ⟨name, value⟩ := p
    by_cases h : isSecretName u name = true <;> simp [sanitizeParameter, h, eq_comm]
  have htarget : ∀ t : ConfigBackupTarget, sanitizeTarget u t = t ↔
      ∀ p ∈ t.parameters, isSecretName u p.name = true → p.value = secretReplace := by
    intro t
    obtain ⟨name, type, keyPrefix, bucket, parameters, rateLimit⟩ := t
    simp [sanitizeTarget, map_eq_self_iff, hparam]
  obtain ⟨name, paths, exclusions, dereference, checksum, target, schedule, encrypt, encryptPass, maxNum, maxAge,
    pre, post⟩ := b
  simp [sanitizeBackup, starred_eq_self_iff, map_eq_self_iff, htarget, and_comm]

theorem sanitizeCfgTemplate_eq_self_iff {c : CfgTemplate} : sanitizeCfgTemplate u c = c ↔ NothingToStar u c := by
  have huser : ∀ user : ConfigUser, sanitizeUser user = user ↔ Starless user.pass := by
    intro user
    obtain ⟨name, pass, access⟩ := user
    simp [sanitizeUser, starred_eq_self_iff]
  have hemail : ∀ email : ConfigNotificationEmail, sanitizeEmail email = email ↔ Starless email.pass := by
    intro email
    obtain ⟨server, user, pass, port, sender, recipient, cc, type⟩ := email
    simp [sanitizeEmail, starred_eq_self_iff]
  obtain ⟨dataDir, restoreDir, htmlDir, user, http, https, backup, ⟨email, script⟩⟩ := c
  simp only [sanitizeCfgTemplate, CfgTemplate.mk.injEq, ConfigNotification.mk.injEq, map_eq_self_iff, huser, hemail,
    sanitizeBackup_eq_self_iff, true_and, and_true]
  constructor
  · rintro ⟨hu, hb, he⟩
    exact ⟨hu, fun b hmem => (hb b hmem).1, fun b hmem => (hb b hmem).2, he⟩
  · intro h
    exact ⟨h.user, fun b hmem => ⟨h.encryptPass b hmem, h.parameters b hmem⟩, h.email⟩

/-- To sanitize a copy changes neither the copy nor the configuration of the daemon, and the
notifications after a backup go by the configured passwords. -/
structure SourceKept (u : Tables) (cfg : RuntimeConfig) : Prop where
  own : view (sanitizeInPlace u (getCopyWithLock cfg).1 (getCopyWithLock cfg).2).1 (getCopyWithLock cfg).2 =
    view (getCopyWithLock cfg).1 (getCopyWithLock cfg).2
  saved : view (saveSanitizedCfgToTmpFile u (getCopyWithLock cfg).1 (getCopyWithLock cfg).2).1 (getCopyWithLock cfg).2 =
    view (getCopyWithLock cfg).1 (getCopyWithLock cfg).2
  live : view (saveSanitizedCfgToTmpFile u (getCopyWithLock cfg).1 (getCopyWithLock cfg).2).1 cfg.config =
    view cfg.heaps cfg.config
  notified : ∀ cancelled failed,
    (cleanupAfterBackup u cancelled failed (getCopyWithLock cfg).1 (getCopyWithLock cfg).2).2 =
      (view cfg.heaps cfg.config).notifications.email

/-- The source is left alone only where there is nothing to put stars for. -/
theorem sourceKept_iff (u : Tables) (cfg : RuntimeConfig) :
    SourceKept u cfg ↔ NothingToStar u (view cfg.heaps cfg.config) := by
  rw [← sanitizeCfgTemplate_eq_self_iff, ← view_getCopyWithLock cfg, ← view_sanitizeInPlace]
  constructor
  · exact fun h => h.own
  · intro hown
    refine ⟨hown, hown, view_sanitizeInPlace_getCopyWithLock cfg, fun cancelled failed => ?_⟩
    rw [← view_getCopyWithLock cfg]
    unfold cleanupAfterBackup
    split
    · exact congrArg (fun c => c.notifications.email) hown
    · rfl

def mail (pass : Str) : ConfigNotificationEmail := { server := "smtp".toList, user := "me".toList, pass := pass }

def oneEmail (pass : Str) : RuntimeConfig where
  heaps := ⟨[[]], [[]], [], [], [[mail pass]]⟩
  config := ⟨{ dataDir := "/data".toList }, ⟨0, 0⟩, ⟨0, 0⟩, ⟨0, 1⟩⟩
  holds := ⟨Nat.one_pos, Nat.one_pos, Nat.one_pos, by simp [elems], by simp [elems]⟩

/-- After a backup that went well, the email is sent with stars for the password. -/
theorem cleanupAfterBackup_oneEmail :
    (cleanupAfterBackup .plain false false (getCopyWithLock (oneEmail "secret".toList)).1
      (getCopyWithLock (oneEmail "secret".toList)).2).2 = [mail secretReplace] ∧
      (view (oneEmail "secret".toList).heaps (oneEmail "secret".toList).config).notifications.email =
        [mail "secret".toList] ∧
      ¬ SourceKept .plain (oneEmail "secret".toList) := by
  have hsent : (cleanupAfterBackup .plain false false (getCopyWithLock (oneEmail "secret".toList)).1
      (getCopyWithLock (oneEmail "secret".toList)).2).2 = [mail secretReplace] := by decide
  have hconfigured : (view (oneEmail "secret".toList).heaps (oneEmail "secret".toList).config).notifications.email =
      [mail "secret".toList] := by decide
  refine ⟨hsent, hconfigured, fun h => ?_⟩
  have hsame := h.notified false false
  rw [hsent, hconfigured] at hsame
  revert hsame
  decide

end CloudBackup.Config
