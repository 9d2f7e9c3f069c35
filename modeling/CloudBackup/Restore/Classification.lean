import CloudBackup.Restore.RestoreJob

/-!
How a restore ends, with the error that it reports. The loop of `Do` keeps one boolean:
if an item was restored. An item that was skipped leaves it as it is, and so does one that
failed.

A manifest of nothing but delete markers is therefore reported as one where every file has
failed; `doResult_classified_iff` says that there is no other case. As rows that were
skipped are loaded again, a resumed job is left with such a manifest as soon as all else is
done.
-/

namespace CloudBackup.Restore

open Database Backup

inductive ResultErr
  /-- From before the loop over the items. -/
  | earlier
  /-- all files failed to restore -/
  | allFailed
  deriving DecidableEq, Repr

structure Result where
  state : JobState
  err : Option ResultErr
  deriving DecidableEq, Repr

/-- The loop of `Do` over the items, and what comes after it. -/
def loopResult (env : Env) : List RemoteFile → Bool → Result
  | [], restoredAny =>
      if env.ctxCanceled then ⟨.cancelled, none⟩
      else if !restoredAny then ⟨.failed, some .allFailed⟩
      else ⟨.finished, none⟩
  | item :: items, restoredAny =>
      if env.ctxDone item then ⟨.cancelled, none⟩
      else if item.deleteMarker then loopResult env items restoredAny
      else
        match env.outcome item with
        | .done _ => loopResult env items true
        | .cancelled => ⟨.cancelled, none⟩
        | .failed => loopResult env items restoredAny

/-- The rows that are left to do. A new job has those of the request, and an old one
those that are not done. -/
def pendingManifest (selected : List RemoteFile) (s : Stored) : List RemoteFile :=
  loadPendingManifest (if s.jobs = none then selected.foldl insertManifestRow s.restoreFiles
    else s.restoreFiles)

/-- What `Do` returns, from where it looks into the restore database. -/
def doResult (selected : List RemoteFile) (env : Env) (s : Stored) : Result :=
  let init := initRestoreJob selected env s
  if !init.2 || !env.loadOk then ⟨.failed, some .earlier⟩
  else
    let items := loadPendingManifest (applyAll init.1.flatten s).restoreFiles
    if items = [] then ⟨.finished, none⟩ else loopResult env items false

/-- A run gets as far as the manifest, and is not cancelled from there on. -/
structure RunsThrough (selected : List RemoteFile) (env : Env) (s : Stored) : Prop where
  init : (initRestoreJob selected env s).2 = true
  load : env.loadOk = true
  ctxDone : ∀ item ∈ pendingManifest selected s, env.ctxDone item = false
  outcome : ∀ item ∈ pendingManifest selected s, env.outcome item ≠ .cancelled
  ctxCanceled : env.ctxCanceled = false

instance (selected : List RemoteFile) (env : Env) (s : Stored) : Decidable (RunsThrough selected env s) :=
  decidable_of_iff ((initRestoreJob selected env s).2 = true ∧ env.loadOk = true ∧
      (∀ item ∈ pendingManifest selected s, env.ctxDone item = false) ∧
      (∀ item ∈ pendingManifest selected s, env.outcome item ≠ .cancelled) ∧ env.ctxCanceled = false)
    ⟨fun h => ⟨h.1, h.2.1, h.2.2.1, h.2.2.2.1, h.2.2.2.2⟩,
      fun h => ⟨h.init, h.load, h.ctxDone, h.outcome, h.ctxCanceled⟩⟩

/-- The report is right about the items of a run. Those that are no delete markers are
attempted. -/
structure Classified (env : Env) (items : List RemoteFile) (r : Result) : Prop where
  failed : r = ⟨.failed, some .allFailed⟩ →
    (∃ item ∈ items, item.deleteMarker = false ∧ env.outcome item = .failed) ∧
      ∀ item ∈ items, restoredAt env item = false
  finished : (∀ item ∈ items, item.deleteMarker = false → env.outcome item ≠ .failed) → r.state = .finished

section

variable {selected : List RemoteFile} {env : Env} {s : Stored}

/-- The state is the one that the whole run of `Do` ends with. -/
theorem loopResult_state (env : Env) (items : List RemoteFile) (restoredAny : Bool) :
    (loopResult env items restoredAny).state = (processItems env items restoredAny).2 := by
  induction items generalizing restoredAny with
  | nil =>
      rw [loopResult, processItems]
      cases env.ctxCanceled <;> cases restoredAny <;> rfl
  | cons item items ih =>
      rw [loopResult, processItems]
      split
      · rfl
      · cases hmarker : item.deleteMarker with
        | true => simp [cancelledAt, restoredAt, hmarker, ih]
        | false => cases houtcome : env.outcome item <;> simp [cancelledAt, restoredAt, hmarker, houtcome, ih]

theorem doResult_state : (doResult selected env s).state = (doRestore selected env s).2 := by
  rw [doResult, doRestore]
  dsimp only
  split
  · rfl
  · split
    · rfl
    · exact loopResult_state env _ false

theorem pendingManifest_of_init (h : (initRestoreJob selected env s).2 = true) :
    loadPendingManifest (applyAll (initRestoreJob selected env s).1.flatten s).restoreFiles =
      pendingManifest selected s := by
  unfold initRestoreJob at h ⊢
  unfold pendingManifest
  split_ifs at h ⊢ <;> simp_all [Effect.apply]

/-- Without a cancellation the loop tells if something was restored, and nothing else. -/
theorem loopResult_eq {items : List RemoteFile} (hdone : ∀ item ∈ items, env.ctxDone item = false)
    (houtcome : ∀ item ∈ items, env.outcome item ≠ .cancelled) (hcanceled : env.ctxCanceled = false)
    (restoredAny : Bool) : loopResult env items restoredAny =
      if restoredAny || items.any (restoredAt env) then ⟨.finished, none⟩
      else ⟨.failed, some .allFailed⟩ := by
  induction items generalizing restoredAny with
  | nil => cases restoredAny <;> simp [loopResult, hcanceled]
  | cons item items ih =>
      have hrest := ih (fun i hi => hdone i (List.mem_cons_of_mem item hi))
        fun i hi => houtcome i (List.mem_cons_of_mem item hi)
      rw [loopResult, hdone item List.mem_cons_self, List.any_cons, if_neg Bool.false_ne_true]
      cases hmarker : item.deleteMarker with
      | true => simp [hrest, restoredAt, hmarker]
      | false =>
          cases hout : env.outcome item with
          | done written => simp [hrest, restoredAt, hmarker, hout]
          | failed => simp [hrest, restoredAt, hmarker, hout]
          | cancelled => exact absurd hout (houtcome item List.mem_cons_self)

theorem doResult_eq (h : RunsThrough selected env s) : doResult selected env s =
    if pendingManifest selected s = [] then ⟨.finished, none⟩
    else if (pendingManifest selected s).any (restoredAt env) then ⟨.finished, none⟩
    else ⟨.failed, some .allFailed⟩ := by
  rw [doResult]
  dsimp only
  rw [h.init, h.load, pendingManifest_of_init h.init,
    loopResult_eq h.ctxDone h.outcome h.ctxCanceled]
  simp

theorem classified_finished (env : Env) (items : List RemoteFile) : Classified env items ⟨.finished, none⟩ where
  failed := fun h => by cases h
  finished := fun _ => rfl

theorem outcome_failed {item : RemoteFile} (hmarker : item.deleteMarker = false)
    (hcancelled : env.outcome item ≠ .cancelled) (hnot : restoredAt env item = false) :
    env.outcome item = .failed := by
  cases hout : env.outcome item with
  | done written => simp [restoredAt, hmarker, hout] at hnot
  | failed => rfl
  | cancelled => exact absurd hout hcancelled

/-- That all files failed is right if and only if something was attempted. -/
theorem classified_allFailed_iff {items : List RemoteFile} (hnone : ∀ item ∈ items, restoredAt env item = false)
    (houtcome : ∀ item ∈ items, env.outcome item ≠ .cancelled) :
    Classified env items ⟨.failed, some .allFailed⟩ ↔ ∃ item ∈ items, item.deleteMarker = false := by
  constructor
  · intro h
    by_contra hmarkers
    have hfinished := h.finished fun item hitem hmarker => absurd ⟨item, hitem, hmarker⟩ hmarkers
    cases hfinished
  · rintro ⟨item, hitem, hmarker⟩
    have hfailed := outcome_failed hmarker (houtcome item hitem) (hnone item hitem)
    exact ⟨fun _ => ⟨⟨item, hitem, hmarker, hfailed⟩, hnone⟩,
      fun hattempted => absurd hfailed (hattempted item hitem hmarker)⟩

end

/-- The report is right if and only if there is nothing to do, or something other than
delete markers. -/
theorem doResult_classified_iff (selected : List RemoteFile) (env : Env) (s : Stored)
    (hrun : RunsThrough selected env s) :
    Classified env (pendingManifest selected s) (doResult selected env s) ↔
      pendingManifest selected s = [] ∨ ∃ item ∈ pendingManifest selected s, item.deleteMarker = false := by
  rw [doResult_eq hrun]
  split
  · rename_i hnil
    exact iff_of_true (classified_finished env _) (.inl hnil)
  · rename_i hne
    split
    · rename_i hany
      obtain ⟨item, hitem, hrestored⟩ := List.any_eq_true.mp hany
      rw [restoredAt, Bool.and_eq_true] at hrestored
      exact iff_of_true (classified_finished env _) (.inr ⟨item, hitem, by simpa using hrestored.1⟩)
    · rename_i hany
      rw [classified_allFailed_iff (by simpa using hany) hrun.outcome]
      exact (or_iff_right hne).symm

theorem doResult_classified_twoItems : RunsThrough twoItems smoothEnv Stored.empty ∧
    Classified smoothEnv (pendingManifest twoItems Stored.empty) (doResult twoItems smoothEnv Stored.empty) :=
  ⟨by decide, (doResult_classified_iff twoItems smoothEnv Stored.empty (by decide)).mpr (by decide)⟩

def markerLeft : Stored :=
  ⟨some .cancelled, some fun _ => 0,
    [⟨plainRow "/a" .file, .done⟩, ⟨{ plainRow "/b" .file with deleteMarker := true }, .skipped⟩], none⟩

/-- It is resumed, nothing is attempted, and all files have failed. -/
theorem doResult_markerLeft : ¬ ∀ (selected : List RemoteFile) (env : Env) (s : Stored),
    RunsThrough selected env s →
      Classified env (pendingManifest selected s) (doResult selected env s) := by
  intro h
  have hclassified := h [] smoothEnv markerLeft (by decide)
  have hfinished := hclassified.finished (by decide)
  revert hfinished
  decide

end CloudBackup.Restore
