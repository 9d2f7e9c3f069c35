import CloudBackup.Backup.Rollback
import Mathlib.Data.List.Nodup

/-!
A second attempt. `markDeleted` gives up as soon as one target refuses its
marker, takes back the markers it has put, and leaves the row in `files`, so that
a later run can try again.

For S3, Azure and the test store a second marker is as good as the first one. GCP
has no markers: `MarkDeleted` retires the live object, `Delete` does not bring it
back, and the next `MarkDeleted` fails since there is nothing left to retire. So
what decides is which targets of GCP were asked in the first attempt.
-/

namespace CloudBackup.Backup

open Database ObjectStore Iteration

/-- The generation of an item that a target of GCP has live. -/
def live (rec : Record) (w : World) (st : Store) : Option ℕ :=
  ((w.buckets st.name).generations (calculateRemotePath st.storePrefix rec.path)).live

def refuses (rec : Record) (w : World) (t : Target) : Bool :=
  decide (rec.props.type = .file) && decide (t.store.kind ≠ .testNull) &&
    (decide (t.out.reply ≠ .ok) ||
      decide (t.store.kind = .gcpStorage) && (live rec w t.store).isNone)

/-- The targets that are asked for a marker: none comes after one that refuses. -/
def asked (rec : Record) (w : World) : List Target → List Target
  | [] => []
  | t :: targets => if refuses rec w t then [t] else t :: asked rec w targets

/-- A call of `markDeleted`, but for the record and the world. -/
structure Attempt where
  cfg : ConfigBackup
  lstat : Lstat
  stmts : Statements
  targets : List Target
  jobUuid : Str

def Attempt.markDeleted (C : Cloud) (pathMatch : Str → Str → Option Bool) (rec : Record) (a : Attempt)
    (w : World) : Result :=
  Backup.markDeleted C pathMatch a.cfg a.lstat a.stmts a.targets a.jobUuid rec w

/-- Every target of GCP has the item, and keeps it during the attempt. -/
def KeepsLive (rec : Record) (w : World) (targets : List Target) : Prop :=
  rec.props.type = .file → ∀ t ∈ targets, t.store.kind = .gcpStorage →
    live rec w t.store ≠ none ∧
      (t ∈ asked rec w targets → t.out.reply.takesEffect = false)

/-- Targets where nothing fails from outside: the statements succeed, the uuids
are new, and every request is met that can be. -/
structure Supported (used : List Str) (targets : List Target) : Prop where
  query : ∀ t ∈ targets, t.queryOk = true
  reply : ∀ t ∈ targets, t.out.reply = .ok
  rows : ∀ t ∈ targets, t.remoteFilesOk = true ∧ t.collectionsOk = true
  newV4 : ∀ t ∈ targets, ∃ uuid, t.newV4 = some uuid ∧ uuid ∉ used
  nodup : (targets.map (·.newV4)).Nodup

/-- The item is marked: it is out of `files`, and at every target there is one
more row, a delete marker above all the others. -/
structure Completed (rec : Record) (names : List Str) (db : Db) (r : Result) : Prop where
  through : r.cancelled = false ∧ r.err = none
  files : ∀ f, f ∈ r.world.db.files ↔ f ∈ db.files ∧ f.path ≠ rec.path
  marker : ∀ n ∈ names, ∃ row, row.deleteMarker = true ∧
    versionsOf r.world.db rec.path n = versionsOf db rec.path n ++ [row] ∧
    ∀ old ∈ versionsOf db rec.path n, old.version < row.version

/-! ### Requests -/

section

variable {C : Cloud} {rec : Record} {w : World} {t : Target} {v : ℕ}

theorem failed_markDeleted {b : Bucket} (hb : b = w.buckets t.store.name) :
    failed (t.store.markDeleted C rec v t.out.reply b).1 = refuses rec w t := by
  subst hb
  by_cases htype : rec.props.type = .file
  · cases hkind : t.store.kind with
    | awsS3 =>
        cases hreply : t.out.reply <;>
          simp [Store.markDeleted, Store.markDeletedS3, refuses, failed, htype, hkind, hreply]
    | gcpStorage =>
        cases hreply : t.out.reply with
        | ok =>
            have heq : ((w.buckets t.store.name).generations
              (calculateRemotePath t.store.storePrefix rec.path)).live = live rec w t.store := rfl
            cases hlive : live rec w t.store <;>
              simp [Store.markDeleted, Store.markDeletedGcp, refuses, failed, htype, hkind, hreply, heq,
                hlive]
        | failed stored =>
            simp [Store.markDeleted, Store.markDeletedGcp, refuses, failed, htype, hkind, hreply]
        | cancelled =>
            simp [Store.markDeleted, Store.markDeletedGcp, refuses, failed, htype, hkind, hreply]
    | azureBlob =>
        cases hreply : t.out.reply <;>
          simp [Store.markDeleted, Store.markDeletedAzure, refuses, failed, htype, hkind, hreply]
    | testNull => simp [Store.markDeleted, refuses, failed, hkind]
  · cases hkind : t.store.kind <;> simp [Store.markDeleted, refuses, failed, htype, hkind]

theorem live_markDeleted {st : Store} {reply : Reply} {b : Bucket} (htype : rec.props.type = .file)
    (hkind : st.kind = .gcpStorage) :
    ((st.markDeleted C rec v reply b).2.generations
        (calculateRemotePath st.storePrefix rec.path)).live =
      if reply.takesEffect then none
      else (b.generations (calculateRemotePath st.storePrefix rec.path)).live := by
  simp only [Store.markDeleted, hkind, htype, ne_eq, not_true_eq_false, if_false,
    Store.markDeletedGcp]
  cases reply with
  | ok =>
      by_cases hlive : (b.generations (calculateRemotePath st.storePrefix rec.path)).live = none
      · simp [Reply.takesEffect, hlive]
      · simp [Reply.takesEffect, hlive]
  | failed stored => cases stored <;> simp [Reply.takesEffect]
  | cancelled => simp [Reply.takesEffect]

/-- A `Delete` of a marker leaves the objects of GCP as they are. -/
theorem generations_delete {st : Store} {reply undo : Reply} {b b' : Bucket} {v' : ℕ}
    (hsent : (st.markDeleted C rec v reply b).1.err = none) :
    (st.delete C rec v' (st.markDeleted C rec v reply b).1.remoteVersion undo b').generations =
      b'.generations := by
  by_cases htype : rec.props.type = .file
  · rw [delete_file htype]
    cases undo.takesEffect with
    | false => rfl
    | true =>
        cases hkind : st.kind with
        | gcpStorage =>
            have hsuffix : deleteMarkerSuffix.isSuffixOf
                (st.markDeleted C rec v reply b).1.remoteVersion = true := by
              simp only [Store.markDeleted, hkind, htype, ne_eq, not_true_eq_false, if_false,
                Store.markDeletedGcp] at hsent ⊢
              cases reply with
              | ok =>
                  refine List.isSuffixOf_iff_suffix.mpr ?_
                  dsimp only
                  split <;> exact List.suffix_append _ _
              | failed stored => cases hsent
              | cancelled => cases hsent
            simp [Store.deleteObject, hkind, hsuffix]
        | awsS3 => simp [Store.deleteObject, hkind]
        | azureBlob => simp [Store.deleteObject, hkind]
        | testNull => simp [Store.deleteObject, hkind]
  · rw [delete_notFile htype]

end

/-! ### The first attempt -/

section

variable {C : Cloud} {rec : Record} {jobUuid : Str} {w : World} {t : Target} {p p' : Pass}

def Inert (C : Cloud) (rec : Record) (p : Pass) : Prop :=
  ∀ e ∈ p.processed, ∀ b,
    (e.store.delete C rec e.version e.remoteVersion e.undo b).generations = b.generations

theorem Inert.markTarget (h : Inert C rec p) : Inert C rec (markTarget C jobUuid rec t p).state := by
  rcases hs : t.store.markDeleted C rec (calcRemoteFileVersion p.db rec.path t.store.name)
    t.out.reply (p.buckets t.store.name) with ⟨sent, b⟩
  unfold Backup.markTarget
  simp only [hs]
  split
  · exact h
  · split
    · exact h
    · rename_i herr
      split
      · exact h
      · obtain ⟨db, hstate⟩ := addRows_state t jobUuid true rec
          (calcRemoteFileVersion p.db rec.path t.store.name) sent.remoteVersion
          ((p.setBucket t.store.name b).addProcessed t
            (calcRemoteFileVersion p.db rec.path t.store.name) sent.remoteVersion)
        rw [hstate]
        intro e he b'
        rcases List.mem_append.mp he with he | he
        · exact h e he b'
        · obtain rfl := List.mem_singleton.mp he
          have hdelete := @generations_delete C rec (calcRemoteFileVersion p.db rec.path t.store.name)
            t.store t.out.reply t.undo (p.buckets t.store.name) b'
            (calcRemoteFileVersion p.db rec.path t.store.name)
          rw [hs] at hdelete
          exact hdelete herr

theorem generations_cleanUp (h : Inert C rec p) (n : Str) :
    (cleanUp C rec p n).generations = (p.buckets n).generations := by
  unfold cleanUp
  refine List.foldlRecOn p.processed _ (motive := fun buckets : Str → Bucket =>
    (buckets n).generations = (p.buckets n).generations) rfl ?_
  intro buckets hbuckets e he
  rcases eq_or_ne n e.store.name with rfl | hne
  · rw [Function.update_self, h e he, hbuckets]
  · rw [Function.update_of_ne hne, hbuckets]

/-- The objects of GCP after a transaction are those after its loop. -/
theorem generations_finish {flow : Flow Pass Halt} (h : Inert C rec flow.state) (commitOk : Bool)
    (db : Db) (n : Str) : ((finish C rec commitOk db flow).world.buckets n).generations =
      (flow.state.buckets n).generations := by
  cases flow with
  | stop halt p => cases halt <;> exact generations_cleanUp h n
  | next p => cases commitOk <;> rfl

structure Asks (C : Cloud) (rec : Record) (w : World) (ds : List Target) (p : Pass) : Prop where
  sent : ∀ t ∈ ds, ∃ v, p.buckets t.store.name =
    (t.store.markDeleted C rec v t.out.reply (w.buckets t.store.name)).2
  other : ∀ n, (∀ t ∈ ds, t.store.name ≠ n) → p.buckets n = w.buckets n

theorem Asks.add {ds : List Target} (h : Asks C rec w ds p)
    (hds : ∀ d ∈ ds, d.store.name ≠ t.store.name) {v : ℕ}
    (hb : p'.buckets = Function.update p.buckets t.store.name
      (t.store.markDeleted C rec v t.out.reply (p.buckets t.store.name)).2) :
    Asks C rec w (ds ++ [t]) p' := by
  rw [h.other _ hds] at hb
  constructor
  · intro d hd
    rcases List.mem_append.mp hd with hd | hd
    · rw [hb, Function.update_of_ne (hds d hd)]
      exact h.sent d hd
    · obtain rfl := List.mem_singleton.mp hd
      exact ⟨v, by rw [hb, Function.update_self]⟩
  · intro n hn
    rw [hb, Function.update_of_ne (hn t (by simp)).symm]
    exact h.other n fun d hd => hn d (by simp [hd])

theorem names_ne_of_nodup {pre post : List Target}
    (h : ((pre ++ t :: post).map (·.store.name)).Nodup) : ∀ d ∈ pre, d.store.name ≠ t.store.name := by
  intro d hd
  rw [List.map_append, List.map_cons] at h
  exact (List.nodup_append.mp h).2.2 _ (List.mem_map_of_mem hd) _ (by simp)

/-- An error of a store is one that `MarkDeleted` has returned. -/
theorem markTarget_refused {e : StoreErr}
    (h : markTarget C jobUuid rec t p = .stop (.error (.store e)) p') :
    ∃ v, failed (t.store.markDeleted C rec v t.out.reply (p.buckets t.store.name)).1 = true ∧
      p'.buckets = Function.update p.buckets t.store.name
        (t.store.markDeleted C rec v t.out.reply (p.buckets t.store.name)).2 := by
  refine ⟨calcRemoteFileVersion p.db rec.path t.store.name, ?_⟩
  rcases hs : t.store.markDeleted C rec (calcRemoteFileVersion p.db rec.path t.store.name)
    t.out.reply (p.buckets t.store.name) with ⟨sent, b⟩
  unfold markTarget at h
  simp only [hs] at h
  split at h
  · cases h
  · split at h
    · rename_i herr
      cases h
      exact ⟨by simp [failed, herr], rfl⟩
    · split at h
      · cases h
      · rcases addRows_stop h with hnot | hnot | hnot <;> cases hnot

theorem asked_sublist (rec : Record) (w : World) (targets : List Target) :
    (asked rec w targets).Sublist targets := by
  induction targets with
  | nil => exact List.Sublist.refl _
  | cons t targets ih =>
      unfold asked
      split
      · exact (List.nil_sublist targets).cons_cons t
      · exact ih.cons_cons t

theorem asked_eq {pre post : List Target} (hpre : ∀ d ∈ pre, refuses rec w d = false)
    (ht : refuses rec w t = true) : asked rec w (pre ++ t :: post) = pre ++ [t] := by
  induction pre with
  | nil => simp [asked, ht]
  | cons d pre ih =>
      have hd : refuses rec w d = false := hpre d (by simp)
      rw [List.cons_append, asked, if_neg (by simp [hd]),
        ih fun d' hd' => hpre d' (List.mem_cons_of_mem d hd'), List.cons_append]

/-- The targets of a loop that goes through have all been asked, with success. -/
theorem forEach_asks {targets : List Target} (hnodup : (targets.map (·.store.name)).Nodup)
    (hp : p.buckets = w.buckets) (h : forEach (markTarget C jobUuid rec) targets p = .next p') :
    Asks C rec w targets p' ∧ ∀ d ∈ targets, refuses rec w d = false := by
  refine forEach_next (I := fun (pre : List Target) (q : Pass) =>
    Asks C rec w pre q ∧ ∀ d ∈ pre, refuses rec w d = false) ?_ ?_ h
  · exact ⟨⟨by simp, fun n _ => congrFun hp n⟩, by simp⟩
  · rintro pre t post q q' rfl ⟨hasks, hpre⟩ hnext
    have hds := names_ne_of_nodup hnodup
    obtain ⟨sent, b, hsent, hcan, herr, hb, -⟩ := markTarget_next hnext
    refine ⟨hasks.add hds (by rw [hsent]; exact hb), ?_⟩
    intro d hd
    rcases List.mem_append.mp hd with hd | hd
    · exact hpre d hd
    · obtain rfl := List.mem_singleton.mp hd
      rw [← failed_markDeleted (hasks.other _ hds), hsent]
      simp [failed, hcan, herr]

/-- An attempt that fails at a target, as far as GCP goes. -/
theorem putMarkers_asks {stmts : Statements} {targets : List Target} {e : StoreErr}
    (hnodup : (targets.map (·.store.name)).Nodup)
    (hfail : (putMarkers C stmts targets jobUuid rec w).err = some (.store e)) :
    ∃ q, Asks C rec w (asked rec w targets) q ∧
      ∀ n, ((putMarkers C stmts targets jobUuid rec w).world.buckets n).generations =
        (q.buckets n).generations := by
  unfold putMarkers at hfail ⊢
  split at hfail
  · cases hfail
  · split at hfail
    · cases hfail
    · rename_i hbegin hfiles
      rw [if_neg hbegin, if_neg hfiles]
      have hinert : Inert C rec (forEach (markTarget C jobUuid rec) targets
          ⟨filesDelete w.db rec.path, w.buckets, [], []⟩).state :=
        forEach_invariant (fun t _ p hp => Inert.markTarget hp) (by simp [Inert])
      cases hloop : forEach (markTarget C jobUuid rec) targets
        ⟨filesDelete w.db rec.path, w.buckets, [], []⟩ with
      | next p =>
          rw [hloop] at hfail
          cases hcommit : stmts.commitOk <;> simp [finish, hcommit] at hfail
      | stop halt p =>
          rw [hloop] at hfail hinert
          refine ⟨p, ?_, generations_finish hinert stmts.commitOk w.db⟩
          cases halt with
          | cancelled => cases hfail
          | error err =>
              obtain rfl : err = .store e := by simpa [finish] using hfail
              obtain ⟨pre, t, post, q, rfl, hpre, hstop⟩ := forEach_stop hloop
              have hds := names_ne_of_nodup hnodup
              obtain ⟨hasks, hgiven⟩ := forEach_asks (hnodup.sublist (by simp)) rfl hpre
              obtain ⟨v, hrefused, hb⟩ := markTarget_refused hstop
              rw [failed_markDeleted (hasks.other _ hds)] at hrefused
              rw [asked_eq hgiven hrefused]
              exact hasks.add hds hb

theorem live_putMarkers {stmts : Statements} {targets : List Target} {e : StoreErr}
    (hnodup : (targets.map (·.store.name)).Nodup)
    (hfail : (putMarkers C stmts targets jobUuid rec w).err = some (.store e))
    (htype : rec.props.type = .file) (ht : t ∈ targets) (hkind : t.store.kind = .gcpStorage) :
    live rec (putMarkers C stmts targets jobUuid rec w).world t.store ≠ none ↔
      live rec w t.store ≠ none ∧ (t ∈ asked rec w targets → t.out.reply.takesEffect = false) := by
  obtain ⟨q, hasks, hgens⟩ := putMarkers_asks hnodup hfail
  rw [live, hgens]
  by_cases hasked : t ∈ asked rec w targets
  · obtain ⟨v, hb⟩ := hasks.sent t hasked
    rw [hb, live_markDeleted htype hkind]
    cases t.out.reply.takesEffect <;> simp [hasked, live]
  · have hother : ∀ d ∈ asked rec w targets, d.store.name ≠ t.store.name := by
      intro d hd heq
      have hmem := (asked_sublist rec w targets).subset hd
      exact hasked (List.inj_on_of_nodup_map hnodup hmem ht heq ▸ hd)
    rw [hasks.other _ hother]
    simp [hasked, live]

end

/-! ### The second attempt -/

section

variable {C : Cloud} {rec : Record} {jobUuid : Str} {w : World} {targets : List Target}

theorem Supported.rowsOk {used : List Str} (h : Supported used targets) {t : Target} (ht : t ∈ targets) :
    rowsOk used t = true := by
  obtain ⟨uuid, hsome, hmem⟩ := h.newV4 t ht
  obtain ⟨hremote, hcollections⟩ := h.rows t ht
  simp [Backup.rowsOk, hsome, hmem, hremote, hcollections]

theorem Supported.tail {used : List Str} {t : Target} (h : Supported used (t :: targets)) :
    Supported (used ++ t.newV4.toList) targets where
  query t' ht' := h.query t' (List.mem_cons_of_mem t ht')
  reply t' ht' := h.reply t' (List.mem_cons_of_mem t ht')
  rows t' ht' := h.rows t' (List.mem_cons_of_mem t ht')
  newV4 t' ht' := by
    obtain ⟨uuid, hsome, hmem⟩ := h.newV4 t' (List.mem_cons_of_mem t ht')
    have hne : t.newV4 ≠ t'.newV4 := fun heq =>
      (List.nodup_cons.mp h.nodup).1 (List.mem_map.mpr ⟨t', ht', heq.symm⟩)
    refine ⟨uuid, hsome, ?_⟩
    rw [List.mem_append, Option.mem_toList, ← hsome]
    exact fun hor => hor.elim hmem hne
  nodup := (List.nodup_cons.mp h.nodup).2

/-- If nothing fails from outside, and no target refuses, then the loop goes
through. -/
theorem begun_through {used : List Str} (h : Supported used targets)
    (hgiven : ∀ t ∈ targets, refuses rec w t = false) :
    (begun (markers C rec) rec w used targets).2 = true := by
  induction targets generalizing used with
  | nil => rfl
  | cons t targets ih =>
      have hskip : (markers C rec).skips t = false := rfl
      have hanswer : failed (answer (markers C rec) rec w t).1 = false := by
        rw [← hgiven t (by simp)]
        exact failed_markDeleted rfl
      have hgo : goesOn (markers C rec) rec w used t = true := by
        simp [goesOn, delivers, hskip, hanswer, h.query t (by simp), h.rowsOk (List.mem_cons_self)]
      simp only [begun, hgo, hskip, if_true, Bool.false_eq_true, if_false]
      exact ih h.tail fun t' ht' => hgiven t' (List.mem_cons_of_mem t ht')

theorem markLoop_through_iff (h : Supported (uuids w.db) targets)
    (hnodup : (targets.map (·.store.name)).Nodup) :
    (∃ q, forEach (markTarget C jobUuid rec) targets ⟨filesDelete w.db rec.path, w.buckets, [], []⟩ =
      .next q) ↔ ∀ t ∈ targets, refuses rec w t = false := by
  constructor
  · rintro ⟨q, hloop⟩
    exact (forEach_asks hnodup rfl hloop).2
  · intro hgiven
    have hstart : Tracks (markers C rec) rec w [] ⟨filesDelete w.db rec.path, w.buckets, [], []⟩ :=
      ⟨rfl, by simp, fun _ _ => rfl⟩
    have hrefuse : ∀ t ∈ targets, failed (answer (markers C rec) rec w t).1 = true →
        (answer (markers C rec) rec w t).2 = w.buckets t.store.name := by
      intro t ht
      refine marker_refused ?_
      rw [h.reply t ht]
      simp
    obtain ⟨q, -, hflow⟩ := forEach_tracks (@markTarget_spec C rec jobUuid) hnodup hrefuse hstart
      fun t _ => ⟨by simp, rfl⟩
    rw [show uuids (⟨filesDelete w.db rec.path, w.buckets, [], []⟩ : Pass).db = uuids w.db from rfl,
      begun_through h hgiven, if_pos rfl] at hflow
    exact ⟨q, hflow⟩

theorem AddsRow.versionsOf_self {t : Target} {deleteMarker : Bool} {rv : Str} {db db' : Db}
    (h : AddsRow t jobUuid deleteMarker rec rv db db') :
    ∃ row, row.deleteMarker = deleteMarker ∧
      versionsOf db' rec.path t.store.name = versionsOf db rec.path t.store.name ++ [row] ∧
      row.version = calcRemoteFileVersion db rec.path t.store.name := by
  obtain ⟨uuid, -, rfl⟩ := h
  refine ⟨nextRow uuid t jobUuid deleteMarker rec rv db, rfl, ?_, rfl⟩
  exact (versionsOf_append db _ _ _).trans (by simp [nextRow, remoteFile])

theorem AddsRow.versionsOf_of_ne {t : Target} {deleteMarker : Bool} {rv n : Str} {db db' : Db}
    (h : AddsRow t jobUuid deleteMarker rec rv db db') (hne : t.store.name ≠ n) :
    versionsOf db' rec.path n = versionsOf db rec.path n := by
  obtain ⟨uuid, -, rfl⟩ := h
  exact (versionsOf_append db _ _ _).trans (by simp [nextRow, remoteFile, hne])

theorem markLoop_versions {p p' : Pass} (hnodup : (targets.map (·.store.name)).Nodup)
    (h : forEach (markTarget C jobUuid rec) targets p = .next p') :
    ∀ n ∈ targets.map (·.store.name), ∃ row, row.deleteMarker = true ∧
      versionsOf p'.db rec.path n = versionsOf p.db rec.path n ++ [row] ∧
      ∀ old ∈ versionsOf p.db rec.path n, old.version < row.version := by
  refine (forEach_next (I := fun (pre : List Target) (q : Pass) =>
    (∀ n ∈ pre.map (·.store.name), ∃ row, row.deleteMarker = true ∧
      versionsOf q.db rec.path n = versionsOf p.db rec.path n ++ [row] ∧
      ∀ old ∈ versionsOf p.db rec.path n, old.version < row.version) ∧
    ∀ n, (∀ d ∈ pre, d.store.name ≠ n) → versionsOf q.db rec.path n = versionsOf p.db rec.path n)
    ⟨by simp, fun _ _ => rfl⟩ ?_ h).1
  rintro pre t post q q' rfl ⟨hself, hother⟩ hnext
  obtain ⟨sent, b, -, -, -, -, -, hadd⟩ := markTarget_next hnext
  have hds := names_ne_of_nodup hnodup
  constructor
  · intro n hn
    rw [List.map_append, List.mem_append] at hn
    rcases hn with hn | hn
    · obtain ⟨d, hd, rfl⟩ := List.mem_map.mp hn
      rw [hadd.versionsOf_of_ne (hds d hd).symm]
      exact hself _ hn
    · obtain rfl : n = t.store.name := by simpa using hn
      obtain ⟨row, hmarker, hversions, hversion⟩ := hadd.versionsOf_self
      rw [hother _ hds] at hversions
      refine ⟨row, hmarker, hversions, fun old hold => ?_⟩
      rw [hversion]
      exact version_lt_calc (by rw [hother _ hds]; exact hold)
  · intro n hn
    rw [hadd.versionsOf_of_ne (hn t (by simp))]
    exact hother n fun d hd => hn d (by simp [hd])

/-- An attempt is completed if no target refuses, and only then. -/
theorem putMarkers_completed_iff (h : Supported (uuids w.db) targets)
    (hnodup : (targets.map (·.store.name)).Nodup) :
    Completed rec (targets.map (·.store.name)) w.db
        (putMarkers C ⟨true, true, true⟩ targets jobUuid rec w) ↔
      ∀ t ∈ targets, refuses rec w t = false := by
  rw [← @markLoop_through_iff C rec jobUuid w targets h hnodup]
  unfold putMarkers
  cases hloop : forEach (markTarget C jobUuid rec) targets
    ⟨filesDelete w.db rec.path, w.buckets, [], []⟩ with
  | stop halt p =>
      refine ⟨fun hdone => ?_, fun ⟨q, hq⟩ => by cases hq⟩
      obtain ⟨hcancelled, herr⟩ := hdone.through
      cases halt with
      | cancelled => cases hcancelled
      | error e => cases herr
  | next p =>
      refine ⟨fun _ => ⟨p, rfl⟩, fun _ => ⟨⟨rfl, rfl⟩, fun f => ?_, markLoop_versions hnodup hloop⟩⟩
      change f ∈ p.db.files ↔ _
      rw [(mark_renewed hloop).files]
      simp [filesDelete]

end

/-! ### Both attempts -/

section

variable {rec : Record} {w : World} {targets targets' : List Target}

/-- Only a target of GCP can refuse if every request is met that can be. -/
theorem refuses_iff {t : Target} (hreply : t.out.reply = .ok) :
    refuses rec w t = false ↔
      (rec.props.type = .file → t.store.kind = .gcpStorage → live rec w t.store ≠ none) := by
  by_cases htype : rec.props.type = .file
  · by_cases hkind : t.store.kind = .gcpStorage
    · cases hlive : live rec w t.store <;> simp [refuses, htype, hkind, hreply, hlive]
    · simp [refuses, htype, hkind, hreply]
  · simp [refuses, htype]

/-- A property of the stores can be told from either list of targets. -/
theorem forall_store_congr (hstores : targets'.map (·.store) = targets.map (·.store)) (P : Store → Prop) :
    (∀ t ∈ targets', P t.store) ↔ ∀ t ∈ targets, P t.store := by
  rw [← List.forall_mem_map, hstores, List.forall_mem_map]

/-- A later call for the same row makes up for one that has failed at a target, or
it does not. In between anything may happen, as long as what GCP has live of the
item stays as the first call left it. The replies to the `Delete`s of the first
call make no difference. -/
theorem markDeleted_converges_iff (C : Cloud) (pathMatch : Str → Str → Option Bool) (rec : Record)
    (first second : Attempt) (w w' : World) (e : StoreErr)
    (hnodup : (first.targets.map (·.store.name)).Nodup)
    (hgone : gone pathMatch first.cfg first.lstat rec = true)
    (hfail : (first.markDeleted C pathMatch rec w).err = some (.store e))
    (hlater : ∀ t ∈ first.targets,
      live rec w' t.store = live rec (first.markDeleted C pathMatch rec w).world t.store)
    (hstores : second.targets.map (·.store) = first.targets.map (·.store))
    (hgone' : gone pathMatch second.cfg second.lstat rec = true)
    (hstmts : second.stmts = ⟨true, true, true⟩)
    (hsupported : Supported (uuids w'.db) second.targets) :
    Completed rec (first.targets.map (·.store.name)) w'.db (second.markDeleted C pathMatch rec w') ↔
      KeepsLive rec w first.targets := by
  have hnames : second.targets.map (·.store.name) = first.targets.map (·.store.name) := by
    have hmap := congrArg (List.map Store.name) hstores
    rw [List.map_map, List.map_map] at hmap
    exact hmap
  rw [Attempt.markDeleted, markDeleted_of_gone hgone] at hfail
  simp only [Attempt.markDeleted, markDeleted_of_gone hgone] at hlater
  rw [Attempt.markDeleted, markDeleted_of_gone hgone', hstmts, ← hnames,
    putMarkers_completed_iff hsupported (by rw [hnames]; exact hnodup)]
  calc (∀ t ∈ second.targets, refuses rec w' t = false)
    _ ↔ ∀ t ∈ second.targets, rec.props.type = .file → t.store.kind = .gcpStorage →
          live rec w' t.store ≠ none :=
        forall₂_congr fun t ht => refuses_iff (hsupported.reply t ht)
    _ ↔ ∀ t ∈ first.targets, rec.props.type = .file → t.store.kind = .gcpStorage →
          live rec w' t.store ≠ none :=
        forall_store_congr hstores fun st => rec.props.type = .file → st.kind = .gcpStorage →
          live rec w' st ≠ none
    _ ↔ KeepsLive rec w first.targets := by
        refine ⟨fun h htype t ht hkind => ?_, fun h t ht htype hkind => ?_⟩
        · rw [← live_putMarkers hnodup hfail htype ht hkind, ← hlater t ht]
          exact h t ht htype hkind
        · rw [hlater t ht, live_putMarkers hnodup hfail htype ht hkind]
          exact h htype t ht hkind

end

def namedTarget (kind : StoreKind) (name uuid : String) : Target :=
  smoothTarget { plainStore kind with name := name.toList } 7 uuid

def Target.unreachable (t : Target) : Target := { t with out := { t.out with reply := .failed false } }

def storedFile (kind kind' : StoreKind) : World :=
  (newFile.run plainCloud (fun _ _ => none) [namedTarget kind "first" "u", namedTarget kind' "second" "v"]
    World.empty).world

def attempt (targets : List Target) : Attempt :=
  ⟨plainConfig, .notExist, ⟨true, true, true⟩, targets, "job".toList⟩

def interrupted (kind kind' : StoreKind) : Attempt :=
  attempt [namedTarget kind "first" "a", (namedTarget kind' "second" "b").unreachable]

def repeated (kind kind' : StoreKind) : Attempt :=
  attempt [namedTarget kind "first" "c", namedTarget kind' "second" "d"]

def halfway (kind kind' : StoreKind) : World :=
  ((interrupted kind kind').markDeleted plainCloud (fun _ _ => none) newFile.record
    (storedFile kind kind')).world

theorem repeated_supported {kind kind' : StoreKind}
    (h : uuids (halfway kind kind').db = ["u".toList, "v".toList]) :
    Supported (uuids (halfway kind kind').db) (repeated kind kind').targets := by
  rw [h]
  have hmem : ∀ t ∈ (repeated kind kind').targets,
      t = namedTarget kind "first" "c" ∨ t = namedTarget kind' "second" "d" := by
    simp [repeated, attempt]
  refine ⟨fun t ht => ?_, fun t ht => ?_, fun t ht => ?_, fun t ht => ?_, ?_⟩
  · rcases hmem t ht with rfl | rfl <;> rfl
  · rcases hmem t ht with rfl | rfl <;> rfl
  · rcases hmem t ht with rfl | rfl <;> exact ⟨rfl, rfl⟩
  · rcases hmem t ht with rfl | rfl
    · exact ⟨"c".toList, rfl, by decide⟩
    · exact ⟨"d".toList, rfl, by decide⟩
  · change [some "c".toList, some "d".toList].Nodup
    decide

/-- S3 takes its marker back, and GCP, which has not been reached, has the file. -/
theorem markDeleted_converges_gcpLast :
    Completed newFile.record ["first".toList, "second".toList] (halfway .awsS3 .gcpStorage).db
      ((repeated .awsS3 .gcpStorage).markDeleted plainCloud (fun _ _ => none) newFile.record
        (halfway .awsS3 .gcpStorage)) := by
  refine (markDeleted_converges_iff plainCloud (fun _ _ => none) newFile.record
    (interrupted .awsS3 .gcpStorage) (repeated .awsS3 .gcpStorage) (storedFile .awsS3 .gcpStorage)
    (halfway .awsS3 .gcpStorage) .failed (by decide) (by decide) (by decide)
    (fun _ _ => rfl) rfl (by decide) rfl (repeated_supported (by decide))).mpr ?_
  intro _ t ht hkind
  obtain rfl | rfl : t = namedTarget .awsS3 "first" "a" ∨
      t = (namedTarget .gcpStorage "second" "b").unreachable := by
    simpa [interrupted, attempt] using ht
  · cases hkind
  · exact ⟨by decide, fun _ => rfl⟩

/-- GCP has retired the file for the first target, and refuses for ever after. -/
theorem not_converges_gcpFirst :
    ¬ ∀ (rec : Record) (first second : Attempt) (w : World) (e : StoreErr),
      (first.targets.map (·.store.name)).Nodup →
      gone (fun _ _ => none) first.cfg first.lstat rec = true →
      (first.markDeleted plainCloud (fun _ _ => none) rec w).err = some (.store e) →
      (∀ t ∈ first.targets, t.undo = .ok) →
      second.targets.map (·.store) = first.targets.map (·.store) →
      gone (fun _ _ => none) second.cfg second.lstat rec = true →
      second.stmts = ⟨true, true, true⟩ →
      Supported (uuids (first.markDeleted plainCloud (fun _ _ => none) rec w).world.db) second.targets →
      Completed rec (first.targets.map (·.store.name))
        (first.markDeleted plainCloud (fun _ _ => none) rec w).world.db
        (second.markDeleted plainCloud (fun _ _ => none) rec
          (first.markDeleted plainCloud (fun _ _ => none) rec w).world) := by
  intro h
  have hundo : ∀ t ∈ (interrupted .gcpStorage .awsS3).targets, t.undo = .ok := by
    intro t ht
    obtain rfl | rfl : t = namedTarget .gcpStorage "first" "a" ∨
        t = (namedTarget .awsS3 "second" "b").unreachable := by
      simpa [interrupted, attempt] using ht
    · rfl
    · rfl
  have hdone := h newFile.record (interrupted .gcpStorage .awsS3) (repeated .gcpStorage .awsS3)
    (storedFile .gcpStorage .awsS3) .failed (by decide) (by decide) (by decide)
    hundo rfl (by decide) rfl (repeated_supported (by decide))
  exact absurd hdone.through.2 (by decide)

end CloudBackup.Backup
