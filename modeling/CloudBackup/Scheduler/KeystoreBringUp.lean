import CloudBackup.Backup.Item
import CloudBackup.ObjectStore.Bootstrap
import CloudBackup.ObjectStore.BringUp

/-!
The start of `runBackup`, where the keystores of all targets are brought up. One
query tells if anything was encrypted before, and its answer is used for every
target. It looks at the table `files`, which knows of no targets, and from which
an item disappears when it is marked as deleted; what would be lost with a
keystore are the objects in `remote_files`.

`bringUpKeystores_iff` says when the answer is the right one for a target.
-/

namespace CloudBackup.Scheduler

open Cbcrypto Keystore Database ObjectStore Backup Iteration

/-- A target at the start of a run: the sidecar in its bucket, the requests to
the bucket, and the random values for a new sidecar. -/
structure Keyed where
  name : Str
  sidecar : Option Bytes
  requests : Requests
  rand : Draws

structure Brought where
  name : Str
  enc : EncryptionState
  sidecar : Option Bytes

inductive BringUpErr
  | database
  | initEncryption (e : InitErr)
  deriving DecidableEq, Repr

section

variable (C : Codec) (encrypt : Bool) (password : Bytes)

def initTarget (hasEnc : Bool) (t : Keyed) (done : List Brought) : Flow (List Brought) BringUpErr :=
  let r := bringUp C (newEncryptionState encrypt password) ⟨hasEnc, true⟩ t.rand t.requests t.sidecar
  let done := done ++ [⟨t.name, r.1.2, r.2⟩]
  match r.1.1 with
  | some e => .stop (.initEncryption e) done
  | none => .next done

/-- The keystore bring-up of `runBackup`. -/
def bringUpKeystores (queryOk : Bool) (db : Db) (targets : List Keyed) :
    Flow (List Brought) BringUpErr :=
  if !queryOk then .stop .database []
  else forEach (initTarget C encrypt password (hasAnyEncryptedFiles db)) targets []

end

/-! ### What the answer should be -/

/-- The target has an object that needs the keystore. -/
def hasEncryptedObjects (db : Db) (target : Str) : Bool :=
  db.remoteFiles.any fun r =>
    decide (r.target = target) && r.props.encrypted && !r.deleteMarker && decide (r.props.type = .file)

def sidecarAfter (n : ℕ) (flow : Flow (List Brought) BringUpErr) : Option Bytes :=
  flow.state[n]?.bind Brought.sidecar

/-- For the `n`-th target, which has no sidecar: a new one is created if and only
if the target has no object that needs the old one, and otherwise the run stops. -/
def DecidesRightly (db : Db) (target : Str) (n : ℕ) (flow : Flow (List Brought) BringUpErr) : Prop :=
  ((sidecarAfter n flow).isSome = true ↔ hasEncryptedObjects db target = false) ∧
    (hasEncryptedObjects db target = true →
      ∃ done, flow = .stop (.initEncryption .keystoreInconsistent) done)

section

variable (C : Codec) (password : Bytes) (hasEnc : Bool)

def passes (t : Keyed) : Bool :=
  t.requests.fetchOk &&
    match t.sidecar with
    | some body => (keysOf C password body).isSome
    | none => !hasEnc && creates C password t.rand t.requests

def refuses (t : Keyed) : Bool := t.requests.fetchOk && t.sidecar.isNone && hasEnc

/-- As far as the run gets, the targets make no other trouble. -/
def untroubled : List Keyed → Bool
  | [] => true
  | t :: ts => refuses hasEnc t || (passes C password hasEnc t && untroubled ts)

end

/-! ### A target -/

section

variable {C : Codec} {password : Bytes} (hpassword : password ≠ []) {hasEnc : Bool}

include hpassword

theorem initTarget_cases (t : Keyed) (done : List Brought) :
    ∃ b : Brought,
      (passes C password hasEnc t = true ∧ b.sidecar.isSome = true ∧
        initTarget C true password hasEnc t done = .next (done ++ [b])) ∨
      (refuses hasEnc t = true ∧ b.sidecar = none ∧ initTarget C true password hasEnc t done =
        .stop (.initEncryption .keystoreInconsistent) (done ++ [b])) ∨
      (passes C password hasEnc t = false ∧ refuses hasEnc t = false ∧ b.sidecar = t.sidecar ∧
        ∃ e, e ≠ .keystoreInconsistent ∧
          initTarget C true password hasEnc t done = .stop (.initEncryption e) (done ++ [b])) := by
  obtain ⟨name, sidecar, rq, rand⟩ := t
  cases hfetch : rq.fetchOk with
  | false =>
      refine ⟨⟨name, newEncryptionState true password, sidecar⟩,
        .inr (.inr ⟨?_, ?_, rfl, .fetchSidecar .other, nofun, ?_⟩)⟩
      · simp [passes, hfetch]
      · simp [refuses, hfetch]
      · rw [initTarget, bringUp_fetchFailed hpassword hfetch]
  | true =>
      cases sidecar with
      | some body =>
          cases hkeys : keysOf C password body with
          | none =>
              obtain ⟨e, he, hup⟩ := @bringUp_notOpened C password rand rq hpassword hfetch ⟨hasEnc, true⟩
                body hkeys
              refine ⟨⟨name, newEncryptionState true password, some body⟩,
                .inr (.inr ⟨?_, ?_, rfl, e, he, ?_⟩)⟩
              · simp [passes, hkeys]
              · simp [refuses]
              · rw [initTarget, hup]
          | some keys =>
              obtain ⟨kek, uuid⟩ := keys
              refine ⟨⟨name, ⟨true, [], kek, uuid, true⟩, some body⟩, .inl ⟨?_, rfl, ?_⟩⟩
              · simp [passes, hfetch, hkeys]
              · rw [initTarget, bringUp_found hpassword hfetch ⟨hasEnc, true⟩ hkeys]
      | none =>
          -- a missing sidecar is replaced only if nothing was encrypted before
          cases hasEnc with
          | true =>
              refine ⟨⟨name, newEncryptionState true password, none⟩, .inr (.inl ⟨?_, rfl, ?_⟩)⟩
              · simp [refuses, hfetch]
              · rw [initTarget, bringUp_inconsistent hpassword hfetch]
          | false =>
              cases hcreates : creates C password rand rq with
              | true =>
                  obtain ⟨body, kek, uuid, -, hup⟩ := bringUp_creates hpassword hfetch hcreates
                  refine ⟨⟨name, ⟨true, [], kek, uuid, true⟩, some body⟩, .inl ⟨?_, rfl, ?_⟩⟩
                  · simp [passes, hfetch, hcreates]
                  · rw [initTarget, hup]
              | false =>
                  obtain ⟨e, he, hup⟩ := bringUp_notCreated hpassword hfetch hcreates
                  refine ⟨⟨name, newEncryptionState true password, none⟩,
                    .inr (.inr ⟨?_, ?_, rfl, e, he, ?_⟩)⟩
                  · simp [passes, hcreates]
                  · simp [refuses]
                  · rw [initTarget, hup]

end

/-! ### The loop -/

section

variable {C : Codec} {encrypt : Bool} {password : Bytes} {hasEnc : Bool}

theorem initTargets_state (ts : List Keyed) (done : List Brought) :
    ∃ more, (forEach (initTarget C encrypt password hasEnc) ts done).state = done ++ more := by
  refine forEach_invariant (I := fun d : List Brought => ∃ more, d = done ++ more) ?_ ⟨[], by simp⟩
  rintro t - d ⟨more, rfl⟩
  have hstate : (initTarget C encrypt password hasEnc t (done ++ more)).state =
      (done ++ more) ++ [⟨t.name, (bringUp C (newEncryptionState encrypt password) ⟨hasEnc, true⟩ t.rand
        t.requests t.sidecar).1.2, (bringUp C (newEncryptionState encrypt password) ⟨hasEnc, true⟩
        t.rand t.requests t.sidecar).2⟩] := by
    unfold initTarget
    dsimp only
    split <;> rfl
  rw [hstate, List.append_assoc]
  exact ⟨_, rfl⟩

/-- A run that stops before a target, or at it, creates no sidecar there. -/
theorem sidecarAfter_stop {done : List Brought} {b : Brought} {e : BringUpErr} {n : ℕ}
    (h : done.length < n ∨ done.length = n ∧ b.sidecar = none) :
    sidecarAfter n (.stop e (done ++ [b])) = none := by
  rcases h with h | ⟨rfl, hb⟩
  · have hlen : (done ++ [b])[n]? = none := by
      rw [List.getElem?_eq_none_iff, List.length_append, List.length_singleton]
      omega
    simp [sidecarAfter, hlen]
  · simp [sidecarAfter, hb]

structure Ends (C : Codec) (password : Bytes) (hasEnc : Bool) (targets : List Keyed) (n : ℕ)
    (flow : Flow (List Brought) BringUpErr) : Prop where
  troubled : untroubled C password hasEnc targets = false → sidecarAfter n flow = none ∧
    ∃ e done, e ≠ .keystoreInconsistent ∧ flow = .stop (.initEncryption e) done
  refused : untroubled C password hasEnc targets = true → hasEnc = true → sidecarAfter n flow = none ∧
    ∃ done, flow = .stop (.initEncryption .keystoreInconsistent) done
  created : untroubled C password hasEnc targets = true → hasEnc = false →
    (sidecarAfter n flow).isSome = true

theorem hasEnc_of_refuses {t : Keyed} (h : refuses hasEnc t = true) : hasEnc = true := by
  simp only [refuses, Bool.and_eq_true] at h
  exact h.2

theorem refuses_of_passes {t : Keyed} (h : passes C password hasEnc t = true) :
    refuses hasEnc t = false := by
  cases hs : t.sidecar with
  | some body => simp [refuses, hs]
  | none =>
      have henc : hasEnc = false := by
        simp only [passes, hs, Bool.and_eq_true, Bool.not_eq_true'] at h
        exact h.2.1
      simp [refuses, henc]

section

variable {targets : List Keyed} {n : ℕ} {flow : Flow (List Brought) BringUpErr}

theorem Ends.of_refused (hu : untroubled C password hasEnc targets = true) (henc : hasEnc = true)
    (hside : sidecarAfter n flow = none)
    (hflow : ∃ done, flow = .stop (.initEncryption .keystoreInconsistent) done) :
    Ends C password hasEnc targets n flow where
  troubled h := by rw [hu] at h; cases h
  refused _ _ := ⟨hside, hflow⟩
  created _ h := by rw [henc] at h; cases h

theorem Ends.of_troubled (hu : untroubled C password hasEnc targets = false)
    (hside : sidecarAfter n flow = none)
    (hflow : ∃ e done, e ≠ .keystoreInconsistent ∧ flow = .stop (.initEncryption e) done) :
    Ends C password hasEnc targets n flow where
  troubled _ := ⟨hside, hflow⟩
  refused h := by rw [hu] at h; cases h
  created h := by rw [hu] at h; cases h

end

theorem initTargets_ends (hpassword : password ≠ []) {t : Keyed} (ht : t.sidecar = none)
    (pre post : List Keyed) (done : List Brought) :
    Ends C password hasEnc (pre ++ [t]) (done.length + pre.length)
      (forEach (initTarget C true password hasEnc) (pre ++ t :: post) done) := by
  induction pre generalizing done with
  | nil =>
      obtain ⟨b, ⟨hpass, hb, hnext⟩ | ⟨href, hb, hstop⟩ | ⟨hpass, href, hb, e, he, hstop⟩⟩ :=
        @initTarget_cases C password hpassword hasEnc t done
      · have henc : hasEnc = false := by
          simp only [passes, ht, Bool.and_eq_true, Bool.not_eq_true'] at hpass
          exact hpass.2.1
        obtain ⟨more, hmore⟩ := @initTargets_state C true password hasEnc post (done ++ [b])
        refine ⟨fun h => ?_, fun _ h => ?_, fun _ _ => ?_⟩
        · simp [untroubled, hpass] at h
        · rw [henc] at h
          cases h
        · rw [List.nil_append, forEach_cons_next hnext, sidecarAfter, hmore]
          simpa using hb
      · refine .of_refused (by simp [untroubled, href]) (hasEnc_of_refuses href) ?_ ?_
        · rw [List.nil_append, forEach_cons_stop hstop]
          exact sidecarAfter_stop (.inr ⟨rfl, hb⟩)
        · rw [List.nil_append, forEach_cons_stop hstop]
          exact ⟨_, rfl⟩
      · refine .of_troubled (by simp [untroubled, href, hpass]) ?_ ?_
        · rw [List.nil_append, forEach_cons_stop hstop]
          exact sidecarAfter_stop (.inr ⟨rfl, hb.trans ht⟩)
        · rw [List.nil_append, forEach_cons_stop hstop]
          exact ⟨e, _, he, rfl⟩
  | cons t' pre ih =>
      obtain ⟨b, ⟨hpass, hb, hnext⟩ | ⟨href, hb, hstop⟩ | ⟨hpass, href, hb, e, he, hstop⟩⟩ :=
        @initTarget_cases C password hpassword hasEnc t' done
      · have hsame : untroubled C password hasEnc (t' :: pre ++ [t]) =
            untroubled C password hasEnc (pre ++ [t]) := by
          simp [untroubled, hpass, refuses_of_passes hpass]
        have hrest := ih (done ++ [b])
        rw [List.length_append, List.length_singleton, Nat.add_assoc, Nat.add_comm 1] at hrest
        change Ends C password hasEnc (t' :: pre ++ [t]) (done.length + (pre.length + 1))
          (forEach (initTarget C true password hasEnc) (t' :: (pre ++ t :: post)) done)
        rw [forEach_cons_next hnext]
        exact ⟨by rw [hsame]; exact hrest.troubled, by rw [hsame]; exact hrest.refused,
          by rw [hsame]; exact hrest.created⟩
      · refine .of_refused (by simp [untroubled, href]) (hasEnc_of_refuses href) ?_ ?_
        · rw [List.cons_append, forEach_cons_stop hstop]
          exact sidecarAfter_stop (.inl (by simp))
        · rw [List.cons_append, forEach_cons_stop hstop]
          exact ⟨_, rfl⟩
      · refine .of_troubled (by simp [untroubled, href, hpass]) ?_ ?_
        · rw [List.cons_append, forEach_cons_stop hstop]
          exact sidecarAfter_stop (.inl (by simp))
        · rw [List.cons_append, forEach_cons_stop hstop]
          exact ⟨e, _, he, rfl⟩

theorem initTargets_emptyPassword {t : Keyed} (ht : t.sidecar = none) (pre post : List Keyed) :
    let flow := forEach (initTarget C true [] hasEnc) (pre ++ t :: post) []
    ∃ done, flow = .stop (.initEncryption .emptyEncryptPass) done ∧ sidecarAfter pre.length flow = none := by
  have hstop : ∀ t', initTarget C true [] hasEnc t' [] = .stop (.initEncryption .emptyEncryptPass)
      ([] ++ [⟨t'.name, newEncryptionState true [], t'.sidecar⟩]) := fun t' => rfl
  cases pre with
  | nil =>
      rw [List.nil_append, forEach_cons_stop (hstop t)]
      exact ⟨_, rfl, sidecarAfter_stop (.inr ⟨rfl, ht⟩)⟩
  | cons t' pre =>
      rw [List.cons_append, forEach_cons_stop (hstop t')]
      exact ⟨_, rfl, sidecarAfter_stop (.inl (by simp))⟩

theorem not_decidesRightly_of_stop {db : Db} {target : Str} {n : ℕ} {flow : Flow (List Brought) BringUpErr}
    (hside : sidecarAfter n flow = none)
    (hflow : ∀ done, flow ≠ .stop (.initEncryption .keystoreInconsistent) done) :
    ¬ DecidesRightly db target n flow := by
  rintro ⟨hcreated, hrefused⟩
  have hobjects : hasEncryptedObjects db target = true := by
    rw [← Bool.not_eq_false]
    intro h
    have := hcreated.mpr h
    rw [hside] at this
    cases this
  obtain ⟨done, hstop⟩ := hrefused hobjects
  exact hflow done hstop

theorem Ends.decidesRightly_iff {db : Db} {target : Str} {n : ℕ} {targets : List Keyed}
    {flow : Flow (List Brought) BringUpErr} (h : Ends C password hasEnc targets n flow) :
    DecidesRightly db target n flow ↔
      hasEnc = hasEncryptedObjects db target ∧ untroubled C password hasEnc targets = true := by
  cases hu : untroubled C password hasEnc targets with
  | false =>
      obtain ⟨hside, e, done, he, hflow⟩ := h.troubled hu
      have hnot : ¬ DecidesRightly db target n flow := not_decidesRightly_of_stop hside fun done' heq => by
        rw [hflow] at heq
        cases heq
        exact he rfl
      simp [hnot]
  | true =>
      cases henc : hasEnc with
      | true =>
          obtain ⟨hside, hflow⟩ := h.refused hu henc
          simp only [DecidesRightly, hside, hflow, Option.isSome_none, Bool.false_eq_true, false_iff,
            Bool.not_eq_false, implies_true, and_true]
          exact eq_comm
      | false =>
          have hside := h.created hu henc
          simp only [DecidesRightly, hside, true_iff, and_true]
          constructor
          · rintro ⟨hobjects, -⟩
            exact hobjects.symm
          · intro hobjects
            exact ⟨hobjects.symm, fun h => by rw [← hobjects] at h; cases h⟩

end

/-- When the run decides rightly about a target without a sidecar. -/
theorem bringUpKeystores_iff (C : Codec) (password : Bytes) (queryOk : Bool) (db : Db)
    (pre : List Keyed) (t : Keyed) (post : List Keyed) (ht : t.sidecar = none) :
    DecidesRightly db t.name pre.length
        (bringUpKeystores C true password queryOk db (pre ++ t :: post)) ↔
      hasAnyEncryptedFiles db = hasEncryptedObjects db t.name ∧ queryOk = true ∧ password ≠ [] ∧
        untroubled C password (hasAnyEncryptedFiles db) (pre ++ [t]) = true := by
  cases queryOk with
  | false =>
      have hnot : ¬ DecidesRightly db t.name pre.length (.stop .database []) :=
        not_decidesRightly_of_stop (by simp [sidecarAfter]) nofun
      simpa [bringUpKeystores] using hnot
  | true =>
      simp only [bringUpKeystores, Bool.not_true, Bool.false_eq_true, if_false, true_and]
      by_cases hpassword : password = []
      · subst hpassword
        obtain ⟨done, hstop, hside⟩ := @initTargets_emptyPassword C (hasAnyEncryptedFiles db) t ht pre post
        rw [hstop]
        have hnot : ¬ DecidesRightly db t.name pre.length
            (.stop (.initEncryption .emptyEncryptPass) done) := by
          rw [hstop] at hside
          exact not_decidesRightly_of_stop hside nofun
        simp [hnot]
      · have hends := @initTargets_ends C password (hasAnyEncryptedFiles db) hpassword t ht pre post []
        rw [List.length_nil, Nat.zero_add] at hends
        rw [hends.decidesRightly_iff]
        simp [hpassword]

def markedDeleted : Action :=
  .mark encryptingConfig "second".toList
    ⟨"/file".toList, true, .notExist, ⟨true, true, true⟩, [encryptingTarget "second"]⟩

def lostSidecar : Keyed := ⟨"target".toList, none, ⟨true, true⟩, constDraws 1⟩

/-- As long as the file is there the run stops. -/
theorem bringUpKeystores_iff_lost :
    let w := encryptedUpload.apply plainCloud (fun _ _ => none) World.empty
    hasEncryptedObjects w.db "target".toList = true ∧
      DecidesRightly w.db "target".toList 0 (bringUpKeystores plainCodec true [5] true w.db [lostSidecar]) := by
  intro w
  have hfiles : hasAnyEncryptedFiles w.db = true := by decide +kernel
  have hobjects : hasEncryptedObjects w.db "target".toList = true := by decide +kernel
  refine ⟨hobjects, (bringUpKeystores_iff plainCodec [5] true w.db [] lostSidecar [] rfl).mpr
    ⟨hfiles.trans hobjects.symm, rfl, by simp, ?_⟩⟩
  rw [hfiles]
  rfl

/-- When it is gone, the keystore of the object that remains is replaced. -/
theorem bringUpKeystores_deleted : ¬ ∀ w : World,
    Reaches (fun _ _ => True) (Action.apply plainCloud fun _ _ => none) World.empty w →
    DecidesRightly w.db "target".toList 0 (bringUpKeystores plainCodec true [5] true w.db [lostSidecar]) := by
  intro h
  have hright := h _ (.step markedDeleted (.step encryptedUpload .refl trivial) trivial)
  have hends := @initTargets_ends plainCodec [5] (hasAnyEncryptedFiles (markedDeleted.apply plainCloud
    (fun _ _ => none) (encryptedUpload.apply plainCloud (fun _ _ => none) World.empty)).db)
    (by simp) lostSidecar rfl [] [] []
  have hsame := (hends.decidesRightly_iff.mp hright).1
  exact absurd hsame (by decide +kernel)

end CloudBackup.Scheduler
