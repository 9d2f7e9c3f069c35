import CloudBackup.ObjectStore.Store
import Mathlib.Tactic.MkIffOfInductiveProp

/-!
Taking a request back. After an upload or a delete marker, `Delete` is meant to
leave the bucket as it was. What it does depends on the store.

S3 removes the version or the marker, and the one below comes back. GCP removes
a generation too, but the one that was live before stays retired, and what
`MarkDeleted` has retired is not touched at all. Azure removes the blob of the
name, even if there was another one before. The test store removes nothing.
-/

namespace CloudBackup.ObjectStore

open Cbcrypto Database

@[mk_iff]
structure Bucket.SameObjects (b b' : Bucket) : Prop where
  versions : b'.versions = b.versions
  generations : b'.generations = b.generations
  blobs : b'.blobs = b.blobs

theorem Bucket.SameObjects.refl (b : Bucket) : b.SameObjects b := ⟨rfl, rfl, rfl⟩

/-- No number is in use that is still to be given out. -/
structure Bucket.Numbered (C : Cloud) (b : Bucket) : Prop where
  versions : ∀ k, ∀ v ∈ b.versions k, v.n < b.next
  generations : ∀ k, ∀ g ∈ (b.generations k).generations, ∃ n < b.next, g.1 = C.generation n

theorem Bucket.numbered_empty (C : Cloud) : Bucket.empty.Numbered C where
  versions _ _ hv := absurd hv List.not_mem_nil
  generations _ _ hg := absurd hg List.not_mem_nil

theorem Bucket.Numbered.mono {C : Cloud} {b b' : Bucket} (hb : b.Numbered C) (hnext : b.next ≤ b'.next)
    (hv : ∀ k, ∀ v ∈ b'.versions k, v ∈ b.versions k ∨ v.n < b'.next)
    (hg : ∀ k, ∀ g ∈ (b'.generations k).generations,
      g ∈ (b.generations k).generations ∨ ∃ n < b'.next, g.1 = C.generation n) :
    b'.Numbered C := by
  refine ⟨fun k v h => ?_, fun k g h => ?_⟩
  · rcases hv k v h with hold | hnew
    · exact Nat.lt_of_lt_of_le (hb.versions k v hold) hnext
    · exact hnew
  · rcases hg k g h with hold | hnew
    · obtain ⟨n, hn, heq⟩ := hb.generations k g hold
      exact ⟨n, Nat.lt_of_lt_of_le hn hnext, heq⟩
    · exact hnew

def Reply.takesEffect : Reply → Bool
  | .ok => true
  | .failed stored => stored
  | .cancelled => false

namespace Store

variable (C : Cloud) (st : Store)

/-- An upload of a body that is taken back, or not, leaves the bucket as it was. -/
def restoresUpload (path : Str) (v : ℕ) (body : Bytes) (undone : Bool) (b : Bucket) : Prop :=
  match st.kind with
  | .awsS3 => undone = true
  | .gcpStorage => undone = true ∧ (b.generations (calculateRemotePath st.storePrefix path)).live = none
  | .azureBlob => b.blobs (st.key path v) = if undone then none else some body
  | .testNull => b.blobs (st.key path v) = some body

def restoresMarker (path : Str) (v : ℕ) (undone : Bool) (b : Bucket) : Prop :=
  match st.kind with
  | .awsS3 => undone = true
  | .gcpStorage => False
  | .azureBlob => b.blobs (calculateAzureStorageRemotePath st.storePrefix path v true) =
      if undone then none else some []
  | .testNull => True

variable {C st} {path : Str} {v : ℕ} {b : Bucket}

/-- A version that was just added is the only one with its number. -/
theorem filter_versionId_next (hb : b.Numbered C) (k : Str) :
    (b.versions k).filter (fun v => C.versionId v.n ≠ C.versionId b.next) = b.versions k := by
  rw [List.filter_eq_self]
  intro v hv
  have hne : v.n ≠ b.next := Nat.ne_of_lt (hb.versions k v hv)
  simpa using fun heq => hne (C.versionId_injective heq)

theorem filter_generation_next (hb : b.Numbered C) (k : Str) :
    (b.generations k).generations.filter (fun g => !decide (g.1 = C.generation b.next)) =
      (b.generations k).generations := by
  rw [List.filter_eq_self]
  intro g hg
  obtain ⟨n, hn, heq⟩ := hb.generations k g hg
  have hne : g.1 ≠ C.generation b.next := by
    rw [heq]
    exact fun h => Nat.ne_of_lt hn (C.generation_injective h)
  simpa using hne

theorem sameObjects_put (hb : b.Numbered C) (body : Bytes) (undone : Bool) :
    b.SameObjects (if undone then
      st.deleteObject C path v (st.put C path v body b).1 (st.put C path v body b).2
      else (st.put C path v body b).2) ↔ st.restoresUpload path v body undone b := by
  cases hkind : st.kind with
  | awsS3 =>
      have hfilter := filter_versionId_next hb (calculateRemotePath st.storePrefix path)
      cases undone with
      | false =>
          simp [put, hkind, key, restoresUpload, Bucket.sameObjects_iff, Function.update_eq_self_iff]
      | true =>
          simp only [put, deleteObject, hkind, key, restoresUpload, Bucket.sameObjects_iff, if_true,
            Function.update_self, Function.update_idem, Function.update_eq_self_iff, and_true]
          simpa using hfilter
  | gcpStorage =>
      have hfilter := filter_generation_next hb (calculateRemotePath st.storePrefix path)
      cases undone with
      | false =>
          simp only [put, hkind, key, restoresUpload, Bucket.sameObjects_iff, Bool.false_eq_true,
            if_false, Function.update_eq_self_iff, true_and, and_true, false_and, iff_false]
          intro heq
          simpa using congrArg (fun o => o.generations.length) heq
      | true =>
          have hobj : (⟨(b.generations (calculateRemotePath st.storePrefix path)).generations, none⟩ :
              GcpObject) = b.generations (calculateRemotePath st.storePrefix path) ↔
              (b.generations (calculateRemotePath st.storePrefix path)).live = none := by
            cases b.generations (calculateRemotePath st.storePrefix path) with
            | mk generations live => simp [eq_comm]
          simpa [put, deleteObject, hkind, key, restoresUpload, Bucket.sameObjects_iff,
            deleteMarkerSuffix_formatInt, parseInt_formatInt, Function.update_eq_self_iff,
            hfilter] using hobj
  | azureBlob =>
      cases undone <;>
        simpa [put, deleteObject, hkind, key, restoresUpload, Bucket.sameObjects_iff, localVersion,
          azureVersion, Function.update_eq_self_iff] using eq_comm
  | testNull =>
      cases undone <;>
        simpa [put, deleteObject, hkind, key, restoresUpload, Bucket.sameObjects_iff,
          Function.update_eq_self_iff] using eq_comm

theorem sameObjects_markDeleted (hb : b.Numbered C) {rec : Record} (htype : rec.props.type = .file)
    {sent : Sent} {b' : Bucket} (h : st.markDeleted C rec v .ok b = (sent, b'))
    (hsent : sent.err = none) (undone : Bool) :
    b.SameObjects (if undone then st.deleteObject C rec.path v sent.remoteVersion b' else b') ↔
      st.restoresMarker rec.path v undone b := by
  cases hkind : st.kind with
  | awsS3 =>
      simp only [markDeleted, hkind, htype, markDeletedS3] at h
      cases h
      have hfilter := filter_versionId_next hb (calculateRemotePath st.storePrefix rec.path)
      cases undone with
      | false =>
          simp [hkind, restoresMarker, Bucket.sameObjects_iff, Function.update_eq_self_iff]
      | true =>
          simp only [deleteObject, hkind, restoresMarker, Bucket.sameObjects_iff, if_true,
            Function.update_self, Function.update_idem, Function.update_eq_self_iff, and_true]
          simpa using hfilter
  | gcpStorage =>
      simp only [markDeleted, hkind, htype, markDeletedGcp] at h
      by_cases hlive : (b.generations (calculateRemotePath st.storePrefix rec.path)).live = none
      · simp only [hlive] at h
        cases h
        cases hsent
      · simp only [hlive] at h
        cases h
        have hsuffix : deleteMarkerSuffix.isSuffixOf (formatInt v ++ deleteMarkerSuffix) = true :=
          List.isSuffixOf_iff_suffix.mpr (List.suffix_append _ _)
        have hne : ({ b.generations (calculateRemotePath st.storePrefix rec.path) with live := none } :
            GcpObject) ≠ b.generations (calculateRemotePath st.storePrefix rec.path) :=
          fun heq => hlive (congrArg GcpObject.live heq).symm
        cases undone <;>
          simpa [deleteObject, hkind, hsuffix, restoresMarker, Bucket.sameObjects_iff,
            Function.update_eq_self_iff] using hne
  | azureBlob =>
      simp only [markDeleted, hkind, htype, markDeletedAzure] at h
      cases h
      cases undone <;>
        simpa [deleteObject, hkind, restoresMarker, Bucket.sameObjects_iff, azureVersion,
          Function.update_eq_self_iff] using eq_comm
  | testNull =>
      simp only [markDeleted, hkind] at h
      cases h
      cases undone <;> simp [deleteObject, hkind, restoresMarker, Bucket.sameObjects_iff]

/-! ### Numbers -/

theorem numbered_version (hb : b.Numbered C) (k : Str) (body : Option Bytes) :
    Bucket.Numbered C { b with
      versions := Function.update b.versions k (⟨b.next, body⟩ :: b.versions k), next := b.next + 1 } := by
  refine hb.mono (Nat.le_succ _) (fun k' v hv => ?_) (fun _ _ hg => .inl hg)
  rcases eq_or_ne k' k with rfl | hne
  · simp only [Function.update_self, List.mem_cons] at hv
    rcases hv with rfl | hv
    · exact .inr (Nat.lt_succ_self _)
    · exact .inl hv
  · simp only [Function.update_of_ne hne] at hv
    exact .inl hv

/-- The generations of an object are replaced by some of the old ones and the
next one. -/
theorem numbered_generation (hb : b.Numbered C) {next : ℕ} (hnext : b.next ≤ next) (k : Str)
    (obj : GcpObject) (hobj : ∀ g ∈ obj.generations,
      g ∈ (b.generations k).generations ∨ ∃ n < next, g.1 = C.generation n) :
    Bucket.Numbered C { b with generations := Function.update b.generations k obj, next := next } := by
  refine hb.mono hnext (fun _ _ hv => .inl hv) (fun k' g hg => ?_)
  rcases eq_or_ne k' k with rfl | hne
  · simp only [Function.update_self] at hg
    exact hobj g hg
  · simp only [Function.update_of_ne hne] at hg
    exact .inl hg

theorem numbered_put (hb : b.Numbered C) (body : Bytes) : (st.put C path v body b).2.Numbered C := by
  cases hkind : st.kind with
  | awsS3 =>
      simp only [put, hkind]
      exact numbered_version hb _ _
  | gcpStorage =>
      simp only [put, hkind]
      refine numbered_generation hb (Nat.le_succ _) _ _ fun g hg => ?_
      rcases List.mem_cons.mp hg with rfl | hg
      · exact .inr ⟨b.next, Nat.lt_succ_self _, rfl⟩
      · exact .inl hg
  | azureBlob =>
      simp only [put, hkind]
      exact ⟨hb.versions, hb.generations⟩
  | testNull =>
      simp only [put, hkind]
      exact ⟨hb.versions, hb.generations⟩

theorem numbered_upload (hb : b.Numbered C) (rec : Record) (out : Outgoing) :
    (st.upload C rec v out b).2.Numbered C := by
  unfold upload
  split
  · exact hb
  · split
    · exact hb
    · split
      · exact numbered_put hb _
      · split
        · exact numbered_put hb _
        · exact hb
      · exact hb

theorem numbered_markDeleted (hb : b.Numbered C) (rec : Record) (reply : Reply) :
    (st.markDeleted C rec v reply b).2.Numbered C := by
  unfold markDeleted
  split
  · exact hb
  · split
    · exact hb
    · split
      · unfold markDeletedS3
        split
        · exact numbered_version hb _ _
        · split
          · exact numbered_version hb _ _
          · exact hb
        · exact hb
      · have hretired := numbered_generation hb le_rfl (calculateRemotePath st.storePrefix rec.path)
          { b.generations (calculateRemotePath st.storePrefix rec.path) with live := none }
          fun _ hg => .inl hg
        unfold markDeletedGcp
        split
        · dsimp only
          split
          · exact hb
          · exact hretired
        · split
          · exact hretired
          · exact hb
        · exact hb
      · unfold markDeletedAzure
        split
        · exact ⟨hb.versions, hb.generations⟩
        · split
          · exact ⟨hb.versions, hb.generations⟩
          · exact hb
        · exact hb

theorem numbered_delete (hb : b.Numbered C) (rec : Record) (remoteVersion : Str) (reply : Reply) :
    (st.delete C rec v remoteVersion reply b).Numbered C := by
  have hobject : (st.deleteObject C rec.path v remoteVersion b).Numbered C := by
    unfold deleteObject
    split
    · refine hb.mono le_rfl (fun k w hw => .inl ?_) (fun _ _ hg => .inl hg)
      rcases eq_or_ne k (calculateRemotePath st.storePrefix rec.path) with rfl | hne
      · simp only [Function.update_self] at hw
        exact List.mem_of_mem_filter hw
      · simpa only [Function.update_of_ne hne] using hw
    · dsimp only
      split
      · exact hb
      · split
        · exact hb
        · exact numbered_generation hb le_rfl _ _ fun g hg => .inl (List.mem_of_mem_filter hg)
    · exact ⟨hb.versions, hb.generations⟩
    · exact hb
  unfold delete
  split
  · exact hb
  · split
    · exact hobject
    · split
      · exact hobject
      · exact hb
    · exact hb

end Store

end CloudBackup.ObjectStore
