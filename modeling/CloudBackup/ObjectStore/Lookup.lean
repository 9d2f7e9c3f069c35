import CloudBackup.ObjectStore.Store

/-!
How the objects of a bucket are found again. A row of the database keeps a
version of its own and the remote version of the store. S3 and GCP go by the
second, Azure and the test store by the first.

`Old` are the pairs that were given out before a request was made. The request
does not touch the objects they stand for, and neither does taking it back.
-/

namespace CloudBackup.ObjectStore

open Cbcrypto Database

namespace Store

variable (C : Cloud) (st : Store)

/-- What a pair of versions looks like that was given out before number `k` and
before version `v`. -/
def Old (k v u : ℕ) (remoteVersion : Str) : Prop :=
  match st.kind with
  | .awsS3 => ∃ n < k, remoteVersion = C.versionId n
  | .gcpStorage => ∃ n < k, remoteVersion = formatInt (C.generation n)
  | .azureBlob => u < v ∧ remoteVersion.head? ≠ some 'd'
  | .testNull => u < v

/-- What a remote version looks like that is given out later. -/
def Later (k : ℕ) (remoteVersion : Str) : Prop :=
  match st.kind with
  | .awsS3 => ∃ n ≥ k, remoteVersion = C.versionId n
  | .gcpStorage => deleteMarkerSuffix.isSuffixOf remoteVersion = true ∨
      ∃ n ≥ k, remoteVersion = formatInt (C.generation n)
  | _ => True

variable {C st}

theorem Old.mono {k k' v v' u : ℕ} {rv : Str} (h : st.Old C k v u rv) (hk : k ≤ k') (hv : v ≤ v') :
    st.Old C k' v' u rv := by
  unfold Old at *
  split at h
  · obtain ⟨n, hn, hrv⟩ := h
    exact ⟨n, hn.trans_le hk, hrv⟩
  · obtain ⟨n, hn, hrv⟩ := h
    exact ⟨n, hn.trans_le hk, hrv⟩
  · exact ⟨h.1.trans_le hv, h.2⟩
  · exact h.trans_le hv

/-! ### Objects that a request does not touch -/

section

variable {k v u : ℕ} {rv : Str} {path : Str} {b : Bucket}

theorem find_put_of_old (h : st.Old C k v u rv) (hk : k ≤ b.next) (body : Bytes) :
    st.find C path u rv (st.put C path v body b).2 = st.find C path u rv b := by
  unfold Old at h
  cases hkind : st.kind with
  | awsS3 =>
      simp only [hkind] at h
      obtain ⟨n, hn, rfl⟩ := h
      have hne : C.versionId b.next ≠ C.versionId n := fun heq =>
        Nat.ne_of_gt (hn.trans_le hk) (C.versionId_injective heq)
      simp [find, put, hkind, key, hne]
  | gcpStorage =>
      simp only [hkind] at h
      obtain ⟨n, hn, rfl⟩ := h
      have hne : C.generation b.next ≠ C.generation n := fun heq =>
        Nat.ne_of_gt (hn.trans_le hk) (C.generation_injective heq)
      simp [find, put, hkind, key, parseInt_formatInt, hne]
  | azureBlob =>
      simp only [hkind] at h
      have hne : calculateAzureStorageRemotePath st.storePrefix path u false ≠
          calculateAzureStorageRemotePath st.storePrefix path v false := fun heq =>
        Nat.ne_of_lt h.1 (calculateAzureStorageRemotePath_injective heq).1
      simp [find, put, hkind, key, h.2, hne]
  | testNull =>
      simp only [hkind] at h
      have hne : objectKey st.storePrefix path u ≠ objectKey st.storePrefix path v := fun heq =>
        Nat.ne_of_lt h (objectKey_injective heq)
      simp [find, put, hkind, key, hne]

theorem next_put_le (body : Bytes) : b.next ≤ (st.put C path v body b).2.next := by
  unfold put
  split <;> simp

theorem find_put_self (body : Bytes) :
    st.find C path v (st.put C path v body b).1 (st.put C path v body b).2 = .ok body := by
  cases hkind : st.kind with
  | awsS3 => simp [find, put, hkind, key]
  | gcpStorage => simp [find, put, hkind, key, parseInt_formatInt]
  | azureBlob => simp [find, put, hkind, key, localVersion, azureVersion]
  | testNull => simp [find, put, hkind, key]

theorem old_put_self (body : Bytes) :
    st.Old C (st.put C path v body b).2.next (v + 1) v (st.put C path v body b).1 := by
  unfold Old
  split
  · rename_i hkind
    exact ⟨b.next, by simp [put, hkind], by simp [put, hkind]⟩
  · rename_i hkind
    exact ⟨b.next, by simp [put, hkind], by simp [put, hkind]⟩
  · rename_i hkind
    simp [put, hkind, localVersion, azureVersion]
  · exact Nat.lt_succ_self v

theorem later_put (body : Bytes) (hk : k ≤ b.next) :
    st.Later C k (st.put C path v body b).1 := by
  unfold Later
  split
  · rename_i hkind
    exact ⟨b.next, hk, by simp [put, hkind]⟩
  · rename_i hkind
    exact .inr ⟨b.next, hk, by simp [put, hkind]⟩
  · trivial

theorem find_deleteObject_of_old (h : st.Old C k v u rv) {rv' : Str} (hlater : st.Later C k rv') :
    st.find C path u rv (st.deleteObject C path v rv' b) = st.find C path u rv b := by
  unfold Old at h
  unfold Later at hlater
  cases hkind : st.kind with
  | awsS3 =>
      simp only [hkind] at h hlater
      obtain ⟨n, hn, rfl⟩ := h
      obtain ⟨m, hm, rfl⟩ := hlater
      have hne : C.versionId n ≠ C.versionId m := fun heq =>
        Nat.ne_of_lt (hn.trans_le hm) (C.versionId_injective heq)
      simp only [find, deleteObject, hkind, key, Function.update_self, List.find?_filter]
      congr 2
      ext x
      grind
  | gcpStorage =>
      simp only [hkind] at h hlater
      obtain ⟨n, hn, rfl⟩ := h
      rcases hlater with hsuffix | ⟨m, hm, rfl⟩
      · simp only [find, deleteObject, hkind, key, hsuffix, if_true]
      · have hne : C.generation n ≠ C.generation m := fun heq =>
          Nat.ne_of_lt (hn.trans_le hm) (C.generation_injective heq)
        simp only [find, deleteObject, hkind, key, parseInt_formatInt, deleteMarkerSuffix_formatInt,
          Bool.false_eq_true, if_false, Function.update_self, List.find?_filter]
        congr 2
        ext x
        grind
  | azureBlob =>
      simp only [hkind] at h
      have hne : calculateAzureStorageRemotePath st.storePrefix path u false ≠
          calculateAzureStorageRemotePath st.storePrefix path v (rv'.head? = some 'd') := fun heq =>
        Nat.ne_of_lt h.1 (calculateAzureStorageRemotePath_injective heq).1
      simp [find, deleteObject, hkind, h.2, hne]
  | testNull => simp [find, deleteObject, hkind]

end

/-! ### The requests -/

/-- What `Upload` can do. An object may be stored even if it fails. -/
theorem upload_cases (C : Cloud) (st : Store) (rec : Record) (v : ℕ) (out : Outgoing) (b : Bucket) :
    (rec.props.type ≠ .file ∧
      st.upload C rec v out b = (⟨st.localVersion v, false, none⟩, b)) ∨
    (rec.props.type = .file ∧ ∃ body,
      wireBody C.aead.toAead st.enc rec.skipEncryption out.content.1 out.rand = .ok body ∧
      out.reply = .ok ∧
      st.upload C rec v out b =
        (⟨(st.put C rec.path v body b).1, false, none⟩, (st.put C rec.path v body b).2)) ∨
    (rec.props.type = .file ∧ ∃ sent b', st.upload C rec v out b = (sent, b') ∧
      (sent.cancelled = true ∨ sent.err ≠ none) ∧
      (b' = b ∨ out.reply = .failed true ∧ ∃ body, b' = (st.put C rec.path v body b).2)) := by
  unfold upload
  split
  · rename_i htype
    exact .inl ⟨htype, rfl⟩
  · rename_i htype
    have htype : rec.props.type = .file := by simpa using htype
    split
    · exact .inr (.inr ⟨htype, _, _, rfl, .inr (by simp), .inl rfl⟩)
    · rename_i body hbody
      cases hr : out.reply with
      | ok => exact .inr (.inl ⟨htype, body, hbody, rfl, rfl⟩)
      | failed stored =>
          cases stored with
          | true => exact .inr (.inr ⟨htype, _, _, rfl, .inr (by simp), .inr ⟨rfl, body, rfl⟩⟩)
          | false => exact .inr (.inr ⟨htype, _, _, rfl, .inr (by simp), .inl rfl⟩)
      | cancelled => exact .inr (.inr ⟨htype, _, _, rfl, .inl rfl, .inl rfl⟩)

section

variable {k v u : ℕ} {rv : Str} {b : Bucket} {rec : Record}

/-- After `Upload` the bucket is as before, or an object is put there. -/
theorem upload_bucket (C : Cloud) (st : Store) (rec : Record) (v : ℕ) (out : Outgoing) (b : Bucket) :
    (st.upload C rec v out b).2 = b ∨
      ∃ body, (st.upload C rec v out b).2 = (st.put C rec.path v body b).2 := by
  rcases upload_cases C st rec v out b with ⟨-, hup⟩ | ⟨-, body, -, -, hup⟩ |
    ⟨-, sent, b', hup, -, rfl | ⟨-, body, rfl⟩⟩
  · exact .inl (by rw [hup])
  · exact .inr ⟨body, by rw [hup]⟩
  · exact .inl (by rw [hup])
  · exact .inr ⟨body, by rw [hup]⟩

theorem find_upload_of_old (h : st.Old C k v u rv) (hk : k ≤ b.next) (out : Outgoing) :
    st.find C rec.path u rv (st.upload C rec v out b).2 = st.find C rec.path u rv b := by
  rcases upload_bucket C st rec v out b with hb | ⟨body, hb⟩
  · rw [hb]
  · rw [hb]
    exact find_put_of_old h hk body

theorem next_upload_le (out : Outgoing) : b.next ≤ (st.upload C rec v out b).2.next := by
  rcases upload_bucket C st rec v out b with hb | ⟨body, hb⟩
  · rw [hb]
  · rw [hb]
    exact next_put_le body

theorem later_upload {out : Outgoing} {sent : Sent} {b' : Bucket} (htype : rec.props.type = .file)
    (hk : k ≤ b.next) (h : st.upload C rec v out b = (sent, b')) (hcan : sent.cancelled = false)
    (herr : sent.err = none) : st.Later C k sent.remoteVersion := by
  rcases upload_cases C st rec v out b with ⟨hne, -⟩ | ⟨-, body, -, -, hup⟩ |
    ⟨-, sent', b'', hup, hfail, -⟩
  · exact absurd htype hne
  · rw [hup] at h
    cases h
    exact later_put body hk
  · rw [hup] at h
    cases h
    simp [hcan, herr] at hfail

theorem find_markDeletedS3_of_old (hkind : st.kind = .awsS3) (h : st.Old C k v u rv) (hk : k ≤ b.next)
    (reply : Reply) : st.find C rec.path u rv (st.markDeletedS3 C rec.path reply b).2 =
      st.find C rec.path u rv b := by
  simp only [Old, hkind] at h
  obtain ⟨n, hn, rfl⟩ := h
  have hne : C.versionId b.next ≠ C.versionId n := fun heq =>
    Nat.ne_of_gt (hn.trans_le hk) (C.versionId_injective heq)
  cases reply with
  | ok => simp [find, markDeletedS3, hkind, key, hne]
  | failed stored => cases stored <;> simp [find, markDeletedS3, hkind, key, hne]
  | cancelled => rfl

/-- The generations of an object stay when it is deleted, only the live one goes. -/
theorem find_markDeletedGcp (hkind : st.kind = .gcpStorage) (reply : Reply) :
    st.find C rec.path u rv (st.markDeletedGcp rec.path v reply b).2 = st.find C rec.path u rv b := by
  have hlive : ∀ b' : Bucket, (∀ key, (b'.generations key).generations = (b.generations key).generations) →
      st.find C rec.path u rv b' = st.find C rec.path u rv b := by
    intro b' hb'
    simp only [find, hkind, hb']
  refine hlive _ fun key => ?_
  by_cases hkey : key = calculateRemotePath st.storePrefix rec.path
  · subst hkey
    cases reply with
    | ok =>
        simp only [markDeletedGcp]
        split <;> simp
    | failed stored => cases stored <;> simp [markDeletedGcp]
    | cancelled => rfl
  · cases reply with
    | ok =>
        simp only [markDeletedGcp]
        split <;> simp [hkey]
    | failed stored => cases stored <;> simp [markDeletedGcp, hkey]
    | cancelled => rfl

theorem find_markDeletedAzure_of_old (hkind : st.kind = .azureBlob) (h : st.Old C k v u rv) (reply : Reply) :
    st.find C rec.path u rv (st.markDeletedAzure rec.path v reply b).2 = st.find C rec.path u rv b := by
  simp only [Old, hkind] at h
  have hne : calculateAzureStorageRemotePath st.storePrefix rec.path u false ≠
      calculateAzureStorageRemotePath st.storePrefix rec.path v true := fun heq =>
    Nat.ne_of_lt h.1 (calculateAzureStorageRemotePath_injective heq).1
  cases reply with
  | ok => simp [find, markDeletedAzure, hkind, h.2, hne]
  | failed stored => cases stored <;> simp [find, markDeletedAzure, hkind, h.2, hne]
  | cancelled => rfl

/-- A delete marker hides nothing that is asked for by its version. -/
theorem find_markDeleted_of_old (h : st.Old C k v u rv) (hk : k ≤ b.next) (reply : Reply) :
    st.find C rec.path u rv (st.markDeleted C rec v reply b).2 = st.find C rec.path u rv b := by
  unfold markDeleted
  split
  · rfl
  · split
    · rfl
    · split
      · rename_i hkind
        exact find_markDeletedS3_of_old hkind h hk reply
      · rename_i hkind
        exact find_markDeletedGcp hkind reply
      · rename_i h₁ h₂ h₃
        refine find_markDeletedAzure_of_old ?_ h reply
        cases hkind : st.kind <;> simp_all

theorem next_markDeleted_le (reply : Reply) : b.next ≤ (st.markDeleted C rec v reply b).2.next := by
  unfold markDeleted
  split
  · exact le_rfl
  · split
    · exact le_rfl
    · split
      · cases reply with
        | ok => exact Nat.le_succ _
        | failed stored => cases stored <;> simp [markDeletedS3]
        | cancelled => exact le_rfl
      · cases reply with
        | ok =>
            simp only [markDeletedGcp]
            split <;> exact le_rfl
        | failed stored => cases stored <;> simp [markDeletedGcp]
        | cancelled => exact le_rfl
      · cases reply with
        | ok => exact le_rfl
        | failed stored => cases stored <;> simp [markDeletedAzure]
        | cancelled => exact le_rfl

theorem reply_ok_of_markDeleted {reply : Reply} {sent : Sent} {b' : Bucket} (htype : rec.props.type = .file)
    (hkind : st.kind = .awsS3 ∨ st.kind = .gcpStorage) (h : st.markDeleted C rec v reply b = (sent, b'))
    (herr : sent.err = none) : reply = .ok := by
  cases reply with
  | ok => rfl
  | failed stored =>
      rcases hkind with hkind | hkind <;> simp only [markDeleted, hkind, htype, markDeletedS3, markDeletedGcp] at h
      · cases h
        cases herr
      · cases h
        cases herr
  | cancelled =>
      rcases hkind with hkind | hkind <;> simp only [markDeleted, hkind, htype, markDeletedS3, markDeletedGcp] at h
      · cases h
        cases herr
      · cases h
        cases herr

/-- The remote version of a delete marker is a new one. -/
theorem later_markDeleted {reply : Reply} {sent : Sent} {b' : Bucket} (htype : rec.props.type = .file)
    (hk : k ≤ b.next) (h : st.markDeleted C rec v reply b = (sent, b')) (herr : sent.err = none) :
    st.Later C k sent.remoteVersion := by
  cases hkind : st.kind with
  | awsS3 =>
      obtain rfl := reply_ok_of_markDeleted htype (.inl hkind) h herr
      simp only [markDeleted, hkind, htype, markDeletedS3] at h
      cases h
      simp only [Later, hkind]
      exact ⟨b.next, hk, rfl⟩
  | gcpStorage =>
      obtain rfl := reply_ok_of_markDeleted htype (.inr hkind) h herr
      simp only [markDeleted, hkind, htype, markDeletedGcp] at h
      by_cases hlive : (b.generations (calculateRemotePath st.storePrefix rec.path)).live = none
      · simp only [hlive] at h
        cases h
        cases herr
      · simp only [hlive] at h
        cases h
        simp only [Later, hkind]
        exact .inl (List.isSuffixOf_iff_suffix.mpr (List.suffix_append _ _))
  | azureBlob => simp [Later, hkind]
  | testNull => simp [Later, hkind]

@[simp] theorem next_delete (rec : Record) (rv' : Str) (reply : Reply) (b : Bucket) :
    (st.delete C rec v rv' reply b).next = b.next := by
  have hobj : (st.deleteObject C rec.path v rv' b).next = b.next := by
    unfold deleteObject
    split
    · rfl
    · dsimp only
      split
      · rfl
      · split <;> rfl
    · rfl
    · rfl
  unfold delete
  split
  · rfl
  · split
    · exact hobj
    · split
      · exact hobj
      · rfl
    · rfl

theorem find_delete_of_old (h : st.Old C k v u rv) {rv' : Str} (hlater : st.Later C k rv')
    (reply : Reply) :
    st.find C rec.path u rv (st.delete C rec v rv' reply b) = st.find C rec.path u rv b := by
  unfold delete
  split
  · rfl
  · split
    · exact find_deleteObject_of_old h hlater
    · split
      · exact find_deleteObject_of_old h hlater
      · rfl
    · rfl

end

end Store

end CloudBackup.ObjectStore
