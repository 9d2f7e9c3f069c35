import CloudBackup.ObjectStore.Keys
import CloudBackup.ObjectStore.Lookup

/-!
The objects of one path and those of the others. A store names the objects of a path by
keys that no other path has (`names_unique`), reads nothing else for it (`find_congr`),
and changes nothing else (`local_upload`, `local_markDeleted`, `local_delete`).
-/

namespace CloudBackup.ObjectStore

open Cbcrypto Database UnixPath

/-- The objects under a key are the same. Which of them is live is not looked at. -/
def Bucket.SameAt (key : Str) (b b' : Bucket) : Prop :=
  b'.versions key = b.versions key ∧ (b'.generations key).generations = (b.generations key).generations ∧
    b'.blobs key = b.blobs key

theorem Bucket.SameAt.refl (key : Str) (b : Bucket) : b.SameAt key b := ⟨rfl, rfl, rfl⟩

namespace Store

variable (st : Store)

/-- The key names an object of the path. -/
def Names (path key : Str) : Prop :=
  match st.kind with
  | .azureBlob => ∃ version deleteMarker,
      key = calculateAzureStorageRemotePath st.storePrefix path version deleteMarker
  | .testNull => ∃ version, key = objectKey st.storePrefix path version
  | _ => key = calculateRemotePath st.storePrefix path

def Agree (path : Str) (b b' : Bucket) : Prop := ∀ key, st.Names path key → Bucket.SameAt key b b'

def Local (path : Str) (b b' : Bucket) : Prop := ∀ key, ¬ st.Names path key → Bucket.SameAt key b b'

variable {st} {C : Cloud} {path path' key : Str} {b b' b'' : Bucket} {version : ℕ} {remoteVersion : Str}

theorem Local.trans (h : st.Local path b b') (h' : st.Local path b' b'') : st.Local path b b'' := by
  intro key hkey
  obtain ⟨hversions, hgenerations, hblobs⟩ := h key hkey
  obtain ⟨hversions', hgenerations', hblobs'⟩ := h' key hkey
  exact ⟨hversions'.trans hversions, hgenerations'.trans hgenerations, hblobs'.trans hblobs⟩

/-! ### Keys -/

theorem digits_at_injective {s t : Str} {m n : ℕ}
    (h : s ++ '@' :: 'v' :: formatInt m = t ++ '@' :: 'v' :: formatInt n) : s = t := by
  have hnot : ∀ k : ℕ, '@' ∉ 'v' :: formatInt k := by
    intro k hmem
    rcases List.mem_cons.mp hmem with heq | hmem
    · exact absurd heq (by decide)
    · exact notMem_formatInt (by decide) k hmem
  -- what follows the last sign is the version
  have hdrop : ∀ (u : Str) (k : ℕ), ((u ++ '@' :: 'v' :: formatInt k).reverse.dropWhile (· ≠ '@')) = '@' :: u.reverse := by
    intro u k
    rw [List.reverse_append, List.reverse_cons, List.append_assoc, List.dropWhile_append_of_pos]
    · simp
    · intro c hc
      have hne : c ≠ '@' := by
        rintro rfl
        exact hnot k (List.mem_reverse.mp hc)
      simpa using hne
  have hrev := congrArg (fun x : Str => x.reverse.dropWhile (· ≠ '@')) h
  rw [hdrop, hdrop] at hrev
  exact List.reverse_injective (List.cons.inj hrev).2

theorem names_unique (hpath : IsClean path) (hpath' : IsClean path') (h : st.Names path key)
    (h' : st.Names path' key) : path = path' := by
  have hkey : ∀ {s : Str}, s = calculateRemotePath st.storePrefix path →
      s = calculateRemotePath st.storePrefix path' → path = path' :=
    fun heq heq' => Keys.calculateRemotePath_injective hpath hpath' (heq.symm.trans heq')
  unfold Names at h h'
  cases hkind : st.kind with
  | awsS3 =>
      simp only [hkind] at h h'
      exact hkey h h'
  | gcpStorage =>
      simp only [hkind] at h h'
      exact hkey h h'
  | azureBlob =>
      simp only [hkind] at h h'
      obtain ⟨v, dm, heq⟩ := h
      obtain ⟨v', dm', heq'⟩ := h'
      rw [calculateAzureStorageRemotePath_eq] at heq heq'
      have hnot : ∀ (v : ℕ) (dm : Bool), '.' ∉ azureVersion v dm := by
        intro v dm hmem
        rcases List.mem_cons.mp hmem with heq | hmem
        · cases dm <;> exact absurd heq (by decide)
        · exact notMem_formatInt (by decide) v hmem
      have hsame := (Keys.append_dot_inj (hnot v dm) (hnot v' dm') (heq.symm.trans heq')).1
      exact hkey rfl hsame
  | testNull =>
      simp only [hkind] at h h'
      obtain ⟨v, heq⟩ := h
      obtain ⟨v', heq'⟩ := h'
      have hname : remoteName st.storePrefix path = remoteName st.storePrefix path' :=
        digits_at_injective (heq.symm.trans heq')
      have hcons : '/' :: path = '/' :: path' := by
        rw [remoteName, remoteName] at hname
        exact List.append_cancel_left hname
      exact (List.cons.inj hcons).2

theorem names_key (st : Store) (path : Str) (version : ℕ) : st.Names path (st.key path version) := by
  unfold Names key
  cases st.kind with
  | awsS3 => rfl
  | gcpStorage => rfl
  | azureBlob => exact ⟨version, false, rfl⟩
  | testNull => exact ⟨version, rfl⟩

/-! ### Reading -/

/-- What is found for a path depends on its own objects alone. -/
theorem find_congr (h : st.Agree path b b') :
    st.find C path version remoteVersion b' = st.find C path version remoteVersion b := by
  obtain ⟨hversions, hgenerations, hblobs⟩ := h _ (names_key st path version)
  unfold find
  cases hkind : st.kind with
  | awsS3 => simp only [hversions]
  | gcpStorage => simp only [hgenerations]
  | azureBlob =>
      have hnames : st.Names path (calculateAzureStorageRemotePath st.storePrefix path version
          (remoteVersion.head? = some 'd')) := by
        simp only [Names, hkind]
        exact ⟨_, _, rfl⟩
      simp only [(h _ hnames).2.2]
  | testNull => simp only [hblobs]

/-! ### Requests -/

theorem Local.refl (st : Store) (path : Str) (b : Bucket) : st.Local path b b := fun key _ => .refl key b

theorem Local.agree (h : st.Local path b b') (hpath : IsClean path) (hpath' : IsClean path')
    (hne : path ≠ path') : st.Agree path' b b' :=
  fun key hkey => h key fun hnames => hne (names_unique hpath hpath' hnames hkey)

theorem local_put (path : Str) (version : ℕ) (body : Bytes) (b : Bucket) :
    st.Local path b (st.put C path version body b).2 := by
  intro key hkey
  have hne : key ≠ st.key path version := by
    rintro rfl
    exact hkey (names_key st path version)
  unfold put
  cases st.kind <;> simp [Bucket.SameAt, hne]

theorem ne_of_not_names (h : ¬ st.Names path key) (hkind : st.kind = .awsS3 ∨ st.kind = .gcpStorage) :
    key ≠ calculateRemotePath st.storePrefix path := by
  rintro rfl
  apply h
  rcases hkind with hkind | hkind <;> simp [Names, hkind]

theorem local_markDeletedS3 (hkind : st.kind = .awsS3) (path : Str) (reply : Reply) (b : Bucket) :
    st.Local path b (st.markDeletedS3 C path reply b).2 := by
  intro key hkey
  have hne := ne_of_not_names hkey (.inl hkind)
  cases reply with
  | ok => simp [Bucket.SameAt, markDeletedS3, hne]
  | failed stored => cases stored <;> simp [Bucket.SameAt, markDeletedS3, hne]
  | cancelled => exact .refl key b

theorem local_markDeletedGcp (hkind : st.kind = .gcpStorage) (path : Str) (reply : Reply) (b : Bucket) :
    st.Local path b (st.markDeletedGcp path version reply b).2 := by
  intro key hkey
  have hne := ne_of_not_names hkey (.inr hkind)
  cases reply with
  | ok =>
      simp only [markDeletedGcp]
      split <;> simp [Bucket.SameAt, hne]
  | failed stored => cases stored <;> simp [Bucket.SameAt, markDeletedGcp, hne]
  | cancelled => exact .refl key b

theorem local_markDeletedAzure (hkind : st.kind = .azureBlob) (path : Str) (reply : Reply) (b : Bucket) :
    st.Local path b (st.markDeletedAzure path version reply b).2 := by
  intro key hkey
  have hne : key ≠ calculateAzureStorageRemotePath st.storePrefix path version true := by
    rintro rfl
    apply hkey
    simp only [Names, hkind]
    exact ⟨version, true, rfl⟩
  cases reply with
  | ok => simp [Bucket.SameAt, markDeletedAzure, hne]
  | failed stored => cases stored <;> simp [Bucket.SameAt, markDeletedAzure, hne]
  | cancelled => exact .refl key b

theorem local_deleteObject (path : Str) (version : ℕ) (remoteVersion : Str) (b : Bucket) :
    st.Local path b (st.deleteObject C path version remoteVersion b) := by
  intro key hkey
  unfold deleteObject
  cases hkind : st.kind with
  | awsS3 => simp [Bucket.SameAt, ne_of_not_names hkey (.inl hkind)]
  | gcpStorage =>
      have hne := ne_of_not_names hkey (.inr hkind)
      dsimp only
      split
      · exact .refl key b
      · split <;> simp [Bucket.SameAt, hne]
  | azureBlob =>
      have hne : key ≠ calculateAzureStorageRemotePath st.storePrefix path version
          (remoteVersion.head? = some 'd') := by
        rintro rfl
        apply hkey
        simp only [Names, hkind]
        exact ⟨_, _, rfl⟩
      simp [Bucket.SameAt, hne]
  | testNull => exact .refl key b

variable {rec : Record}

theorem local_upload (version : ℕ) (out : Outgoing) (b : Bucket) :
    st.Local rec.path b (st.upload C rec version out b).2 := by
  rcases upload_bucket C st rec version out b with hb | ⟨body, hb⟩
  · rw [hb]
    exact .refl st rec.path b
  · rw [hb]
    exact local_put rec.path version body b

theorem local_markDeleted (version : ℕ) (reply : Reply) (b : Bucket) :
    st.Local rec.path b (st.markDeleted C rec version reply b).2 := by
  unfold markDeleted
  split
  · exact .refl st rec.path b
  · split
    · exact .refl st rec.path b
    · split
      · rename_i hkind
        exact local_markDeletedS3 hkind rec.path reply b
      · rename_i hkind
        exact local_markDeletedGcp hkind rec.path reply b
      · rename_i h₁ h₂ h₃
        refine local_markDeletedAzure ?_ rec.path reply b
        cases hkind : st.kind <;> simp_all

theorem local_delete (version : ℕ) (remoteVersion : Str) (reply : Reply) (b : Bucket) :
    st.Local rec.path b (st.delete C rec version remoteVersion reply b) := by
  unfold delete
  split
  · exact .refl st rec.path b
  · split
    · exact local_deleteObject rec.path version remoteVersion b
    · split
      · exact local_deleteObject rec.path version remoteVersion b
      · exact .refl st rec.path b
    · exact .refl st rec.path b

end Store

end CloudBackup.ObjectStore
