import CloudBackup.Library.UnixPath
import CloudBackup.ObjectStore.Store
import Mathlib.Data.List.Infix

/-!
The keys of the objects of a target. All of them start with the prefix of the target:
the files lie below `data`, the files of the program itself below `metadata`, and the
keystore of an encrypted target in a directory of its own. Azure adds a version to the
name of a blob.

The squashing of slashes is what makes this more than a concatenation; it is used for
the first two, and not for the keystore. `squashForwardSlashes_split` cuts it at any
character that is not a slash.
-/

namespace CloudBackup.ObjectStore.Keys

open Cbcrypto Database UnixPath

/-! ### The functions of the source -/

def metaDataPrepend : Str := "metadata".toList

def base (path : Str) : Str :=
  if path = [] then ['.']
  else
    let last := ((path.reverse.dropWhile (· = '/')).takeWhile (· ≠ '/')).reverse
    if last = [] then ['/'] else last

/-- `strconv.FormatInt(version, 10)`, with the sign. -/
def formatVersion (version : ℤ) : Str :=
  if version < 0 then '-' :: formatInt version.natAbs else formatInt version.natAbs

def calculateRemotePath (storePrefix path : Str) (metadata : Bool) : Str :=
  if metadata then squashForwardSlashes (storePrefix ++ '/' :: metaDataPrepend ++ '/' :: base path)
  else squashForwardSlashes (storePrefix ++ '/' :: dataPrepend ++ '/' :: path)

def calculateAzureStorageRemotePath (storePrefix path : Str) (metadata : Bool) (version : ℤ)
    (deleteMarker : Bool) : Str × Str :=
  let remoteVersion := (if deleteMarker then 'd' else 'v') :: formatVersion version
  if metadata then
    let filename := base path ++ '.' :: remoteVersion
    (squashForwardSlashes (storePrefix ++ '/' :: metaDataPrepend ++ '/' :: filename), remoteVersion)
  else
    (squashForwardSlashes (storePrefix ++ '/' :: dataPrepend ++ '/' :: path ++ '.' :: remoteVersion),
      remoteVersion)

def sidecarRelativePath : Str := ".cbcrypt/keystore.v1.yaml".toList

def sidecarBucketKey (storePrefix : Str) : Str := storePrefix ++ '/' :: sidecarRelativePath

/-- The operations of a run see the keys of files, and count versions from zero. -/
theorem calculateRemotePath_data (storePrefix path : Str) :
    calculateRemotePath storePrefix path false = ObjectStore.calculateRemotePath storePrefix path := rfl

theorem calculateAzureStorageRemotePath_data (storePrefix path : Str) (version : ℕ) (deleteMarker : Bool) :
    calculateAzureStorageRemotePath storePrefix path false version deleteMarker =
      (ObjectStore.calculateAzureStorageRemotePath storePrefix path version deleteMarker,
        azureVersion version deleteMarker) := by
  have hversion : formatVersion version = formatInt version := by
    rw [formatVersion, if_neg (by omega), Int.natAbs_natCast]
  simp [calculateAzureStorageRemotePath, ObjectStore.calculateAzureStorageRemotePath, remoteName,
    azureVersion, hversion]

/-! ### Squashing -/

def replaceAll : Str → Str
  | '/' :: '/' :: cs => '/' :: replaceAll cs
  | c :: cs => c :: replaceAll cs
  | [] => []

def squashLoop : ℕ → Str → Str
  | 0, s => s
  | fuel + 1, s => if ['/', '/'] <:+: s then squashLoop fuel (replaceAll s) else s

theorem squashForwardSlashes_cons {c : Char} (hc : c ≠ '/') (s : Str) :
    squashForwardSlashes (c :: s) = c :: squashForwardSlashes s :=
  squashForwardSlashes.eq_2 c s fun _ h => absurd h hc

theorem squashForwardSlashes_slash {c : Char} (hc : c ≠ '/') (s : Str) :
    squashForwardSlashes ('/' :: c :: s) = '/' :: c :: squashForwardSlashes s := by
  rw [squashForwardSlashes.eq_2 '/' (c :: s) fun _ _ h => absurd (List.cons.inj h).1 hc,
    squashForwardSlashes_cons hc]

/-- A character that is not a slash keeps what is before it and what is after it
apart. -/
theorem squashForwardSlashes_split (s : Str) {c : Char} (hc : c ≠ '/') (t : Str) :
    squashForwardSlashes (s ++ c :: t) = squashForwardSlashes s ++ c :: squashForwardSlashes t := by
  fun_induction squashForwardSlashes s with
  | case1 cs ih => simpa [squashForwardSlashes] using ih
  | case2 d cs hne ih =>
      have hkeep : squashForwardSlashes (d :: (cs ++ c :: t)) = d :: squashForwardSlashes (cs ++ c :: t) := by
        refine squashForwardSlashes.eq_2 d _ fun rest hd h => ?_
        cases cs with
        | nil => exact hc (List.cons.inj h).1
        | cons e cs => exact hne cs hd (by rw [(List.cons.inj h).1])
      rw [List.cons_append, hkeep, ih, List.cons_append]
  | case3 => exact squashForwardSlashes_cons hc t

theorem squashForwardSlashes_idem (s : Str) :
    squashForwardSlashes (squashForwardSlashes s) = squashForwardSlashes s := by
  fun_induction squashForwardSlashes s with
  | case1 cs ih => exact ih
  | case2 c cs hne ih =>
      by_cases hc : c = '/'
      · subst hc
        -- what follows a slash that was kept does not start with another one
        cases cs with
        | nil => rfl
        | cons d ds =>
            have hd : d ≠ '/' := by
              rintro rfl
              exact hne ds rfl rfl
            rw [squashForwardSlashes_cons hd] at ih ⊢
            rw [squashForwardSlashes_slash hd]
            rw [squashForwardSlashes_cons hd] at ih
            rw [(List.cons.inj ih).2]
      · rw [squashForwardSlashes_cons hc, ih]
  | case3 => rfl

theorem squashForwardSlashes_noSlash {n : Str} (hn : '/' ∉ n) (t : Str) :
    squashForwardSlashes (n ++ t) = n ++ squashForwardSlashes t := by
  induction n with
  | nil => rfl
  | cons c n ih =>
      simp only [List.mem_cons, not_or] at hn
      rw [List.cons_append, squashForwardSlashes_cons (Ne.symm hn.1), ih hn.2, List.cons_append]

theorem squashForwardSlashes_render {names : Names} (h : ∀ n ∈ names, IsName n) :
    squashForwardSlashes (render names) = render names := by
  induction names with
  | nil => rfl
  | cons n names ih =>
      have hn : IsName n := h n (by simp)
      obtain ⟨c, n, rfl⟩ := List.exists_cons_of_ne_nil hn.ne_nil
      have hslash := hn.noSlash
      simp only [List.mem_cons, not_or] at hslash
      rw [render_cons, List.cons_append, List.cons_append, squashForwardSlashes_slash (Ne.symm hslash.1),
        squashForwardSlashes_noSlash hslash.2, ih fun m hm => h m (List.mem_cons_of_mem _ hm)]

/-- A clean path behind a slash: the two slashes become one. -/
theorem squashForwardSlashes_isClean {path : Str} (h : IsClean path) :
    squashForwardSlashes ('/' :: path) = path := by
  by_cases hroot : path = ['/']
  · subst hroot
    rfl
  · have hrender := squashForwardSlashes_render h.isName
    rw [← h.eq_render hroot] at hrender
    obtain ⟨rest, rfl⟩ := h.exists_slash_cons
    rw [squashForwardSlashes]
    exact hrender

/-! ### The loop of the source -/

theorem exists_squashForwardSlashes_slash (t : Str) : ∃ u, squashForwardSlashes ('/' :: t) = '/' :: u := by
  induction t with
  | nil => exact ⟨[], rfl⟩
  | cons c t ih =>
      by_cases hc : c = '/'
      · subst hc
        exact ih
      · exact ⟨c :: squashForwardSlashes t, squashForwardSlashes_slash hc t⟩

theorem squashForwardSlashes_cons_squash (c : Char) (t : Str) :
    squashForwardSlashes (c :: squashForwardSlashes t) = squashForwardSlashes (c :: t) := by
  by_cases hc : c = '/'
  · subst hc
    cases t with
    | nil => rfl
    | cons d t =>
        by_cases hd : d = '/'
        · subst hd
          obtain ⟨u, hu⟩ := exists_squashForwardSlashes_slash t
          have hidem := squashForwardSlashes_idem ('/' :: t)
          rw [hu] at hidem
          rw [hu, squashForwardSlashes, squashForwardSlashes, hu]
          exact hidem
        · rw [squashForwardSlashes_cons hd, squashForwardSlashes_slash hd, squashForwardSlashes_slash hd,
            squashForwardSlashes_idem]
  · rw [squashForwardSlashes_cons hc, squashForwardSlashes_cons hc, squashForwardSlashes_idem]

/-- A round does not change what is squashed in the end. -/
theorem squashForwardSlashes_replaceAll (s : Str) :
    squashForwardSlashes (replaceAll s) = squashForwardSlashes s := by
  fun_induction replaceAll s with
  | case1 cs ih =>
      rw [← squashForwardSlashes_cons_squash, ih, squashForwardSlashes_cons_squash, squashForwardSlashes]
  | case2 c cs hne ih =>
      rw [← squashForwardSlashes_cons_squash, ih, squashForwardSlashes_cons_squash]
  | case3 => rfl

theorem length_replaceAll_le (s : Str) : (replaceAll s).length ≤ s.length := by
  fun_induction replaceAll s with
  | case1 cs ih =>
      simp only [List.length_cons]
      omega
  | case2 c cs hne ih =>
      simp only [List.length_cons]
      omega
  | case3 => exact le_rfl

theorem length_replaceAll_lt {s : Str} (h : ['/', '/'] <:+: s) : (replaceAll s).length < s.length := by
  fun_induction replaceAll s with
  | case1 cs ih =>
      have hle := length_replaceAll_le cs
      simp only [List.length_cons]
      omega
  | case2 c cs hne ih =>
      -- the pair is not at the front
      rcases List.infix_cons_iff.mp h with hpre | hin
      · obtain ⟨t, ht⟩ := hpre
        simp only [List.cons_append, List.nil_append, List.cons.injEq] at ht
        exact absurd ht.2.symm (hne t ht.1.symm)
      · have hlt := ih hin
        simp only [List.length_cons]
        omega
  | case3 => simp at h

theorem squashForwardSlashes_of_noPair {s : Str} (h : ¬ ['/', '/'] <:+: s) : squashForwardSlashes s = s := by
  fun_induction squashForwardSlashes s with
  | case1 cs ih => exact absurd ⟨[], cs, rfl⟩ h
  | case2 c cs hne ih =>
      rw [ih fun hin => h (List.infix_cons_iff.mpr (.inr hin))]
  | case3 => rfl

theorem squashLoop_eq {fuel : ℕ} {s : Str} (h : s.length ≤ fuel) :
    squashLoop fuel s = squashForwardSlashes s := by
  induction fuel generalizing s with
  | zero =>
      rw [List.length_eq_zero_iff.mp (Nat.le_zero.mp h)]
      rfl
  | succ fuel ih =>
      rw [squashLoop]
      split
      · rename_i hpair
        have hlt := length_replaceAll_lt hpair
        rw [ih (by omega), squashForwardSlashes_replaceAll]
      · rename_i hpair
        exact (squashForwardSlashes_of_noPair hpair).symm

/-! ### Keys do not collide -/

section

variable {storePrefix path : Str}

theorem squashForwardSlashes_key (storePrefix : Str) {c : Char} (hc : c ≠ '/') (t : Str) :
    squashForwardSlashes (storePrefix ++ '/' :: c :: t) =
      squashForwardSlashes (storePrefix ++ ['/']) ++ c :: squashForwardSlashes t := by
  rw [List.append_cons storePrefix '/' (c :: t)]
  exact squashForwardSlashes_split _ hc t

theorem calculateRemotePath_isClean (hpath : IsClean path) :
    calculateRemotePath storePrefix path false =
      squashForwardSlashes (storePrefix ++ ['/']) ++ (dataPrepend ++ path) := by
  have hata : squashForwardSlashes ("ata".toList ++ '/' :: path) = "ata".toList ++ path := by
    rw [squashForwardSlashes_noSlash (by decide), squashForwardSlashes_isClean hpath]
  have hkey := squashForwardSlashes_key storePrefix (show 'd' ≠ '/' by decide) ("ata".toList ++ '/' :: path)
  rw [hata] at hkey
  rw [calculateRemotePath, if_neg (by decide), List.append_assoc]
  exact hkey

theorem notMem_formatVersion {c : Char} (hc : c = '.' ∨ c = '/') (version : ℤ) : c ∉ formatVersion version := by
  have hdigit : c ∉ formatInt version.natAbs := by
    rcases hc with rfl | rfl <;> exact notMem_formatInt (by decide) _
  rw [formatVersion]
  split
  · rcases hc with rfl | rfl <;> simpa using hdigit
  · exact hdigit

theorem notMem_remoteVersion {c : Char} (hc : c = '.' ∨ c = '/') (deleteMarker : Bool) (version : ℤ) :
    c ∉ (if deleteMarker then 'd' else 'v') :: formatVersion version := by
  intro h
  rcases List.mem_cons.mp h with h | h
  · subst h
    cases deleteMarker <;> simp at hc
  · exact notMem_formatVersion hc version h

theorem formatVersion_injective {version version' : ℤ} (h : formatVersion version = formatVersion version') :
    version = version' := by
  have hsign : ∀ n : ℕ, '-' ∉ formatInt n := fun n => notMem_formatInt (by decide) n
  simp only [formatVersion] at h
  split at h <;> split at h
  · have habs := formatInt_injective (List.cons.inj h).2
    omega
  · exact absurd (h ▸ List.mem_cons_self) (hsign version'.natAbs)
  · exact absurd (h ▸ List.mem_cons_self) (hsign version.natAbs)
  · have habs := formatInt_injective h
    omega

/-- The version of a blob follows the last dot of its name. -/
theorem append_dot_inj {s t v w : Str} (hv : '.' ∉ v) (hw : '.' ∉ w) (h : s ++ '.' :: v = t ++ '.' :: w) :
    s = t ∧ v = w := by
  have hrev := congrArg (fun x : Str => x.reverse.takeWhile (· ≠ '.')) h
  have htake : ∀ {x y : Str}, '.' ∉ y → (x ++ '.' :: y).reverse.takeWhile (· ≠ '.') = y.reverse := by
    intro x y hy
    rw [List.reverse_append, List.reverse_cons, List.append_assoc, List.takeWhile_append_of_pos]
    · simp
    · intro c hmem
      have hne : c ≠ '.' := by
        rintro rfl
        exact hy (List.mem_reverse.mp hmem)
      simpa using hne
  simp only [htake hv, htake hw] at hrev
  have hvw : v = w := List.reverse_injective hrev
  subst hvw
  exact ⟨List.append_cancel_right h, rfl⟩

theorem calculateAzureStorageRemotePath_fst (storePrefix path : Str) (version : ℤ) (deleteMarker : Bool) :
    (calculateAzureStorageRemotePath storePrefix path false version deleteMarker).1 =
      calculateRemotePath storePrefix path false ++
        '.' :: (if deleteMarker then 'd' else 'v') :: formatVersion version := by
  refine squashForwardSlashes_append _ ?_
  intro h
  rcases List.mem_cons.mp h with h | h
  · simp at h
  · exact notMem_remoteVersion (.inr rfl) deleteMarker version h

theorem calculateRemotePath_injective {path' : Str} (hpath : IsClean path) (hpath' : IsClean path')
    (h : calculateRemotePath storePrefix path false = calculateRemotePath storePrefix path' false) : path = path' := by
  rw [calculateRemotePath_isClean hpath, calculateRemotePath_isClean hpath'] at h
  exact List.append_cancel_left (List.append_cancel_left h)

/-- The key of a file, in one of the stores. -/
def DataKey (storePrefix key : Str) : Prop :=
  ∃ path, IsClean path ∧ (key = calculateRemotePath storePrefix path false ∨
    ∃ version deleteMarker, key = (calculateAzureStorageRemotePath storePrefix path false version deleteMarker).1)

/-- The key of a file of the program itself, in one of the stores. -/
def MetadataKey (storePrefix key : Str) : Prop :=
  ∃ path, key = calculateRemotePath storePrefix path true ∨
    ∃ version deleteMarker, key = (calculateAzureStorageRemotePath storePrefix path true version deleteMarker).1

/-- What is behind the prefix starts with the letter of `data`. -/
theorem DataKey.starts {key : Str} (h : DataKey storePrefix key) :
    squashForwardSlashes key = key ∧
      ∃ rest, key = squashForwardSlashes (storePrefix ++ ['/']) ++ 'd' :: rest := by
  obtain ⟨path, hpath, rfl | ⟨version, deleteMarker, rfl⟩⟩ := h
  · refine ⟨squashForwardSlashes_idem _, "ata".toList ++ path, ?_⟩
    exact calculateRemotePath_isClean hpath
  · refine ⟨squashForwardSlashes_idem _, "ata".toList ++ path ++
      '.' :: (if deleteMarker then 'd' else 'v') :: formatVersion version, ?_⟩
    rw [calculateAzureStorageRemotePath_fst, calculateRemotePath_isClean hpath, List.append_assoc]
    rfl

theorem MetadataKey.starts {key : Str} (h : MetadataKey storePrefix key) :
    ∃ rest, key = squashForwardSlashes (storePrefix ++ ['/']) ++ 'm' :: rest := by
  have hkey := @squashForwardSlashes_key storePrefix 'm' (by decide)
  obtain ⟨path, rfl | ⟨version, deleteMarker, rfl⟩⟩ := h
  · refine ⟨squashForwardSlashes ("etadata".toList ++ '/' :: base path), ?_⟩
    rw [calculateRemotePath, if_pos rfl, List.append_assoc]
    exact hkey _
  · refine ⟨squashForwardSlashes ("etadata".toList ++ '/' :: (base path ++
      '.' :: (if deleteMarker then 'd' else 'v') :: formatVersion version)), ?_⟩
    rw [calculateAzureStorageRemotePath, if_pos rfl]
    dsimp only
    rw [List.append_assoc]
    exact hkey _

theorem DataKey.not_metadataKey {key : Str} (h : DataKey storePrefix key) : ¬ MetadataKey storePrefix key := by
  intro hmetadata
  obtain ⟨-, rest, hrest⟩ := h.starts
  obtain ⟨rest', hrest'⟩ := hmetadata.starts
  rw [hrest] at hrest'
  exact absurd (List.cons.inj (List.append_cancel_left hrest')).1 (by decide)

/-- The key of the keystore is not squashed, but that of a file is. -/
theorem DataKey.ne_sidecarBucketKey {key : Str} (h : DataKey storePrefix key) :
    key ≠ sidecarBucketKey storePrefix := by
  rintro rfl
  obtain ⟨hsquashed, rest, hrest⟩ := h.starts
  have hsidecar := squashForwardSlashes_key storePrefix (show '.' ≠ '/' by decide)
    "cbcrypt/keystore.v1.yaml".toList
  have heq := (hsidecar.symm.trans hsquashed).trans hrest
  exact absurd (List.cons.inj (List.append_cancel_left heq)).1 (by decide)

end

/-- No two files, and no two versions of one, have the same key; and no file has a key
that the program uses for itself. -/
theorem keys_noCollision (storePrefix : Str) :
    (∀ path path' version version' deleteMarker deleteMarker', IsClean path → IsClean path' →
      (calculateAzureStorageRemotePath storePrefix path false version deleteMarker).1 =
        (calculateAzureStorageRemotePath storePrefix path' false version' deleteMarker').1 →
      path = path' ∧ version = version' ∧ deleteMarker = deleteMarker') ∧
    (∀ path path', IsClean path → IsClean path' →
      calculateRemotePath storePrefix path false = calculateRemotePath storePrefix path' false →
      path = path') ∧
    ∀ key, DataKey storePrefix key → ¬ MetadataKey storePrefix key ∧ key ≠ sidecarBucketKey storePrefix := by
  refine ⟨?_, fun _ _ hpath hpath' => calculateRemotePath_injective hpath hpath',
    fun _ hkey => ⟨hkey.not_metadataKey, hkey.ne_sidecarBucketKey⟩⟩
  intro path path' version version' deleteMarker deleteMarker' hpath hpath' h
  rw [calculateAzureStorageRemotePath_fst, calculateAzureStorageRemotePath_fst] at h
  obtain ⟨hkey, hversion⟩ := append_dot_inj (notMem_remoteVersion (.inl rfl) deleteMarker version)
    (notMem_remoteVersion (.inl rfl) deleteMarker' version') h
  obtain ⟨hletter, hnumber⟩ := List.cons.inj hversion
  refine ⟨calculateRemotePath_injective hpath hpath' hkey, formatVersion_injective hnumber, ?_⟩
  cases deleteMarker <;> cases deleteMarker' <;> simp at hletter ⊢

theorem keys_noCollision_suffix :
    IsClean "/a.v1".toList ∧ IsClean "/a".toList ∧
    (calculateAzureStorageRemotePath "p".toList "/a.v1".toList false (-2) false).1 ≠
      (calculateAzureStorageRemotePath "p".toList "/a".toList false 1 true).1 ∧
    calculateRemotePath "p//".toList "/data".toList false ≠ sidecarBucketKey "p//".toList := by
  refine ⟨by decide, by decide, ?_, ?_⟩
  · intro h
    have hpath := ((keys_noCollision "p".toList).1 _ _ _ _ _ _ (by decide) (by decide) h).1
    exact absurd hpath (by decide)
  · exact ((keys_noCollision "p//".toList).2.2 _ ⟨"/data".toList, by decide, .inl rfl⟩).2

end CloudBackup.ObjectStore.Keys
