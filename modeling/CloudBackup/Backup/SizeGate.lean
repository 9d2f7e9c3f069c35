import CloudBackup.Backup.Record
import CloudBackup.Cbcrypto.Size

/-!
The check of sizes before an upload, against what an upload can store. There
are three numbers that have to agree: the size on the wire, which the check
computes as an `int64`, the cap of the store, and the limits of the request that
its upload makes.
-/

namespace CloudBackup.Backup

open Cbcrypto Database ObjectStore

/-- The exact number of bytes that an upload of a file of `n` bytes sends. -/
def wireSize (encrypted : Bool) (n : ℕ) : ℕ := if encrypted then streamSize n else n

def azureBlockSize : ℕ := 5 * 1024 * 1024

def azureMaxBlocks : ℕ := 50000

/-- An upload of `w` bytes stays within the limits of the service: a single PUT
for S3 with encryption, multipart without it, and blocks of a fixed size for
Azure. The test store has no limit. -/
def Storable (kind : StoreKind) (encrypted : Bool) (w : ℕ) : Prop :=
  match kind with
  | .awsS3 => w ≤ if encrypted then 5 * 1024 ^ 3 else 5 * 1024 ^ 4
  | .gcpStorage => w ≤ 5 * 1024 ^ 4
  | .azureBlob => (w + (azureBlockSize - 1)) / azureBlockSize ≤ azureMaxBlocks
  | .testNull => True

/-- The file is let through exactly if it is not larger than the cap, and then
it can be stored. -/
def GateAgrees (rec : Record) (cfg : ConfigBackup) (st : Store) (n : ℕ) : Prop :=
  let encrypted := cfg.encrypt && !rec.skipEncryption
  (preUploadSizeCheck rec cfg st = false ↔ (wireSize encrypted n : ℤ) ≤ st.maxObjectSize encrypted) ∧
    (preUploadSizeCheck rec cfg st = false → Storable st.kind encrypted (wireSize encrypted n))

theorem maxObjectSize_bounds (st : Store) (encrypted : Bool) :
    0 ≤ st.maxObjectSize encrypted ∧ st.maxObjectSize encrypted < 2 ^ 63 := by
  rw [Store.maxObjectSize]
  cases st.kind <;> cases encrypted <;> decide

/-- The check in terms of the size that it computes. -/
theorem preUploadSizeCheck_eq_false {rec : Record} {cfg : ConfigBackup} {st : Store}
    (htype : rec.props.type = .file) :
    preUploadSizeCheck rec cfg st = false ↔
      (if cfg.encrypt && !rec.skipEncryption then encryptedSize rec.props.size
        else rec.props.size) ≤ st.maxObjectSize (cfg.encrypt && !rec.skipEncryption) := by
  rw [preUploadSizeCheck, if_neg (by simp [htype]), decide_eq_false_iff_not, Int.not_lt]

/-- The size of the stream of an `int64` is at most one wrap away. -/
theorem streamSize_lt {n : ℕ} (hn : n < 2 ^ 63) : streamSize n < 2 ^ 64 := by
  simp only [streamSize, headerSize, tagSize, chunkCount, chunkSize]
  omega

theorem encryptedSize_neg {n : ℕ} (hn : n < 2 ^ 63) (h : 2 ^ 63 ≤ streamSize n) :
    encryptedSize n < 0 := by
  have hlt := streamSize_lt hn
  rw [encryptedSize_eq_bmod, Int.bmod_def]
  omega

theorem preUploadSizeCheck_exact {rec : Record} {cfg : ConfigBackup} {st : Store} {n : ℕ}
    (hsize : rec.props.size = n) (htype : rec.props.type = .file)
    (hfits : (cfg.encrypt && !rec.skipEncryption) = true → streamSize n < 2 ^ 63) :
    preUploadSizeCheck rec cfg st = false ↔
      (wireSize (cfg.encrypt && !rec.skipEncryption) n : ℤ) ≤
        st.maxObjectSize (cfg.encrypt && !rec.skipEncryption) := by
  rw [preUploadSizeCheck_eq_false htype, hsize]
  cases henc : cfg.encrypt && !rec.skipEncryption with
  | false => simp [wireSize]
  | true => simp [wireSize, encryptedSize_eq (hfits henc)]

theorem preUploadSizeCheck_wraps {rec : Record} {cfg : ConfigBackup} {st : Store} {n : ℕ}
    (hn : n < 2 ^ 63) (hsize : rec.props.size = n) (htype : rec.props.type = .file)
    (henc : (cfg.encrypt && !rec.skipEncryption) = true) (h : 2 ^ 63 ≤ streamSize n) :
    preUploadSizeCheck rec cfg st = false := by
  rw [preUploadSizeCheck_eq_false htype, hsize, henc, if_pos rfl]
  have := encryptedSize_neg hn h
  have := (maxObjectSize_bounds st true).1
  omega

/-- Apart from Azure, the cap of a store is the limit of its uploads. -/
theorem storable_of_le_maxObjectSize {st : Store} {encrypted : Bool} {w : ℕ}
    (hkind : st.kind ≠ .azureBlob) (h : (w : ℤ) ≤ st.maxObjectSize encrypted) :
    Storable st.kind encrypted w := by
  rw [Store.maxObjectSize] at h
  cases hk : st.kind with
  | azureBlob => exact absurd hk hkind
  | testNull => trivial
  | gcpStorage =>
      simp only [hk] at h
      simp only [Storable]
      omega
  | awsS3 =>
      simp only [hk] at h
      simp only [Storable]
      split at h <;> rename_i henc
      · rw [if_pos henc]
        omega
      · rw [if_neg henc]
        omega

theorem storable_azureBlob_iff (encrypted : Bool) (w : ℕ) :
    Storable .azureBlob encrypted w ↔ w ≤ azureMaxBlocks * azureBlockSize := by
  simp only [Storable, azureMaxBlocks, azureBlockSize]
  omega

/-- The check agrees with the uploads unless the size on the wire is no `int64`,
or the target is Azure and the size is between what 50000 blocks of 5 MiB hold
and the cap of 190 TiB. -/
theorem gateAgrees_iff (rec : Record) (cfg : ConfigBackup) (st : Store) (n : ℕ) (hn : n < 2 ^ 63)
    (hsize : rec.props.size = n) (htype : rec.props.type = .file) :
    GateAgrees rec cfg st n ↔
      ((cfg.encrypt && !rec.skipEncryption) = true → streamSize n < 2 ^ 63) ∧
      (st.kind = .azureBlob →
        wireSize (cfg.encrypt && !rec.skipEncryption) n ≤ azureMaxBlocks * azureBlockSize ∨
        190 * 1024 ^ 4 < wireSize (cfg.encrypt && !rec.skipEncryption) n) := by
  rw [GateAgrees]
  constructor
  · rintro ⟨hgate, hstore⟩
    have hfits : (cfg.encrypt && !rec.skipEncryption) = true → streamSize n < 2 ^ 63 := by
      intro henc
      by_contra hge
      have hle := hgate.mp
        (preUploadSizeCheck_wraps hn hsize htype henc (Nat.le_of_not_lt hge))
      have hcap := (maxObjectSize_bounds st (cfg.encrypt && !rec.skipEncryption)).2
      rw [henc] at hle hcap
      simp only [wireSize, if_true] at hle
      omega
    refine ⟨hfits, fun hkind => ?_⟩
    by_cases hle : (wireSize (cfg.encrypt && !rec.skipEncryption) n : ℤ) ≤
        st.maxObjectSize (cfg.encrypt && !rec.skipEncryption)
    · left
      have := hstore (hgate.mpr hle)
      rwa [hkind, storable_azureBlob_iff] at this
    · right
      rw [Store.maxObjectSize, hkind] at hle
      dsimp only at hle
      omega
  · rintro ⟨hfits, hazure⟩
    have hexact : preUploadSizeCheck rec cfg st = false ↔
        (wireSize (cfg.encrypt && !rec.skipEncryption) n : ℤ) ≤
          st.maxObjectSize (cfg.encrypt && !rec.skipEncryption) :=
      preUploadSizeCheck_exact hsize htype hfits
    refine ⟨hexact, fun hpass => ?_⟩
    have hle := hexact.mp hpass
    by_cases hkind : st.kind = .azureBlob
    · rw [hkind, storable_azureBlob_iff]
      rw [Store.maxObjectSize, hkind] at hle
      dsimp only at hle
      rcases hazure hkind with h | h
      · exact h
      · omega
    · exact storable_of_le_maxObjectSize hkind hle

def fileOfSize (size : ℤ) : Record :=
  ⟨"/data/image".toList, ⟨.file, [], size, 1, 1, [], [], [], [], false⟩, "job".toList, false⟩

def plainBackup (encrypt : Bool) : ConfigBackup := ⟨false, encrypt, [], []⟩

/-- Five gibibytes do not fit into a single PUT once they are encrypted, and the
check says so. -/
theorem gateAgrees_five_gib :
    GateAgrees (fileOfSize (5 * 1024 ^ 3 : ℕ)) (plainBackup true) (plainStore .awsS3) (5 * 1024 ^ 3) ∧
      preUploadSizeCheck (fileOfSize (5 * 1024 ^ 3 : ℕ)) (plainBackup true) (plainStore .awsS3) =
        true := by
  refine ⟨(gateAgrees_iff _ _ _ (5 * 1024 ^ 3) (by decide) rfl rfl).mpr ⟨by decide, by decide⟩, ?_⟩
  decide

/-- A file of 300 GiB is let through to Azure, where it needs more than 50000
blocks; the largest files are let through to every store when they are
encrypted. -/
theorem not_gateAgrees_azureBlob :
    ¬ GateAgrees (fileOfSize (300 * 1024 ^ 3 : ℕ)) (plainBackup false) (plainStore .azureBlob)
        (300 * 1024 ^ 3) ∧
      ¬ GateAgrees (fileOfSize (2 ^ 63 - 1 : ℕ)) (plainBackup true) (plainStore .awsS3)
        (2 ^ 63 - 1) := by
  constructor
  · intro h
    have hstored := h.2 (by decide)
    revert hstored
    simp only [Storable, plainStore]
    decide
  · intro h
    have hle := h.1.mp (by decide)
    revert hle
    decide

end CloudBackup.Backup
