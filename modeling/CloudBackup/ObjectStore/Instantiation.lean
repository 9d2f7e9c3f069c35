import CloudBackup.Config.LogError
import CloudBackup.ObjectStore.RateLimiter
import CloudBackup.ObjectStore.Store

/-!
`GetObjectStores` makes an object store for each target of a backup. It looks for the type
exactly as it is written, and the validation looks for it in whichever case. So a target
without parameters passes in a spelling of its own, and then there is no store for it.

The constructors of the stores begin with the rate limit; what they do after that is a parameter.
-/

namespace CloudBackup.ObjectStore

open Config Checks Casing RateLimiter

/-! ### The dispatch -/

def storeKind (type : Str) : Option StoreKind :=
  if type = testNull then some .testNull
  else if type = awsS3 then some .awsS3
  else if type = gcpStorage then some .gcpStorage
  else if type = azureBlob then some .azureBlob
  else none

inductive InstantiationErr
  | couldNotConvertRate
  | unknownTarget (text : Str)
  /-- From what a constructor does after the rate limit. -/
  | store (text : Str)
  deriving DecidableEq, Repr

def unknownTargetText (type backupName : Str) : Str :=
  "unknown target of type '".toList ++ type ++ "' for backup job '".toList ++ backupName ++ "'".toList

abbrev Constructors (σ : Type) := StoreKind → ConfigBackup → ConfigBackupTarget → Setup → Except Str σ

section

variable {σ : Type} (parseBytes : Str → Option ℕ) (construct : Constructors σ)

/-- `InitialiseStoreTestNull`, `InitialiseStoreAwsS3`, `InitialiseStoreGcpStorage` and
`InitialiseStoreAzureBlob`. -/
def initialiseStore (kind : StoreKind) (backupConfig : ConfigBackup) (target : ConfigBackupTarget) :
    Except InstantiationErr σ :=
  match setupRateLimiterBucket parseBytes target.rateLimit with
  | .error _ => .error .couldNotConvertRate
  | .ok setup =>
      match construct kind backupConfig target setup with
      | .error text => .error (.store text)
      | .ok store => .ok store

def getObjectStore (backupConfig : ConfigBackup) (backupTarget : ConfigBackupTarget) : Except InstantiationErr σ :=
  match storeKind backupTarget.type with
  | some kind => initialiseStore parseBytes construct kind backupConfig backupTarget
  | none => .error (.unknownTarget (unknownTargetText backupTarget.type backupConfig.name))

def getObjectStoresFrom (backupConfig : ConfigBackup) :
    List ConfigBackupTarget → List σ → List σ × Option InstantiationErr
  | [], results => (results, none)
  | backupTarget :: rest, results =>
      match getObjectStore parseBytes construct backupConfig backupTarget with
      | .error e => (results, some e)
      | .ok store => getObjectStoresFrom backupConfig rest (results ++ [store])

def getObjectStores (backupConfig : ConfigBackup) : List σ × Option InstantiationErr :=
  getObjectStoresFrom parseBytes construct backupConfig backupConfig.target []

end

/-! ### What is accepted -/

def withParser (env : Env) (parseBytes : Str → Option ℕ) : Env :=
  { env with parseBytes := fun s => (parseBytes s).isSome }

/-- `ValidateBackupTarget` accepts the targets of the backup. -/
def Accepted (env : Env) (texts : LogError.Texts) (parseBytes : Str → Option ℕ) (logError : Bool)
    (backup : ConfigBackup) : Prop :=
  LogError.validateBackupTarget (withParser env parseBytes) texts logError backup.target backup.name = .ok ()

/-- Whatever the constructors do, there is never a type that is not known nor a rate limit that
cannot be converted; and if no constructor fails, each target has the store that one made for it. -/
structure Instantiates (parseBytes : Str → Option ℕ) (backup : ConfigBackup) : Prop where
  known : ∀ (σ : Type) (construct : Constructors σ) text,
    (getObjectStores parseBytes construct backup).2 ≠ some (.unknownTarget text)
  rate : ∀ (σ : Type) (construct : Constructors σ),
    (getObjectStores parseBytes construct backup).2 ≠ some .couldNotConvertRate
  dispatched : ∀ (σ : Type) (construct : StoreKind → ConfigBackup → ConfigBackupTarget → Setup → σ),
    ∃ stores, getObjectStores parseBytes (fun kind b t s => .ok (construct kind b t s)) backup = (stores, none) ∧
      List.Forall₂ (fun target store => ∃ kind setup, storeKind target.type = some kind ∧
        setupRateLimiterBucket parseBytes target.rateLimit = .ok setup ∧
        store = construct kind backup target setup) backup.target stores

theorem storeKind_eq_none_iff {type : Str} : storeKind type = none ↔ type ∉ backupTargetTypes := by
  have htypes : type ∈ backupTargetTypes ↔ type = awsS3 ∨ type = gcpStorage ∨ type = azureBlob ∨ type = testNull := by
    simp [backupTargetTypes]
  rw [htypes, storeKind]
  split_ifs <;> simp_all

def Convertible (parseBytes : Str → Option ℕ) (target : ConfigBackupTarget) : Prop :=
  ∃ setup, setupRateLimiterBucket parseBytes target.rateLimit = .ok setup

section

variable {env : Env} {texts : LogError.Texts} {parseBytes : Str → Option ℕ} {logError : Bool} {backup : ConfigBackup}

theorem convertible_iff {target : ConfigBackupTarget} :
    Convertible parseBytes target ↔ (parseBytes target.rateLimit).isSome = true := by
  rw [Convertible, setupRateLimiterBucket]
  cases parseBytes target.rateLimit with
  | none => simp
  | some n => simp

theorem Accepted.convertible (h : Accepted env texts parseBytes logError backup) :
    ∀ target ∈ backup.target, Convertible parseBytes target := by
  intro target htarget
  rw [Accepted, LogError.validateBackupTarget, forAllNamed_ok (fun _ _ _ => id)] at h
  have hchecks := h.2 target htarget
  simp only [LogError.validateTarget, LogError.validateBeforeParameters, andThen_ok, require_ok] at hchecks
  exact convertible_iff.mpr hchecks.1.2.1

variable {σ : Type} {construct : Constructors σ} {l : List ConfigBackupTarget}

theorem getObjectStore_eq {target : ConfigBackupTarget} {kind : StoreKind} {setup : Setup}
    (hkind : storeKind target.type = some kind)
    (hsetup : setupRateLimiterBucket parseBytes target.rateLimit = .ok setup) :
    getObjectStore parseBytes construct backup target = (construct kind backup target setup).mapError .store := by
  simp only [getObjectStore, hkind, initialiseStore, hsetup]
  cases construct kind backup target setup <;> rfl

/-- Of targets with known types, only a constructor has an error. -/
theorem getObjectStoresFrom_err (hkinds : ∀ t ∈ l, storeKind t.type ≠ none) (hrates : ∀ t ∈ l, Convertible parseBytes t)
    (results : List σ) : ∀ e, (getObjectStoresFrom parseBytes construct backup l results).2 = some e →
      ∃ text, e = .store text := by
  induction l generalizing results with
  | nil => exact fun e h => by cases h
  | cons t l ih =>
      rw [List.forall_mem_cons] at hkinds hrates
      obtain ⟨kind, hkind⟩ := Option.ne_none_iff_exists'.mp hkinds.1
      obtain ⟨setup, hsetup⟩ := hrates.1
      intro e h
      rw [getObjectStoresFrom, getObjectStore_eq hkind hsetup] at h
      cases hstore : construct kind backup t setup with
      | error text =>
          rw [hstore] at h
          exact ⟨text, (Option.some.inj h).symm⟩
      | ok store =>
          rw [hstore] at h
          exact ih hkinds.2 hrates.2 _ e h

/-- A type that is not known is an error, whatever its case. -/
theorem getObjectStoresFrom_unknown (hrates : ∀ t ∈ l, Convertible parseBytes t)
    (hunknown : ∃ t ∈ l, storeKind t.type = none) (results : List Unit) :
    ∃ text, (getObjectStoresFrom parseBytes (fun _ _ _ _ => .ok ()) backup l results).2 =
      some (.unknownTarget text) := by
  induction l generalizing results with
  | nil => exact absurd hunknown (by simp)
  | cons t l ih =>
      rw [List.forall_mem_cons] at hrates
      rw [List.exists_mem_cons_iff] at hunknown
      cases hkind : storeKind t.type with
      | none => exact ⟨_, by rw [getObjectStoresFrom, getObjectStore, hkind]⟩
      | some kind =>
          obtain ⟨setup, hsetup⟩ := hrates.1
          rw [getObjectStoresFrom, getObjectStore_eq hkind hsetup]
          exact ih hrates.2 (hunknown.resolve_left (by simp [hkind])) _

theorem getObjectStoresFrom_ok (construct : StoreKind → ConfigBackup → ConfigBackupTarget → Setup → σ)
    (hkinds : ∀ t ∈ l, storeKind t.type ≠ none) (hrates : ∀ t ∈ l, Convertible parseBytes t) (results : List σ) :
    ∃ stores, getObjectStoresFrom parseBytes (fun kind b t s => .ok (construct kind b t s)) backup l results =
        (results ++ stores, none) ∧
      List.Forall₂ (fun target store => ∃ kind setup, storeKind target.type = some kind ∧
        setupRateLimiterBucket parseBytes target.rateLimit = .ok setup ∧
        store = construct kind backup target setup) l stores := by
  induction l generalizing results with
  | nil => exact ⟨[], by rw [getObjectStoresFrom, List.append_nil], .nil⟩
  | cons t l ih =>
      rw [List.forall_mem_cons] at hkinds hrates
      obtain ⟨kind, hkind⟩ := Option.ne_none_iff_exists'.mp hkinds.1
      obtain ⟨setup, hsetup⟩ := hrates.1
      obtain ⟨stores, hloop, hstores⟩ := ih hkinds.2 hrates.2 (results ++ [construct kind backup t setup])
      refine ⟨construct kind backup t setup :: stores, ?_, .cons ⟨kind, setup, hkind, hsetup, rfl⟩ hstores⟩
      rw [getObjectStoresFrom, getObjectStore_eq hkind hsetup, Except.mapError]
      dsimp only
      rw [hloop, List.append_assoc]
      rfl

/-- Accepted targets can be instantiated just when each type is written as the dispatch has it. -/
theorem accepted_instantiates_iff (h : Accepted env texts parseBytes logError backup) :
    Instantiates parseBytes backup ↔ ∀ target ∈ backup.target, target.type ∈ backupTargetTypes := by
  have hrates := h.convertible
  constructor
  · intro hinst target htarget
    by_contra htype
    have hunknown : ∃ t ∈ backup.target, storeKind t.type = none :=
      ⟨target, htarget, storeKind_eq_none_iff.mpr htype⟩
    obtain ⟨text, htext⟩ : ∃ text, (getObjectStores parseBytes (fun _ _ _ _ => .ok ()) backup).2 =
        some (.unknownTarget text) := getObjectStoresFrom_unknown hrates hunknown []
    exact hinst.known Unit _ text htext
  · intro htypes
    have hkinds : ∀ t ∈ backup.target, storeKind t.type ≠ none := fun t ht hnone =>
      storeKind_eq_none_iff.mp hnone (htypes t ht)
    constructor
    · intro σ construct text herr
      obtain ⟨text', h'⟩ := getObjectStoresFrom_err hkinds hrates [] _ herr
      cases h'
    · intro σ construct herr
      obtain ⟨text', h'⟩ := getObjectStoresFrom_err hkinds hrates [] _ herr
      cases h'
    · intro σ construct
      exact getObjectStoresFrom_ok construct hkinds hrates []

/-- With the flag, a type with parameters is accepted only as it is written in the dispatch. -/
theorem Accepted.type_mem (h : Accepted env texts parseBytes true backup) {target : ConfigBackupTarget}
    (htarget : target ∈ backup.target) (hparameters : target.parameters ≠ []) : target.type ∈ backupTargetTypes := by
  rw [Accepted, LogError.validateBackupTarget, forAllNamed_ok (fun _ _ _ => id)] at h
  have hchecks := h.2 target htarget
  simp only [LogError.validateTarget, if_true, andThen_ok, LogError.validateParameters, under_ok,
    validateBackupTargetParameters, if_neg hparameters, validateParametersForType] at hchecks
  by_contra htype
  simp only [backupTargetTypes, List.mem_cons, List.not_mem_nil, or_false, not_or] at htype
  obtain ⟨haws, hgcp, hazure, htest⟩ := htype
  rw [if_neg htest, if_neg haws, if_neg hgcp, if_neg hazure] at hchecks
  cases hchecks.2.2

end

/-! ### Two spellings -/

def parseZero (s : Str) : Option ℕ := if s = ['0'] then some 0 else none

def backupTo (type : Str) : ConfigBackup where
  name := "backup".toList
  target := [{ name := "target".toList, type }]

theorem accepted_instantiates_awsS3 : Instantiates parseZero (backupTo awsS3) := by
  have haccepted : Accepted smallEnv LogError.silentTexts parseZero true (backupTo awsS3) := by
    rw [Accepted]
    decide
  exact (accepted_instantiates_iff haccepted).mpr (by decide)

/-- The type is accepted in capitals, and then it is not known. -/
theorem accepted_unknownTarget : ¬ ∀ env texts parseBytes logError backup,
    Accepted env texts parseBytes logError backup → Instantiates parseBytes backup := by
  intro h
  have haccepted : Accepted smallEnv LogError.silentTexts parseZero true (backupTo "AWS_S3".toList) := by
    rw [Accepted]
    decide
  have hinst := h smallEnv LogError.silentTexts parseZero true _ haccepted
  exact hinst.known Unit (fun _ _ _ _ => .ok ()) (unknownTargetText "AWS_S3".toList "backup".toList) (by decide)

end CloudBackup.ObjectStore
