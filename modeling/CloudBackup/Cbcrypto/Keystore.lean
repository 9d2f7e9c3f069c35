import CloudBackup.Cbcrypto.Format

/-!
Package `keystore`: the sidecar, a small YAML file that holds the salt, the KDF
parameters, the keystore UUID and the verifier of a target.

YAML, base64 and argon2id are the three functions of `Codec`, with what the
package relies on. The random values of `NewWithParams` are its arguments.
-/

namespace CloudBackup.Keystore

open Cbcrypto

def currentVersion : ℤ := 1

def kdfAlgorithmArgon2id : String := "argon2id"

def verifierPlaintextSize : ℕ := 16

def verifierCiphertextSize : ℕ := verifierPlaintextSize + tagSize

def saltSize : ℕ := 32

def verifierPlaintext : Bytes := List.replicate verifierPlaintextSize 0

structure KDFParams where
  time : ℕ
  memory : ℕ
  threads : ℕ
  deriving DecidableEq, Repr

def defaultKDFParams : KDFParams := ⟨3, 64 * 1024, 4⟩

structure KDFConfig where
  algorithm : String
  time : ℕ
  memoryKiB : ℕ
  threads : ℕ
  salt : String
  deriving DecidableEq, Repr

structure Verifier where
  nonce : String
  ciphertext : String
  deriving DecidableEq, Repr

structure Sidecar where
  version : ℤ
  keystoreUUID : String
  kdf : KDFConfig
  verifier : Verifier
  deriving DecidableEq, Repr

inductive Field
  | keystoreUUID
  | salt
  | verifierNonce
  | verifierCiphertext
  deriving DecidableEq, Repr

inductive KeystoreErr
  | emptyPassword
  | yamlParse
  | unsupportedVersion (v : ℤ)
  | unsupportedAlgorithm (a : String)
  | kdfParametersZero
  | decode (field : Field)
  | length (field : Field) (n : ℕ)
  | cipherKeyLength (n : ℕ)
  | wrongPassword
  | verifierPlaintextLength (n : ℕ)
  | yamlMarshal
  deriving DecidableEq, Repr

/-- What the package takes from elsewhere: the cipher, the two encodings, and
argon2id, which returns a key of the length it is asked for. -/
structure Codec where
  aead : LawfulAead
  yamlMarshal : Sidecar → Option Bytes
  yamlUnmarshal : Bytes → Option Sidecar
  yaml_round_trip : ∀ sc b, yamlMarshal sc = some b → yamlUnmarshal b = some sc
  encodeToString : Bytes → String
  decodeString : String → Option Bytes
  base64_round_trip : ∀ b, decodeString (encodeToString b) = some b
  idKey : Bytes → Bytes → KDFParams → Bytes
  length_idKey : ∀ password salt params, (idKey password salt params).length = kekSize

variable (C : Codec)

def deriveKEK (password salt : Bytes) (params : KDFParams) : Bytes := C.idKey password salt params

/-- The random values of one call of `NewWithParams`. -/
structure Draws where
  salt : Block saltSize
  uuid : Block keystoreUUIDSize
  verifierNonce : Block nonceSize

def sealVerifier (kek : Bytes) (nonce : Block nonceSize) : Except KeystoreErr Bytes :=
  if !cipherKeyOk kek then .error (.cipherKeyLength kek.length)
  else .ok (C.aead.sealed kek nonce.1 verifierPlaintext)

def newWithParams (password : Bytes) (params : KDFParams) (rand : Draws) :
    Except KeystoreErr (Sidecar × Bytes) :=
  if password = [] then .error .emptyPassword
  else
    let kek := deriveKEK C password rand.salt.1 params
    match sealVerifier C kek rand.verifierNonce with
    | .error e => .error e
    | .ok ct =>
        .ok ({
          version := currentVersion
          keystoreUUID := C.encodeToString rand.uuid.1
          kdf := {
            algorithm := kdfAlgorithmArgon2id
            time := params.time
            memoryKiB := params.memory
            threads := params.threads
            salt := C.encodeToString rand.salt.1 }
          verifier := {
            nonce := C.encodeToString rand.verifierNonce.1
            ciphertext := C.encodeToString ct } }, kek)

def new (password : Bytes) (rand : Draws) : Except KeystoreErr (Sidecar × Bytes) :=
  newWithParams C password defaultKDFParams rand

def Sidecar.marshal (sc : Sidecar) : Except KeystoreErr Bytes :=
  match C.yamlMarshal sc with
  | some b => .ok b
  | none => .error .yamlMarshal

def decodeField (field : Field) (ok : ℕ → Bool) (text : String) : Except KeystoreErr Bytes :=
  match C.decodeString text with
  | none => .error (.decode field)
  | some raw => if ok raw.length then .ok raw else .error (.length field raw.length)

def Sidecar.keystoreUUIDBytes (sc : Sidecar) : Except KeystoreErr (Block keystoreUUIDSize) :=
  match C.decodeString sc.keystoreUUID with
  | none => .error (.decode .keystoreUUID)
  | some raw =>
      if h : raw.length = keystoreUUIDSize then .ok ⟨raw, h⟩
      else .error (.length .keystoreUUID raw.length)

def Sidecar.saltBytes (sc : Sidecar) : Except KeystoreErr Bytes :=
  decodeField C .salt (16 ≤ ·) sc.kdf.salt

def Sidecar.verifierNonceBytes (sc : Sidecar) : Except KeystoreErr Bytes :=
  decodeField C .verifierNonce (· == nonceSize) sc.verifier.nonce

def Sidecar.verifierCiphertextBytes (sc : Sidecar) : Except KeystoreErr Bytes :=
  decodeField C .verifierCiphertext (· == verifierCiphertextSize) sc.verifier.ciphertext

def Sidecar.kdfParams (sc : Sidecar) : KDFParams := ⟨sc.kdf.time, sc.kdf.memoryKiB, sc.kdf.threads⟩

def Sidecar.validate (sc : Sidecar) : Except KeystoreErr Unit := do
  if sc.version ≠ currentVersion then throw (.unsupportedVersion sc.version)
  if sc.kdf.algorithm ≠ kdfAlgorithmArgon2id then throw (.unsupportedAlgorithm sc.kdf.algorithm)
  if sc.kdf.time = 0 ∨ sc.kdf.memoryKiB = 0 ∨ sc.kdf.threads = 0 then throw .kdfParametersZero
  let _ ← sc.keystoreUUIDBytes C
  let _ ← sc.saltBytes C
  let _ ← sc.verifierNonceBytes C
  let _ ← sc.verifierCiphertextBytes C

def unmarshal (b : Bytes) : Except KeystoreErr Sidecar :=
  match C.yamlUnmarshal b with
  | none => .error .yamlParse
  | some sc => do
      sc.validate C
      return sc

def openVerifier (kek nonce ct : Bytes) : Except KeystoreErr Bytes :=
  if !cipherKeyOk kek then .error (.cipherKeyLength kek.length)
  else
    match C.aead.open? kek nonce ct with
    | none => .error .wrongPassword
    | some pt =>
        if pt.length ≠ verifierPlaintextSize then .error (.verifierPlaintextLength pt.length)
        else if pt.all (· == 0) then .ok kek
        else .error .wrongPassword

def Sidecar.deriveAndVerify (sc : Sidecar) (password : Bytes) : Except KeystoreErr Bytes :=
  if password = [] then .error .emptyPassword
  else do
    let salt ← sc.saltBytes C
    let nonce ← sc.verifierNonceBytes C
    let ct ← sc.verifierCiphertextBytes C
    openVerifier C (deriveKEK C password salt sc.kdfParams) nonce ct

/-! ### What the functions establish -/

/-- The key that `password` derives with the salt and the parameters of a
sidecar. -/
def Derives (sc : Sidecar) (password kek : Bytes) : Prop :=
  ∃ salt, sc.saltBytes C = .ok salt ∧ kek = deriveKEK C password salt sc.kdfParams

def IsKEK (kek : Bytes) : Prop := ∃ password salt params, kek = deriveKEK C password salt params

/-- The verifier of a sidecar was sealed under `kek`. -/
def SealedBy (sc : Sidecar) (kek : Bytes) : Prop :=
  IsKEK C kek ∧ ∃ nonce, sc.verifierNonceBytes C = .ok nonce ∧
    sc.verifierCiphertextBytes C = .ok (C.aead.sealed kek nonce verifierPlaintext)

def VerifierBinds : Prop :=
  ∀ kek kek' nonce pt, IsKEK C kek → IsKEK C kek' → nonce.length = nonceSize →
    C.aead.open? kek' nonce (C.aead.sealed kek nonce verifierPlaintext) = some pt → kek' = kek

theorem decodeField_encode {field : Field} {ok : ℕ → Bool} {b : Bytes} (h : ok b.length = true) :
    decodeField C field ok (C.encodeToString b) = .ok b := by
  simp [decodeField, C.base64_round_trip, h]

theorem length_verifierNonceBytes {sc : Sidecar} {nonce : Bytes}
    (h : sc.verifierNonceBytes C = .ok nonce) : nonce.length = nonceSize := by
  unfold Sidecar.verifierNonceBytes decodeField at h
  split at h
  · simp at h
  · split at h
    · rename_i hlen
      rw [← Except.ok.inj h]
      simpa using hlen
    · simp at h

/-- What `NewWithParams` makes with parameters that `validate` accepts is read
back from its YAML form, and belongs to the key that it returns. -/
theorem new_spec {password : Bytes} {rand : Draws} {sc : Sidecar} {kek : Bytes}
    (h : new C password rand = .ok (sc, kek)) :
    password ≠ [] ∧ Derives C sc password kek ∧ SealedBy C sc kek ∧
      sc.keystoreUUIDBytes C = .ok rand.uuid ∧
      ∀ b, sc.marshal C = .ok b → unmarshal C b = .ok sc := by
  unfold new newWithParams at h
  by_cases hp : password = []
  · simp [hp] at h
  · rw [if_neg hp] at h
    have hkey : cipherKeyOk (deriveKEK C password rand.salt.1 defaultKDFParams) = true := by
      simp [cipherKeyOk, deriveKEK, C.length_idKey, kekSize]
    simp only [sealVerifier, hkey, Bool.not_true, Bool.false_eq_true, if_false, Except.ok.injEq,
      Prod.mk.injEq] at h
    obtain ⟨rfl, rfl⟩ := h
    have hsalt : decodeField C .salt (16 ≤ ·) (C.encodeToString rand.salt.1) = .ok rand.salt.1 :=
      decodeField_encode C (by simp [rand.salt.2, saltSize])
    have hnonce : decodeField C .verifierNonce (· == nonceSize)
        (C.encodeToString rand.verifierNonce.1) = .ok rand.verifierNonce.1 :=
      decodeField_encode C (by simp [rand.verifierNonce.2])
    have hct : ∀ kek, decodeField C .verifierCiphertext (· == verifierCiphertextSize)
        (C.encodeToString (C.aead.sealed kek rand.verifierNonce.1 verifierPlaintext)) =
          .ok (C.aead.sealed kek rand.verifierNonce.1 verifierPlaintext) := fun kek =>
      decodeField_encode C (by
        rw [C.aead.length_seal, beq_iff_eq, verifierPlaintext, List.length_replicate]
        rfl)
    have huuid : ∀ version kdf verifier, Sidecar.keystoreUUIDBytes C
        ⟨version, C.encodeToString rand.uuid.1, kdf, verifier⟩ = .ok rand.uuid := by
      intro version kdf verifier
      simp [Sidecar.keystoreUUIDBytes, C.base64_round_trip, rand.uuid.2]
    refine ⟨hp, ⟨rand.salt.1, hsalt, rfl⟩,
      ⟨⟨password, rand.salt.1, _, rfl⟩, rand.verifierNonce.1, hnonce, hct _⟩, huuid _ _ _, fun b hb => ?_⟩
    unfold Sidecar.marshal at hb
    split at hb
    · rename_i b' hb'
      obtain rfl := Except.ok.inj hb
      simp only [unmarshal, C.yaml_round_trip _ _ hb', Sidecar.validate,
        huuid, Sidecar.saltBytes, Sidecar.verifierNonceBytes,
        Sidecar.verifierCiphertextBytes, hsalt, hnonce, hct]
      rfl
    · simp at hb

/-- `DeriveAndVerify` returns the derived key, and the verifier opens under it. -/
theorem deriveAndVerify_spec {sc : Sidecar} {password kek : Bytes}
    (h : sc.deriveAndVerify C password = .ok kek) :
    Derives C sc password kek ∧ ∃ nonce ct pt, sc.verifierNonceBytes C = .ok nonce ∧
      sc.verifierCiphertextBytes C = .ok ct ∧ C.aead.open? kek nonce ct = some pt := by
  unfold Sidecar.deriveAndVerify at h
  by_cases hp : password = []
  · simp [hp] at h
  · rw [if_neg hp] at h
    cases hsalt : sc.saltBytes C with
    | error e => simp [hsalt, bind, Except.bind] at h
    | ok salt =>
        cases hnonce : sc.verifierNonceBytes C with
        | error e => simp [hsalt, hnonce, bind, Except.bind] at h
        | ok nonce =>
            cases hct : sc.verifierCiphertextBytes C with
            | error e => simp [hsalt, hnonce, hct, bind, Except.bind] at h
            | ok ct =>
                simp only [hsalt, hnonce, hct, bind, Except.bind, openVerifier] at h
                split at h
                · simp at h
                · split at h
                  · simp at h
                  · rename_i pt hpt
                    split at h
                    · simp at h
                    · split at h
                      · obtain rfl := Except.ok.inj h
                        exact ⟨⟨salt, hsalt, rfl⟩, nonce, ct, pt, rfl, rfl, hpt⟩
                      · simp at h

/-- Under a binding verifier, only the key that sealed the sidecar is returned. -/
theorem deriveAndVerify_sealedBy (hbind : VerifierBinds C) {sc : Sidecar}
    {password kek kek' : Bytes} (h : sc.deriveAndVerify C password = .ok kek')
    (hs : SealedBy C sc kek) : kek' = kek := by
  obtain ⟨⟨salt, -, hkek⟩, nonce, ct, pt, hnonce, hct, hopen⟩ := deriveAndVerify_spec C h
  obtain ⟨hlen, nonce', hnonce', hct'⟩ := hs
  rw [hnonce] at hnonce'
  rw [hct] at hct'
  obtain rfl := Except.ok.inj hnonce'
  obtain rfl := Except.ok.inj hct'
  exact hbind kek kek' nonce pt hlen ⟨_, _, _, hkek⟩ (length_verifierNonceBytes C hnonce) hopen

end CloudBackup.Keystore
