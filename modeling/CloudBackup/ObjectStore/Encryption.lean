import CloudBackup.Cbcrypto.Keystore
import CloudBackup.Library.Resumption

/-!
The keystore lifecycle of a target. `runEncryptionInit` fetches the sidecar or
creates it, and settles a lost race by adopting the winner's. It reaches the
bucket through two requests, so it is a program in the sense of `Resumption`.
-/

namespace CloudBackup.ObjectStore

open Cbcrypto Keystore Resumption

structure EncryptionInitOptions where
  hasEncryptedFiles : Bool
  allowBootstrap : Bool
  deriving DecidableEq, Repr

inductive FetchErr
  | notFound
  | other
  deriving DecidableEq, Repr

inductive PutErr
  | conflict
  | other
  deriving DecidableEq, Repr

/-- The interface `sidecarIO`. -/
inductive SidecarReq
  | fetch
  | putIfNotExists (body : Bytes)

def SidecarResp : SidecarReq → Type
  | .fetch => Except FetchErr Bytes
  | .putIfNotExists _ => Except PutErr Unit

abbrev SidecarProg (α : Type) := Prog SidecarReq SidecarResp α

inductive InitErr
  | emptyEncryptPass
  | fetchSidecar (e : FetchErr)
  | sidecarMissingForRestore
  | keystoreInconsistent
  | generate (e : KeystoreErr)
  | marshal (e : KeystoreErr)
  | fetchAfterConflict (e : FetchErr)
  | writeSidecar (e : PutErr)
  | parse (e : KeystoreErr)
  | deriveVerify (e : KeystoreErr)
  | kekLength (n : ℕ)
  | keystoreUUID (e : KeystoreErr)
  deriving DecidableEq, Repr

/-- The result of `runEncryptionInit`, and the calls of `bumpCounter` with the
counter's name. -/
structure InitOutcome where
  ret : Except InitErr (Bytes × Sidecar)
  bumped : List String

def verifySidecar (C : Codec) (body password : Bytes) : Except InitErr (Bytes × Sidecar) :=
  match unmarshal C body with
  | .error e => .error (.parse e)
  | .ok sc =>
      match sc.deriveAndVerify C password with
      | .error e => .error (.deriveVerify e)
      | .ok kek => if kek.length ≠ kekSize then .error (.kekLength kek.length) else .ok (kek, sc)

def bootstrap (C : Codec) (password : Bytes) (rand : Draws) : SidecarProg InitOutcome :=
  match Keystore.new C password rand with
  | .error e => .done ⟨.error (.generate e), []⟩
  | .ok (sc, kek) =>
      match sc.marshal C with
      | .error e => .done ⟨.error (.marshal e), []⟩
      | .ok scBytes =>
          .call (.putIfNotExists scBytes) fun
            | .ok () => .done ⟨.ok (kek, sc), []⟩
            | .error .conflict =>
                -- lost the race, so the winner's sidecar is adopted
                .call .fetch fun
                  | .ok body => .done ⟨verifySidecar C body password, []⟩
                  | .error e => .done ⟨.error (.fetchAfterConflict e), []⟩
            | .error .other => .done ⟨.error (.writeSidecar .other), []⟩

def runEncryptionInit (C : Codec) (password : Bytes) (opts : EncryptionInitOptions) (rand : Draws) :
    SidecarProg InitOutcome :=
  if password = [] then .done ⟨.error .emptyEncryptPass, []⟩
  else
    .call .fetch fun
      | .ok body => .done ⟨verifySidecar C body password, []⟩
      | .error .other => .done ⟨.error (.fetchSidecar .other), []⟩
      | .error .notFound =>
          if !opts.allowBootstrap then .done ⟨.error .sidecarMissingForRestore, []⟩
          else if opts.hasEncryptedFiles then
            .done ⟨.error .keystoreInconsistent, ["keystore_inconsistent"]⟩
          else bootstrap C password rand

structure EncryptionState where
  enabled : Bool
  password : Bytes
  kek : Bytes
  keystoreUUID : Block keystoreUUIDSize
  initialised : Bool
  deriving DecidableEq

def newEncryptionState (encrypt : Bool) (password : Bytes) : EncryptionState :=
  ⟨encrypt, password, [], ⟨List.replicate keystoreUUIDSize 0, List.length_replicate⟩, false⟩

@[simp] theorem enabled_newEncryptionState (encrypt : Bool) (password : Bytes) :
    (newEncryptionState encrypt password).enabled = encrypt := rfl

theorem length_kek_newEncryptionState (encrypt : Bool) (password : Bytes) :
    (newEncryptionState encrypt password).kek.length ≠ kekSize := by
  simp [newEncryptionState, kekSize]

def adopt (C : Codec) (es : EncryptionState) (out : InitOutcome) :
    Option InitErr × EncryptionState :=
  match out.ret with
  | .error e => (some e, es)
  | .ok (kek, sc) =>
      match sc.keystoreUUIDBytes C with
      | .error e => (some (.keystoreUUID e), es)
      | .ok uuid =>
          (none, { es with kek := kek, keystoreUUID := uuid, initialised := true, password := [] })

def initEncryption (C : Codec) (es : EncryptionState) (opts : EncryptionInitOptions)
    (rand : Draws) : SidecarProg (Option InitErr × EncryptionState) :=
  if !es.enabled then .done (none, es)
  else if es.initialised then .done (none, es)
  else (runEncryptionInit C es.password opts rand).map (adopt C es)

/-! ### The bucket -/

/-- The sidecar object of a bucket, and by whom and with what it was written. -/
structure SidecarObject (ι : Type) where
  body : Option Bytes
  writes : List (ι × Bytes)

/-- How the bucket answers. `PutIfNotExists` is atomic: it stores the body
exactly if there is no object. A request may also fail on its way there, or its
answer on the way back. -/
inductive Exec {ι : Type} :
    SidecarObject ι → ι → (q : SidecarReq) → SidecarResp q → SidecarObject ι → Prop
  | fetched {s : SidecarObject ι} {i : ι} {b : Bytes} (h : s.body = some b) :
      Exec s i .fetch (.ok b) s
  | notFound {s : SidecarObject ι} {i : ι} (h : s.body = none) :
      Exec s i .fetch (.error .notFound) s
  | fetchFailed {s : SidecarObject ι} {i : ι} : Exec s i .fetch (.error .other) s
  | stored {s : SidecarObject ι} {i : ι} {b : Bytes} (h : s.body = none) :
      Exec s i (.putIfNotExists b) (.ok ()) ⟨some b, s.writes ++ [(i, b)]⟩
  | conflict {s : SidecarObject ι} {i : ι} {b b' : Bytes} (h : s.body = some b') :
      Exec s i (.putIfNotExists b) (.error .conflict) s
  | putFailed {s : SidecarObject ι} {i : ι} {b : Bytes} :
      Exec s i (.putIfNotExists b) (.error .other) s
  | answerLost {s : SidecarObject ι} {i : ι} {b : Bytes} (h : s.body = none) :
      Exec s i (.putIfNotExists b) (.error .other) ⟨some b, s.writes ++ [(i, b)]⟩

end CloudBackup.ObjectStore
