import CloudBackup.ObjectStore.Encryption

/-!
`InitEncryption` of a store that has its bucket for itself. A new store brings up
its keystore from the sidecar, or creates one if it may; how that ends depends on
the sidecar, on the options, and on the two requests.
-/

namespace CloudBackup.ObjectStore

open Cbcrypto Keystore Resumption

/-- The two requests to a bucket, and what they do if they get through. -/
structure Requests where
  fetchOk : Bool
  putOk : Bool
  deriving DecidableEq, Repr

def Requests.answer (rq : Requests) : (q : SidecarReq) → Option Bytes → SidecarResp q × Option Bytes
  | .fetch, some body => if rq.fetchOk then (.ok body, some body) else (.error .other, some body)
  | .fetch, none => if rq.fetchOk then (.error .notFound, none) else (.error .other, none)
  | .putIfNotExists _, some body =>
      if rq.putOk then (.error .conflict, some body) else (.error .other, some body)
  | .putIfNotExists b, none => if rq.putOk then (.ok (), some b) else (.error .other, none)

theorem Requests.answer_exec {ι : Type} (rq : Requests) (q : SidecarReq) (i : ι) (body : Option Bytes)
    (writes : List (ι × Bytes)) :
    ∃ writes', Exec ⟨body, writes⟩ i q (rq.answer q body).1 ⟨(rq.answer q body).2, writes'⟩ := by
  cases q with
  | fetch =>
      cases body with
      | none => cases h : rq.fetchOk <;> simp only [Requests.answer, h] <;>
          first | exact ⟨writes, .fetchFailed⟩ | exact ⟨writes, .notFound rfl⟩
      | some b => cases h : rq.fetchOk <;> simp only [Requests.answer, h] <;>
          first | exact ⟨writes, .fetchFailed⟩ | exact ⟨writes, .fetched rfl⟩
  | putIfNotExists b =>
      cases body with
      | none => cases h : rq.putOk <;> simp only [Requests.answer, h] <;>
          first | exact ⟨writes, .putFailed⟩ | exact ⟨writes ++ [(i, b)], .stored rfl⟩
      | some b' => cases h : rq.putOk <;> simp only [Requests.answer, h] <;>
          first | exact ⟨writes, .putFailed⟩ | exact ⟨writes, .conflict rfl⟩

section

variable (C : Codec)

/-- `InitEncryption`, with the sidecar of the bucket before and after. -/
def bringUp (es : EncryptionState) (opts : EncryptionInitOptions) (rand : Draws) (rq : Requests)
    (sidecar : Option Bytes) : (Option InitErr × EncryptionState) × Option Bytes :=
  (initEncryption C es opts rand).eval rq.answer sidecar

def keysOf (password body : Bytes) : Option (Bytes × Block keystoreUUIDSize) :=
  match verifySidecar C body password with
  | .error _ => none
  | .ok (kek, sc) => (sc.keystoreUUIDBytes C).toOption.map fun uuid => (kek, uuid)

def creates (password : Bytes) (rand : Draws) (rq : Requests) : Bool :=
  match Keystore.new C password rand with
  | .error _ => false
  | .ok (sc, _) => (sc.marshal C).isOk && rq.putOk

end

section

variable {C : Codec} {password : Bytes} {rand : Draws} {rq : Requests}

theorem keysOf_eq_some {body : Bytes} {kek : Bytes} {uuid : Block keystoreUUIDSize}
    (h : keysOf C password body = some (kek, uuid)) :
    ∃ sc, verifySidecar C body password = .ok (kek, sc) ∧ sc.keystoreUUIDBytes C = .ok uuid := by
  unfold keysOf at h
  split at h
  · cases h
  · rename_i kek' sc hverify
    cases huuid : sc.keystoreUUIDBytes C with
    | error e => rw [huuid] at h; cases h
    | ok uuid' =>
        rw [huuid] at h
        cases h
        exact ⟨sc, hverify, huuid⟩

theorem length_keysOf {body kek : Bytes} {uuid : Block keystoreUUIDSize}
    (h : keysOf C password body = some (kek, uuid)) : kek.length = kekSize := by
  obtain ⟨sc, hverify, -⟩ := keysOf_eq_some h
  unfold verifySidecar at hverify
  split at hverify
  · cases hverify
  · split at hverify
    · cases hverify
    · split at hverify
      · cases hverify
      · rename_i hlen
        cases hverify
        simpa using hlen

theorem verifySidecar_error {body : Bytes} {e : InitErr} (h : verifySidecar C body password = .error e) :
    e ≠ .keystoreInconsistent := by
  unfold verifySidecar at h
  split at h
  · cases h
    exact nofun
  · split at h
    · cases h
      exact nofun
    · split at h
      · cases h
        exact nofun
      · cases h

/-- The password that has made a sidecar gets the key back from it. -/
theorem verifySidecar_new {sc : Sidecar} {kek body : Bytes}
    (hnew : Keystore.new C password rand = .ok (sc, kek)) (hmarshal : sc.marshal C = .ok body) :
    verifySidecar C body password = .ok (kek, sc) := by
  obtain ⟨hpassword, ⟨salt, hsalt, hkek⟩, ⟨-, nonce, hnonce, hct⟩, -, hround⟩ := new_spec C hnew
  have hlen : kek.length = kekSize := by
    rw [hkek]
    exact C.length_idKey _ _ _
  have hkey : cipherKeyOk kek = true := by simp [cipherKeyOk, hlen, kekSize]
  have hderive : sc.deriveAndVerify C password = .ok kek := by
    simp only [Sidecar.deriveAndVerify, if_neg hpassword, hsalt, hnonce, hct, bind, Except.bind,
      openVerifier, ← hkek, hkey, C.aead.open_seal]
    rfl
  rw [verifySidecar, hround body hmarshal]
  simp [hderive, hlen]

theorem keysOf_new {sc : Sidecar} {kek body : Bytes}
    (hnew : Keystore.new C password rand = .ok (sc, kek)) (hmarshal : sc.marshal C = .ok body) :
    keysOf C password body = some (kek, rand.uuid) := by
  obtain ⟨-, -, -, huuid, -⟩ := new_spec C hnew
  rw [keysOf, verifySidecar_new hnew hmarshal]
  simp [huuid, Except.toOption]

/-! ### How it ends -/

theorem bringUp_disabled (opts : EncryptionInitOptions) (sidecar : Option Bytes) :
    bringUp C (newEncryptionState false password) opts rand rq sidecar =
      ((none, newEncryptionState false password), sidecar) := rfl

theorem bringUp_eq (opts : EncryptionInitOptions) (sidecar : Option Bytes) :
    bringUp C (newEncryptionState true password) opts rand rq sidecar =
      let r := (runEncryptionInit C password opts rand).eval rq.answer sidecar
      (adopt C (newEncryptionState true password) r.1, r.2) := by
  exact Prog.eval_map _ _ _ _

theorem bringUp_emptyPassword (opts : EncryptionInitOptions) (sidecar : Option Bytes) :
    bringUp C (newEncryptionState true []) opts rand rq sidecar =
      ((some .emptyEncryptPass, newEncryptionState true []), sidecar) := rfl

variable (hpassword : password ≠ [])

include hpassword

theorem bringUp_fetchFailed (hfetch : rq.fetchOk = false) (opts : EncryptionInitOptions)
    (sidecar : Option Bytes) :
    bringUp C (newEncryptionState true password) opts rand rq sidecar =
      ((some (.fetchSidecar .other), newEncryptionState true password), sidecar) := by
  rw [bringUp_eq, runEncryptionInit, if_neg hpassword]
  cases sidecar <;> simp [Prog.eval, Requests.answer, hfetch, adopt]

theorem bringUp_found (hfetch : rq.fetchOk = true) (opts : EncryptionInitOptions) {body kek : Bytes}
    {uuid : Block keystoreUUIDSize} (hkeys : keysOf C password body = some (kek, uuid)) :
    bringUp C (newEncryptionState true password) opts rand rq (some body) =
      ((none, ⟨true, [], kek, uuid, true⟩), some body) := by
  obtain ⟨sc, hverify, huuid⟩ := keysOf_eq_some hkeys
  rw [bringUp_eq, runEncryptionInit, if_neg hpassword]
  simp [Prog.eval, Requests.answer, hfetch, adopt, hverify, huuid, newEncryptionState]

theorem bringUp_notOpened (hfetch : rq.fetchOk = true) (opts : EncryptionInitOptions) {body : Bytes}
    (hkeys : keysOf C password body = none) :
    ∃ e, e ≠ .keystoreInconsistent ∧
      bringUp C (newEncryptionState true password) opts rand rq (some body) =
        ((some e, newEncryptionState true password), some body) := by
  rw [bringUp_eq, runEncryptionInit, if_neg hpassword]
  simp only [Prog.eval, Requests.answer, hfetch, if_true, adopt]
  cases hverify : verifySidecar C body password with
  | error e => exact ⟨e, verifySidecar_error hverify, rfl⟩
  | ok keys =>
      obtain ⟨kek, sc⟩ := keys
      cases huuid : sc.keystoreUUIDBytes C with
      | error e =>
          refine ⟨.keystoreUUID e, nofun, ?_⟩
          simp only [huuid]
      | ok uuid => simp [keysOf, hverify, huuid, Except.toOption] at hkeys

theorem bringUp_missing (hfetch : rq.fetchOk = true) (hasEncryptedFiles : Bool) :
    bringUp C (newEncryptionState true password) ⟨hasEncryptedFiles, false⟩ rand rq none =
      ((some .sidecarMissingForRestore, newEncryptionState true password), none) := by
  rw [bringUp_eq, runEncryptionInit, if_neg hpassword]
  simp [Prog.eval, Requests.answer, hfetch, adopt]

theorem bringUp_inconsistent (hfetch : rq.fetchOk = true) :
    bringUp C (newEncryptionState true password) ⟨true, true⟩ rand rq none =
      ((some .keystoreInconsistent, newEncryptionState true password), none) := by
  rw [bringUp_eq, runEncryptionInit, if_neg hpassword]
  simp [Prog.eval, Requests.answer, hfetch, adopt]

theorem bringUp_creates (hfetch : rq.fetchOk = true) (hcreates : creates C password rand rq = true) :
    ∃ body kek uuid, keysOf C password body = some (kek, uuid) ∧
      bringUp C (newEncryptionState true password) ⟨false, true⟩ rand rq none =
        ((none, ⟨true, [], kek, uuid, true⟩), some body) := by
  unfold creates at hcreates
  split at hcreates
  · cases hcreates
  · rename_i sc kek hnew
    obtain ⟨hmarshal, hput⟩ := Bool.and_eq_true_iff.mp hcreates
    cases hbody : sc.marshal C with
    | error e => rw [hbody] at hmarshal; cases hmarshal
    | ok body =>
        obtain ⟨-, -, -, huuid, -⟩ := new_spec C hnew
        refine ⟨body, kek, rand.uuid, keysOf_new hnew hbody, ?_⟩
        rw [bringUp_eq, runEncryptionInit, if_neg hpassword]
        simp [Prog.eval, Requests.answer, hfetch, bootstrap, hnew, hbody, hput, adopt, huuid,
          newEncryptionState]

theorem bringUp_notCreated (hfetch : rq.fetchOk = true) (hcreates : creates C password rand rq = false) :
    ∃ e, e ≠ .keystoreInconsistent ∧
      bringUp C (newEncryptionState true password) ⟨false, true⟩ rand rq none =
        ((some e, newEncryptionState true password), none) := by
  rw [bringUp_eq, runEncryptionInit, if_neg hpassword]
  simp only [Prog.eval, Requests.answer, hfetch, if_true, bootstrap, Bool.not_true,
    Bool.false_eq_true, if_false]
  cases hnew : Keystore.new C password rand with
  | error e => exact ⟨.generate e, nofun, rfl⟩
  | ok made =>
      obtain ⟨sc, kek⟩ := made
      cases hmarshal : sc.marshal C with
      | error e =>
          refine ⟨.marshal e, nofun, ?_⟩
          simp only [hmarshal, Prog.eval, adopt]
      | ok body =>
          have hput : rq.putOk = false := by
            simpa [creates, hnew, hmarshal, Except.isOk, Except.toBool] using hcreates
          refine ⟨.writeSidecar .other, nofun, ?_⟩
          simp [hmarshal, Prog.eval, Requests.answer, hput, adopt]

end

end CloudBackup.ObjectStore
