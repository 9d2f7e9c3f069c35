import CloudBackup.Cbcrypto.RoundTrip
import CloudBackup.ObjectStore.Encryption

/-!
Any number of daemons bring up the keystore of one target at the same time.
The proof follows the rule of `Resumption`: the bucket only moves from no
sidecar to one, what a program writes is a sidecar it has just made, and a call
that succeeds has its key from the sidecar that is stored.
-/

namespace CloudBackup.ObjectStore

open Cbcrypto Keystore Resumption

variable {ι : Type} (C : Codec) (password : ι → Bytes) (opts : ι → EncryptionInitOptions)

def Keeps (s s' : SidecarObject ι) : Prop :=
  ∀ b, s.body = some b → s'.body = some b ∧ s'.writes = s.writes

/-- The bytes of a sidecar that was sealed under some key. -/
def IsSidecar (b : Bytes) : Prop := ∃ sc kek, unmarshal C b = .ok sc ∧ SealedBy C sc kek

structure BucketOk (s : SidecarObject ι) : Prop where
  isSidecar : ∀ b, s.body = some b → IsSidecar C b
  once : s.writes.length ≤ 1
  written : ∀ w ∈ s.writes, s.body = some w.2 ∧ (opts w.1).allowBootstrap = true

def Puts (i : ι) : SidecarReq → Prop
  | .fetch => True
  | .putIfNotExists b => (opts i).allowBootstrap = true ∧ IsSidecar C b

def Agrees (i : ι) (s : SidecarObject ι) (out : InitOutcome) : Prop :=
  ∀ kek sc, out.ret = .ok (kek, sc) → ∃ b, s.body = some b ∧ unmarshal C b = .ok sc ∧
    Derives C sc (password i) kek ∧ ∀ k, SealedBy C sc k → kek = k

theorem bucket_discipline :
    Discipline (Exec (ι := ι)) Keeps (BucketOk C opts) (Puts C opts) (Agrees C password) where
  refl _ _ h := ⟨h, rfl⟩
  trans h₁ h₂ b hb := ⟨(h₂ b (h₁ b hb).1).1, (h₂ b (h₁ b hb).1).2.trans (h₁ b hb).2⟩
  step := by
    intro s i q r s' hok hput hexec
    cases hexec with
    | fetched h => exact ⟨hok, fun _ h => ⟨h, rfl⟩⟩
    | notFound h => exact ⟨hok, fun _ h => ⟨h, rfl⟩⟩
    | fetchFailed => exact ⟨hok, fun _ h => ⟨h, rfl⟩⟩
    | conflict h => exact ⟨hok, fun _ h => ⟨h, rfl⟩⟩
    | putFailed => exact ⟨hok, fun _ h => ⟨h, rfl⟩⟩
    | @stored b h | @answerLost b h =>
        -- nothing was written before, or the body would be there
        have hnil : s.writes = [] := by
          cases hw : s.writes with
          | nil => rfl
          | cons w ws =>
              have := (hok.written w (by simp [hw])).1
              simp [h] at this
        refine ⟨⟨?_, by simp [hnil], ?_⟩, fun b' hb' => by simp [h] at hb'⟩
        · intro b' hb'
          obtain rfl : b = b' := by simpa using hb'
          exact hput.2
        · intro w hw
          obtain rfl : w = (i, b) := by simpa [hnil] using hw
          exact ⟨rfl, hput.1⟩
  post := by
    intro i s s' out hkeeps hout kek sc hret
    obtain ⟨b, hb, h⟩ := hout kek sc hret
    exact ⟨b, (hkeeps b hb).1, h⟩

/-- A body that was fetched and verified gives the key of that body. -/
theorem verifySidecar_agrees (hbind : VerifierBinds C) {i : ι} {s : SidecarObject ι} {b : Bytes}
    (hb : s.body = some b) : Agrees C password i s ⟨verifySidecar C b (password i), []⟩ := by
  intro kek sc hret
  simp only [verifySidecar] at hret
  split at hret
  · simp at hret
  · rename_i sc' hun
    split at hret
    · simp at hret
    · rename_i kek' hder
      split at hret
      · simp at hret
      · simp only [Except.ok.injEq, Prod.mk.injEq] at hret
        obtain ⟨rfl, rfl⟩ := hret
        exact ⟨b, hb, hun, (deriveAndVerify_spec C hder).1,
          fun k hk => deriveAndVerify_sealedBy C hbind hder hk⟩

theorem agrees_error {i : ι} {s : SidecarObject ι} {e : InitErr} {bumped : List String} :
    Agrees C password i s ⟨.error e, bumped⟩ := by
  intro kek sc hret
  simp at hret

theorem sealedBy_unique (hbind : VerifierBinds C) {sc : Sidecar} {kek k : Bytes}
    (h : SealedBy C sc kek) (h' : SealedBy C sc k) : kek = k := by
  obtain ⟨hlen, nonce, hn, hct⟩ := h
  obtain ⟨hlen', nonce', hn', hct'⟩ := h'
  rw [hn] at hn'
  obtain rfl := Except.ok.inj hn'
  rw [hct] at hct'
  have hopen := C.aead.open_seal kek nonce verifierPlaintext
  rw [Except.ok.inj hct'] at hopen
  exact hbind k kek nonce _ hlen' hlen (length_verifierNonceBytes C hn) hopen

theorem bootstrap_sound (hbind : VerifierBinds C) (i : ι) (rand : Draws)
    (hallow : (opts i).allowBootstrap = true) (s : SidecarObject ι) :
    Sound Exec Keeps (BucketOk C opts) (Puts C opts) (Agrees C password) i
      (bootstrap C (password i) rand) s := by
  unfold bootstrap
  split
  · exact agrees_error C password
  · rename_i sc kek hnew
    obtain ⟨-, hder, hseal, -, hround⟩ := new_spec C hnew
    split
    · exact agrees_error C password
    · rename_i scBytes hmarshal
      refine ⟨⟨hallow, sc, kek, hround _ hmarshal, hseal⟩, ?_⟩
      intro s₁ r s₂ _ _ hexec
      cases hexec with
      | stored h =>
          intro kek' sc' hret
          obtain ⟨rfl, rfl⟩ : kek = kek' ∧ sc = sc' := by simpa using hret
          exact ⟨scBytes, rfl, hround _ hmarshal, hder,
            fun k hk => sealedBy_unique C hbind hseal hk⟩
      | conflict h =>
          refine ⟨trivial, ?_⟩
          intro s₃ r s₄ _ _ hexec
          cases hexec with
          | fetched hb => exact verifySidecar_agrees C password hbind hb
          | notFound h => exact agrees_error C password
          | fetchFailed => exact agrees_error C password
      | putFailed => exact agrees_error C password
      | answerLost h => exact agrees_error C password

/-- `runEncryptionInit` follows the rule from any state of the bucket on. -/
theorem runEncryptionInit_sound (hbind : VerifierBinds C) (i : ι) (rand : Draws)
    (s : SidecarObject ι) :
    Sound Exec Keeps (BucketOk C opts) (Puts C opts) (Agrees C password) i
      (runEncryptionInit C (password i) (opts i) rand) s := by
  unfold runEncryptionInit
  split
  · exact agrees_error C password
  · refine ⟨trivial, ?_⟩
    intro s₁ r s₂ _ _ hexec
    cases hexec with
    | fetched hb => exact verifySidecar_agrees C password hbind hb
    | fetchFailed => exact agrees_error C password
    | notFound h =>
        by_cases hallow : (opts i).allowBootstrap = true
        · simp only [hallow, Bool.not_true, Bool.false_eq_true, if_false]
          split
          · exact agrees_error C password
          · exact bootstrap_sound C password opts hbind i rand hallow s₁
        · simp only [hallow, Bool.not_false, if_true]
          exact agrees_error C password

/-- The configuration in which every daemon is about to start. -/
def started (body : Option Bytes) (rand : ι → Draws) :
    Config SidecarReq SidecarResp InitOutcome (SidecarObject ι) ι where
  state := ⟨body, []⟩
  procs i := runEncryptionInit C (password i) (opts i) (rand i)

/-- Under any interleaving of any number of daemons: at most one sidecar is ever
written, and none over one that is there; it is never replaced; and a call that
succeeds returns the key under which the stored sidecar was sealed, along with
that sidecar. A daemon that may not bootstrap writes nothing, and one whose
password derives another key does not succeed. -/
theorem keystore_bootstrap_agreement [DecidableEq ι] (hbind : VerifierBinds C)
    (body : Option Bytes) (hbody : ∀ b, body = some b → IsSidecar C b) (rand : ι → Draws)
    {c : Config SidecarReq SidecarResp InitOutcome (SidecarObject ι) ι}
    (hc : Reachable Exec (started C password opts body rand) c) :
    c.state.writes.length ≤ 1 ∧ (body ≠ none → c.state.writes = []) ∧
    (∀ b, c.state.body = some b → ∀ c', Reachable Exec c c' → c'.state.body = some b) ∧
    (∀ i kek sc, (∃ bumped, c.procs i = .done ⟨.ok (kek, sc), bumped⟩) →
      ∃ b, c.state.body = some b ∧ unmarshal C b = .ok sc ∧ SealedBy C sc kek ∧
        ∀ k, SealedBy C sc k → kek = k) ∧
    (∀ i, (opts i).allowBootstrap = false → ∀ w ∈ c.state.writes, w.1 ≠ i) ∧
    (∀ b sc kek i, c.state.body = some b → unmarshal C b = .ok sc → SealedBy C sc kek →
      ¬ Derives C sc (password i) kek →
      ∀ kek' sc' bumped, c.procs i ≠ .done ⟨.ok (kek', sc'), bumped⟩) := by
  have hd := bucket_discipline C password opts
  have hok₀ : BucketOk C opts (⟨body, []⟩ : SidecarObject ι) :=
    ⟨hbody, by simp, by simp⟩
  obtain ⟨hok, hkeeps, hs⟩ := Sound.reachable hd hok₀
    (fun i => runEncryptionInit_sound C password opts hbind i (rand i) _) hc
  have hagrees : ∀ i out, c.procs i = .done out → Agrees C password i c.state out := by
    intro i out hi
    have := hs i
    rw [hi] at this
    exact this
  refine ⟨hok.once, ?_, ?_, ?_, ?_, ?_⟩
  · intro hne
    obtain ⟨b, rfl⟩ := Option.ne_none_iff_exists'.mp hne
    exact (hkeeps b rfl).2
  · intro b hb c' hc'
    exact ((Sound.reachable hd hok hs hc').2.1 b hb).1
  · rintro i kek sc ⟨bumped, hi⟩
    obtain ⟨b, hb, hun, -, huniq⟩ := hagrees i _ hi kek sc rfl
    obtain ⟨sc', k, hun', hk⟩ := hok.isSidecar b hb
    rw [hun] at hun'
    obtain rfl := Except.ok.inj hun'
    exact ⟨b, hb, hun, by rw [huniq k hk]; exact hk, huniq⟩
  · intro i hi w hw hwi
    have := (hok.written w hw).2
    rw [hwi, hi] at this
    simp at this
  · intro b sc kek i hb hun hk hder kek' sc' bumped hi
    obtain ⟨b', hb', hun', hder', huniq⟩ := hagrees i _ hi kek' sc' rfl
    rw [hb] at hb'
    obtain rfl := Option.some.inj hb'
    rw [hun] at hun'
    obtain rfl := Except.ok.inj hun'
    exact hder (by rw [← huniq kek hk]; exact hder')

/-! ### A race of two daemons -/

def plainText (b : Bytes) : String := String.ofList (b.map fun x => Char.ofNat x.toNat)

theorem toNat_ofNat_uint8 (x : UInt8) : (Char.ofNat x.toNat).toNat = x.toNat := by
  have : x.toNat.isValidChar := Or.inl (Nat.lt_trans x.toNat_lt (by decide))
  rw [Char.ofNat, dif_pos this]
  rfl

def plainSidecar (p u : UInt8) : Sidecar where
  version := 1
  keystoreUUID := plainText (List.replicate keystoreUUIDSize u)
  kdf := ⟨"argon2id", 3, 65536, 4, plainText (List.replicate saltSize u)⟩
  verifier := ⟨plainText (List.replicate nonceSize u),
    plainText (clearAead.sealed (List.replicate kekSize p) (List.replicate nonceSize u)
      verifierPlaintext)⟩

def plainCodec : Codec where
  aead := clearAead
  yamlMarshal sc :=
    if sc = plainSidecar 5 1 then some [1] else if sc = plainSidecar 5 2 then some [2] else none
  yamlUnmarshal b :=
    if b = [1] then some (plainSidecar 5 1) else if b = [2] then some (plainSidecar 5 2) else none
  yaml_round_trip sc b h := by
    split at h
    · rename_i hsc
      obtain rfl := Option.some.inj h
      simp [hsc]
    · split at h
      · rename_i hsc
        obtain rfl := Option.some.inj h
        simp [hsc]
      · simp at h
  encodeToString := plainText
  decodeString s := some (s.toList.map fun c => UInt8.ofNat c.toNat)
  base64_round_trip b := by
    simp [plainText, Function.comp_def, toNat_ofNat_uint8]
  idKey password _ _ := List.replicate kekSize (password.headD 0)
  length_idKey _ _ _ := List.length_replicate

theorem clearTag_replicate {nonce : Bytes} (hn : nonce.length = nonceSize) (x : UInt8) :
    (clearTag (List.replicate kekSize x) nonce).1 = nonce ++ List.replicate 4 x := by
  have htake : (nonce ++ List.replicate kekSize x ++ List.replicate tagSize 0).take tagSize =
      nonce ++ List.replicate 4 x := by
    rw [List.append_assoc, List.take_append, List.take_of_length_le (by rw [hn]; decide), hn]
    rfl
  exact htake

theorem verifierBinds_plainCodec : VerifierBinds plainCodec := by
  rintro kek kek' nonce pt ⟨p, s, ps, rfl⟩ ⟨p', s', ps', rfl⟩ hn hopen
  simp only [plainCodec, clearAead, deriveKEK] at hopen ⊢
  split at hopen
  · rename_i htag
    simp only [List.length_append, (clearTag _ _).2, Nat.add_sub_cancel, List.drop_left] at htag
    rw [clearTag_replicate hn, clearTag_replicate hn, List.append_cancel_left_eq] at htag
    have hx : p.headD 0 = p'.headD 0 := by simpa using htag
    rw [hx]
  · simp at hopen

def constDraws (u : UInt8) : Draws :=
  ⟨⟨List.replicate saltSize u, List.length_replicate⟩,
    ⟨List.replicate keystoreUUIDSize u, List.length_replicate⟩,
    ⟨List.replicate nonceSize u, List.length_replicate⟩⟩

theorem plain_new (u : UInt8) :
    Keystore.new plainCodec [5] (constDraws u) =
      .ok (plainSidecar 5 u, List.replicate kekSize 5) := by
  rfl

theorem plain_marshal_one : (plainSidecar 5 1).marshal plainCodec = .ok [1] := by
  simp [Sidecar.marshal, plainCodec]

theorem plain_marshal_two : (plainSidecar 5 2).marshal plainCodec = .ok [2] := by
  have : plainSidecar 5 2 ≠ plainSidecar 5 1 := by decide
  simp [Sidecar.marshal, plainCodec, this]

theorem plain_verify : verifySidecar plainCodec [1] [5] =
    .ok (List.replicate kekSize 5, plainSidecar 5 1) := by
  decide

def pair (s : SidecarObject Bool) (p₁ p₂ : SidecarProg InitOutcome) :
    Config SidecarReq SidecarResp InitOutcome (SidecarObject Bool) Bool :=
  ⟨s, fun i => if i then p₂ else p₁⟩

theorem step_first {s s' : SidecarObject Bool} {q : SidecarReq}
    {k : SidecarResp q → SidecarProg InitOutcome} {p₁ p₂ : SidecarProg InitOutcome}
    {r : SidecarResp q} (hp : p₁ = .call q k) (h : Exec s false q r s') :
    Step Exec (pair s p₁ p₂) (pair s' (k r) p₂) := by
  have heq : pair s' (k r) p₂ = ⟨s', Function.update (pair s p₁ p₂).procs false (k r)⟩ := by
    simp only [pair, Config.mk.injEq, true_and]
    funext i
    cases i <;> simp
  rw [heq]
  exact Step.answer (by simp [pair, hp]) h

theorem step_second {s s' : SidecarObject Bool} {q : SidecarReq}
    {k : SidecarResp q → SidecarProg InitOutcome} {p₁ p₂ : SidecarProg InitOutcome}
    {r : SidecarResp q} (hp : p₂ = .call q k) (h : Exec s true q r s') :
    Step Exec (pair s p₁ p₂) (pair s' p₁ (k r)) := by
  have heq : pair s' p₁ (k r) = ⟨s', Function.update (pair s p₁ p₂).procs true (k r)⟩ := by
    simp only [pair, Config.mk.injEq, true_and]
    funext i
    cases i <;> simp
  rw [heq]
  exact Step.answer (by simp [pair, hp]) h

/-- Both daemons find no sidecar, the first one stores its own, and the second
one adopts it. -/
theorem race_reachable :
    Reachable Exec (started plainCodec (fun _ : Bool => [5]) (fun _ => ⟨false, true⟩) none
        (fun i => constDraws (if i then 2 else 1)))
      (pair ⟨some [1], [(false, [1])]⟩
        (.done ⟨.ok (List.replicate kekSize 5, plainSidecar 5 1), []⟩)
        (.done ⟨.ok (List.replicate kekSize 5, plainSidecar 5 1), []⟩)) := by
  have hstart : started plainCodec (fun _ : Bool => [5]) (fun _ => ⟨false, true⟩) none
      (fun i => constDraws (if i then 2 else 1)) = pair ⟨none, []⟩
        (runEncryptionInit plainCodec [5] ⟨false, true⟩ (constDraws 1))
        (runEncryptionInit plainCodec [5] ⟨false, true⟩ (constDraws 2)) := by
    simp only [started, pair, Config.mk.injEq, true_and]
    funext i
    cases i <;> rfl
  rw [hstart]
  refine .head (step_first rfl (.notFound rfl)) (.head (step_second rfl (.notFound rfl)) ?_)
  refine .head (step_first (by simp only [bootstrap, plain_new, plain_marshal_one]; rfl)
    (.stored rfl)) ?_
  refine .head (step_second (by simp only [bootstrap, plain_new, plain_marshal_two]; rfl)
    (.conflict rfl)) ?_
  refine .head (step_second rfl (.fetched rfl)) ?_
  simp only [plain_verify]
  exact .refl

theorem keystore_bootstrap_agreement_race :
    ∃ b, plainCodec.yamlUnmarshal b = some (plainSidecar 5 1) ∧
      SealedBy plainCodec (plainSidecar 5 1) (List.replicate kekSize 5) := by
  obtain ⟨-, -, -, hsucc, -⟩ := keystore_bootstrap_agreement plainCodec (fun _ : Bool => [5])
    (fun _ => ⟨false, true⟩) verifierBinds_plainCodec none (by simp) _ race_reachable
  obtain ⟨b, hb, -, hsealed, -⟩ := hsucc true (List.replicate kekSize 5) (plainSidecar 5 1) ⟨[], rfl⟩
  obtain rfl : [1] = b := Option.some.inj hb
  exact ⟨[1], rfl, hsealed⟩

end CloudBackup.ObjectStore
