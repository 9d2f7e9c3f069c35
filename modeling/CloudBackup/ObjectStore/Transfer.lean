import CloudBackup.ObjectStore.Download

/-!
What `Get` writes, if the object is the one that an upload has stored: parts of the content,
each of them in its place, and all of it if `Get` succeeds. Nothing else gets into the file,
even if the connection breaks off in the middle of a chunk.

The clients of the providers are outside, so what they promise is in `Serves`. For an
encrypted object the cipher has to be ideal: the end of a chunk that was cut off looks to the
reader like the end of the object until the chunk fails to open.
-/

namespace CloudBackup.ObjectStore

open ByteStream Cbcrypto Database FileWrites

/-- The body of an object with this content, stored with or without encryption. The wrapped
key opens to the key of the content or not at all, as with the wrong KEK. -/
inductive Holds (A : Aead) (es : EncryptionState) (content : Bytes) : Bool → Bytes → Prop
  | plain : Holds A es content false content
  | encrypted (uuid : Block keystoreUUIDSize) (wrapNonce : Block nonceSize)
      (wrappedCEK : Block wrappedCEKSize) (cek : Block cekSize) (pre : Block noncePrefixSize)
      (hkey : ∀ key, A.open? es.kek wrapNonce.1 wrappedCEK.1 = some key → key = cek.1)
      (hideal : Ideal A cek.1 pre content) :
      Holds A es content true (encryptedStream A uuid wrapNonce wrappedCEK cek.1 pre content)

/-- What the clients promise about an object that is there: a body breaks off or it ends with
the object, and the S3 manager writes every part where it belongs and succeeds only if it
has written all of them. -/
structure Serves (inc : Incoming) (body : Bytes) : Prop where
  present : inc.response ≠ .missing
  front : ∀ src, inc.response = .body src → src.rest <+: body
  whole : ∀ src, inc.response = .body src → src.final = .eof → src.rest = body
  parts : ∀ part ∈ inc.parts, part.2 <+: body.drop part.1
  complete : inc.downloadOk = true → ∀ p < body.length,
    ∃ part ∈ inc.parts, part.1 ≤ p ∧ p < part.1 + part.2.length

/-- A download of this content: it stops before the file is created, or it creates the file
and writes parts of the content to it, all of them if it succeeds. -/
inductive Transfers (content : Bytes) : Attempt → Prop
  | stopped {ret : Option GetResult} (hret : ret ≠ some .done) : Transfers content ([], ret)
  | created {ws : List (FileOp UInt8)} {ret : Option GetResult} (hws : Writes content ws)
      (hdone : ret = some .done → ∀ p < content.length, Covers ws p) :
      Transfers content (.create :: ws, ret)

/-- A download that succeeds leaves the content, whatever was there before. -/
theorem Transfers.runOps_of_done {content : Bytes} {a : Attempt} (h : Transfers content a)
    (hdone : a.2 = some .done) (before : Option Bytes) : runOps a.1 before = some content := by
  cases h with
  | stopped hret => exact absurd hdone hret
  | created hws hcover => exact (Filling.of_empty (hcover hdone)).runOps hws

/-! ### Reading a body -/

section

variable {A : Aead}

/-- An invariant by which a body yields no more than `s`, and ends with it. -/
def Yields (A : Aead) (I : Bytes → Body → Prop) : Prop :=
  ∀ s body n, I s body → ∃ s', s = (body.read A n).1 ++ s' ∧
    ((body.read A n).2.1 = none → I s' (body.read A n).2.2) ∧
    ((body.read A n).2.1 = some .eof → s' = [])

def PlainFront (s : Bytes) (body : Body) : Prop :=
  ∃ src, body = .plain src ∧ src.rest <+: s ∧ (src.final = .eof → src.rest = s)

theorem yields_plainFront : Yields A PlainFront := by
  rintro s _ n ⟨src, rfl, ⟨t, rfl⟩, hwhole⟩
  have hrest := src.rest_eq_read n
  refine ⟨(src.read n).2.2.rest ++ t, ?_, fun _ => ?_, fun heof => ?_⟩
  · rw [hrest, List.append_assoc]
    rfl
  · refine ⟨_, rfl, List.prefix_append _ _, fun hfinal => ?_⟩
    have ht := hwhole (by rwa [Source.read_final] at hfinal)
    rw [List.self_eq_append_right] at ht
    rw [ht, List.append_nil]
  · obtain ⟨e, he, hofRead⟩ := Option.map_eq_some_iff.mp heof
    obtain ⟨rfl, hpieces⟩ := Source.read_err he
    have hfinal : src.final = .eof := by
      by_contra hne
      exact ofRead_ne_eof hne hofRead
    have ht := hwhole hfinal
    rw [List.self_eq_append_right] at ht
    rw [ht, Source.rest, hpieces]
    rfl

def Decrypts (cek content s : Bytes) (body : Body) : Prop :=
  ∃ dr, body = .decrypting dr ∧ Releasing cek content s dr

theorem yields_decrypts {cek content : Bytes} {pre : Block noncePrefixSize}
    (hideal : Ideal A cek pre content) : Yields A (Decrypts cek content) := by
  rintro s _ n ⟨dr, rfl, hdr⟩
  obtain ⟨hnone, herr, heof⟩ := releasing_guards hideal s dr n hdr
  cases hread : (dr.read A n).2.1 with
  | none =>
      obtain ⟨s', hs, hdr'⟩ := hnone hread
      refine ⟨s', hs, fun _ => ⟨_, rfl, hdr'⟩, fun h => ?_⟩
      rw [Body.read, hread] at h
      cases h
  | some e =>
      have hc : (dr.read A n).1 = [] := herr (by rw [hread]; simp)
      refine ⟨s, by rw [Body.read, hc]; rfl, fun h => ?_, fun h => (heof h).1⟩
      rw [Body.read, hread] at h
      cases h

/-- A reader of an object with the key of the content, once it has looked at the header. -/
theorem peekHeader_releasing {es : EncryptionState} {content : Bytes} {uuid : Block keystoreUUIDSize}
    {wrapNonce : Block nonceSize} {wrappedCEK : Block wrappedCEKSize} {cek : Block cekSize}
    {pre : Block noncePrefixSize}
    (hkey : ∀ key, A.open? es.kek wrapNonce.1 wrappedCEK.1 = some key → key = cek.1)
    {src : Source UInt8}
    (hfront : src.rest <+: encryptedStream A uuid wrapNonce wrappedCEK cek.1 pre content)
    {dr dr' : DecryptingReader} (hnew : newDecryptingReader src es.kek = .ok dr)
    {hdr : Option Header} (hpeek : dr.peekHeader A = (.ok hdr, dr')) :
    Releasing cek.1 content content dr' := by
  unfold newDecryptingReader at hnew
  split at hnew
  · cases hnew
  cases hnew
  rcases hread : (BufReader.new src).readFull headerSize with ⟨hdrBuf, e, src'⟩
  have hbufFront : hdrBuf <+: encryptedStream A uuid wrapNonce wrappedCEK cek.1 pre content := by
    have hbuf := (BufReader.new src).readFull_isPrefix headerSize
    rw [hread] at hbuf
    exact hbuf.trans hfront
  cases e with
  | some e => simp [DecryptingReader.peekHeader, parseHeader, hread] at hpeek
  | none =>
      have hlen := @BufReader.readFull_length _ (BufReader.new src) headerSize (by rw [hread])
      rw [hread] at hlen
      cases hopen : openHeader A es.kek hdrBuf with
      | error e => simp [DecryptingReader.peekHeader, parseHeader, hread, hopen] at hpeek
      | ok opened =>
          obtain ⟨hdr', key⟩ := opened
          have hhead : hdrBuf.take headerSize =
              (newHeader uuid wrapNonce wrappedCEK pre).marshalBinary := by
            obtain ⟨t, ht⟩ := hbufFront
            have htake := congrArg (List.take headerSize) ht
            rwa [List.take_append_of_le_length hlen, encryptedStream,
              Header.take_marshalBinary_append] at htake
          have hcek : key = cek.1 := hkey key ((holdsKey_of_take_eq hhead).open_eq hopen)
          simp only [DecryptingReader.peekHeader, parseHeader, hread, hopen, Bool.false_eq_true,
            if_false] at hpeek
          cases hpeek
          exact ⟨rfl, hcek, fun _ => by simp, by simp⟩

theorem openBody_yields {es : EncryptionState} {content body : Bytes} {encrypted : Bool}
    (hholds : Holds A es content encrypted body) {src : Source UInt8} (hfront : src.rest <+: body)
    (hwhole : src.final = .eof → src.rest = body) {reader : Body}
    (hopen : openBody A es encrypted src = .ok reader) : ∃ I, Yields A I ∧ I content reader := by
  cases hholds with
  | plain =>
      cases hopen
      exact ⟨_, yields_plainFront, src, rfl, hfront, hwhole⟩
  | encrypted uuid wrapNonce wrappedCEK cek pre hkey hideal =>
      unfold openBody at hopen
      rw [if_neg (by simp)] at hopen
      split at hopen
      · cases hopen
      · rename_i dr hnew
        split at hopen
        · cases hopen
        · rename_i hdr dr' hpeek
          split at hopen
          · cases hopen
          · cases hopen
            exact ⟨_, yields_decrypts hideal, dr', rfl, peekHeader_releasing hkey hfront hnew hpeek⟩

/-! ### Copying it -/

theorem writes_writeOps {t c : Bytes} {off : ℕ} (h : c <+: t.drop off) : Writes t (writeOps off c) := by
  intro op hop
  unfold writeOps at hop
  split at hop
  · cases hop
  · exact ⟨off, c, List.mem_singleton.mp hop, h⟩

theorem covers_writeOps {c : Bytes} {off p : ℕ} (hoff : off ≤ p) (hp : p < off + c.length) :
    Covers (writeOps off c) p := by
  have hc : c ≠ [] := by
    rintro rfl
    simp at hp
    omega
  refine ⟨off, c, ?_, hoff, hp⟩
  rw [writeOps, if_neg (by simpa using hc)]
  exact List.mem_singleton_self _

/-- The loop writes what is to come from the offset on, and has written all of it when it
comes to the end. -/
theorem copyBody_writes {I : Bytes → Body → Prop} (hI : Yields A I) {content : Bytes} (n : ℕ)
    (room : Option ℕ) (calls : ℕ) {off : ℕ} {body : Body} (hbody : I (content.drop off) body) :
    Writes content (copyBody A n room calls off body).1 ∧
      ((copyBody A n room calls off body).2 = some .eof →
        ∀ p, off ≤ p → p < content.length → Covers (copyBody A n room calls off body).1 p) := by
  induction calls generalizing off body with
  | zero => exact ⟨writes_nil content, by simp [copyBody]⟩
  | succ calls ih =>
      rcases hread : body.read A n with ⟨c, e, body'⟩
      obtain ⟨s', hs, hnext, heof⟩ := hI _ body n hbody
      simp only [hread] at hs hnext heof
      have hfront : c <+: content.drop off := ⟨s', hs.symm⟩
      have hnow : ∀ p, off ≤ p → p < off + c.length → Covers (writeOps off c) p :=
        fun p hoff hp => covers_writeOps hoff hp
      simp only [copyBody, hread]
      split
      · exact ⟨writes_writeOps ((List.take_prefix _ c).trans hfront), by simp⟩
      · cases e with
        | none =>
            have hrest : content.drop (off + c.length) = s' := by
              rw [← List.drop_drop, hs, List.drop_left]
            obtain ⟨hws, hcover⟩ := ih (hrest.symm ▸ hnext rfl)
            refine ⟨(writes_writeOps hfront).append hws, fun hend p hoff hp => ?_⟩
            by_cases hlt : p < off + c.length
            · exact (hnow p hoff hlt).append_left _
            · exact (hcover hend p (by omega) hp).append_right _
        | some e =>
            have hws := writes_writeOps hfront
            by_cases he : e = .eof
            · subst he
              refine ⟨hws, fun _ p hoff hp => hnow p hoff ?_⟩
              have hlen := congrArg List.length hs
              rw [heof rfl, List.append_nil, List.length_drop] at hlen
              omega
            · cases e <;> first | exact absurd rfl he | exact ⟨hws, by simp⟩

/-! ### The stores -/

/-- The part behind `os.Create` writes the content, and all of it if it succeeds. -/
def Fills (content : Bytes) (next : Attempt) : Prop :=
  Writes content next.1 ∧ (next.2 = some .done → ∀ p < content.length, Covers next.1 p)

theorem createThen_transfers {content : Bytes} {next : Attempt} (h : Fills content next)
    (inc : Incoming) : Transfers content (createThen inc next) := by
  unfold createThen
  split
  · exact .created h.1 h.2
  · exact .stopped (by decide)

theorem unlessCanceled_ne_done (inc : Incoming) (e : DownloadErr) : inc.unlessCanceled e ≠ .done := by
  unfold Incoming.unlessCanceled
  split <;> simp [GetResult.stopped, GetResult.failed, GetResult.done]

theorem copyEnd_eq_done {inc : Incoming} {e : CopyEnd} (h : inc.copyEnd e = .done) : e = .eof := by
  cases e with
  | eof => rfl
  | write => exact absurd h (unlessCanceled_ne_done inc _)
  | read e => exact absurd h (unlessCanceled_ne_done inc _)

theorem azureEnd_eq_done {inc : Incoming} {e : CopyEnd} (h : inc.azureEnd e = .done) : e = .eof := by
  cases e with
  | eof => rfl
  | write => cases h
  | read e => exact absurd h (unlessCanceled_ne_done inc _)

theorem testNullEnd_eq_done {e : CopyEnd} (h : testNullEnd e = .done) : e = .eof := by
  cases e with
  | eof => rfl
  | write => cases h
  | read e => cases h

section

variable {es : EncryptionState} {content body : Bytes} {encrypted : Bool} {inc : Incoming}

theorem restoreBody_fills (hholds : Holds A es content encrypted body) (hserves : Serves inc body)
    (n : ℕ) {src : Source UInt8} (hsrc : inc.response = .body src) {onEnd : CopyEnd → GetResult}
    (hend : ∀ {e}, onEnd e = .done → e = .eof) :
    Fills content (restoreBody A es encrypted n inc src onEnd) := by
  unfold restoreBody
  cases hopen : openBody A es encrypted src with
  | error e => exact ⟨writes_nil content, by simp [GetResult.failed, GetResult.done]⟩
  | ok reader =>
      obtain ⟨I, hI, hreader⟩ := openBody_yields hholds (hserves.front src hsrc)
        (hserves.whole src hsrc) hopen
      obtain ⟨hws, hcover⟩ := copyBody_writes hI n inc.room inc.calls
        (show I (content.drop 0) reader from hreader)
      refine ⟨hws, fun hdone p hp => hcover ?_ p (Nat.zero_le p) hp⟩
      obtain ⟨e, he, hdone⟩ := Option.map_eq_some_iff.mp hdone
      rw [he, hend hdone]

theorem downloadEncrypted_fills (hholds : Holds A es content true body) (hserves : Serves inc body) :
    Fills content (downloadEncrypted A es inc) := by
  have hfail : some (inc.unlessCanceled .request) ≠ some .done :=
    fun h => unlessCanceled_ne_done inc _ (Option.some.inj h)
  unfold downloadEncrypted
  cases hresp : inc.response with
  | body src => exact restoreBody_fills hholds hserves copyBufferSize hresp copyEnd_eq_done
  | failed => exact ⟨writes_nil content, fun h => absurd h hfail⟩
  | missing => exact ⟨writes_nil content, fun h => absurd h hfail⟩

theorem downloadMultipart_fills (hserves : Serves inc body) : Fills body (downloadMultipart inc) := by
  refine ⟨?_, fun hdone p hp => ?_⟩
  · intro op hop
    obtain ⟨part, hpart, rfl⟩ := List.mem_map.mp hop
    exact ⟨part.1, part.2, rfl, hserves.parts part hpart⟩
  · have hok : inc.downloadOk = true := by
      by_contra hok
      simp only [downloadMultipart, hok, if_false, Option.some.injEq] at hdone
      exact unlessCanceled_ne_done inc _ hdone
    obtain ⟨part, hpart, hoff, hlt⟩ := hserves.complete hok p hp
    exact ⟨part.1, part.2, List.mem_map.mpr ⟨part, hpart, rfl⟩, hoff, hlt⟩

variable {rec : Record} (hfile : rec.props.type = .file)
  (hholds : Holds A es content rec.props.encrypted body) (hserves : Serves inc body)
include hfile hholds hserves

theorem getAwsS3_transfers : Transfers content (getAwsS3 A es rec inc) := by
  rw [getAwsS3, if_neg (by simp [hfile])]
  refine createThen_transfers ?_ inc
  cases henc : rec.props.encrypted with
  | true =>
      rw [henc] at hholds
      exact downloadEncrypted_fills hholds hserves
  | false =>
      rw [henc] at hholds
      cases hholds
      exact downloadMultipart_fills hserves

theorem getGcpStorage_transfers (remoteVersion : Str) :
    Transfers content (getGcpStorage A es rec remoteVersion inc) := by
  rw [getGcpStorage, if_neg (by simp [hfile])]
  cases parseInt remoteVersion with
  | none => exact .stopped (by decide)
  | some generation =>
      cases hresp : inc.response with
      | body src =>
          exact createThen_transfers
            (restoreBody_fills hholds hserves copyBufferSize hresp copyEnd_eq_done) inc
      | failed | missing => exact .stopped (by decide)

theorem getAzureBlob_transfers : Transfers content (getAzureBlob A es rec inc) := by
  rw [getAzureBlob, if_neg (by simp [hfile])]
  cases hresp : inc.response with
  | body src =>
      exact createThen_transfers
        (restoreBody_fills hholds hserves azureBufferSize hresp azureEnd_eq_done) inc
  | failed | missing => exact .stopped fun h => unlessCanceled_ne_done inc _ (Option.some.inj h)

theorem getTestNull_transfers : Transfers content (getTestNull A es rec inc) := by
  rw [getTestNull, if_neg (by simp [hfile])]
  cases inc.throttled with
  | true => exact .stopped (by decide)
  | false =>
      cases hresp : inc.response with
      | body src =>
          exact createThen_transfers
            (restoreBody_fills hholds hserves copyBufferSize hresp testNullEnd_eq_done) inc
      | failed => exact .stopped (by decide)
      | missing => exact absurd hresp hserves.present

end

theorem Store.download_transfers (st : Store) {rec : Record} (hfile : rec.props.type = .file)
    (remoteVersion : Str) {content body : Bytes}
    (hholds : Holds A st.enc content rec.props.encrypted body) {inc : Incoming}
    (hserves : Serves inc body) : Transfers content (st.download A rec remoteVersion inc) := by
  unfold Store.download
  cases st.kind with
  | awsS3 => exact getAwsS3_transfers hfile hholds hserves
  | gcpStorage => exact getGcpStorage_transfers hfile hholds hserves remoteVersion
  | azureBlob => exact getAzureBlob_transfers hfile hholds hserves
  | testNull => exact getTestNull_transfers hfile hholds hserves

end

theorem serves_undisturbed (body : Bytes) : Serves (undisturbed body) body where
  present := by simp [undisturbed]
  front := by
    intro src hsrc
    cases hsrc
    have hrest := (onePiece_splits body).rest
    exact ⟨[], by rw [List.append_nil, hrest]⟩
  whole := by
    intro src hsrc _
    cases hsrc
    exact (onePiece_splits body).rest
  parts := by simp [undisturbed]
  complete := by simp [undisturbed]

end CloudBackup.ObjectStore
