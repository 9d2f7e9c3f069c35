import CloudBackup.Cbcrypto.Format
import CloudBackup.Database.Tables
import CloudBackup.Library.ByteStream
import Mathlib.Data.UInt

/-!
Uploads with a limited rate. `FileReader` reads the file, and
`wrapAroundTransportRequestBody` the body of a request; both ask a token bucket for the
bytes that they read, and cut their reads to a size that the bucket can grant.

There are two sizes for this: `burst`, by which the reads are cut, and the one that the
bucket is built with. The bucket notes what it is asked for, and refuses what is more than
its own. A refusal is logged, and the read goes on.
-/

namespace CloudBackup.ObjectStore.RateLimiter

open Cbcrypto Database ByteStream

/-! ### The bucket -/

structure Limiter where
  burst : ℕ
  requests : List ℕ
  deriving DecidableEq, Repr

/-- `WaitN` refuses what is more than the burst. -/
def Limiter.refuses (l : Limiter) (n : ℕ) : Bool := l.burst < n

def Limiter.waitN (l : Limiter) (n : ℕ) : Limiter := { l with requests := l.requests ++ [n] }

def Limiter.taken (l : Limiter) : ℕ := (l.requests.filter (!l.refuses ·)).sum

/-- What `setupRateLimiterBucket` returns, without its error: the bucket, which is `nil`
if there is no limit, the limit and the burst. -/
structure Setup where
  bucket : Option Limiter
  ratelimit : ℕ
  burst : ℕ
  deriving DecidableEq, Repr

def maxInt64 : ℕ := 9223372036854775807

def maxBufferSize : ℕ := 20971520

/-- `ErrCouldNotConvertRate`. -/
inductive SetupErr
  | couldNotConvertRate
  deriving DecidableEq, Repr

def burstOf (ratelimit : ℕ) : ℕ :=
  let burst := ratelimit / 10
  let burst := if burst > 2147483647 then 2147483647 else burst
  let burst := if burst > maxBufferSize then maxBufferSize else burst
  if burst < 1 then 1 else burst

/-- A larger number would not fit into an `int64`. -/
def lowered (ratelimit : ℕ) : ℕ := if ratelimit > maxInt64 then maxInt64 else ratelimit

def setupFor (ratelimit : ℕ) : Setup :=
  if ratelimit > 0 then ⟨some ⟨ratelimit / 10, []⟩, ratelimit, burstOf ratelimit⟩ else ⟨none, ratelimit, 0⟩

def setupRateLimiterBucket (parseBytes : Str → Option ℕ) (rateLimitStr : Str) : Except SetupErr Setup :=
  match parseBytes rateLimitStr with
  | none => .error .couldNotConvertRate
  | some ratelimit => .ok (setupFor (lowered ratelimit))

/-! ### The readers -/

inductive LimitedErr
  | canceled
  /-- From the reader below. -/
  | reader (e : ReadErr)
  /-- tmp slice content was not fully copied to requested slice -/
  | internal
  deriving DecidableEq, Repr

structure FileReader where
  origFileReader : Source UInt8
  fileSize : ℤ
  readBytes : ℤ
  setup : Setup

def newFileReader (file : Source UInt8) (fileSize : ℤ) (setup : Setup) : FileReader :=
  ⟨file, fileSize, 0, setup⟩

def Setup.waitN (s : Setup) (n : ℕ) : Setup := { s with bucket := s.bucket.map (·.waitN n) }

def filled (size : ℕ) (read : Bytes) : Bytes := read ++ List.replicate (size - read.length) 0

/-- The size of the buffer that `FileReader.Read` reads into, if it does not use the one
of its caller. -/
def FileReader.newBufSize (handle : FileReader) (len : ℕ) : ℤ :=
  let remaining := handle.fileSize - handle.readBytes
  let newBufSize :=
    if remaining ≤ len then
      if remaining > 0 then remaining
      else if handle.fileSize = 0 then 1000 else 1
    else len
  if newBufSize > handle.setup.burst then handle.setup.burst else newBufSize

def FileReader.readFile (handle : FileReader) (size : ℕ) : FileReader :=
  let r := handle.origFileReader.read size
  { handle with origFileReader := r.2.2, readBytes := handle.readBytes + r.1.length }

/-- `FileReader.Read` with a buffer of `len` bytes: what is in the buffer as far as the
caller is told, and the error. -/
def FileReader.read (ctxDone : Bool) (handle : FileReader) (len : ℕ) :
    Bytes × Option LimitedErr × FileReader :=
  if ctxDone then ([], some .canceled, handle)
  else if handle.setup.ratelimit = 0 then
    let r := handle.origFileReader.read len
    (r.1, r.2.1.map .reader, handle.readFile len)
  else if len ≤ handle.setup.burst ∧ handle.fileSize - handle.readBytes ≥ len then
    let handle := { handle with setup := handle.setup.waitN len }
    let r := handle.origFileReader.read len
    (r.1, r.2.1.map .reader, handle.readFile len)
  else
    let size := (handle.newBufSize len).toNat
    let handle := { handle with setup := handle.setup.waitN size }
    let r := handle.origFileReader.read size
    let copiedBytes := min len size
    if copiedBytes ≠ size then ((filled size r.1).take copiedBytes, some .internal, handle.readFile size)
    else (r.1, r.2.1.map .reader, handle.readFile size)

structure WrapAroundTransportRequestBody where
  origBody : Source UInt8
  setup : Setup

def WrapAroundTransportRequestBody.readBody (handle : WrapAroundTransportRequestBody) (size : ℕ) :
    WrapAroundTransportRequestBody :=
  let r := handle.origBody.read size
  ⟨r.2.2, if r.2.1 = none then handle.setup.waitN r.1.length else handle.setup⟩

def WrapAroundTransportRequestBody.read (ctxDone : Bool) (handle : WrapAroundTransportRequestBody) (len : ℕ) :
    Bytes × Option LimitedErr × WrapAroundTransportRequestBody :=
  if handle.setup.ratelimit > 0 then
    if ctxDone then ([], some .canceled, handle)
    else if len ≤ handle.setup.burst then
      let r := handle.origBody.read len
      (r.1, r.2.1.map .reader, handle.readBody len)
    else
      let size := handle.setup.burst
      let r := handle.origBody.read size
      let copiedBytes := min len size
      if copiedBytes ≠ size then ((filled size r.1).take copiedBytes, some .internal, handle.readBody size)
      else (r.1, r.2.1.map .reader, handle.readBody size)
  else
    let r := handle.origBody.read len
    (r.1, r.2.1.map .reader, { handle with origBody := r.2.2 })

/-! ### The set up -/

theorem burstOf_pos (ratelimit : ℕ) : 0 < burstOf ratelimit := by
  unfold burstOf maxBufferSize
  dsimp only
  split_ifs <;> omega

theorem burstOf_le {ratelimit : ℕ} (h : 10 ≤ ratelimit) : burstOf ratelimit ≤ ratelimit / 10 := by
  unfold burstOf maxBufferSize
  dsimp only
  split_ifs <;> omega

theorem burstOf_of_lt {ratelimit : ℕ} (h : ratelimit < 10) : burstOf ratelimit = 1 := by
  have hzero : ratelimit / 10 = 0 := Nat.div_eq_of_lt h
  simp [burstOf, hzero]

theorem lowered_lt_iff {n : ℕ} (hn : n ≤ maxInt64) {ratelimit : ℕ} : lowered ratelimit < n ↔ ratelimit < n := by
  unfold lowered
  split <;> omega

@[simp] theorem setupFor_ratelimit (ratelimit : ℕ) : (setupFor ratelimit).ratelimit = ratelimit := by
  unfold setupFor
  split <;> rfl

theorem setupFor_of_pos {ratelimit : ℕ} (h : 0 < ratelimit) :
    setupFor ratelimit = ⟨some ⟨ratelimit / 10, []⟩, ratelimit, burstOf ratelimit⟩ :=
  if_pos h

theorem lowered_eq_zero_iff {ratelimit : ℕ} : lowered ratelimit = 0 ↔ ratelimit = 0 := by
  have hlt := @lowered_lt_iff 1 (by decide) ratelimit
  omega

theorem setupFor_burst_pos {ratelimit : ℕ} (h : (setupFor ratelimit).ratelimit ≠ 0) :
    0 < (setupFor ratelimit).burst := by
  rw [setupFor_ratelimit] at h
  rw [setupFor_of_pos (Nat.pos_of_ne_zero h)]
  exact burstOf_pos _

/-! ### What a limited reader returns -/

/-- The calls with these buffers return the bytes, and then the end of the stream; there
is no other error. -/
def Streams {ρ : Type} (read : ρ → ℕ → Bytes × Option LimitedErr × ρ) (r : ρ) (lens : ℕ → ℕ) (s : Bytes) : Prop :=
  ∃ k r', drive read ((List.range k).map lens) r = (s, some (.reader .eof), r')

section

variable {ρ : Type} {read : ρ → ℕ → Bytes × Option LimitedErr × ρ} {r : ρ} {lens : ℕ → ℕ} {s : Bytes}

theorem Streams.head (h : Streams read r lens s) {e : LimitedErr} (he : (read r (lens 0)).2.1 = some e) :
    e = .reader .eof := by
  obtain ⟨k, r', hdrive⟩ := h
  cases k with
  | zero => cases hdrive
  | succ k =>
      rw [range_succ_map, drive_cons_of_some he, Prod.mk.injEq, Prod.mk.injEq] at hdrive
      exact Option.some.inj hdrive.2.1

theorem Streams.tail (h : Streams read r lens s) (hnone : (read r (lens 0)).2.1 = none) :
    ∃ s', Streams read (read r (lens 0)).2.2 (fun i => lens (i + 1)) s' := by
  obtain ⟨k, r', hdrive⟩ := h
  cases k with
  | zero => cases hdrive
  | succ k =>
      rw [range_succ_map, drive_cons_of_none hnone, Prod.mk.injEq] at hdrive
      exact ⟨_, k, r', Prod.ext rfl hdrive.2⟩

end

@[simp] theorem Setup.waitN_ratelimit (s : Setup) (n : ℕ) : (s.waitN n).ratelimit = s.ratelimit := rfl

@[simp] theorem Setup.waitN_burst (s : Setup) (n : ℕ) : (s.waitN n).burst = s.burst := rfl

section

variable {handle : FileReader} {len : ℕ}

/-- The buffer is not longer than the one of the caller, unless the file has a size of
zero. -/
theorem FileReader.newBufSize_bounds (hburst : 0 < handle.setup.burst) (hlen : 0 < len)
    (hsize : handle.fileSize ≠ 0) : 0 < (handle.newBufSize len).toNat ∧ (handle.newBufSize len).toNat ≤ len := by
  unfold FileReader.newBufSize
  dsimp only
  split_ifs <;> omega

def Setup.zeroSizeRead (s : Setup) : ℕ := min 1000 s.burst

theorem setupFor_zeroSizeRead {ratelimit : ℕ} (h : ratelimit ≠ 0) :
    (setupFor ratelimit).zeroSizeRead = min 1000 (burstOf ratelimit) := by
  rw [Setup.zeroSizeRead, setupFor_of_pos (Nat.pos_of_ne_zero h)]

theorem FileReader.newBufSize_zero (hlen : 0 < len) (hsize : handle.fileSize = 0) (hread : 0 ≤ handle.readBytes) :
    (handle.newBufSize len).toNat = handle.setup.zeroSizeRead := by
  unfold FileReader.newBufSize Setup.zeroSizeRead
  dsimp only
  split_ifs <;> omega

structure FileReader.Advances (handle : FileReader) (size : ℕ) (handle' : FileReader) : Prop where
  src : handle'.origFileReader = (handle.origFileReader.read size).2.2
  fileSize : handle'.fileSize = handle.fileSize
  readBytes : 0 ≤ handle'.readBytes
  ratelimit : handle'.setup.ratelimit = handle.setup.ratelimit
  burst : handle'.setup.burst = handle.setup.burst

theorem FileReader.readFile_advances (hread : 0 ≤ handle.readBytes) (setup : Setup)
    (hlimit : setup.ratelimit = handle.setup.ratelimit) (hburst : setup.burst = handle.setup.burst) (size : ℕ) :
    handle.Advances size (FileReader.readFile { handle with setup := setup } size) where
  src := rfl
  fileSize := rfl
  readBytes := by
    simp only [FileReader.readFile]
    omega
  ratelimit := hlimit
  burst := hburst

/-- A read of a file that has a size of zero fails if the buffer is too short, whatever
there is to read. -/
theorem FileReader.read_zeroSize (hlimit : handle.setup.ratelimit ≠ 0) (hlen : 0 < len)
    (hsize : handle.fileSize = 0) (hread : 0 ≤ handle.readBytes) :
    ∃ c handle', handle.Advances handle.setup.zeroSizeRead handle' ∧ handle.read false len =
      if len < handle.setup.zeroSizeRead then (c, some .internal, handle')
      else ((handle.origFileReader.read handle.setup.zeroSizeRead).1,
        (handle.origFileReader.read handle.setup.zeroSizeRead).2.1.map .reader, handle') := by
  have hdirect : ¬ (len ≤ handle.setup.burst ∧ handle.fileSize - handle.readBytes ≥ len) := by omega
  refine ⟨(filled handle.setup.zeroSizeRead (handle.origFileReader.read handle.setup.zeroSizeRead).1).take
      (min len handle.setup.zeroSizeRead), _,
    FileReader.readFile_advances hread (handle.setup.waitN handle.setup.zeroSizeRead) rfl rfl _, ?_⟩
  rw [FileReader.read, if_neg Bool.false_ne_true, if_neg hlimit, if_neg hdirect]
  dsimp only
  rw [FileReader.newBufSize_zero hlen hsize hread]
  by_cases hshort : len < handle.setup.zeroSizeRead
  · rw [if_pos hshort, if_pos (by omega)]
  · rw [if_neg hshort, if_neg (by omega)]

/-- A read hands on a read of the file, unless the file has a size of zero and the buffer
is too short. -/
theorem FileReader.read_relays (hlen : 0 < len) (hread : 0 ≤ handle.readBytes)
    (hlimit : handle.setup.ratelimit ≠ 0 → 0 < handle.setup.burst)
    (hzero : handle.setup.ratelimit ≠ 0 → handle.fileSize = 0 → handle.setup.zeroSizeRead ≤ len) :
    ∃ size handle', 0 < size ∧ handle.Advances size handle' ∧
      (handle.setup.ratelimit ≠ 0 → handle.fileSize = 0 → size = handle.setup.zeroSizeRead) ∧
      handle.read false len = ((handle.origFileReader.read size).1,
        (handle.origFileReader.read size).2.1.map .reader, handle') := by
  by_cases hrate : handle.setup.ratelimit = 0
  · refine ⟨len, _, hlen, FileReader.readFile_advances hread handle.setup rfl rfl len,
      fun hne => absurd hrate hne, ?_⟩
    rw [FileReader.read, if_neg Bool.false_ne_true, if_pos hrate]
  · have hburst := hlimit hrate
    by_cases hfile : handle.fileSize = 0
    · obtain ⟨c, handle', hadvances, heq⟩ := FileReader.read_zeroSize hrate hlen hfile hread
      refine ⟨handle.setup.zeroSizeRead, handle', ?_, hadvances, fun _ _ => rfl, ?_⟩
      · rw [Setup.zeroSizeRead]
        omega
      · rw [heq, if_neg (Nat.not_lt.mpr (hzero hrate hfile))]
    · rw [FileReader.read, if_neg Bool.false_ne_true, if_neg hrate]
      split
      · exact ⟨len, _, hlen, FileReader.readFile_advances hread (handle.setup.waitN len) rfl rfl len,
          fun _ h => absurd h hfile, rfl⟩
      · obtain ⟨hpos, hle⟩ := FileReader.newBufSize_bounds hburst hlen hfile
        refine ⟨(handle.newBufSize len).toNat, _, hpos, FileReader.readFile_advances hread
          (handle.setup.waitN (handle.newBufSize len).toNat) rfl rfl _, fun _ h => absurd h hfile, ?_⟩
        dsimp only
        rw [if_neg (by omega)]

end

/-- A buffer that is used before the end of a file is long enough, if the file is read
with buffers of `size` bytes. -/
def LongEnough (size : ℕ) (file : Source UInt8) (lens : ℕ → ℕ) : Prop :=
  ∀ i, (drive Source.read (List.replicate i size) file).2.1 = none → size ≤ lens i

theorem drive_succ_of_none {size : ℕ} {file : Source UInt8} (h : (file.read size).2.1 = none) (i : ℕ) :
    (drive Source.read (List.replicate (i + 1) size) file).2 =
      (drive Source.read (List.replicate i size) (file.read size).2.2).2 := by
  rw [List.replicate_succ, drive_cons_of_none h]

theorem read_none_of_drive {size : ℕ} {file : Source UInt8} {i : ℕ}
    (h : (drive Source.read (List.replicate (i + 1) size) file).2.1 = none) : (file.read size).2.1 = none := by
  by_contra herr
  obtain ⟨e, he⟩ := Option.ne_none_iff_exists'.mp herr
  rw [List.replicate_succ, drive_cons_of_some he] at h
  cases h

/-- The buffers do not get in the way of a `FileReader`. -/
structure RelaysFile (handle : FileReader) (lens : ℕ → ℕ) : Prop where
  buffers : ∀ i, 0 < lens i
  readBytes : 0 ≤ handle.readBytes
  burst : handle.setup.ratelimit ≠ 0 → 0 < handle.setup.burst
  zeroSize : handle.setup.ratelimit ≠ 0 → handle.fileSize = 0 →
    LongEnough handle.setup.zeroSizeRead handle.origFileReader lens

theorem relays_file : Relays (FileReader.read false) FileReader.origFileReader .reader RelaysFile := by
  intro handle lens h
  obtain ⟨size, handle', hsize, hadvances, hzero, heq⟩ := FileReader.read_relays (h.buffers 0) h.readBytes
    h.burst fun hlimit hfile => h.zeroSize hlimit hfile 0 rfl
  refine ⟨size, handle', hsize, heq, fun hread => ⟨hadvances.src, ?_⟩⟩
  refine ⟨fun i => h.buffers (i + 1), hadvances.readBytes, ?_, ?_⟩
  · rw [hadvances.ratelimit, hadvances.burst]
    exact h.burst
  · rw [hadvances.ratelimit, hadvances.fileSize, Setup.zeroSizeRead, hadvances.burst, hadvances.src]
    intro hlimit hfile i hi
    have hsame := hzero hlimit hfile
    apply h.zeroSize hlimit hfile (i + 1)
    rw [hsame] at hread hi
    rw [drive_succ_of_none hread i]
    exact hi

/-- A buffer that is too short ends the reading of a file that has a size of zero. -/
theorem not_streams_of_short {lens : ℕ → ℕ} (hlens : ∀ i, 0 < lens i) {handle : FileReader}
    (hlimit : handle.setup.ratelimit ≠ 0) (hfile : handle.fileSize = 0) (hpos : 0 ≤ handle.readBytes) {i : ℕ}
    (hi : (drive Source.read (List.replicate i handle.setup.zeroSizeRead) handle.origFileReader).2.1 = none)
    (hshort : lens i < handle.setup.zeroSizeRead) (s : Bytes) :
    ¬ Streams (FileReader.read false) handle lens s := by
  -- by induction on the number of the calls before the short buffer
  induction i generalizing handle lens s with
  | zero =>
      intro hstreams
      obtain ⟨c, handle', -, heq⟩ := FileReader.read_zeroSize hlimit (hlens 0) hfile hpos
      rw [if_pos hshort] at heq
      cases hstreams.head (e := .internal) (by rw [heq])
  | succ i ih =>
      intro hstreams
      obtain ⟨c, handle', hadvances, heq⟩ := FileReader.read_zeroSize hlimit (hlens 0) hfile hpos
      by_cases hfirst : lens 0 < handle.setup.zeroSizeRead
      · rw [if_pos hfirst] at heq
        cases hstreams.head (e := .internal) (by rw [heq])
      · have hread := read_none_of_drive hi
        rw [if_neg hfirst, hread] at heq
        obtain ⟨s', hrest⟩ := hstreams.tail (by rw [heq]; rfl)
        rw [heq] at hrest
        have hkept : handle'.setup.zeroSizeRead = handle.setup.zeroSizeRead := by
          rw [Setup.zeroSizeRead, Setup.zeroSizeRead, hadvances.burst]
        refine ih (fun j => hlens (j + 1)) (by rwa [hadvances.ratelimit]) (by rwa [hadvances.fileSize])
          hadvances.readBytes ?_ (by rwa [hkept]) s' hrest
        rw [hkept, hadvances.src, ← drive_succ_of_none hread i]
        exact hi

structure RelaysBody (handle : WrapAroundTransportRequestBody) (lens : ℕ → ℕ) : Prop where
  buffers : ∀ i, 0 < lens i
  burst : handle.setup.ratelimit ≠ 0 → 0 < handle.setup.burst

@[simp] theorem WrapAroundTransportRequestBody.readBody_ratelimit (handle : WrapAroundTransportRequestBody)
    (size : ℕ) : (handle.readBody size).setup.ratelimit = handle.setup.ratelimit := by
  simp only [readBody]
  split <;> rfl

@[simp] theorem WrapAroundTransportRequestBody.readBody_burst (handle : WrapAroundTransportRequestBody)
    (size : ℕ) : (handle.readBody size).setup.burst = handle.setup.burst := by
  simp only [readBody]
  split <;> rfl

/-- The body is read with a buffer that is cut to the burst. -/
theorem WrapAroundTransportRequestBody.read_eq {handle : WrapAroundTransportRequestBody}
    (hlimit : handle.setup.ratelimit ≠ 0) (len : ℕ) : handle.read false len =
      ((handle.origBody.read (min len handle.setup.burst)).1,
        (handle.origBody.read (min len handle.setup.burst)).2.1.map .reader,
        handle.readBody (min len handle.setup.burst)) := by
  rw [read, if_pos (Nat.pos_of_ne_zero hlimit), if_neg Bool.false_ne_true]
  by_cases hle : len ≤ handle.setup.burst
  · rw [if_pos hle, Nat.min_eq_left hle]
  · have hmin : min len handle.setup.burst = handle.setup.burst := by omega
    rw [if_neg hle, hmin]
    dsimp only
    rw [hmin, if_neg (fun h => h rfl)]

theorem relays_body :
    Relays (WrapAroundTransportRequestBody.read false) WrapAroundTransportRequestBody.origBody .reader
      RelaysBody := by
  intro handle lens h
  have hlen := h.buffers 0
  have hnext : ∀ size, RelaysBody (handle.readBody size) fun i => lens (i + 1) := by
    intro size
    refine ⟨fun i => h.buffers (i + 1), ?_⟩
    rw [WrapAroundTransportRequestBody.readBody_ratelimit, WrapAroundTransportRequestBody.readBody_burst]
    exact h.burst
  by_cases hlimit : handle.setup.ratelimit = 0
  · refine ⟨lens 0, { handle with origBody := (handle.origBody.read (lens 0)).2.2 }, hlen, ?_,
      fun _ => ⟨rfl, fun i => h.buffers (i + 1), h.burst⟩⟩
    rw [WrapAroundTransportRequestBody.read, if_neg (by omega)]
  · have hburst := h.burst hlimit
    exact ⟨min (lens 0) handle.setup.burst, _, by omega, WrapAroundTransportRequestBody.read_eq hlimit (lens 0),
      fun _ => ⟨rfl, hnext _⟩⟩

/-- A limit does not change what is read of a file and of a body, for these buffers, if
and only if there is no limit, or the size of the file is not recorded as zero, or every
buffer up to the end of the file has room for what is read at a time of such a file. -/
theorem limited_streams_iff (parseBytes : Str → Option ℕ) (rateLimitStr : Str) (ratelimit : ℕ)
    (hparse : parseBytes rateLimitStr = some ratelimit) (file body : Source UInt8)
    (hfile : file.final = .eof) (hbody : body.final = .eof) (fileSize : ℤ) (lens : ℕ → ℕ)
    (hlens : ∀ i, 0 < lens i) :
    (∃ setup, setupRateLimiterBucket parseBytes rateLimitStr = .ok setup ∧
      Streams (FileReader.read false) (newFileReader file fileSize setup) lens file.rest ∧
      Streams (WrapAroundTransportRequestBody.read false) ⟨body, setup⟩ lens body.rest) ↔
    ratelimit = 0 ∨ fileSize ≠ 0 ∨ LongEnough (min 1000 (burstOf (lowered ratelimit))) file lens := by
  have hsetup : setupRateLimiterBucket parseBytes rateLimitStr = .ok (setupFor (lowered ratelimit)) := by
    rw [setupRateLimiterBucket, hparse]
  simp only [hsetup, Except.ok.injEq, exists_eq_left']
  constructor
  · rintro ⟨hstreams, -⟩
    by_contra hnot
    simp only [not_or, not_not] at hnot
    obtain ⟨hrate, hfileSize, hlong⟩ := hnot
    have hne : lowered ratelimit ≠ 0 := fun h => hrate (lowered_eq_zero_iff.mp h)
    rw [LongEnough, not_forall] at hlong
    obtain ⟨i, hi⟩ := hlong
    rw [Classical.not_imp, Nat.not_le, ← setupFor_zeroSizeRead hne] at hi
    have hlimit : (newFileReader file fileSize (setupFor (lowered ratelimit))).setup.ratelimit ≠ 0 := by
      rwa [newFileReader, setupFor_ratelimit]
    exact not_streams_of_short hlens hlimit hfileSize le_rfl hi.1 hi.2 file.rest hstreams
  · intro h
    constructor
    · have hrelays : RelaysFile (newFileReader file fileSize (setupFor (lowered ratelimit))) lens := by
        refine ⟨hlens, le_rfl, setupFor_burst_pos, fun hlimit hfileSize => ?_⟩
        rw [newFileReader, setupFor_ratelimit] at hlimit
        rw [newFileReader, setupFor_zeroSizeRead hlimit]
        rcases h with h | h | h
        · exact absurd (lowered_eq_zero_iff.mpr h) hlimit
        · exact absurd hfileSize h
        · exact h
      obtain ⟨k, r', hdrive⟩ := relays_file.drive_all hrelays
      refine ⟨k, r', ?_⟩
      rw [hdrive, newFileReader, hfile]
    · have hrelays : RelaysBody ⟨body, setupFor (lowered ratelimit)⟩ lens := ⟨hlens, setupFor_burst_pos⟩
      obtain ⟨k, r', hdrive⟩ := relays_body.drive_all hrelays
      exact ⟨k, r', by rw [hdrive, hbody]⟩

/-- A file of three bytes, with the size that it has. -/
theorem limited_streams_threeBytes :
    ∃ setup, setupRateLimiterBucket (fun _ => some 10000) "10kB".toList = .ok setup ∧
      Streams (FileReader.read false) (newFileReader ⟨[[1, 2, 3]], .eof, false⟩ 3 setup) (fun _ => 512) [1, 2, 3] ∧
      Streams (WrapAroundTransportRequestBody.read false) ⟨⟨[[4]], .eof, true⟩, setup⟩ (fun _ => 512) [4] :=
  (limited_streams_iff (fun _ => some 10000) "10kB".toList 10000 rfl ⟨[[1, 2, 3]], .eof, false⟩
    ⟨[[4]], .eof, true⟩ rfl rfl 3 (fun _ => 512) (fun _ => by decide)).mpr (.inr (.inl (by decide)))

/-- A file of one byte with a recorded size of zero: a buffer of 512 bytes is shorter than
the 1000 that are read at a time. -/
theorem limited_streams_zeroSize : ¬ ∀ (parseBytes : Str → Option ℕ) (rateLimitStr : Str) (ratelimit : ℕ),
    parseBytes rateLimitStr = some ratelimit → ∀ file body : Source UInt8, file.final = .eof →
      body.final = .eof → ∀ (fileSize : ℤ) (lens : ℕ → ℕ), (∀ i, 0 < lens i) →
        ∃ setup, setupRateLimiterBucket parseBytes rateLimitStr = .ok setup ∧
          Streams (FileReader.read false) (newFileReader file fileSize setup) lens file.rest ∧
          Streams (WrapAroundTransportRequestBody.read false) ⟨body, setup⟩ lens body.rest := by
  intro h
  obtain ⟨setup, hsetup, hstreams, -⟩ := h (fun _ => some 10000) "10kB".toList 10000 rfl
    ⟨[[1]], .eof, false⟩ ⟨[], .eof, false⟩ rfl rfl 0 (fun _ => 512) (fun _ => by decide)
  obtain rfl : setupFor (lowered 10000) = setup := Except.ok.inj hsetup
  have hshort : 512 < (setupFor (lowered 10000)).zeroSizeRead := by decide
  have hlimit : (newFileReader ⟨[[1]], .eof, false⟩ 0 (setupFor (lowered 10000))).setup.ratelimit ≠ 0 := by decide
  have hlens : ∀ i : ℕ, 0 < (fun _ => 512 : ℕ → ℕ) i := fun _ => Nat.succ_pos 511
  exact not_streams_of_short hlens hlimit rfl le_rfl (i := 0) rfl hshort _ hstreams

/-! ### What the bucket is asked for -/

/-- All calls of a sequence, also after an error: how many bytes were returned, and the
reader afterwards. Each call comes with the state of the context. -/
def readAll {ρ : Type} (read : Bool → ρ → ℕ → Bytes × Option LimitedErr × ρ) : List (Bool × ℕ) → ρ → ℕ × ρ
  | [], r => (0, r)
  | call :: calls, r =>
      let x := read call.1 r call.2
      let rest := readAll read calls x.2.2
      (x.1.length + rest.1, rest.2)

/-- The bucket has refused nothing, and has given a token for each of the bytes. -/
structure Metered (bytes : ℕ) (l : Limiter) : Prop where
  granted : ∀ n ∈ l.requests, l.refuses n = false
  enough : bytes ≤ l.taken

/-- A reader with a limit is metered, for all calls. -/
def AlwaysMetered {ρ : Type} (read : Bool → ρ → ℕ → Bytes × Option LimitedErr × ρ) (setup : ρ → Setup) (r : ρ) :
    Prop :=
  ∀ calls, ∃ l, (setup (readAll read calls r).2).bucket = some l ∧ Metered (readAll read calls r).1 l

theorem Limiter.taken_waitN (l : Limiter) (n : ℕ) :
    (l.waitN n).taken = l.taken + if l.refuses n then 0 else n := by
  have hsame : (fun m => !(l.waitN n).refuses m) = fun m => !l.refuses m := rfl
  rw [Limiter.taken, hsame, Limiter.waitN, List.filter_append, List.filter_singleton, List.sum_append,
    Limiter.taken]
  cases l.refuses n <;> simp

theorem Metered.waitN {bytes : ℕ} {l : Limiter} (h : Metered bytes l) {n more : ℕ} (hn : n ≤ l.burst)
    (hmore : more ≤ n) : Metered (bytes + more) (l.waitN n) := by
  have hgranted : l.refuses n = false := by simpa [Limiter.refuses] using hn
  constructor
  · intro m hm
    rcases List.mem_append.mp hm with hm | hm
    · exact h.granted m hm
    · rw [List.mem_singleton.mp hm]
      exact hgranted
  · have henough := h.enough
    have htaken : (l.waitN n).taken = l.taken + n := by
      rw [Limiter.taken_waitN, hgranted, if_neg Bool.false_ne_true]
    omega

/-- What one call does: it asks for no more than the burst and for what it returns, or it
returns nothing. -/
def Asks (setup : Setup) (c : Bytes) (setup' : Setup) : Prop :=
  (c = [] ∧ setup' = setup) ∨ ∃ n ≤ setup.burst, c.length ≤ n ∧ setup' = setup.waitN n

/-- A reader all of whose calls ask is metered, if the burst is not more than that of the
bucket. -/
theorem alwaysMetered_of_asks {ρ : Type} {read : Bool → ρ → ℕ → Bytes × Option LimitedErr × ρ} {setup : ρ → Setup}
    {I : ρ → Prop} (hasks : ∀ ctxDone r len, I r → Asks (setup r) (read ctxDone r len).1 (setup (read ctxDone r len).2.2) ∧
      I (read ctxDone r len).2.2) {r : ρ} (hI : I r) {l : Limiter} (hbucket : (setup r).bucket = some l)
    (hburst : (setup r).burst ≤ l.burst) (hnew : l.requests = []) : AlwaysMetered read setup r := by
  suffices hall : ∀ calls r (bytes : ℕ) (l : Limiter), I r → (setup r).bucket = some l → (setup r).burst ≤ l.burst →
      Metered bytes l → ∃ l', (setup (readAll read calls r).2).bucket = some l' ∧
        Metered (bytes + (readAll read calls r).1) l' by
    intro calls
    obtain ⟨l', hl', hmetered⟩ := hall calls r 0 l hI hbucket hburst
      ⟨by rw [hnew]; exact fun n hn => absurd hn List.not_mem_nil, Nat.zero_le _⟩
    exact ⟨l', hl', by rwa [Nat.zero_add] at hmetered⟩
  intro calls
  induction calls with
  | nil => exact fun r bytes l _ hbucket _ hmetered => ⟨l, hbucket, hmetered⟩
  | cons call calls ih =>
      intro r bytes l hI hbucket hburst hmetered
      obtain ⟨hask, hI'⟩ := hasks call.1 r call.2 hI
      rw [readAll]
      dsimp only
      rw [← Nat.add_assoc]
      rcases hask with ⟨hnil, hsame⟩ | ⟨n, hn, hle, hwait⟩
      · rw [hnil]
        exact ih _ bytes l hI' (by rwa [hsame]) (by rwa [hsame]) hmetered
      · refine ih _ _ (l.waitN n) hI' ?_ ?_ (hmetered.waitN (hn.trans hburst) hle)
        · rw [hwait, Setup.waitN, hbucket]
          rfl
        · rwa [hwait]

theorem FileReader.newBufSize_le (handle : FileReader) (len : ℕ) :
    (handle.newBufSize len).toNat ≤ handle.setup.burst := by
  unfold FileReader.newBufSize
  dsimp only
  split_ifs <;> omega

theorem FileReader.read_asks {handle : FileReader} (hlimit : handle.setup.ratelimit ≠ 0) (ctxDone : Bool)
    (len : ℕ) : Asks handle.setup (handle.read ctxDone len).1 (handle.read ctxDone len).2.2.setup ∧
      (handle.read ctxDone len).2.2.setup.ratelimit ≠ 0 := by
  cases ctxDone with
  | true => exact ⟨.inl ⟨rfl, rfl⟩, hlimit⟩
  | false =>
      rw [FileReader.read, if_neg Bool.false_ne_true, if_neg hlimit]
      by_cases hdirect : len ≤ handle.setup.burst ∧ handle.fileSize - handle.readBytes ≥ len
      · rw [if_pos hdirect]
        exact ⟨.inr ⟨len, hdirect.1, Source.length_read_le _ _, rfl⟩, hlimit⟩
      · rw [if_neg hdirect]
        dsimp only
        have hle := Source.length_read_le handle.origFileReader (handle.newBufSize len).toNat
        by_cases hshort : min len (handle.newBufSize len).toNat ≠ (handle.newBufSize len).toNat
        · rw [if_pos hshort]
          refine ⟨.inr ⟨(handle.newBufSize len).toNat, handle.newBufSize_le len, ?_, rfl⟩, hlimit⟩
          rw [List.length_take]
          omega
        · rw [if_neg hshort]
          exact ⟨.inr ⟨(handle.newBufSize len).toNat, handle.newBufSize_le len, hle, rfl⟩, hlimit⟩

/-- No bytes come together with the error of the source. -/
def EndsAlone (src : Source UInt8) : Prop := src.withLast = true → ∀ c, src.pieces.getLast? = some c → c = []

instance (src : Source UInt8) : Decidable (EndsAlone src) :=
  decidable_of_iff (src.withLast = true → src.pieces.getLast?.all (· = []))
    (forall_congr' fun _ => by simp [Option.all_eq_true])

theorem endsAlone_read_iff {src : Source UInt8} {n : ℕ} (h : (src.read n).2.1 = none) :
    EndsAlone (src.read n).2.2 ↔ EndsAlone src := by
  unfold Source.read at h ⊢
  cases hp : src.pieces with
  | nil => simp [hp] at h
  | cons c cs =>
      rw [hp] at h
      by_cases hc : c.length ≤ n
      · simp only [hc, if_true] at h ⊢
        cases cs with
        | nil => simp_all [EndsAlone]
        | cons d ds => simp [EndsAlone, hp]
      · simp only [hc, if_false]
        cases cs with
        | nil =>
            have hdrop : c.drop n ≠ [] := by simpa using hc
            have hne : c ≠ [] := by
              rintro rfl
              simp at hc
            simp [EndsAlone, hp, hdrop, hne]
        | cons d ds => simp [EndsAlone, hp]

theorem EndsAlone.read_nil {src : Source UInt8} (hsrc : EndsAlone src) {n : ℕ} (h : (src.read n).2.1 ≠ none) :
    (src.read n).1 = [] := by
  unfold Source.read at h ⊢
  cases hp : src.pieces with
  | nil => rfl
  | cons c cs =>
      rw [hp] at h
      by_cases hc : c.length ≤ n
      · simp only [hc, if_true] at h ⊢
        cases cs with
        | nil =>
            have hlast : src.withLast = true := by simpa using h
            exact hsrc hlast c (by rw [hp]; rfl)
        | cons d ds => simp at h
      · simp only [hc, if_false] at h
        exact absurd rfl h

theorem EndsAlone.read {src : Source UInt8} (hsrc : EndsAlone src) (n : ℕ) : EndsAlone (src.read n).2.2 := by
  cases herr : (src.read n).2.1 with
  | none => exact (endsAlone_read_iff herr).mpr hsrc
  | some e =>
      intro _ c hc
      rw [(Source.read_err herr).2] at hc
      cases hc

/-- What comes with an error of a body that does not end alone. -/
theorem read_ne_nil_of_not_endsAlone {src : Source UInt8} (hsrc : ¬ EndsAlone src) {n : ℕ} {e : ReadErr}
    (herr : (src.read n).2.1 = some e) : (src.read n).1 ≠ [] := by
  intro hnil
  apply hsrc
  intro _ c hc
  have hrest := src.rest_eq_read n
  rw [hnil, List.nil_append, Source.rest, Source.rest, (Source.read_err herr).2, List.flatten_nil] at hrest
  exact List.flatten_eq_nil_iff.mp hrest c (List.mem_of_getLast? hc)

section

variable {handle : WrapAroundTransportRequestBody} {size : ℕ}

theorem WrapAroundTransportRequestBody.readBody_setup_of_none (h : (handle.origBody.read size).2.1 = none) :
    (handle.readBody size).setup = handle.setup.waitN (handle.origBody.read size).1.length := by
  rw [readBody]
  exact if_pos h

theorem WrapAroundTransportRequestBody.readBody_setup_of_err (h : (handle.origBody.read size).2.1 ≠ none) :
    (handle.readBody size).setup = handle.setup := by
  rw [readBody]
  exact if_neg h

theorem WrapAroundTransportRequestBody.readBody_asks (hbody : EndsAlone handle.origBody)
    (hsize : size ≤ handle.setup.burst) :
    Asks handle.setup (handle.origBody.read size).1 (handle.readBody size).setup := by
  have hle := Source.length_read_le handle.origBody size
  by_cases herr : (handle.origBody.read size).2.1 = none
  · exact .inr ⟨_, hle.trans hsize, le_rfl, readBody_setup_of_none herr⟩
  · exact .inl ⟨hbody.read_nil herr, readBody_setup_of_err herr⟩

end

theorem WrapAroundTransportRequestBody.read_asks {handle : WrapAroundTransportRequestBody}
    (hlimit : handle.setup.ratelimit ≠ 0) (hbody : EndsAlone handle.origBody) (ctxDone : Bool) (len : ℕ) :
    Asks handle.setup (handle.read ctxDone len).1 (handle.read ctxDone len).2.2.setup ∧
      (handle.read ctxDone len).2.2.setup.ratelimit ≠ 0 ∧ EndsAlone (handle.read ctxDone len).2.2.origBody := by
  cases ctxDone with
  | true =>
      have hread : handle.read true len = ([], some .canceled, handle) := by
        rw [read, if_pos (Nat.pos_of_ne_zero hlimit), if_pos rfl]
      rw [hread]
      exact ⟨.inl ⟨rfl, rfl⟩, hlimit, hbody⟩
  | false =>
      rw [read_eq hlimit]
      refine ⟨readBody_asks hbody (Nat.min_le_right _ _), ?_, hbody.read _⟩
      rwa [readBody_ratelimit]

/-- Bytes that come with the error of a body are not asked for. -/
theorem exists_unmetered {handle : WrapAroundTransportRequestBody} (hlimit : handle.setup.ratelimit ≠ 0)
    (hburst : 0 < handle.setup.burst) (hbody : ¬ EndsAlone handle.origBody) {l : Limiter}
    (hbucket : handle.setup.bucket = some l) {bytes : ℕ} (hbytes : l.taken ≤ bytes) :
    ∃ calls l', (readAll WrapAroundTransportRequestBody.read calls handle).2.setup.bucket = some l' ∧
      l'.taken < bytes + (readAll WrapAroundTransportRequestBody.read calls handle).1 := by
  induction hsize : (handle.origBody.pieces.map (fun c => c.length + 1)).sum using Nat.strongRecOn
    generalizing handle l bytes with
  | ind size ih =>
    have hone : min 1 handle.setup.burst = 1 := by omega
    have hread := WrapAroundTransportRequestBody.read_eq hlimit 1
    rw [hone] at hread
    cases herr : (handle.origBody.read 1).2.1 with
    | none =>
        have hlt := Source.read_decreases Nat.one_pos herr
        rw [hsize] at hlt
        have hsetup := WrapAroundTransportRequestBody.readBody_setup_of_none herr
        have hlimit' : (handle.readBody 1).setup.ratelimit ≠ 0 := by rwa [hsetup]
        have hburst' : 0 < (handle.readBody 1).setup.burst := by rwa [hsetup]
        have hbody' : ¬ EndsAlone (handle.readBody 1).origBody := fun h => hbody ((endsAlone_read_iff herr).mp h)
        have hbucket' : (handle.readBody 1).setup.bucket = some (l.waitN (handle.origBody.read 1).1.length) := by
          rw [hsetup, Setup.waitN, hbucket]
          rfl
        have hbytes' : (l.waitN (handle.origBody.read 1).1.length).taken ≤
            bytes + (handle.origBody.read 1).1.length := by
          rw [Limiter.taken_waitN]
          split <;> omega
        obtain ⟨calls, l', hl', hmore⟩ := ih _ hlt hlimit' hburst' hbody' hbucket' hbytes' rfl
        refine ⟨(false, 1) :: calls, l', ?_, ?_⟩
        · simp only [readAll, hread]
          exact hl'
        · simp only [readAll, hread]
          omega
    | some e =>
        have hsetup : (handle.readBody 1).setup = handle.setup :=
          WrapAroundTransportRequestBody.readBody_setup_of_err (by simp [herr])
        refine ⟨[(false, 1)], l, ?_, ?_⟩
        · simp only [readAll, hread]
          rwa [hsetup]
        · simp only [readAll, hread]
          have hpos := List.length_pos_iff.mpr (read_ne_nil_of_not_endsAlone hbody herr)
          omega

/-- A request for one byte is refused by a bucket that was built without a burst. -/
theorem FileReader.read_one {handle : FileReader} (hlimit : handle.setup.ratelimit ≠ 0)
    (hburst : handle.setup.burst = 1) : (handle.read false 1).2.2.setup = handle.setup.waitN 1 := by
  rw [FileReader.read, if_neg Bool.false_ne_true, if_neg hlimit]
  by_cases hdirect : 1 ≤ handle.setup.burst ∧ handle.fileSize - handle.readBytes ≥ (1 : ℕ)
  · rw [if_pos hdirect]
    rfl
  · have hsize : (handle.newBufSize 1).toNat = 1 := by
      unfold FileReader.newBufSize
      dsimp only
      rw [hburst] at hdirect ⊢
      split_ifs <;> omega
    rw [if_neg hdirect, hsize]
    rfl

/-- A limit is kept in all sequences of calls if and only if it is at least ten bytes, and
the body does not return bytes together with its error. -/
theorem limited_metered_iff (parseBytes : Str → Option ℕ) (rateLimitStr : Str) (ratelimit : ℕ)
    (hparse : parseBytes rateLimitStr = some ratelimit) (hpos : 0 < ratelimit) (file body : Source UInt8)
    (fileSize : ℤ) :
    (∃ setup, setupRateLimiterBucket parseBytes rateLimitStr = .ok setup ∧
      AlwaysMetered FileReader.read FileReader.setup (newFileReader file fileSize setup) ∧
      AlwaysMetered WrapAroundTransportRequestBody.read WrapAroundTransportRequestBody.setup ⟨body, setup⟩) ↔
    10 ≤ ratelimit ∧ EndsAlone body := by
  have hlt := fun n hn => @lowered_lt_iff n hn ratelimit
  have hpos' : 0 < lowered ratelimit := by
    have hone := hlt 1 (by decide)
    omega
  have hten : lowered ratelimit < 10 ↔ ratelimit < 10 := hlt 10 (by decide)
  have hsetup : setupRateLimiterBucket parseBytes rateLimitStr =
      .ok ⟨some ⟨lowered ratelimit / 10, []⟩, lowered ratelimit, burstOf (lowered ratelimit)⟩ := by
    rw [setupRateLimiterBucket, hparse, ← setupFor_of_pos hpos']
  simp only [hsetup, Except.ok.injEq, exists_eq_left']
  constructor
  · rintro ⟨hfile, hbody⟩
    constructor
    · by_contra hsmall
      have hsmall' : lowered ratelimit < 10 := hten.mpr (Nat.not_le.mp hsmall)
      obtain ⟨l, hl, hmetered⟩ := hfile [(false, 1)]
      have hone := @FileReader.read_one (newFileReader file fileSize
        ⟨some ⟨lowered ratelimit / 10, []⟩, lowered ratelimit, burstOf (lowered ratelimit)⟩)
        hpos'.ne' (burstOf_of_lt hsmall')
      simp only [readAll, hone] at hl
      obtain rfl := Option.some.inj hl
      have hgranted := hmetered.granted 1 (by simp [Limiter.waitN])
      have hburst : lowered ratelimit / 10 = 0 := Nat.div_eq_of_lt hsmall'
      simp [Limiter.refuses, Limiter.waitN, hburst] at hgranted
    · by_contra hends
      obtain ⟨calls, l, hl, hless⟩ := @exists_unmetered ⟨body, ⟨some ⟨lowered ratelimit / 10, []⟩,
        lowered ratelimit, burstOf (lowered ratelimit)⟩⟩ hpos'.ne' (burstOf_pos _) hends _ rfl 0 le_rfl
      obtain ⟨l', hl', hmetered⟩ := hbody calls
      obtain rfl := Option.some.inj (hl.symm.trans hl')
      have henough := hmetered.enough
      omega
  · rintro ⟨hlarge, hends⟩
    have hburst : burstOf (lowered ratelimit) ≤ lowered ratelimit / 10 := burstOf_le (by omega)
    constructor
    · exact alwaysMetered_of_asks (I := fun handle : FileReader => handle.setup.ratelimit ≠ 0)
        (fun ctxDone handle len h => handle.read_asks h ctxDone len) hpos'.ne' rfl hburst rfl
    · exact alwaysMetered_of_asks
        (I := fun handle : WrapAroundTransportRequestBody =>
          handle.setup.ratelimit ≠ 0 ∧ EndsAlone handle.origBody)
        (fun ctxDone handle len h => handle.read_asks h.1 h.2 ctxDone len) ⟨hpos'.ne', hends⟩ rfl hburst rfl

theorem limited_metered_tenKilobytes :
    ∃ setup, setupRateLimiterBucket (fun _ => some 10000) "10kB".toList = .ok setup ∧
      AlwaysMetered FileReader.read FileReader.setup (newFileReader ⟨[[1, 2, 3]], .eof, false⟩ 3 setup) ∧
      AlwaysMetered WrapAroundTransportRequestBody.read WrapAroundTransportRequestBody.setup
        ⟨⟨[[4]], .eof, false⟩, setup⟩ :=
  (limited_metered_iff (fun _ => some 10000) "10kB".toList 10000 rfl (by decide) ⟨[[1, 2, 3]], .eof, false⟩
    ⟨[[4]], .eof, false⟩ 3).mpr ⟨by decide, by decide⟩

/-- With a limit of five bytes a second, the bucket has no burst, and refuses a single
byte. -/
theorem limited_metered_fiveBytes : ¬ ∀ (parseBytes : Str → Option ℕ) (rateLimitStr : Str) (ratelimit : ℕ),
    parseBytes rateLimitStr = some ratelimit → 0 < ratelimit → ∀ (file body : Source UInt8) (fileSize : ℤ),
      ∃ setup, setupRateLimiterBucket parseBytes rateLimitStr = .ok setup ∧
        AlwaysMetered FileReader.read FileReader.setup (newFileReader file fileSize setup) ∧
        AlwaysMetered WrapAroundTransportRequestBody.read WrapAroundTransportRequestBody.setup ⟨body, setup⟩ := by
  intro h
  obtain ⟨setup, hsetup, hfile, -⟩ := h (fun _ => some 5) "5B".toList 5 rfl (by decide)
    ⟨[[7]], .eof, false⟩ ⟨[], .eof, false⟩ 1
  obtain rfl : setupFor (lowered 5) = setup := Except.ok.inj hsetup
  obtain ⟨l, hl, hmetered⟩ := hfile [(false, 1)]
  have hasked : (readAll FileReader.read [(false, 1)]
      (newFileReader ⟨[[7]], .eof, false⟩ 1 (setupFor (lowered 5)))).2.setup.bucket = some ⟨0, [1]⟩ := by decide
  obtain rfl := Option.some.inj (hasked.symm.trans hl)
  exact absurd (hmetered.granted 1 (by decide)) (by decide)

end CloudBackup.ObjectStore.RateLimiter
