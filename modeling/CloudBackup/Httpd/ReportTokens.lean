import CloudBackup.Httpd.NextToken

/-!
The tokens of the lists of jobs, and the token of a file list for paths of any bytes. The
first is the text `limit:offset:earliestStart:latestStart` in base64. A client can write any
numbers into it.

A text of bytes has a character for each byte.
-/

namespace CloudBackup.Httpd

open Base64 (IsBytes bytesOf textOf)

/-! ### Numbers with a sign -/

/-- `strconv.FormatInt(n, 10)`. -/
def formatSigned (n : ℤ) : Str := if n < 0 then '-' :: formatUint n.natAbs else formatUint n.natAbs

/-- `strconv.ParseInt(s, 10, 64)`. -/
def parseSigned (s : Str) : Option ℤ :=
  let digits := if s.head? = some '+' ∨ s.head? = some '-' then s.tail else s
  match parseUint digits with
  | none => none
  | some n =>
      if s.head? = some '-' then if n ≤ 2 ^ 63 then some (-n) else none
      else if n < 2 ^ 63 then some n else none

def IsInt64 (n : ℤ) : Prop := -2 ^ 63 ≤ n ∧ n < 2 ^ 63

theorem isDigit_of_mem_formatUint {n : ℕ} {c : Char} (h : c ∈ formatUint n) : c.isDigit = true :=
  Nat.isDigit_of_mem_toDigits (by decide) (by decide) h

theorem head?_formatUint_ne (n : ℕ) {c : Char} (hc : c.isDigit = false) : (formatUint n).head? ≠ some c := by
  intro h
  rw [isDigit_of_mem_formatUint (List.mem_of_head? h)] at hc
  cases hc

theorem parseSigned_formatSigned {n : ℤ} (h : IsInt64 n) : parseSigned (formatSigned n) = some n := by
  obtain ⟨hmin, hmax⟩ := h
  have hparse : parseUint (formatUint n.natAbs) = some n.natAbs := parseUint_formatUint (by omega)
  by_cases hn : n < 0
  · have hdigits : formatSigned n = '-' :: formatUint n.natAbs := if_pos hn
    simp only [parseSigned, hdigits, List.head?_cons, List.tail_cons, or_true, if_true, hparse]
    rw [if_pos (by omega), Int.ofNat_natAbs_of_nonpos hn.le, neg_neg]
  · have hdigits : formatSigned n = formatUint n.natAbs := if_neg hn
    simp only [parseSigned, hdigits, head?_formatUint_ne _ (show '+'.isDigit = false by decide),
      head?_formatUint_ne _ (show '-'.isDigit = false by decide), or_self, if_false, hparse]
    rw [if_pos (by omega), Int.natAbs_of_nonneg (not_lt.mp hn)]

theorem parseUint_lt {s : Str} {n : ℕ} (h : parseUint s = some n) : n < 2 ^ 64 := by
  rw [parseUint] at h
  split at h
  · rename_i hs
    obtain rfl := Option.some.inj h
    exact hs.2.2
  · cases h

theorem isInt64_of_parseSigned {s : Str} {n : ℤ} (h : parseSigned s = some n) : IsInt64 n := by
  rw [IsInt64]
  simp only [parseSigned] at h
  split at h
  · cases h
  · split_ifs at h <;> obtain rfl := Option.some.inj h <;> omega

theorem colon_notMem_formatSigned (n : ℤ) : ':' ∉ formatSigned n := by
  have hcolon := colon_notMem_formatUint n.natAbs
  rw [formatSigned]
  split
  · simpa using hcolon
  · exact hcolon

theorem toNat_lt_of_mem_formatUint {n : ℕ} {c : Char} (h : c ∈ formatUint n) : c.toNat < 58 := by
  have hdigit := isDigit_of_mem_formatUint h
  rw [Char.isDigit, Bool.and_eq_true, decide_eq_true_eq, decide_eq_true_eq] at hdigit
  have hle : c.toNat ≤ 57 := hdigit.2
  omega

theorem toNat_lt_of_mem_formatBool {b : Bool} {c : Char} (hc : c ∈ formatBool b) : c.toNat < 0x80 := by
  have hall : ((formatBool b).all fun c => c.toNat < 0x80) = true := by
    cases b <;> rfl
  exact of_decide_eq_true (List.all_eq_true.mp hall c hc)

theorem isBytes_formatUint (n : ℕ) : IsBytes (formatUint n) := fun _ hc =>
  (toNat_lt_of_mem_formatUint hc).trans (by decide)

theorem isBytes_formatSigned (n : ℤ) : IsBytes (formatSigned n) := by
  have hbytes := isBytes_formatUint n.natAbs
  rw [formatSigned]
  split
  · exact List.forall_mem_cons.mpr ⟨by decide, hbytes⟩
  · exact hbytes

theorem isBytes_colon {s t : Str} (hs : IsBytes s) (ht : IsBytes t) : IsBytes (s ++ ':' :: t) :=
  List.forall_mem_append.mpr ⟨hs, List.forall_mem_cons.mpr ⟨by decide, ht⟩⟩

/-! ### The lists of jobs -/

structure JobsToken where
  limit : ℕ
  offset : ℕ
  earliestStart : ℤ
  latestStart : ℤ
  deriving DecidableEq, Repr

inductive JobsTokenErr
  | base64 (token : Str)
  | notFourParts (parts : List Str)
  | limit (part : Str)
  | offset (part : Str)
  | earliestStart (part : Str)
  | latestStart (part : Str)
  deriving DecidableEq, Repr

def plainJobs (t : JobsToken) : Str :=
  formatUint t.limit ++ ':' :: (formatUint t.offset ++ ':' ::
    (formatSigned t.earliestStart ++ ':' :: formatSigned t.latestStart))

def buildNextTokenOfReportBackupList (t : JobsToken) : Str := Base64.encode (bytesOf (plainJobs t))

def parseJobsParts : List Str → Except JobsTokenErr JobsToken
  | [limitPart, offsetPart, earliestPart, latestPart] =>
      match parseUint limitPart, parseUint offsetPart, parseSigned earliestPart, parseSigned latestPart with
      | none, _, _, _ => .error (.limit limitPart)
      | some _, none, _, _ => .error (.offset offsetPart)
      | some _, some _, none, _ => .error (.earliestStart earliestPart)
      | some _, some _, some _, none => .error (.latestStart latestPart)
      | some limit, some offset, some earliestStart, some latestStart => .ok ⟨limit, offset, earliestStart, latestStart⟩
  | parts => .error (.notFourParts parts)

def decodeNextTokenOfReportBackupList (token : Str) : Except JobsTokenErr JobsToken :=
  match Base64.decode token with
  | none => .error (.base64 token)
  | some bytes => parseJobsParts ((textOf bytes).splitOn ':')

structure JobsToken.Fits (t : JobsToken) : Prop where
  limit : t.limit < 2 ^ 64
  offset : t.offset < 2 ^ 64
  earliestStart : IsInt64 t.earliestStart
  latestStart : IsInt64 t.latestStart

theorem parseJobsParts_fits {parts : List Str} {t : JobsToken} (h : parseJobsParts parts = .ok t) : t.Fits := by
  rw [parseJobsParts.eq_def] at h
  split at h
  · split at h
    · cases h
    · cases h
    · cases h
    · cases h
    · rename_i hlimit hoffset hearliest hlatest
      obtain rfl := Except.ok.inj h
      exact ⟨parseUint_lt hlimit, parseUint_lt hoffset, isInt64_of_parseSigned hearliest,
        isInt64_of_parseSigned hlatest⟩
  · cases h

/-- The decoder returns numbers of 64 bits, and any of them (`decode_buildNextTokenOfReportBackupList`). -/
theorem decodeNextTokenOfReportBackupList_fits {token : Str} {t : JobsToken}
    (h : decodeNextTokenOfReportBackupList token = .ok t) : t.Fits := by
  rw [decodeNextTokenOfReportBackupList] at h
  split at h
  · cases h
  · exact parseJobsParts_fits h

theorem parseJobsParts_splitOn {t : JobsToken} (h : t.Fits) : parseJobsParts ((plainJobs t).splitOn ':') = .ok t := by
  rw [plainJobs, List.splitOn_append_cons_self_of_not_mem (colon_notMem_formatUint _),
    List.splitOn_append_cons_self_of_not_mem (colon_notMem_formatUint _),
    List.splitOn_append_cons_self_of_not_mem (colon_notMem_formatSigned _),
    List.splitOn_eq_singleton (colon_notMem_formatSigned _), parseJobsParts, parseUint_formatUint h.limit,
    parseUint_formatUint h.offset, parseSigned_formatSigned h.earliestStart, parseSigned_formatSigned h.latestStart]

theorem isBytes_plainJobs (t : JobsToken) : IsBytes (plainJobs t) :=
  isBytes_colon (isBytes_formatUint _) (isBytes_colon (isBytes_formatUint _)
    (isBytes_colon (isBytes_formatSigned _) (isBytes_formatSigned _)))

theorem decode_buildNextTokenOfReportBackupList {t : JobsToken} (h : t.Fits) :
    decodeNextTokenOfReportBackupList (buildNextTokenOfReportBackupList t) = .ok t := by
  rw [decodeNextTokenOfReportBackupList, buildNextTokenOfReportBackupList, Base64.decode_encode]
  dsimp only
  rw [Base64.textOf_bytesOf (isBytes_plainJobs t), parseJobsParts_splitOn h]

theorem buildNextTokenOfReportBackupList_ne_nil (t : JobsToken) : buildNextTokenOfReportBackupList t ≠ [] := by
  refine Base64.encode_ne_nil ?_
  rw [bytesOf, plainJobs]
  simp

/-! ### File lists of paths of any bytes -/

namespace Bytes

/-- The token of a file list, for texts of bytes. -/
def buildNextTokenOfReportBackupFileList (t : NextToken) : Str := Base64.encode (bytesOf (plain t))

/-- The decoder of a file list, for texts of bytes. -/
def decodeNextTokenOfReportBackupFileList (token : Str) : Except TokenErr NextToken :=
  match Base64.decode token with
  | none => .error (.base64 token)
  | some bytes => parseParts ((textOf bytes).splitOn ':')

theorem build_ascii {t : NextToken} (h : ∀ c ∈ plain t, c.toNat < 0x80) :
    buildNextTokenOfReportBackupFileList t = Httpd.buildNextTokenOfReportBackupFileList t := by
  rw [buildNextTokenOfReportBackupFileList, Httpd.buildNextTokenOfReportBackupFileList, bytesOf,
    List.map_eq_flatMap]
  congr 1
  refine List.flatMap_congr fun c hc => ?_
  rw [String.utf8EncodeChar]
  exact (if_pos (Nat.le_of_lt_succ (h c hc))).symm

/-- The characters of a token are those of its texts, and ASCII. -/
theorem lt_of_mem_plain {t : NextToken} {bound : ℕ} (hbound : 0x80 ≤ bound) (hjobId : ∀ c ∈ t.jobId, c.toNat < bound)
    (hpath : ∀ c ∈ t.path, c.toNat < bound) : ∀ c ∈ plain t, c.toNat < bound := by
  have hcolon : ':'.toNat < bound := lt_of_lt_of_le (by decide) hbound
  have hbool : ∀ c ∈ formatBool t.descend, c.toNat < bound := fun _ hc =>
    lt_of_lt_of_le (toNat_lt_of_mem_formatBool hc) hbound
  have hdigits : ∀ n, ∀ c ∈ formatUint n, c.toNat < bound := fun n c hc =>
    lt_of_lt_of_le (toNat_lt_of_mem_formatUint hc) (le_trans (by decide) hbound)
  simp only [plain, List.forall_mem_append, List.forall_mem_cons]
  exact ⟨hdigits _, hcolon, hdigits _, hcolon, hjobId, hcolon, hpath, hcolon, hbool⟩

theorem decodeNextToken_buildNextToken {t : NextToken} (h : t.Writable) (hjobId : IsBytes t.jobId)
    (hpath : IsBytes t.path) :
    decodeNextTokenOfReportBackupFileList (buildNextTokenOfReportBackupFileList t) = .ok t := by
  rw [decodeNextTokenOfReportBackupFileList, buildNextTokenOfReportBackupFileList, Base64.decode_encode]
  dsimp only
  rw [Base64.textOf_bytesOf (lt_of_mem_plain (by decide) hjobId hpath), parseParts_splitOn h]

theorem buildNextTokenOfReportBackupFileList_ne_nil (t : NextToken) :
    buildNextTokenOfReportBackupFileList t ≠ [] := by
  refine Base64.encode_ne_nil ?_
  rw [bytesOf, plain]
  simp

end Bytes

/-- Both kinds of tokens give back what they were built from. The path may have any bytes, and
the separator anywhere. -/
theorem nextTokens_round_trip {limit offset : ℕ} (hlimit : limit < 2 ^ 64) (hoffset : offset < 2 ^ 64) :
    (∀ earliestStart latestStart, IsInt64 earliestStart → IsInt64 latestStart →
      decodeNextTokenOfReportBackupList
        (buildNextTokenOfReportBackupList ⟨limit, offset, earliestStart, latestStart⟩) =
          .ok ⟨limit, offset, earliestStart, latestStart⟩) ∧
    ∀ jobId path descend, IsBytes jobId → ':' ∉ jobId → IsBytes path →
      Bytes.decodeNextTokenOfReportBackupFileList
        (Bytes.buildNextTokenOfReportBackupFileList ⟨limit, offset, jobId, path, descend⟩) =
          .ok ⟨limit, offset, jobId, path, descend⟩ := by
  constructor
  · intro earliestStart latestStart hearliest hlatest
    exact decode_buildNextTokenOfReportBackupList ⟨hlimit, hoffset, hearliest, hlatest⟩
  · intro jobId path descend hjob hcolon hpath
    exact Bytes.decodeNextToken_buildNextToken ⟨hlimit, hoffset, hcolon⟩ hjob hpath

/-- The largest numbers, the smallest start, and a path that begins and ends with the separator. -/
theorem nextTokens_round_trip_colons :
    decodeNextTokenOfReportBackupList (buildNextTokenOfReportBackupList ⟨2 ^ 64 - 1, 0, -2 ^ 63, 2 ^ 63 - 1⟩) =
      .ok ⟨2 ^ 64 - 1, 0, -2 ^ 63, 2 ^ 63 - 1⟩ ∧
    Bytes.decodeNextTokenOfReportBackupFileList
        (Bytes.buildNextTokenOfReportBackupFileList ⟨2 ^ 64 - 1, 0, "job".toList, "::C:\\é:".toList, true⟩) =
      .ok ⟨2 ^ 64 - 1, 0, "job".toList, "::C:\\é:".toList, true⟩ :=
  ⟨(nextTokens_round_trip (by decide) (by decide)).1 _ _ (by simp [IsInt64]) (by simp [IsInt64]),
    (nextTokens_round_trip (by decide) (by decide)).2 _ _ _ (by simp [IsBytes]) (by decide) (by simp [IsBytes])⟩

end CloudBackup.Httpd
