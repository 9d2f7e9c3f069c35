import CloudBackup.Database.Tables
import CloudBackup.Library.Base64

/-!
The token that leads from one page of a file list to the next. It is the text
`limit:offset:jobId:path:descend` in base64. Only the path may hold a colon: the decoder takes
the first three parts and the last one, and what lies between them is the path.
-/

namespace CloudBackup.Httpd

/-! ### Texts -/

def formatUint (n : ℕ) : Str := Nat.toDigits 10 n

def parseUint (s : Str) : Option ℕ :=
  if s ≠ [] ∧ s.all Char.isDigit ∧ Nat.ofDigitChars 10 s 0 < 2 ^ 64 then some (Nat.ofDigitChars 10 s 0) else none

def formatBool (b : Bool) : Str := if b then "true".toList else "false".toList

def parseBool (s : Str) : Option Bool :=
  if ["1", "t", "T", "true", "TRUE", "True"].any (·.toList = s) then some true
  else if ["0", "f", "F", "false", "FALSE", "False"].any (·.toList = s) then some false
  else none

theorem parseUint_formatUint {n : ℕ} (h : n < 2 ^ 64) : parseUint (formatUint n) = some n := by
  have hof : Nat.ofDigitChars 10 (formatUint n) 0 = n := Nat.ofDigitChars_ten_toDigits
  have hdigits : (formatUint n).all Char.isDigit = true := by
    rw [List.all_eq_true]
    exact fun c hc => Nat.isDigit_of_mem_toDigits (by decide) (by decide) hc
  rw [parseUint, hof, if_pos ⟨Nat.toDigits_ne_nil, hdigits, h⟩]

theorem colon_notMem_formatUint (n : ℕ) : ':' ∉ formatUint n := by
  intro h
  have hdigit := Nat.isDigit_of_mem_toDigits (by decide) (by decide) h
  revert hdigit
  decide

theorem parseBool_formatBool (b : Bool) : parseBool (formatBool b) = some b := by
  cases b <;> decide

theorem colon_notMem_formatBool (b : Bool) : ':' ∉ formatBool b := by
  cases b <;> decide

/-! ### Tokens -/

structure NextToken where
  limit : ℕ
  offset : ℕ
  jobId : Str
  path : Str
  descend : Bool
  deriving DecidableEq, Repr

inductive TokenErr
  | base64 (token : Str)
  | tooFewParts (parts : List Str)
  | limit (part : Str)
  | offset (part : Str)
  | descend (part : Str)
  deriving DecidableEq, Repr

def plain (t : NextToken) : Str :=
  formatUint t.limit ++ ':' :: (formatUint t.offset ++ ':' :: (t.jobId ++ ':' :: (t.path ++ ':' :: formatBool t.descend)))

def buildNextTokenOfReportBackupFileList (t : NextToken) : Str :=
  Base64.encode ((plain t).flatMap String.utf8EncodeChar)

def parseParts : List Str → Except TokenErr NextToken
  | limitPart :: offsetPart :: jobId :: p :: q :: rest =>
      match parseUint limitPart, parseUint offsetPart, parseBool ((q :: rest).getLast (by simp)) with
      | none, _, _ => .error (.limit limitPart)
      | some _, none, _ => .error (.offset offsetPart)
      | some _, some _, none => .error (.descend ((q :: rest).getLast (by simp)))
      | some limit, some offset, some descend =>
          .ok ⟨limit, offset, jobId, [':'].intercalate (p :: q :: rest).dropLast, descend⟩
  | parts => .error (.tooFewParts parts)

/-- A token whose bytes are not UTF-8 is refused here. -/
def decodeNextTokenOfReportBackupFileList (token : Str) : Except TokenErr NextToken :=
  match (Base64.decode token).bind fun bytes => bytes.toByteArray.utf8Decode? with
  | none => .error (.base64 token)
  | some text => parseParts (text.toList.splitOn ':')

structure NextToken.Writable (t : NextToken) : Prop where
  limit : t.limit < 2 ^ 64
  offset : t.offset < 2 ^ 64
  jobId : ':' ∉ t.jobId

theorem splitOn_plain {t : NextToken} (h : t.Writable) : (plain t).splitOn ':' =
    formatUint t.limit :: formatUint t.offset :: t.jobId :: (t.path.splitOn ':' ++ [formatBool t.descend]) := by
  rw [plain, List.splitOn_append_cons_self_of_not_mem (colon_notMem_formatUint _),
    List.splitOn_append_cons_self_of_not_mem (colon_notMem_formatUint _),
    List.splitOn_append_cons_self_of_not_mem h.jobId, List.splitOn_append_cons_self,
    List.splitOn_eq_singleton (colon_notMem_formatBool _)]

theorem parseParts_splitOn {t : NextToken} (h : t.Writable) : parseParts ((plain t).splitOn ':') = .ok t := by
  rw [splitOn_plain h]
  -- the path has at least one part
  obtain ⟨p, rest, hsplit⟩ := List.exists_cons_of_ne_nil (List.splitOn_ne_nil ':' t.path)
  have hpath : [':'].intercalate (p :: rest) = t.path := by rw [← hsplit, List.intercalate_splitOn]
  rw [hsplit]
  cases hrest : rest ++ [formatBool t.descend] with
  | nil => simp at hrest
  | cons q rest' =>
      have hlast : (q :: rest').getLast (by simp) = formatBool t.descend := by simp [← hrest]
      have hinit : (p :: q :: rest').dropLast = p :: rest := by
        rw [← hrest, ← List.cons_append, List.dropLast_concat]
      rw [List.cons_append, hrest, parseParts, hlast, hinit, parseUint_formatUint h.limit,
        parseUint_formatUint h.offset, parseBool_formatBool, hpath]

theorem decodeNextToken_buildNextToken {t : NextToken} (h : t.Writable) :
    decodeNextTokenOfReportBackupFileList (buildNextTokenOfReportBackupFileList t) = .ok t := by
  have hbytes : (Base64.decode (buildNextTokenOfReportBackupFileList t)).bind
      (fun bytes => bytes.toByteArray.utf8Decode?) = some (plain t).toArray := by
    rw [buildNextTokenOfReportBackupFileList, Base64.decode_encode]
    exact List.utf8Decode?_utf8Encode
  rw [decodeNextTokenOfReportBackupFileList, hbytes]
  exact parseParts_splitOn h

theorem buildNextTokenOfReportBackupFileList_ne_nil (t : NextToken) :
    buildNextTokenOfReportBackupFileList t ≠ [] := by
  refine Base64.encode_ne_nil ?_
  intro hbytes
  have hcolon : ':' ∈ plain t := by simp [plain]
  have hnone : String.utf8EncodeChar ':' = [] := List.flatMap_eq_nil_iff.mp hbytes ':' hcolon
  revert hnone
  decide

end CloudBackup.Httpd
