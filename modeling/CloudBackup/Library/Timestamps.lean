import Mathlib.Data.Nat.Digits.Defs
import Mathlib.Tactic.Common

/-!
Instants as texts. An instant is a number of nanoseconds since 1970, and `formatRFC3339Nano`
writes it as package `time` of Go does, in a zone that is given by its offset at every second.
A fraction has no zeros at its end, and an instant without a fraction has no point.

The texts are not in the order of the instants. The offset is behind the fraction, and its
first character may be larger than a digit; and the offset may change.
-/

namespace CloudBackup.Timestamps

structure CivilDate where
  year : ℤ
  month : ℤ
  day : ℤ
  deriving DecidableEq, Repr

/-- The date of a day, counted from the first of January 1970. Years begin in March here,
so that a leap day is the last one of a year. -/
def dateOfDay (days : ℤ) : CivilDate :=
  let z := days + 719468
  let era := z / 146097
  let dayOfEra := z % 146097
  let yearOfEra := (dayOfEra - dayOfEra / 1460 + dayOfEra / 36524 - dayOfEra / 146096) / 365
  let dayOfYear := dayOfEra - (365 * yearOfEra + yearOfEra / 4 - yearOfEra / 100)
  let m := (5 * dayOfYear + 2) / 153
  let month := if m < 10 then m + 3 else m - 9
  ⟨yearOfEra + era * 400 + (if month ≤ 2 then 1 else 0), month, dayOfYear - (153 * m + 2) / 5 + 1⟩

example : dateOfDay 0 = ⟨1970, 1, 1⟩ ∧ dateOfDay (-1) = ⟨1969, 12, 31⟩ ∧ dateOfDay 11016 = ⟨2000, 2, 29⟩ ∧
    dateOfDay 47540 = ⟨2100, 2, 28⟩ ∧ dateOfDay 47541 = ⟨2100, 3, 1⟩ := by decide

def appendInt (x : ℤ) (width : ℕ) : List Char :=
  let digits := Nat.toDigits 10 x.natAbs
  (if x < 0 then ['-'] else []) ++ List.replicate (width - digits.length) '0' ++ digits

def appendNano (nanosec : ℤ) : List Char :=
  let digits := ((appendInt nanosec 9).reverse.dropWhile (· = '0')).reverse
  if digits = [] then [] else '.' :: digits

def appendZone (offset : ℤ) : List Char :=
  if offset = 0 then ['Z']
  else
    let zone := offset.tdiv 60
    (if zone < 0 then '-' else '+') :: appendInt (zone.natAbs / 60) 2 ++ ':' :: appendInt (zone.natAbs % 60) 2

/-- `time.Unix(0, nanos).Format(time.RFC3339Nano)`. -/
def formatRFC3339Nano (zone : ℤ → ℤ) (nanos : ℤ) : List Char :=
  let seconds := nanos / 1000000000
  let offset := zone seconds
  let date := dateOfDay ((seconds + offset) / 86400)
  let clock := (seconds + offset) % 86400
  appendInt date.year 4 ++ '-' :: appendInt date.month 2 ++ '-' :: appendInt date.day 2 ++
    'T' :: appendInt (clock / 3600) 2 ++ ':' :: appendInt (clock / 60 % 60) 2 ++ ':' :: appendInt (clock % 60) 2 ++
    appendNano (nanos % 1000000000) ++ appendZone offset

def utc : ℤ → ℤ := fun _ => 0

example : formatRFC3339Nano utc 951782400050000000 = "2000-02-29T00:00:00.05Z".toList := by decide

example : formatRFC3339Nano (fun _ => -12600) (-1) = "1969-12-31T20:29:59.999999999-03:30".toList := by decide

end CloudBackup.Timestamps
