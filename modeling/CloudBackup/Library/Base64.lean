import Mathlib.Algebra.Order.Ring.Nat
import Mathlib.Data.List.GetD
import Mathlib.Tactic.Common

/-!
The standard encoding of package `base64` of Go, with padding. Three bytes are four digits of
six bits each. The decoder leaves out line breaks and does not look at the bits that the
padding makes superfluous.
-/

namespace CloudBackup.Base64

def alphabet : List Char := "ABCDEFGHIJKLMNOPQRSTUVWXYZabcdefghijklmnopqrstuvwxyz0123456789+/".toList

def pad : Char := '='

def digit (n : ℕ) : Char := alphabet.getD n pad

def value (c : Char) : Option ℕ := alphabet.findIdx? (· = c)

/-- `EncodeToString`. -/
def encode : List UInt8 → List Char
  | [] => []
  | [a] => [digit (a.toNat / 4), digit (a.toNat % 4 * 16), pad, pad]
  | [a, b] => [digit (a.toNat / 4), digit (a.toNat % 4 * 16 + b.toNat / 16), digit (b.toNat % 16 * 4), pad]
  | a :: b :: c :: rest =>
      digit (a.toNat / 4) :: digit (a.toNat % 4 * 16 + b.toNat / 16) ::
        digit (b.toNat % 16 * 4 + c.toNat / 64) :: digit (c.toNat % 64) :: encode rest

/-- The first byte of four digits, the second, and the third. -/
def first (x y : ℕ) : UInt8 := .ofNat (x * 4 + y / 16)

def second (y z : ℕ) : UInt8 := .ofNat (y % 16 * 16 + z / 4)

def third (z w : ℕ) : UInt8 := .ofNat (z % 4 * 64 + w)

def decodeDigits : List Char → Option (List UInt8)
  | [] => some []
  | a :: b :: c :: d :: rest =>
      if d = pad then
        if rest ≠ [] then none
        else if c = pad then do
          let x ← value a
          let y ← value b
          return [first x y]
        else do
          let x ← value a
          let y ← value b
          let z ← value c
          return [first x y, second y z]
      else do
        let x ← value a
        let y ← value b
        let z ← value c
        let w ← value d
        let bytes ← decodeDigits rest
        return first x y :: second y z :: third z w :: bytes
  | _ => none

/-- `DecodeString`. -/
def decode (s : List Char) : Option (List UInt8) := decodeDigits (s.filter fun c => c ≠ '\n' ∧ c ≠ '\r')

/-! ### The round trip -/

theorem value_digit : ∀ n < 64, value (digit n) = some n := by
  decide +kernel

theorem digit_ne {n : ℕ} (hn : n < 64) {c : Char} (hc : value c = none) : digit n ≠ c := by
  intro heq
  have hvalue := value_digit n hn
  rw [heq, hc] at hvalue
  cases hvalue

theorem digit_ne_pad (n : ℕ) (hn : n < 64) : digit n ≠ pad := digit_ne hn (by decide)

theorem digit_not_break (n : ℕ) : digit n ≠ '\n' ∧ digit n ≠ '\r' := by
  by_cases hn : n < 64
  · exact ⟨digit_ne hn (by decide), digit_ne hn (by decide)⟩
  · have hlength : alphabet.length ≤ n := not_lt.mp hn
    rw [digit, List.getD_eq_default _ _ hlength]
    decide

section

variable (a b c : UInt8)

theorem first_eq {hi : ℕ} (h : hi < 16) : first (a.toNat / 4) (a.toNat % 4 * 16 + hi) = a := by
  have heq : a.toNat / 4 * 4 + (a.toNat % 4 * 16 + hi) / 16 = a.toNat := by omega
  rw [first, heq, UInt8.ofNat_toNat]

theorem second_eq (lo : ℕ) {hi : ℕ} (h : hi < 4) : second (lo * 16 + b.toNat / 16) (b.toNat % 16 * 4 + hi) = b := by
  have hb := b.toNat_lt
  have heq : (lo * 16 + b.toNat / 16) % 16 * 16 + (b.toNat % 16 * 4 + hi) / 4 = b.toNat := by omega
  rw [second, heq, UInt8.ofNat_toNat]

theorem third_eq (lo : ℕ) : third (lo * 4 + c.toNat / 64) (c.toNat % 64) = c := by
  have hc := c.toNat_lt
  have heq : (lo * 4 + c.toNat / 64) % 4 * 64 + c.toNat % 64 = c.toNat := by omega
  rw [third, heq, UInt8.ofNat_toNat]

end

theorem decodeDigits_encode (bytes : List UInt8) : decodeDigits (encode bytes) = some bytes := by
  induction bytes using encode.induct with
  | case1 => rfl
  | case2 a =>
      have ha := a.toNat_lt
      have hx := value_digit (a.toNat / 4) (by omega)
      have hy := value_digit (a.toNat % 4 * 16) (by omega)
      have hfirst : first (a.toNat / 4) (a.toNat % 4 * 16) = a := first_eq a (by omega : 0 < 16)
      simp [encode, decodeDigits, hx, hy, hfirst]
  | case3 a b =>
      have ha := a.toNat_lt
      have hb := b.toNat_lt
      have hx := value_digit (a.toNat / 4) (by omega)
      have hy := value_digit (a.toNat % 4 * 16 + b.toNat / 16) (by omega)
      have hz := value_digit (b.toNat % 16 * 4) (by omega)
      have hpad := digit_ne_pad (b.toNat % 16 * 4) (by omega)
      have hfirst := first_eq a (by omega : b.toNat / 16 < 16)
      have hsecond : second (a.toNat % 4 * 16 + b.toNat / 16) (b.toNat % 16 * 4) = b :=
        second_eq b _ (by omega : 0 < 4)
      simp [encode, decodeDigits, hpad, hx, hy, hz, hfirst, hsecond]
  | case4 a b c rest ih =>
      have ha := a.toNat_lt
      have hb := b.toNat_lt
      have hc := c.toNat_lt
      have hx := value_digit (a.toNat / 4) (by omega)
      have hy := value_digit (a.toNat % 4 * 16 + b.toNat / 16) (by omega)
      have hz := value_digit (b.toNat % 16 * 4 + c.toNat / 64) (by omega)
      have hw := value_digit (c.toNat % 64) (by omega)
      have hpad := digit_ne_pad (c.toNat % 64) (by omega)
      have hfirst := first_eq a (by omega : b.toNat / 16 < 16)
      have hsecond := second_eq b (a.toNat % 4) (by omega : c.toNat / 64 < 4)
      have hthird := third_eq c (b.toNat % 16)
      simp [encode, decodeDigits, hpad, hx, hy, hz, hw, ih, hfirst, hsecond, hthird]

theorem not_break_of_mem_encode (bytes : List UInt8) : ∀ c ∈ encode bytes, c ≠ '\n' ∧ c ≠ '\r' := by
  induction bytes using encode.induct with
  | case1 => simp [encode]
  | case2 a => simp [encode, digit_not_break, pad]
  | case3 a b => simp [encode, digit_not_break, pad]
  | case4 a b c rest ih => simpa [encode, digit_not_break] using ih

theorem decode_encode (bytes : List UInt8) : decode (encode bytes) = some bytes := by
  have hfilter : (encode bytes).filter (fun c => c ≠ '\n' ∧ c ≠ '\r') = encode bytes := by
    rw [List.filter_eq_self]
    intro c hc
    exact decide_eq_true (not_break_of_mem_encode bytes c hc)
  rw [decode, hfilter, decodeDigits_encode]

theorem encode_ne_nil {bytes : List UInt8} (h : bytes ≠ []) : encode bytes ≠ [] := by
  cases bytes using encode.fun_cases with
  | case1 => exact absurd rfl h
  | case2 a => exact List.cons_ne_nil _ _
  | case3 a b => exact List.cons_ne_nil _ _
  | case4 a b c rest => exact List.cons_ne_nil _ _

/-! ### Texts of bytes -/

/-- Every character stands for a byte. -/
def IsBytes (s : List Char) : Prop := ∀ c ∈ s, c.toNat < 256

def bytesOf (s : List Char) : List UInt8 := s.map fun c => .ofNat c.toNat

def textOf (bytes : List UInt8) : List Char := bytes.map fun b => .ofNat b.toNat

theorem textOf_bytesOf {s : List Char} (h : IsBytes s) : textOf (bytesOf s) = s := by
  rw [textOf, bytesOf, List.map_map]
  refine (List.map_congr_left fun c hc => ?_).trans (List.map_id s)
  rw [Function.comp_apply, UInt8.toNat_ofNat_of_lt' (h c hc), Char.ofNat_toNat, id]

theorem isBytes_textOf (bytes : List UInt8) : IsBytes (textOf bytes) := by
  intro c hc
  obtain ⟨b, -, rfl⟩ := List.mem_map.mp hc
  have hvalid : b.toNat.isValidChar := .inl (b.toNat_lt.trans (by decide))
  rw [Char.ofNat, dif_pos hvalid]
  exact b.toNat_lt

end CloudBackup.Base64
