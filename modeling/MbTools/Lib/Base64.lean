import Mathlib.Data.List.Basic
import Mathlib.Tactic.Common

/-! # Base64

Three bytes are four digits; a last group of one or two bytes is filled up. What is
written is read back, and no other character is let through.
-/

namespace MbTools.Base64

def alphabet : List Char :=
  "ABCDEFGHIJKLMNOPQRSTUVWXYZabcdefghijklmnopqrstuvwxyz0123456789+/".toList

def digit (n : ℕ) : Char := alphabet.getD n 'A'

def value (c : Char) : Option ℕ := if c ∈ alphabet then some (alphabet.idxOf c) else none

/-- `base64.b64encode` -/
def encode : List UInt8 → List Char
  | [] => []
  | [x] => [digit (x.toNat / 4), digit (x.toNat % 4 * 16), '=', '=']
  | [x, y] =>
    [digit (x.toNat / 4), digit (x.toNat % 4 * 16 + y.toNat / 16), digit (y.toNat % 16 * 4), '=']
  | x :: y :: z :: rest =>
    digit (x.toNat / 4) :: digit (x.toNat % 4 * 16 + y.toNat / 16) ::
      digit (y.toNat % 16 * 4 + z.toNat / 64) :: digit (z.toNat % 64) :: encode rest

def first (a b : ℕ) : UInt8 := UInt8.ofNat (a * 4 + b / 16)

def second (b c : ℕ) : UInt8 := UInt8.ofNat (b % 16 * 16 + c / 4)

def third (c d : ℕ) : UInt8 := UInt8.ofNat (c % 4 * 64 + d)

/-- `base64.b64decode` with `validate`; only the last group may be filled up. -/
def decode : List Char → Option (List UInt8)
  | [] => some []
  | a :: b :: c :: d :: rest =>
    (value a).bind fun a => (value b).bind fun b =>
      if rest = [] ∧ d = '=' then
        if c = '=' then some [first a b]
        else (value c).map fun c => [first a b, second b c]
      else
        (value c).bind fun c => (value d).bind fun d => (decode rest).map fun bytes =>
          first a b :: second b c :: third c d :: bytes
  | _ => none

theorem digit_spec : ∀ n < 64, value (digit n) = some n ∧ digit n ≠ '=' := by decide +kernel

theorem value_digit {n : ℕ} (h : n < 64) : value (digit n) = some n := (digit_spec n h).1

theorem digit_ne_pad {n : ℕ} (h : n < 64) : digit n ≠ '=' := (digit_spec n h).2

section Bytes

variable (x y z : UInt8)

theorem first_spec (k : ℕ) (hk : k < 16) :
    first (x.toNat / 4) (x.toNat % 4 * 16 + k) = x := by
  have hx := x.toNat_lt
  have hn : x.toNat / 4 * 4 + (x.toNat % 4 * 16 + k) / 16 = x.toNat := by omega
  rw [first, hn, UInt8.ofNat_toNat]

theorem second_spec (j k : ℕ) (hk : k < 4) :
    second (j * 16 + y.toNat / 16) (y.toNat % 16 * 4 + k) = y := by
  have hy := y.toNat_lt
  have hn : (j * 16 + y.toNat / 16) % 16 * 16 + (y.toNat % 16 * 4 + k) / 4 = y.toNat := by omega
  rw [second, hn, UInt8.ofNat_toNat]

theorem third_spec (j : ℕ) : third (j * 4 + z.toNat / 64) (z.toNat % 64) = z := by
  have hz := z.toNat_lt
  have hn : (j * 4 + z.toNat / 64) % 4 * 64 + z.toNat % 64 = z.toNat := by omega
  rw [third, hn, UInt8.ofNat_toNat]

end Bytes

/-- What is encoded is decoded again. -/
theorem decode_encode : ∀ bytes : List UInt8, decode (encode bytes) = some bytes
  | [] => rfl
  | [x] => by
    have hx := x.toNat_lt
    have hfirst := first_spec x 0 (by decide)
    rw [Nat.add_zero] at hfirst
    rw [encode, decode, value_digit (by omega), value_digit (by omega)]
    simp [hfirst]
  | [x, y] => by
    have hx := x.toNat_lt
    have hy := y.toNat_lt
    have hsecond := second_spec y (x.toNat % 4) 0 (by decide)
    rw [Nat.add_zero] at hsecond
    have hpad := digit_ne_pad (show y.toNat % 16 * 4 < 64 by omega)
    rw [encode, decode, value_digit (by omega), value_digit (by omega)]
    simp [hpad, value_digit (show y.toNat % 16 * 4 < 64 by omega), hsecond,
      first_spec x (y.toNat / 16) (by omega)]
  | x :: y :: z :: rest => by
    have hx := x.toNat_lt
    have hy := y.toNat_lt
    have hz := z.toNat_lt
    have hpad := digit_ne_pad (show z.toNat % 64 < 64 by omega)
    rw [encode, decode, value_digit (by omega), value_digit (by omega)]
    simp [hpad, value_digit (show y.toNat % 16 * 4 + z.toNat / 64 < 64 by omega),
      value_digit (show z.toNat % 64 < 64 by omega), decode_encode rest,
      first_spec x (y.toNat / 16) (by omega),
      second_spec y (x.toNat % 4) (z.toNat / 64) (by omega), third_spec z (y.toNat % 16)]

theorem length_encode : ∀ bytes : List UInt8, (encode bytes).length = 4 * ((bytes.length + 2) / 3)
  | [] => rfl
  | [_] => by simp [encode]
  | [_, _] => by simp [encode]
  | x :: y :: z :: rest => by
    rw [encode]
    simp only [List.length_cons, length_encode rest]
    omega

end MbTools.Base64
