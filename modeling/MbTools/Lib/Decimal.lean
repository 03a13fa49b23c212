import Mathlib.Algebra.Order.Ring.Nat
import MbTools.Lib.Json

/-! # Numbers in decimal

The text of a number is read back as that number.
-/

namespace MbTools.Json

variable {c : Char} {n : ℕ}

theorem toNat_of_isDigit (h : c.isDigit = true) : 48 ≤ c.toNat ∧ c.toNat ≤ 57 := by
  simp only [Char.isDigit, Bool.and_eq_true, decide_eq_true_eq, ge_iff_le,
    UInt32.le_iff_toNat_le] at h
  exact h

/-- A decimal digit is read as such, and is neither a blank, a sign nor an underscore. -/
theorem digit?_of_isDigit (h : c.isDigit = true) : digit? c = some (c.toNat - 48) := by
  have hc := toNat_of_isDigit h
  have hhead : decimalZeros.find? (fun z => z ≤ c.toNat ∧ c.toNat < z + 10) = some 48 := by
    rw [decimalZeros, List.find?_cons_of_pos]
    simp only [decide_eq_true_eq]
    omega
  rw [digit?, hhead, Option.map_some]

theorem isBlank_of_isDigit (h : c.isDigit = true) : isBlank c = false := by
  have hc := toNat_of_isDigit h
  rw [isBlank, List.contains_eq_any_beq, List.any_eq_false]
  intro b hb
  rw [beq_iff_eq]
  rintro rfl
  simp only [List.mem_cons, List.not_mem_nil, or_false] at hb
  omega

theorem ne_of_isDigit {d : Char} (h : c.isDigit = true) (hd : d.isDigit = false) : c ≠ d := by
  rintro rfl
  rw [h] at hd
  cases hd

theorem digits_of_isDigit : ∀ {l : List Char}, l ≠ [] → (∀ c ∈ l, c.isDigit = true) →
    digits l = some (l.map fun c => c.toNat - 48)
  | [], hne, _ => absurd rfl hne
  | [c], _, hl => by simp [digits, digit?_of_isDigit (hl c (by simp))]
  | c :: d :: l, _, hl => by
    have hd : d ≠ '_' := ne_of_isDigit (hl d (by simp)) (by decide)
    have ih := digits_of_isDigit (l := d :: l) (by simp)
      fun c hc => hl c (List.mem_cons_of_mem _ hc)
    have hcons : digits (c :: d :: l) =
        (digit? c).bind fun x => (digits (d :: l)).map (x :: ·) := by
      rw [digits]
      · simp
      · rintro l' hl'
        exact hd (List.cons_eq_cons.mp hl').1
    rw [hcons, ih, digit?_of_isDigit (hl c (by simp))]
    rfl

theorem foldl_digits (l : List Char) (n : ℕ) :
    (l.map fun c => c.toNat - 48).foldl (fun (n : ℤ) d => n * 10 + Int.ofNat d) n =
      (Nat.ofDigitChars 10 l n : ℤ) := by
  induction l generalizing n with
  | nil => simp [Nat.ofDigitChars]
  | cons c l ih =>
    rw [Nat.ofDigitChars_cons, ← ih, List.map_cons, List.foldl_cons]
    congr 1
    rw [Int.ofNat_eq_natCast, Int.natCast_add, Int.natCast_mul, Int.mul_comm]
    rfl

theorem unsigned_toDigits (h : n < 10 ^ maxStrDigits) :
    unsigned (Nat.toDigits 10 n) = some (n : ℤ) := by
  have hdigit : ∀ c ∈ Nat.toDigits 10 n, c.isDigit = true := fun c hc =>
    Nat.isDigit_of_mem_toDigits (by decide) (by decide) hc
  have hlen : (Nat.toDigits 10 n).length ≤ maxStrDigits :=
    (Nat.length_toDigits_le_iff (by decide) (by decide)).mpr h
  rw [unsigned, digits_of_isDigit Nat.toDigits_ne_nil hdigit, Option.filter_some,
    List.length_map, if_pos (by simpa using hlen), Option.map_some]
  have hfold := foldl_digits (Nat.toDigits 10 n) 0
  rw [Nat.ofDigitChars_ten_toDigits] at hfold
  exact congrArg some hfold

/-- `int(str(n))` -/
theorem parseInt_toString (h : n < 10 ^ maxStrDigits) : parseInt (toString n) = some (n : ℤ) := by
  have hdigit : ∀ c ∈ Nat.toDigits 10 n, c.isDigit = true := fun c hc =>
    Nat.isDigit_of_mem_toDigits (by decide) (by decide) hc
  have hstrip : ∀ l : List Char, (∀ c ∈ l, c.isDigit = true) → l.dropWhile isBlank = l := by
    intro l hl
    cases l with
    | nil => rfl
    | cons c l => simp [isBlank_of_isDigit (hl c (by simp))]
  rw [parseInt, Nat.toString_eq_ofList_toDigits, String.toList_ofList, hstrip _ hdigit,
    hstrip _ (by simpa using hdigit), List.reverse_reverse]
  cases hl : Nat.toDigits 10 n with
  | nil => exact absurd hl Nat.toDigits_ne_nil
  | cons c l =>
    have hc : c.isDigit = true := hdigit c (by rw [hl]; exact List.mem_cons_self)
    have hplus : c ≠ '+' := ne_of_isDigit hc (by decide)
    have hminus : c ≠ '-' := ne_of_isDigit hc (by decide)
    rw [← unsigned_toDigits h, hl]
    split
    · rename_i heq
      exact absurd (List.cons_eq_cons.mp heq).1 hplus
    · rename_i heq
      exact absurd (List.cons_eq_cons.mp heq).1 hminus
    · rfl

end MbTools.Json
