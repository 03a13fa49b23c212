import Mathlib.Data.Nat.Basic
import Mathlib.Tactic.Ring

/-! # Numbers as bytes, most significant first -/

namespace MbTools.Bytes

/-- The lowest `k` bytes of a number. -/
def toBytesBig : ℕ → ℕ → List UInt8
  | 0, _ => []
  | k + 1, n => UInt8.ofNat (n / 256 ^ k) :: toBytesBig k n

def fromBytesBig : List UInt8 → ℕ
  | [] => 0
  | b :: bs => b.toNat * 256 ^ bs.length + fromBytesBig bs

@[simp] theorem length_toBytesBig (k n : ℕ) : (toBytesBig k n).length = k := by
  induction k with
  | zero => rfl
  | succ k ih => rw [toBytesBig, List.length_cons, ih]

theorem fromBytesBig_toBytesBig (k n : ℕ) : fromBytesBig (toBytesBig k n) = n % 256 ^ k := by
  induction k with
  | zero => rw [Nat.pow_zero, Nat.mod_one]; rfl
  | succ k ih =>
    have hb : (UInt8.ofNat (n / 256 ^ k)).toNat = n / 256 ^ k % 256 := UInt8.toNat_ofNat'
    rw [toBytesBig, fromBytesBig, ih, length_toBytesBig, hb, Nat.pow_succ, Nat.mod_mul]
    ring

theorem fromBytesBig_lt (bs : List UInt8) : fromBytesBig bs < 256 ^ bs.length := by
  induction bs with
  | nil => simp [fromBytesBig]
  | cons b bs ih =>
    have hb : b.toNat ≤ 255 := Nat.le_of_lt_succ b.toNat_lt
    calc fromBytesBig (b :: bs) < b.toNat * 256 ^ bs.length + 256 ^ bs.length := by
          rw [fromBytesBig]
          omega
      _ = (b.toNat + 1) * 256 ^ bs.length := by ring
      _ ≤ 256 * 256 ^ bs.length := Nat.mul_le_mul_right _ (by omega)
      _ = 256 ^ (b :: bs).length := by rw [List.length_cons, Nat.pow_succ, Nat.mul_comm]

theorem toBytesBig_add_mul (k j a n : ℕ) (h : k ≤ j) :
    toBytesBig k (a * 256 ^ j + n) = toBytesBig k n := by
  induction k with
  | zero => rfl
  | succ k ih =>
    obtain ⟨d, rfl⟩ := Nat.exists_eq_add_of_le h
    have hpow : a * 256 ^ (k + 1 + d) + n = n + 256 ^ k * (a * 256 ^ d * 256) := by ring
    rw [toBytesBig, toBytesBig, ih (by omega), hpow,
      Nat.add_mul_div_left _ _ (Nat.pow_pos (by decide))]
    congr 1
    apply UInt8.toNat_inj.mp
    rw [UInt8.toNat_ofNat', UInt8.toNat_ofNat', Nat.add_mul_mod_self_right]

theorem toBytesBig_fromBytesBig (bs : List UInt8) :
    toBytesBig bs.length (fromBytesBig bs) = bs := by
  induction bs with
  | nil => rfl
  | cons b bs ih =>
    have hdiv : (b.toNat * 256 ^ bs.length + fromBytesBig bs) / 256 ^ bs.length = b.toNat := by
      rw [Nat.add_comm, Nat.add_mul_div_right _ _ (Nat.pow_pos (by decide)),
        Nat.div_eq_of_lt (fromBytesBig_lt bs), Nat.zero_add]
    rw [List.length_cons, fromBytesBig, toBytesBig, hdiv,
      toBytesBig_add_mul _ _ _ _ (Nat.le_refl _), ih, UInt8.ofNat_toNat]

end MbTools.Bytes
