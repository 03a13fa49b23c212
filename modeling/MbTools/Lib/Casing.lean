import Mathlib.Data.List.Forall2
import Mathlib.Data.String.Basic

/-! # Letter case

The cases of letters under Unicode are not computed here: what is stated about them is
stated for any casing. That of the ASCII letters is one.
-/

namespace MbTools

/-- The cases of letters: those of a text, and the upper and the lower case of a letter. -/
structure Casing where
  lower : String → String
  upper : String → String
  upperOf : Char → Char
  lowerOf : Char → Char

namespace Casing

/-- The cases of the ASCII letters. -/
def ascii : Casing where
  lower s := String.ofList (s.toList.map Char.toLower)
  upper s := String.ofList (s.toList.map Char.toUpper)
  upperOf := Char.toUpper
  lowerOf := Char.toLower

/-- The same letters, each in any case. -/
def Respelled (C : Casing) (a b : String) : Prop :=
  List.Forall₂ (fun c d => d = c ∨ d = C.upperOf c ∨ d = C.lowerOf c) a.toList b.toList

/-- Folding the ASCII letters takes each letter for the same in either case. -/
def Folded (C : Casing) (a : String) : Prop :=
  ∀ c ∈ a.toList, (C.upperOf c).toLower = c.toLower ∧ (C.lowerOf c).toLower = c.toLower

theorem toNat_toLower (c : Char) :
    c.toLower.toNat = if 65 ≤ c.toNat ∧ c.toNat ≤ 90 then c.toNat + 32 else c.toNat := by
  have hiff : (c.val ≥ 'A'.val ∧ c.val ≤ 'Z'.val) ↔ 65 ≤ c.toNat ∧ c.toNat ≤ 90 := by
    simp [UInt32.le_iff_toNat_le]
  delta Char.toLower
  split
  · rename_i h
    have hle := hiff.mp h
    rw [if_pos hle]
    change (c.val + ('a'.val - 'A'.val)).toNat = c.val.toNat + 32
    rw [UInt32.toNat_add]
    simp
    omega
  · rename_i h
    rw [if_neg (mt hiff.mpr h)]

theorem toNat_toUpper (c : Char) :
    c.toUpper.toNat = if 97 ≤ c.toNat ∧ c.toNat ≤ 122 then c.toNat - 32 else c.toNat := by
  have hiff : (c.val ≥ 'a'.val ∧ c.val ≤ 'z'.val) ↔ 97 ≤ c.toNat ∧ c.toNat ≤ 122 := by
    simp [UInt32.le_iff_toNat_le]
  delta Char.toUpper
  split
  · rename_i h
    have hle := hiff.mp h
    rw [if_pos hle]
    change (c.val + ('A'.val - 'a'.val)).toNat = c.val.toNat - 32
    rw [UInt32.toNat_add]
    simp
    omega
  · rename_i h
    rw [if_neg (mt hiff.mpr h)]

theorem toLower_toUpper (c : Char) : c.toUpper.toLower = c.toLower := by
  rw [← Char.toNat_inj, toNat_toLower, toNat_toLower, toNat_toUpper]
  split_ifs <;> omega

theorem toLower_toLower (c : Char) : c.toLower.toLower = c.toLower := by
  rw [← Char.toNat_inj, toNat_toLower, toNat_toLower]
  split_ifs <;> omega

theorem toLower_eq_at {c : Char} (h : c.toLower = '@') : c = '@' := by
  rw [← Char.toNat_inj, toNat_toLower] at h
  rw [← Char.toNat_inj]
  split_ifs at h
  · simp at h
    omega
  · exact h

theorem folded_ascii (a : String) : ascii.Folded a :=
  fun c _ => ⟨toLower_toUpper c, toLower_toLower c⟩

variable {C : Casing}

theorem respelled_refl (a : String) : C.Respelled a a :=
  List.forall₂_same.mpr fun _ _ => .inl rfl

theorem respelled_map {f : Char → Char} (hf : f = C.upperOf ∨ f = C.lowerOf) (a : String) :
    C.Respelled a (String.ofList (a.toList.map f)) := by
  rw [Respelled, String.toList_ofList, List.forall₂_map_right_iff]
  refine List.forall₂_same.mpr fun c _ => ?_
  rcases hf with rfl | rfl
  · exact .inr (.inl rfl)
  · exact .inr (.inr rfl)

end Casing

end MbTools
