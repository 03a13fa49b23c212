import MbTools.Names.Inverse

/-! # The name of a chip

A board's name is made from the serial number of its chip, and the link of a robot from its
name: the chip settles both.
-/

namespace MbTools

namespace Naming

/-- `_NAME_CODEBOOK`, a column for each digit, the least significant first. -/
def nameCodebook : List (List Char) :=
  [['z', 'v', 'g', 'p', 't'], ['u', 'o', 'i', 'e', 'a'], ['z', 'v', 'g', 'p', 't'],
    ['u', 'o', 'i', 'e', 'a'], ['z', 'v', 'g', 'p', 't']]

/-- The 32 bits that count: `device_id & 0xFFFFFFFF`. -/
def word (deviceId : ℤ) : ℕ := (deviceId % 4294967296).toNat

/-- `friendly_name`: a digit a column, each letter before the ones that are out. -/
def friendlyName (deviceId : ℤ) : String :=
  String.ofList (nameCodebook.foldl
    (fun (s : ℕ × List Char) column => (s.1 / 5, column.getD (s.1 % 5) ' ' :: s.2))
    (word deviceId, [])).2

theorem encode_friendlyName (deviceId : ℤ) :
    encode (word deviceId % space) = .ok (friendlyName deviceId) := by
  have hlt : word deviceId % space < space := Nat.mod_lt _ (by decide)
  have hdigits : ∀ n : ℕ, n % 3125 % 5 = n % 5 ∧ n % 3125 / 5 % 5 = n / 5 % 5 ∧
      n % 3125 / 5 / 5 % 5 = n / 5 / 5 % 5 ∧ n % 3125 / 5 / 5 / 5 % 5 = n / 5 / 5 / 5 % 5 ∧
      n % 3125 / 5 / 5 / 5 / 5 % 5 = n / 5 / 5 / 5 / 5 % 5 := fun n => by omega
  obtain ⟨h₀, h₁, h₂, h₃, h₄⟩ := hdigits (word deviceId)
  rw [encode, if_pos hlt]
  simp only [space, encodeLoop, h₀, h₁, h₂, h₃, h₄, friendlyName, nameCodebook, List.foldl_cons,
    List.foldl_nil]
  rfl

/-- Every chip has a name of its robot's form, which stands for what its serial number leaves to
3125; the link derived from it leads back to the name, and two chips share the link exactly
when they share that remainder. -/
theorem friendlyName_derives (deviceId : ℤ) :
    validate (friendlyName deviceId) = .ok (friendlyName deviceId) ∧
      nameToRadio (friendlyName deviceId) = .ok (address (word deviceId % space)) ∧
      radioToName (address (word deviceId % space)).1 (address (word deviceId % space)).2 =
        .ok (friendlyName deviceId) ∧
      ∀ other : ℤ, nameToRadio (friendlyName other) = nameToRadio (friendlyName deviceId) ↔
        word other % space = word deviceId % space := by
  have hname : ∀ id : ℤ, wellFormed (friendlyName id) = true ∧
      number (friendlyName id) = word id % space := fun id =>
    number_of_encode (encode_friendlyName id)
  have hradio : ∀ id : ℤ, nameToRadio (friendlyName id) = .ok (address (word id % space)) :=
    fun id => by
      rw [nameToRadio_of_valid (validate_of_wellFormed (hname id).1), ← (hname id).2]
      rfl
  refine ⟨validate_of_wellFormed (hname deviceId).1, hradio deviceId, ?_, fun other => ?_⟩
  · have hback := radioToName_default (hname deviceId).1
    have hdefault : default (friendlyName deviceId) = address (word deviceId % space) := by
      rw [← (hname deviceId).2]
      rfl
    rwa [hdefault] at hback
  · rw [hradio other, hradio deviceId, Except.ok.injEq]
    constructor
    · intro heq
      have hsolve := solve_address (Nat.mod_lt (word other) (by decide : 0 < space))
      rw [heq, solve_address (Nat.mod_lt (word deviceId) (by decide : 0 < space))] at hsolve
      exact (Int.natCast_inj.mp hsolve).symm
    · intro heq
      rw [heq]

example : friendlyName 2314287040 = "tovez" := by decide

end Naming

end MbTools
