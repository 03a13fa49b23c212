import MbTools.Store.Names

/-! # Names nobody has set

A name without a row answers with the link its letters spell out, and the first
look at it writes that link down as a derived row.
-/

namespace MbTools

namespace Naming

def channelMin : ℤ := 11

def channels : ℕ := 73

def groupMin : ℤ := 15

def groups : ℕ := 241

/-- The number a well-formed name spells to the base five, its first letter the most significant
digit. -/
def number (name : String) : ℕ :=
  name.toList.zipIdx.foldl (fun n (c, p) => n * 5 + (alphabet p).idxOf c) 0

def decode (name : String) : Except Error ℕ := do
  let name ← validate name
  return number name

def address (n : ℕ) : ℤ × ℤ := (channelMin + (n % channels : ℕ), groupMin + (n % groups : ℕ))

/-- The link a name derives. -/
def nameToRadio (name : String) : Except Error (ℤ × ℤ) := do
  let n ← decode name
  return address n

/-- The default link of a well-formed name. -/
def default (name : String) : ℤ × ℤ := address (number name)

theorem nameToRadio_of_valid {n : String} (h : validate n = .ok n) :
    nameToRadio n = .ok (default n) := by
  simp [nameToRadio, decode, h, default, bind, Except.bind, pure, Except.pure]

/-- A derived link lies in the part of the range that derivation uses. -/
theorem default_range (n : String) :
    11 ≤ (default n).1 ∧ (default n).1 ≤ 83 ∧ 15 ≤ (default n).2 ∧ (default n).2 ≤ 255 := by
  simp only [default, address, channelMin, channels, groupMin, groups]
  omega

end Naming

namespace Store

variable {s s' : Store} {now : ℕ} {name n : String} {e : Entry}

def sourceDerived : String := "derived"

def getName (s : Store) (name : String) : Except Error (Option Entry) := do
  let name ← Naming.validate name
  return s.nameRegistry.get? name

/-- `Store.resolve`: the row of the name as it is, or a derived one that is new. -/
def resolve (s : Store) (now : ℕ) (name : String) : Except Error (Store × Entry) := do
  let name ← Naming.validate name
  match s.nameRegistry.get? name with
  | some e => return (s, e)
  | none =>
    let (channel, group) ← Naming.nameToRadio name
    let e : Entry := ⟨name, channel, group, sourceDerived, now⟩
    return ({ s with nameRegistry := s.nameRegistry.put e }, e)

/-- The row that a first look at a name writes. -/
def derived (n : String) (now : ℕ) : Entry :=
  ⟨n, (Naming.default n).1, (Naming.default n).2, sourceDerived, now⟩

theorem getName_of_valid (h : Naming.validate name = .ok n) :
    s.getName name = .ok (s.nameRegistry.get? n) := by
  simp [getName, h, bind, Except.bind, pure, Except.pure]

theorem resolve_of_some (hv : Naming.validate name = .ok n) (h : s.nameRegistry.get? n = some e) :
    s.resolve now name = .ok (s, e) := by
  simp [resolve, hv, h, bind, Except.bind, pure, Except.pure]

theorem resolve_of_none (hv : Naming.validate name = .ok n) (h : s.nameRegistry.get? n = none) :
    s.resolve now name =
      .ok ({ s with nameRegistry := s.nameRegistry.put (derived n now) }, derived n now) := by
  have hr := Naming.nameToRadio_of_valid (Naming.validate_idem hv)
  simp [resolve, hv, h, hr, derived, bind, Except.bind, pure, Except.pure]

theorem resolve_of_invalid {err : Error} (hv : Naming.validate name = .error err) :
    s.resolve now name = .error err := by
  simp [resolve, hv, bind, Except.bind]

/-- A resolve answers with the row that is then there. -/
theorem resolve_spec (hv : Naming.validate name = .ok n) :
    ∃ s' e, s.resolve now name = .ok (s', e) ∧ e.name = n ∧ s'.nameRegistry.get? n = some e ∧
      (∀ k, n ≠ k → s'.nameRegistry.get? k = s.nameRegistry.get? k) ∧
      s'.device = s.device := by
  cases h : s.nameRegistry.get? n with
  | some e => exact ⟨s, e, resolve_of_some hv h, Table.key_of_get? h, h, fun _ _ => rfl, rfl⟩
  | none =>
    refine ⟨_, _, resolve_of_none hv h, rfl, Table.get?_put_self _ _, fun k hk => ?_, rfl⟩
    exact Table.get?_put_of_ne hk

end Store

end MbTools
