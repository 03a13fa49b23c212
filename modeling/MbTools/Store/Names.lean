import Mathlib.Data.List.Sort
import MbTools.Store.Devices

/-! # The name registry

Robot names and the radio link each one answers on. Only a well-formed
micro:bit name reaches the table; the device rows are never touched from here.
-/

namespace MbTools

namespace Naming

def consonants : List Char := ['z', 'v', 'g', 'p', 't']

def vowels : List Char := ['u', 'o', 'i', 'e', 'a']

def asciiWs : List Char := [' ', '\t', '\r', '\n', '\x0c', '\x0b']

def alphabet (position : ℕ) : List Char := if position % 2 = 0 then consonants else vowels

/-- `name.strip(_ASCII_WS)`. -/
def strip (l : List Char) : List Char :=
  ((l.dropWhile (asciiWs.contains ·)).reverse.dropWhile (asciiWs.contains ·)).reverse

def lower (c : Char) : Char :=
  if 'A' ≤ c ∧ c ≤ 'Z' then Char.ofNat (c.toNat + 32) else c

def normalize (name : String) : String := String.ofList ((strip name.toList).map lower)

/-- `NAME_RE`: consonant, vowel, consonant, vowel, consonant. -/
def wellFormed (name : String) : Bool :=
  name.toList.length = 5 && name.toList.zipIdx.all fun (c, p) => (alphabet p).contains c

def validate (name : String) : Except Error String :=
  if wellFormed (normalize name) then .ok (normalize name) else .error (.valueError name)

theorem validate_eq_ok_iff {name n : String} :
    validate name = .ok n ↔ wellFormed n = true ∧ normalize name = n := by
  unfold validate
  split
  · rename_i h
    rw [Except.ok.injEq]
    exact ⟨fun he => ⟨he ▸ h, he⟩, fun he => he.2⟩
  · rename_i h
    exact iff_of_false nofun fun he => h (he.2 ▸ he.1)

/-- The letters of a well-formed name are neither blank nor upper case. -/
theorem letter_of_wellFormed {n : String} (h : wellFormed n = true) {c : Char}
    (hc : c ∈ n.toList) : asciiWs.contains c = false ∧ lower c = c := by
  have hletters : (consonants ++ vowels).all (fun c =>
      !asciiWs.contains c && lower c == c) = true := by decide
  have hall : ∀ c ∈ consonants ++ vowels, asciiWs.contains c = false ∧ lower c = c := by
    intro c hc
    simpa using List.all_eq_true.mp hletters c hc
  simp only [wellFormed, Bool.and_eq_true, List.all_eq_true] at h
  obtain ⟨i, hi, rfl⟩ := List.mem_iff_getElem.mp hc
  have hp := h.2 (n.toList[i], i) (List.mk_mem_zipIdx_iff_getElem?.mpr (by simp [hi]))
  refine hall _ (List.mem_append.mpr ?_)
  simp only [alphabet] at hp
  split at hp
  · exact Or.inl (List.contains_iff_mem.mp hp)
  · exact Or.inr (List.contains_iff_mem.mp hp)

theorem dropWhile_of_none {l : List Char} (h : ∀ c ∈ l, asciiWs.contains c = false) :
    l.dropWhile (asciiWs.contains ·) = l := by
  cases l with
  | nil => rfl
  | cons c l =>
    have hc := h c List.mem_cons_self
    exact List.dropWhile_cons_of_neg (by rw [hc]; nofun)

/-- A name that was validated is validated to itself. -/
theorem validate_of_wellFormed {n : String} (h : wellFormed n = true) : validate n = .ok n := by
  refine validate_eq_ok_iff.mpr ⟨h, ?_⟩
  have hws : ∀ c ∈ n.toList, asciiWs.contains c = false := fun c hc => (letter_of_wellFormed h hc).1
  have hlow : n.toList.map lower = n.toList := by
    refine (List.map_congr_left fun c hc => (letter_of_wellFormed h hc).2).trans ?_
    exact List.map_id n.toList
  have hrev : ∀ c ∈ n.toList.reverse, asciiWs.contains c = false := fun c hc =>
    hws c (List.mem_reverse.mp hc)
  rw [normalize, strip, dropWhile_of_none hws, dropWhile_of_none hrev, List.reverse_reverse, hlow,
    String.ofList_toList]

theorem validate_idem {name n : String} (h : validate name = .ok n) : validate n = .ok n :=
  validate_of_wellFormed (validate_eq_ok_iff.mp h).1

end Naming

namespace Store

variable {s s' : Store} {now : ℕ} {name : String} {channel group : ℤ}

def sourceRegistry : String := "registry"

/-- `Store.set`: assign a name to a link, over whatever row it had. -/
def set (s : Store) (now : ℕ) (name : String) (channel group : ℤ) : Except Error Store := do
  let name ← Naming.validate name
  return { s with nameRegistry := s.nameRegistry.put ⟨name, channel, group, sourceRegistry, now⟩ }

/-- `Store.clear`: drop the row of a name, if any. -/
def clear (s : Store) (name : String) : Except Error Store := do
  let name ← Naming.validate name
  return { s with nameRegistry := s.nameRegistry.erase name }

theorem set_eq_ok_iff : s.set now name channel group = .ok s' ↔
    ∃ n, Naming.validate name = .ok n ∧ s' = { s with
      nameRegistry := s.nameRegistry.put ⟨n, channel, group, sourceRegistry, now⟩ } := by
  unfold set
  cases hv : Naming.validate name with
  | error e => simp [bind, Except.bind]
  | ok n => simp [bind, Except.bind, pure, Except.pure, eq_comm]

theorem clear_eq_ok_iff : s.clear name = .ok s' ↔
    ∃ n, Naming.validate name = .ok n ∧ s' = { s with nameRegistry := s.nameRegistry.erase n } := by
  unfold clear
  cases hv : Naming.validate name with
  | error e => simp [bind, Except.bind]
  | ok n => simp [bind, Except.bind, pure, Except.pure, eq_comm]

theorem set_device (h : s.set now name channel group = .ok s') : s'.device = s.device := by
  obtain ⟨n, -, rfl⟩ := set_eq_ok_iff.mp h
  rfl

theorem clear_device (h : s.clear name = .ok s') : s'.device = s.device := by
  obtain ⟨n, -, rfl⟩ := clear_eq_ok_iff.mp h
  rfl

/-- `SELECT * FROM name_registry ORDER BY name`. -/
def allNameEntries (s : Store) : List Entry :=
  s.nameRegistry.rows.insertionSort fun e o => e.name ≤ o.name

theorem mem_allNameEntries {e : Entry} :
    e ∈ s.allNameEntries ↔ s.nameRegistry.get? e.name = some e := by
  rw [allNameEntries, List.mem_insertionSort, Table.mem_rows_iff]

theorem nodup_allNameEntries (s : Store) : (s.allNameEntries.map Entry.name).Nodup :=
  ((List.perm_insertionSort _ _).map _).nodup_iff.mpr s.nameRegistry.nodup

theorem find?_allNameEntries (s : Store) (n : String) :
    (s.allNameEntries.find? fun e => e.name = n) = s.nameRegistry.get? n := by
  cases h : s.allNameEntries.find? (fun e => e.name = n) with
  | none =>
    rw [List.find?_eq_none] at h
    rw [eq_comm, Option.eq_none_iff_forall_ne_some]
    intro e he
    obtain rfl : e.name = n := Table.key_of_get? he
    exact h e (mem_allNameEntries.mpr he) (decide_eq_true rfl)
  | some e =>
    obtain rfl : e.name = n := by simpa using List.find?_some h
    exact (mem_allNameEntries.mp (List.mem_of_find?_eq_some h)).symm

/-- The link a name is assigned to, if it has a row. -/
def pairOf (s : Store) (n : String) : Option (ℤ × ℤ) :=
  (s.nameRegistry.get? n).map fun e => (e.channel, e.group)

/-- Only names that were validated have rows. -/
def NamesValid (s : Store) : Prop := ∀ n, s.pairOf n ≠ none → Naming.validate n = .ok n

theorem pairOf_set {n : String} (hv : Naming.validate name = .ok n)
    (h : s.set now name channel group = .ok s') (k : String) :
    s'.pairOf k = if n = k then some (channel, group) else s.pairOf k := by
  obtain ⟨m, hm, rfl⟩ := set_eq_ok_iff.mp h
  obtain rfl : n = m := Except.ok.inj (hv.symm.trans hm)
  rw [pairOf, Table.get?_put]
  split
  · rfl
  · rfl

theorem pairOf_clear {n : String} (hv : Naming.validate name = .ok n)
    (h : s.clear name = .ok s') (k : String) :
    s'.pairOf k = if n = k then none else s.pairOf k := by
  obtain ⟨m, hm, rfl⟩ := clear_eq_ok_iff.mp h
  obtain rfl : n = m := Except.ok.inj (hv.symm.trans hm)
  rw [pairOf, Table.get?_erase]
  split
  · rfl
  · rfl

example : Naming.validate " VEVOV\n" = .ok "vevov" := by decide

end Store

end MbTools
