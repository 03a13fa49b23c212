import Mathlib.Data.List.Basic
import Mathlib.Data.List.DropRight
import Mathlib.Tactic.Common

/-! # Lines read through a text reader

A text reader takes whatever a connection has ready, decodes it and looks for the
end of a line in what it has. What stands behind the line stays with the reader.
-/

namespace MbTools.Lines

/-- How many bytes follow a first byte and where the next one has to lie. -/
def utf8Lead (b : UInt8) : Option (ℕ × UInt8 × UInt8) :=
  if b < 0x80 then some (0, 0x80, 0xBF)
  else if b < 0xC2 then none
  else if b < 0xE0 then some (1, 0x80, 0xBF)
  else if b = 0xE0 then some (2, 0xA0, 0xBF)
  else if b = 0xED then some (2, 0x80, 0x9F)
  else if b < 0xF0 then some (2, 0x80, 0xBF)
  else if b = 0xF0 then some (3, 0x90, 0xBF)
  else if b < 0xF4 then some (3, 0x80, 0xBF)
  else if b = 0xF4 then some (3, 0x80, 0x8F)
  else none

def utf8Follows : ℕ → UInt8 → UInt8 → List UInt8 → Bool
  | _, _, _, [] => true
  | 0, _, _, b :: bs =>
    match utf8Lead b with
    | none => false
    | some (n, lo, hi) => utf8Follows n lo hi bs
  | n + 1, lo, hi, b :: bs => lo ≤ b && b ≤ hi && utf8Follows n 0x80 0xBF bs

/-- An incremental decoder takes these bytes without an error. A character cut
short at the end is no error yet. -/
def utf8Decodes (bs : List UInt8) : Bool := utf8Follows 0 0x80 0xBF bs

def newline : UInt8 := 10

/-- The first line and what stands behind it. -/
def splitLine : List UInt8 → Option (List UInt8 × List UInt8)
  | [] => none
  | b :: bs =>
    if b = newline then some ([], bs) else (splitLine bs).map fun (line, rest) => (b :: line, rest)

variable {bs line line' rest rest' : List UInt8}

theorem splitLine_eq_some_iff :
    splitLine bs = some (line, rest) ↔ bs = line ++ newline :: rest ∧ newline ∉ line := by
  induction bs generalizing line rest with
  | nil => simp [splitLine]
  | cons b bs ih =>
    rw [splitLine]
    split
    next hb =>
      subst hb
      cases line with
      | nil => simp
      | cons c line =>
        have hne : newline = c → ¬newline ∉ c :: line := fun h hl => hl (h ▸ List.mem_cons_self)
        simpa using fun h _ => hne h
    next hb =>
      simp only [Option.map_eq_some_iff, Prod.exists, ih, Prod.mk.injEq]
      constructor
      · rintro ⟨l, r, ⟨rfl, hl⟩, rfl, rfl⟩
        exact ⟨rfl, by simp [hl, Ne.symm hb]⟩
      · rintro ⟨hbs, hl⟩
        cases line with
        | nil => exact absurd (List.cons.inj hbs).1 hb
        | cons c line =>
          obtain ⟨rfl, rfl⟩ := List.cons.inj hbs
          exact ⟨line, rest, ⟨rfl, fun hm => hl (List.mem_cons_of_mem _ hm)⟩, rfl, rfl⟩

theorem splitLine_eq_none_iff : splitLine bs = none ↔ newline ∉ bs := by
  induction bs with
  | nil => simp [splitLine]
  | cons b bs ih =>
    rw [splitLine]
    split
    next hb => simp [hb]
    next hb => simp [ih, Ne.symm hb]

/-- The first line of a text does not change when more of the text is there. -/
theorem eq_of_line_append (h : line ++ newline :: rest = line' ++ newline :: rest')
    (hl : newline ∉ line) (hl' : newline ∉ line') : line = line' ∧ rest = rest' := by
  have hsome : splitLine (line ++ newline :: rest) = some (line, rest) :=
    splitLine_eq_some_iff.mpr ⟨rfl, hl⟩
  rw [splitLine_eq_some_iff.mpr ⟨h, hl'⟩] at hsome
  cases hsome
  exact ⟨rfl, rfl⟩

/-! ### The end of a text -/

theorem rdropWhile_append_all {α : Type*} {p : α → Bool} {xs ys : List α}
    (h : ∀ c ∈ ys, p c = true) : (xs ++ ys).rdropWhile p = xs.rdropWhile p := by
  induction ys using List.reverseRecOn with
  | nil => rw [List.append_nil]
  | append_singleton ys c ih =>
    rw [← List.append_assoc, List.rdropWhile_concat_pos _ _ _ (h c (by simp))]
    exact ih fun c hc => h c (List.mem_append_left _ hc)

theorem rdropWhile_append_of_ne_nil {α : Type*} {p : α → Bool} {xs ys : List α}
    (h : ys.rdropWhile p ≠ []) : (xs ++ ys).rdropWhile p = xs ++ ys.rdropWhile p := by
  induction ys using List.reverseRecOn with
  | nil => exact absurd (List.rdropWhile_nil p) h
  | append_singleton ys c ih =>
    rw [← List.append_assoc]
    by_cases hc : p c = true
    · rw [List.rdropWhile_concat_pos _ _ _ hc] at h ⊢
      rw [List.rdropWhile_concat_pos _ _ _ hc]
      exact ih h
    · rw [List.rdropWhile_concat_neg _ _ _ hc, List.rdropWhile_concat_neg _ _ _ hc,
        List.append_assoc]

end MbTools.Lines
