import MbTools.Lib.Lines

/-! # Lines of a text and of its bytes

A line feed is one byte and no other character has that byte in it, so a text
can be cut into lines before it is decoded.
-/

namespace MbTools.Utf8

open Lines

/-- `text.encode("utf-8")`. -/
def encode (text : List Char) : List UInt8 := text.flatMap String.utf8EncodeChar

/-- `bytes.decode("utf-8")`, where an error raises. -/
def decode? (bs : List UInt8) : Option (List Char) :=
  (bs.toByteArray.utf8Decode?).map Array.toList

/-- The lines with their line feeds, and what stands behind the last line feed. -/
def textLines : List Char → List (List Char)
  | [] => []
  | c :: text =>
    if c = '\n' then [c] :: textLines text
    else
      match textLines text with
      | [] => [[c]]
      | line :: lines => (c :: line) :: lines

variable {text line rest : List Char} {c : Char}

@[simp] theorem encode_nil : encode [] = [] := rfl

@[simp] theorem encode_append (text rest : List Char) :
    encode (text ++ rest) = encode text ++ encode rest := List.flatMap_append

theorem encode_newline : encode ['\n'] = [newline] := rfl

theorem decode?_encode (text : List Char) : decode? (encode text) = some text := by
  have h : (encode text).toByteArray.utf8Decode? = some text.toArray := List.utf8Decode?_utf8Encode
  rw [decode?, h, Option.map_some]

theorem newline_eq_ofNat_iff {k : ℕ} (hk : k < 256) : newline = UInt8.ofNat k ↔ k = 10 := by
  rw [← UInt8.toNat_inj, UInt8.toNat_ofNat', Nat.mod_eq_of_lt hk]
  exact eq_comm

/-- The bytes of a longer character are none of ASCII. -/
theorem mem_utf8EncodeChar (h : newline ∈ String.utf8EncodeChar c) : c = '\n' := by
  rw [String.utf8EncodeChar] at h
  split at h
  · rename_i hv
    have hc := (newline_eq_ofNat_iff (by omega)).mp (List.mem_singleton.mp h)
    exact Char.toNat_inj.mp hc
  · -- each byte is 128 at least
    exfalso
    split at h
    · simp only [List.mem_cons, List.not_mem_nil, or_false] at h
      rcases h with h | h
      all_goals rw [newline_eq_ofNat_iff (by omega)] at h; omega
    · split at h
      · simp only [List.mem_cons, List.not_mem_nil, or_false] at h
        rcases h with h | h | h
        all_goals rw [newline_eq_ofNat_iff (by omega)] at h; omega
      · simp only [List.mem_cons, List.not_mem_nil, or_false] at h
        rcases h with h | h | h | h
        all_goals rw [newline_eq_ofNat_iff (by omega)] at h; omega

theorem newline_mem_encode_iff : newline ∈ encode text ↔ '\n' ∈ text := by
  rw [encode, List.mem_flatMap]
  constructor
  · rintro ⟨c, hc, h⟩
    rwa [mem_utf8EncodeChar h] at hc
  · intro h
    exact ⟨'\n', h, List.mem_singleton.mpr rfl⟩

theorem textLines_line (h : '\n' ∉ line) :
    textLines (line ++ '\n' :: rest) = (line ++ ['\n']) :: textLines rest := by
  induction line with
  | nil => rfl
  | cons c line ih =>
    rw [List.mem_cons, not_or] at h
    rw [List.cons_append, textLines, if_neg (Ne.symm h.1), ih h.2]
    rfl

theorem textLines_last (h : '\n' ∉ text) (hne : text ≠ []) : textLines text = [text] := by
  induction text with
  | nil => exact absurd rfl hne
  | cons c text ih =>
    rw [List.mem_cons, not_or] at h
    rw [textLines, if_neg (Ne.symm h.1)]
    cases text with
    | nil => rfl
    | cons d text => rw [ih h.2 (List.cons_ne_nil d text)]

/-- A text has a first line or none at all. -/
theorem exists_line (h : '\n' ∈ text) : ∃ line rest, text = line ++ '\n' :: rest ∧ '\n' ∉ line := by
  induction text with
  | nil => cases h
  | cons c text ih =>
    by_cases hc : c = '\n'
    · exact ⟨[], text, by rw [hc]; rfl, List.not_mem_nil⟩
    · obtain ⟨line, rest, rfl, hl⟩ := ih ((List.mem_cons.mp h).resolve_left (Ne.symm hc))
      exact ⟨c :: line, rest, rfl, by simp [hl, Ne.symm hc]⟩

end MbTools.Utf8
