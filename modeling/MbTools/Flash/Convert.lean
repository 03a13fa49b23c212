import MbTools.Flash.UniversalHex
import MbTools.Lib.IntelHex

/-! # Which hex files convert

The records of a Universal Hex that its conversion reads, and what they have to be:
where one of them is malformed, the conversion raises what it does not name.
-/

namespace MbTools.UniversalHex

open Bytes Text

variable {line line' : Str} {lines kept out : List Str} {g : Grouping} {ids : List ℤ}

/-- Can the board of a Block Start record be read? -/
def Named (line : Str) : Prop :=
  recordType line = some blockStart → (int16 (slice 9 13 line)).isSome

/-- Does a record read as bytes, as many as reach to its type? -/
def Rewritable (line : Str) : Prop :=
  ∃ raw, fromhex (slice 1 ((strip line).length - 2) (strip line)) = some raw ∧ 3 < raw.length

/-- Can a custom data record be written as a data record? -/
def Retypable (line : Str) : Prop := recordType line = some customData → Rewritable line

def Ascii (line : Str) : Prop := ∀ c ∈ line, c.toNat < 128

def IsData (line : Str) : Prop := recordType line = some data ∨ recordType line = some customData

/-- A record that is neither rewritten nor left out. -/
def PassedOn (line : Str) : Prop :=
  recordType line ∉ [some customData, some blockEnd, some paddedData, some otherData, some eof,
    none]

/-- The lines of the blocks for these boards. -/
def imageLines (ids : List ℤ) (lines : List Str) : List Str :=
  match Grouping.lines ⟨[], none, []⟩ lines with
  | .ok g => (g.close.filter fun b => decide (∃ bid ∈ ids, b.1 = some bid)).flatMap Prod.snd
  | .error _ => []

/-- Every record that a conversion is made of is well formed. -/
structure Readable (ids : List ℤ) (lines : List Str) : Prop where
  named : ∀ line ∈ lines, Named line
  retypable : ∀ line ∈ imageLines ids lines, Retypable line

def HasImage (ids : List ℤ) (lines : List Str) : Prop := ∃ line ∈ imageLines ids lines, IsData line

def AsciiImage (ids : List ℤ) (lines : List Str) : Prop :=
  ∀ line ∈ imageLines ids lines, PassedOn line → Ascii line

/-! ## The grouping -/

theorem line_cases (g : Grouping) (line : Str) :
    (Named line ∧ ∃ g', g.line line = .ok g') ∨
      (¬ Named line ∧ g.line line = .error .valueError) := by
  unfold Grouping.line Named
  by_cases hs : recordType line = some blockStart
  · rw [if_pos hs]
    cases hid : int16 (slice 9 13 line) with
    | none => exact Or.inr ⟨by simp [hs], rfl⟩
    | some bid => exact Or.inl ⟨fun _ => rfl, _, rfl⟩
  · rw [if_neg hs]
    exact Or.inl ⟨fun h => absurd h hs, _, rfl⟩

theorem lines_cases (g : Grouping) (lines : List Str) :
    ((∀ line ∈ lines, Named line) ∧ ∃ g', g.lines lines = .ok g') ∨
      ((¬ ∀ line ∈ lines, Named line) ∧ g.lines lines = .error .valueError) := by
  induction lines generalizing g with
  | nil => exact Or.inl ⟨by simp, g, rfl⟩
  | cons line lines ih =>
    rw [List.forall_mem_cons, Grouping.lines]
    rcases line_cases g line with ⟨hline, g', hg'⟩ | ⟨hline, hg⟩
    · rw [hg']
      rcases ih g' with ⟨hlines, hok⟩ | ⟨hlines, herr⟩
      · exact Or.inl ⟨⟨hline, hlines⟩, hok⟩
      · exact Or.inr ⟨fun h => hlines h.2, herr⟩
    · rw [hg]
      exact Or.inr ⟨fun h => hline h.1, rfl⟩

/-! ## What is kept -/

theorem ascii_of_hexDigit {c : Char} {n : ℕ} (h : hexDigit c = some n) : c.toNat < 128 := by
  obtain ⟨-, hc⟩ := hexDigit_eq_some h
  omega

theorem written_data {raw : List UInt8} (hlen : 3 < raw.length)
    (hline : line = ':' :: (upperHex (raw.set 3 0) ++ byteHex (IntelHex.checksum (raw.set 3 0)))) :
    recordType line = some data ∧ Ascii line := by
  let bytes := raw.set 3 0 ++ [IntelHex.checksum (raw.set 3 0)]
  have hbytes : line = ':' :: upperHex bytes := by simp [hline, bytes, upperHex]
  have hcs : unhex (upperHex bytes) = some bytes := unhex_upperHex bytes
  have hlength : (upperHex bytes).length = 2 * (raw.length + 1) := by
    rw [length_of_unhex hcs]
    simp [bytes]
  have htype : unhex (slice 7 9 (':' :: upperHex bytes)) = some [0] := by
    have h := unhex_take (unhex_drop hcs 3) 1
    have hdrop : (bytes.drop 3).take 1 = [0] := by
      obtain _ | ⟨a, _ | ⟨b, _ | ⟨c, _ | ⟨d, rest⟩⟩⟩⟩ := raw
      · simp at hlen
      · simp at hlen
      · simp at hlen
      · simp at hlen
      · rfl
    rwa [hdrop] at h
  rw [hbytes]
  constructor
  · have hint := int16_of_unhex htype (by simp)
    simp only [recordType, strip_of_unhex hcs]
    rw [if_neg (by simp [hlength]; omega), hint]
    rfl
  · intro c hc
    rcases List.mem_cons.mp hc with rfl | hc
    · decide
    · obtain ⟨n, hn⟩ := hexDigits_of_unhex hcs c hc
      exact ascii_of_hexDigit hn

/-- The record that is written for a custom data record is a data record. -/
theorem retype_cases (line : Str) :
    (Rewritable line ∧ ∃ line', retype line 0 = .ok line' ∧ recordType line' = some data ∧
      Ascii line') ∨
    (¬ Rewritable line ∧ ∃ e, retype line 0 = .error e ∧ e.isUniversalHexError = false) := by
  unfold Rewritable retype
  cases hraw : fromhex (slice 1 ((strip line).length - 2) (strip line)) with
  | none => exact Or.inr ⟨by simp, .valueError, by simp only [hraw], rfl⟩
  | some raw =>
    simp only [hraw]
    by_cases hlen : raw.length ≤ 3
    · rw [if_pos hlen]
      refine Or.inr ⟨?_, .indexError, rfl, rfl⟩
      rintro ⟨_, heq, hlt⟩
      cases heq
      omega
    · rw [if_neg hlen]
      exact Or.inl ⟨⟨raw, rfl, by omega⟩, _, rfl, written_data (by omega) rfl⟩

/-- What is kept of some lines has data and is ASCII as far as they are. -/
structure Kept (lines kept : List Str) : Prop where
  isData : (∃ line ∈ kept, recordType line = some data) ↔ ∃ line ∈ lines, IsData line
  ascii : (∀ line ∈ kept, Ascii line) ↔ ∀ line ∈ lines, PassedOn line → Ascii line

theorem Kept.append {more out : List Str} (h : Kept lines kept) (h' : Kept more out) :
    Kept (lines ++ more) (kept ++ out) where
  isData := by simp only [List.mem_append, or_and_right, exists_or, h.isData, h'.isData]
  ascii := by simp only [List.forall_mem_append, h.ascii, h'.ascii]

theorem keepLine_cases (line : Str) :
    (Retypable line ∧ ∃ kept, keepLine line = .ok kept ∧ Kept [line] kept) ∨
    (¬ Retypable line ∧ ∃ e, keepLine line = .error e ∧ e.isUniversalHexError = false) := by
  unfold keepLine
  by_cases hc : recordType line = some customData
  · have hpassed : ¬ PassedOn line := fun h => h (hc ▸ List.mem_cons_self)
    rw [if_pos hc]
    rcases retype_cases line with ⟨hre, line', hline', hdata, hascii⟩ | ⟨hre, e, he, huniversal⟩
    · refine Or.inl ⟨fun _ => hre, [line'], by rw [hline'], ?_, ?_⟩
      · simp [hdata, IsData, hc]
      · simp [hascii, hpassed]
    · exact Or.inr ⟨fun h => hre (h hc), e, by rw [he], huniversal⟩
  · rw [if_neg hc]
    refine Or.inl ⟨fun h => absurd h hc, ?_⟩
    split
    next hd =>
      have hpassed : ¬ PassedOn line := fun h => h (List.mem_cons_of_mem _ hd)
      have hdata : recordType line ≠ some data := by
        intro h
        rw [h] at hd
        revert hd
        decide
      refine ⟨[], rfl, ?_, ?_⟩
      · simp [IsData, hdata, hc]
      · simp [hpassed]
    next hd =>
      have hpassed : PassedOn line := by
        rw [PassedOn, List.mem_cons, not_or]
        exact ⟨hc, hd⟩
      refine ⟨[line], rfl, ?_, ?_⟩
      · simp [IsData, hc]
      · simp [hpassed]

theorem keepLines_cases (lines : List Str) :
    ((∀ line ∈ lines, Retypable line) ∧ ∃ out, keepLines lines = .ok out ∧ Kept lines out) ∨
    ((¬ ∀ line ∈ lines, Retypable line) ∧
      ∃ e, keepLines lines = .error e ∧ e.isUniversalHexError = false) := by
  induction lines with
  | nil => exact Or.inl ⟨by simp, [], rfl, by simp, by simp⟩
  | cons line lines ih =>
    rw [List.forall_mem_cons, keepLines]
    rcases keepLine_cases line with ⟨hline, kept, hkept, hspec⟩ | ⟨hline, e, he, huniversal⟩
    · rw [hkept]
      rcases ih with ⟨hlines, out, hout, hrest⟩ | ⟨hlines, e, he, huniversal⟩
      · rw [hout]
        exact Or.inl ⟨⟨hline, hlines⟩, kept ++ out, rfl, hspec.append hrest⟩
      · rw [he]
        exact Or.inr ⟨fun h => hlines h.2, e, rfl, huniversal⟩
    · rw [he]
      exact Or.inr ⟨fun h => hline h.1, e, rfl, huniversal⟩

/-! ## The conversion -/

theorem keepBlocks_close (hg : Grouping.lines ⟨[], none, []⟩ lines = .ok g) :
    keepBlocks ids g.close = keepLines (imageLines ids lines) := by
  rw [keepBlocks, imageLines, hg]

theorem ascii_lines (out : List Str) :
    (['\n'].intercalate (out ++ [eofLine]) ++ ['\n']).all (fun c => c.toNat < 128) = true ↔
      ∀ line ∈ out, Ascii line := by
  have hlines : ∀ ls : List Str, ls ≠ [] →
      ['\n'].intercalate ls ++ ['\n'] = ls.flatMap (· ++ ['\n']) := by
    intro ls hne
    obtain ⟨l, ls, rfl⟩ := List.exists_cons_of_ne_nil hne
    exact intercalate_newline l ls
  have heof : eofLine.all (fun c => c.toNat < 128) = true := by decide
  rw [hlines _ (by simp), List.all_eq_true, List.flatMap_append, List.forall_mem_append]
  constructor
  · rintro ⟨hall, -⟩ line hline c hc
    exact of_decide_eq_true (hall c (List.mem_flatMap.mpr ⟨line, hline, List.mem_append_left _ hc⟩))
  · intro h
    constructor
    · intro c hc
      obtain ⟨line, hline, hc⟩ := List.mem_flatMap.mp hc
      rcases List.mem_append.mp hc with hc | hc
      · exact decide_eq_true (h line hline c hc)
      · rw [List.mem_singleton.mp hc]
        decide
    · intro c hc
      simp only [List.flatMap_cons, List.flatMap_nil, List.append_nil] at hc
      rcases List.mem_append.mp hc with hc | hc
      · exact List.all_eq_true.mp heof c hc
      · rw [List.mem_singleton.mp hc]
        decide

/-- What becomes of a Universal Hex, by its records. -/
theorem extractForMcu_cases {text mcu : Str} (hids : boardIdsForMcu mcu = .ok ids) :
    (Readable ids (nonblankLines text) ∧ HasImage ids (nonblankLines text) ∧
      ∃ out, extractForMcu text mcu = .ok out ∧
        ((out.all fun c => c.toNat < 128) = true ↔ AsciiImage ids (nonblankLines text))) ∨
    (Readable ids (nonblankLines text) ∧ ¬ HasImage ids (nonblankLines text) ∧
      ∃ e, extractForMcu text mcu = .error e ∧ e.isUniversalHexError = true) ∨
    (¬ Readable ids (nonblankLines text) ∧
      ∃ e, extractForMcu text mcu = .error e ∧ e.isUniversalHexError = false) := by
  rw [extractForMcu, hids]
  dsimp only
  rcases lines_cases ⟨[], none, []⟩ (nonblankLines text) with ⟨hnamed, g, hg⟩ | ⟨hnamed, hg⟩
  · rw [hg]
    dsimp only
    rw [keepBlocks_close hg]
    rcases keepLines_cases (imageLines ids (nonblankLines text)) with
      ⟨hre, out, hout, hkept⟩ | ⟨hre, e, he, huniversal⟩
    · rw [hout]
      dsimp only
      by_cases himage : HasImage ids (nonblankLines text)
      · have hany : (out.any fun line => recordType line = some data) = true := by
          simpa using hkept.isData.mpr himage
        rw [if_pos hany]
        exact Or.inl ⟨⟨hnamed, hre⟩, himage, _, rfl, (ascii_lines out).trans hkept.ascii⟩
      · have hany : ¬ (out.any fun line => recordType line = some data) = true := by
          intro h
          exact himage (hkept.isData.mp (by simpa using h))
        rw [if_neg hany]
        exact Or.inr (Or.inl ⟨⟨hnamed, hre⟩, himage, _, rfl, rfl⟩)
    · rw [he]
      exact Or.inr (Or.inr ⟨fun h => hre h.retypable, e, rfl, huniversal⟩)
  · rw [hg]
    exact Or.inr (Or.inr ⟨fun h => hnamed h.named, _, rfl, rfl⟩)

section Files

variable (file : Option (List UInt8)) (mcu : Str)

/-- Every record the image of this target is made of is well formed, where the file is a
Universal Hex at all. -/
def Converts : Prop :=
  ∀ bytes, file = some bytes → isUniversalHex (readAscii bytes) = true →
    ∃ ids, boardIdsForMcu mcu = .ok ids ∧ Readable ids (nonblankLines (readAscii bytes)) ∧
      HasImage ids (nonblankLines (readAscii bytes)) ∧
      AsciiImage ids (nonblankLines (readAscii bytes))

/-- The same, or there is no image for the target. -/
def Judged : Prop :=
  ∀ bytes, file = some bytes → isUniversalHex (readAscii bytes) = true →
    ∀ ids, boardIdsForMcu mcu = .ok ids → Readable ids (nonblankLines (readAscii bytes)) ∧
      (HasImage ids (nonblankLines (readAscii bytes)) →
        AsciiImage ids (nonblankLines (readAscii bytes)))

def NormalizeRaise.isUniversalHexError : NormalizeRaise → Bool
  | .hex e => e.isUniversalHexError
  | .unicodeEncodeError => false

def NormalizeRaise.message : NormalizeRaise → Str
  | .hex e => e.message
  | .unicodeEncodeError => []

theorem boardIdsForMcu_error {e : HexRaise} (h : boardIdsForMcu mcu = .error e) :
    e.isUniversalHexError = true := by
  simp only [boardIdsForMcu] at h
  split at h
  · cases h
  · split at h
    · cases h
    · cases h
      rfl

/-- What becomes of a file, by its records. -/
theorem normalizedHex_cases :
    (Converts file mcu ∧ Judged file mcu ∧ ∃ n, normalizedHex file mcu = .ok n) ∨
    (¬ Converts file mcu ∧ Judged file mcu ∧
      ∃ e, normalizedHex file mcu = .error e ∧ e.isUniversalHexError = true) ∨
    (¬ Converts file mcu ∧ ¬ Judged file mcu ∧
      ∃ e, normalizedHex file mcu = .error e ∧ e.isUniversalHexError = false) := by
  unfold Converts Judged normalizedHex
  cases file with
  | none => exact Or.inl ⟨by simp, by simp, _, rfl⟩
  | some bytes =>
    dsimp only
    simp only [Option.some.injEq, forall_eq']
    by_cases hu : isUniversalHex (readAscii bytes) = true
    · rw [if_pos hu]
      simp only [hu, forall_const]
      cases hids : boardIdsForMcu mcu with
      | error e =>
        rw [extractForMcu, hids]
        exact Or.inr (Or.inl ⟨by simp, by simp, _, rfl, boardIdsForMcu_error mcu hids⟩)
      | ok ids =>
        simp only [Except.ok.injEq, exists_eq_left', forall_eq']
        rcases extractForMcu_cases hids with
          ⟨hread, himage, out, hout, hascii⟩ | ⟨hread, himage, e, he, huniversal⟩ |
            ⟨hread, e, he, huniversal⟩
        · rw [hout]
          dsimp only
          by_cases ha : AsciiImage ids (nonblankLines (readAscii bytes))
          · rw [if_pos (hascii.mpr ha)]
            exact Or.inl ⟨⟨hread, himage, ha⟩, ⟨hread, fun _ => ha⟩, _, rfl⟩
          · rw [if_neg (mt hascii.mp ha)]
            exact Or.inr (Or.inr ⟨fun h => ha h.2.2, fun h => ha (h.2 himage), _, rfl, rfl⟩)
        · rw [he]
          exact Or.inr (Or.inl ⟨fun h => himage h.2.1, ⟨hread, fun h => absurd h himage⟩, _, rfl,
            huniversal⟩)
        · rw [he]
          exact Or.inr (Or.inr ⟨fun h => hread h.1, fun h => hread h.1, _, rfl, huniversal⟩)
    · rw [if_neg hu]
      exact Or.inl ⟨by simp [hu], by simp [hu], _, rfl⟩

end Files

end MbTools.UniversalHex
