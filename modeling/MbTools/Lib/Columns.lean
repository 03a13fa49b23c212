import Mathlib.Data.List.DropRight
import Mathlib.Data.List.Infix
import Mathlib.Tactic.Common

/-! # Tables in columns of a fixed width

Rows of cells are written one to a line, each cell padded to the width of its column, under a
line of headers and a rule. The rule alone says where the columns are, so the cells can be
read back.
-/

namespace MbTools.Columns

/-- The characters a table is written with. -/
structure Marks (α : Type) where
  blank : α
  dash : α
  newline : α
  isSpace : α → Bool
  isSpace_blank : isSpace blank = true
  dash_ne_blank : dash ≠ blank
  dash_ne_newline : dash ≠ newline
  blank_ne_newline : blank ≠ newline

namespace Marks

variable {α : Type} (m : Marks α)

/-- `str.rstrip` -/
def rstrip (s : List α) : List α := s.rdropWhile m.isSpace

/-- `str.ljust` -/
def ljust (w : ℕ) (s : List α) : List α := s ++ List.replicate (w - s.length) m.blank

/-- `max` of the widths so far and the lengths of a row's cells. -/
def widen (ws : List ℕ) (row : List (List α)) : List ℕ :=
  List.zipWith (fun w c => max w c.length) ws row

def widths (headers : List (List α)) (rows : List (List (List α))) : List ℕ :=
  rows.foldl widen (headers.map List.length)

def gap : List α := [m.blank, m.blank]

def padded (ws : List ℕ) (row : List (List α)) : List α :=
  m.gap.intercalate (List.zipWith m.ljust ws row)

def line (ws : List ℕ) (row : List (List α)) : List α := m.rstrip (m.padded ws row)

def rule (ws : List ℕ) : List α := m.gap.intercalate (ws.map fun w => List.replicate w m.dash)

def lines (headers : List (List α)) (rows : List (List (List α))) : List (List α) :=
  let ws := widths headers rows
  m.line ws headers :: m.rule ws :: rows.map (m.line ws)

def table (headers : List (List α)) (rows : List (List (List α))) : List α :=
  [m.newline].intercalate (m.lines headers rows)

/-- The text between the column's offset and its width, for every column. -/
def cut : List ℕ → List α → List (List α)
  | [], _ => []
  | w :: ws, s => m.rstrip (s.take w) :: cut ws (s.drop (w + 2))

variable [DecidableEq α]

/-- The widths of the columns that a rule shows. -/
def columns (rule : List α) : List ℕ := ((rule.splitOn m.blank).filter (· ≠ [])).map List.length

/-- The cells of a table. -/
def read (text : List α) : List (List (List α)) :=
  match text.splitOn m.newline with
  | _ :: rule :: lines => lines.map (m.cut (m.columns rule))
  | _ => []

end Marks

variable {α : Type} {m : Marks α} {ws : List ℕ} {row headers : List (List α)}
  {rows : List (List (List α))} {s t : List α} {w : ℕ}

theorem rstrip_append (h : ∀ c ∈ t, m.isSpace c = true) : m.rstrip (s ++ t) = m.rstrip s := by
  induction t using List.reverseRecOn with
  | nil => rw [List.append_nil]
  | append_singleton t c ih =>
    rw [Marks.rstrip, ← List.append_assoc, List.rdropWhile_concat_pos _ _ _ (h c (by simp))]
    exact ih fun c' hc' => h c' (List.mem_append_left _ hc')

theorem exists_rstrip_append (s : List α) :
    ∃ t, s = m.rstrip s ++ t ∧ ∀ c ∈ t, m.isSpace c = true := by
  induction s using List.reverseRecOn with
  | nil => exact ⟨[], rfl, by simp⟩
  | append_singleton s c ih =>
    by_cases hc : m.isSpace c = true
    · obtain ⟨t, hs, ht⟩ := ih
      refine ⟨t ++ [c], ?_, by simpa [or_imp, forall_and] using ⟨ht, hc⟩⟩
      rw [rstrip_append (by simpa using hc), ← List.append_assoc, ← hs]
    · exact ⟨[], by rw [Marks.rstrip, List.rdropWhile_concat_neg _ _ _ hc, List.append_nil],
        by simp⟩

theorem rstrip_ljust : m.rstrip (m.ljust w s) = m.rstrip s :=
  rstrip_append fun c hc => by rw [List.eq_of_mem_replicate hc, m.isSpace_blank]

/-- Blanks at the end of a line change none of its cells. -/
theorem cut_append : ∀ {ws : List ℕ} {s t : List α}, (∀ c ∈ t, m.isSpace c = true) →
    m.cut ws (s ++ t) = m.cut ws s
  | [], _, _, _ => rfl
  | w :: ws, s, t, h => by
    rw [Marks.cut, Marks.cut, List.take_append, List.drop_append,
      rstrip_append fun c hc => h c (List.mem_of_mem_take hc),
      cut_append fun c hc => h c (List.mem_of_mem_drop hc)]

theorem cut_rstrip (ws : List ℕ) (s : List α) : m.cut ws (m.rstrip s) = m.cut ws s := by
  obtain ⟨t, hs, ht⟩ := exists_rstrip_append (m := m) s
  conv_rhs => rw [hs]
  rw [cut_append ht]

theorem length_ljust (h : s.length ≤ w) : (m.ljust w s).length = w := by
  rw [Marks.ljust, List.length_append, List.length_replicate]
  omega

/-- Every cell of a row is as wide as its column at most. -/
def Fits (ws : List ℕ) (row : List (List α)) : Prop := List.Forall₂ (fun w c => c.length ≤ w) ws row

theorem cut_padded (h : Fits ws row) : m.cut ws (m.padded ws row) = row.map m.rstrip := by
  induction h with
  | nil => rfl
  | @cons w c ws row hc hrow ih =>
    cases hrow with
    | nil =>
      simp [Marks.padded, Marks.cut, List.take_of_length_le (length_ljust (m := m) hc).le,
        rstrip_ljust]
    | @cons w' c' ws row hc' hrow =>
      have hpad : m.padded (w :: w' :: ws) (c :: c' :: row) =
          m.ljust w c ++ (m.gap ++ m.padded (w' :: ws) (c' :: row)) := by
        simp [Marks.padded, List.intercalate]
      have htake : (m.padded (w :: w' :: ws) (c :: c' :: row)).take w = m.ljust w c := by
        rw [hpad, List.take_left' (length_ljust hc)]
      have hdrop : (m.padded (w :: w' :: ws) (c :: c' :: row)).drop (w + 2) =
          m.padded (w' :: ws) (c' :: row) := by
        rw [hpad, ← List.append_assoc, List.drop_left']
        rw [List.length_append, length_ljust hc]
        rfl
      rw [Marks.cut, htake, hdrop, ih, rstrip_ljust]
      rfl

/-- The cells of a row are read back from its line, but for the blanks at their ends. -/
theorem cut_line (h : Fits ws row) : m.cut ws (m.line ws row) = row.map m.rstrip := by
  rw [Marks.line, cut_rstrip, cut_padded h]

theorem Fits.widen (h : Fits ws row) (hlen : headers.length = ws.length) :
    Fits (Marks.widen ws headers) row := by
  induction h generalizing headers with
  | nil => exact List.Forall₂.nil
  | @cons w c ws row hc _ ih =>
    obtain ⟨c', headers, rfl⟩ := List.exists_cons_of_length_eq_add_one hlen
    exact List.Forall₂.cons (hc.trans (Nat.le_max_left _ _))
      (ih (by simpa using hlen))

theorem length_widen (h : row.length = ws.length) : (Marks.widen ws row).length = ws.length := by
  rw [Marks.widen, List.length_zipWith, h, Nat.min_self]

theorem fits_widen (h : row.length = ws.length) : Fits (Marks.widen ws row) row := by
  induction ws generalizing row with
  | nil =>
    rw [List.length_nil, List.length_eq_zero_iff] at h
    subst h
    exact List.Forall₂.nil
  | cons w ws ih =>
    obtain ⟨c, row, rfl⟩ := List.exists_cons_of_length_eq_add_one h
    exact List.Forall₂.cons (Nat.le_max_right _ _) (ih (by simpa using h))

theorem Fits.foldl (hrow : Fits ws row) (h : ∀ row ∈ rows, row.length = ws.length) :
    Fits (rows.foldl Marks.widen ws) row := by
  induction rows generalizing ws with
  | nil => exact hrow
  | cons r rows ih =>
    have hr := h r List.mem_cons_self
    exact ih (hrow.widen hr) fun r' hr' => by
      rw [length_widen hr, h r' (List.mem_cons_of_mem _ hr')]

theorem fits_foldl (h : ∀ row ∈ rows, row.length = ws.length) (hrow : row ∈ rows) :
    Fits (rows.foldl Marks.widen ws) row := by
  induction rows generalizing ws with
  | nil => cases hrow
  | cons r rows ih =>
    have hr := h r List.mem_cons_self
    have hlen : ∀ r' ∈ rows, r'.length = (Marks.widen ws r).length := fun r' hr' => by
      rw [length_widen hr, h r' (List.mem_cons_of_mem _ hr')]
    rcases List.mem_cons.mp hrow with rfl | hrow
    · exact (fits_widen hr).foldl hlen
    · exact ih hlen hrow

theorem fits_lengths : ∀ row : List (List α), Fits (row.map List.length) row
  | [] => List.Forall₂.nil
  | _ :: row => List.Forall₂.cons le_rfl (fits_lengths row)

/-- Every column is as wide as its header at least. -/
theorem fits_headers (h : ∀ row ∈ rows, row.length = headers.length) :
    Fits (Marks.widths headers rows) headers :=
  (fits_lengths headers).foldl fun r hr => by rw [List.length_map, h r hr]

theorem fits_widths (h : ∀ row ∈ rows, row.length = headers.length) (hrow : row ∈ rows) :
    Fits (Marks.widths headers rows) row :=
  fits_foldl (fun r hr => by rw [List.length_map, h r hr]) hrow

theorem pos_of_fits (h : Fits ws row) (hrow : ∀ c ∈ row, c ≠ []) : ∀ w ∈ ws, 0 < w := by
  induction h with
  | nil => simp
  | @cons w c ws row hc _ ih =>
    rw [List.forall_mem_cons] at hrow ⊢
    exact ⟨(List.length_pos_iff.mpr hrow.1).trans_le hc, ih hrow.2⟩

theorem mem_padded {c : α} (h : c ∈ m.padded ws row) : c = m.blank ∨ ∃ cell ∈ row, c ∈ cell := by
  induction row generalizing ws with
  | nil => simp [Marks.padded, List.intercalate] at h
  | cons cell row ih =>
    cases ws with
    | nil => simp [Marks.padded, List.intercalate] at h
    | cons w ws =>
      have hcell : c ∈ m.ljust w cell → c = m.blank ∨ ∃ cell' ∈ cell :: row, c ∈ cell' := by
        intro hc
        rcases List.mem_append.mp hc with hc | hc
        · exact Or.inr ⟨cell, List.mem_cons_self, hc⟩
        · exact Or.inl (List.eq_of_mem_replicate hc)
      have hrest : c ∈ m.padded ws row → c = m.blank ∨ ∃ cell' ∈ cell :: row, c ∈ cell' := by
        intro hc
        obtain hb | ⟨cell', hmem, hc⟩ := ih hc
        · exact Or.inl hb
        · exact Or.inr ⟨cell', List.mem_cons_of_mem _ hmem, hc⟩
      cases ws with
      | nil => exact hcell (by simpa [Marks.padded, List.intercalate] using h)
      | cons w' ws =>
        cases row with
        | nil => exact hcell (by simpa [Marks.padded, List.intercalate] using h)
        | cons cell' row =>
          have hpad : m.padded (w :: w' :: ws) (cell :: cell' :: row) =
              m.ljust w cell ++ (m.gap ++ m.padded (w' :: ws) (cell' :: row)) := by
            simp [Marks.padded, List.intercalate]
          rw [hpad, List.mem_append, List.mem_append] at h
          rcases h with h | h | h
          · exact hcell h
          · left
            simpa [Marks.gap] using h
          · exact hrest h

theorem newline_not_mem_line (h : ∀ cell ∈ row, m.newline ∉ cell) : m.newline ∉ m.line ws row := by
  intro hmem
  obtain ⟨t, hs, -⟩ := exists_rstrip_append (m := m) (m.padded ws row)
  have hpadded : m.newline ∈ m.padded ws row := by
    rw [hs]
    exact List.mem_append_left _ hmem
  obtain hb | ⟨cell, hcell, hc⟩ := mem_padded hpadded
  · exact m.blank_ne_newline hb.symm
  · exact h cell hcell hc

theorem newline_not_mem_rule : ∀ ws : List ℕ, m.newline ∉ m.rule ws
  | [] => by simp [Marks.rule, List.intercalate]
  | [w] => by
    have hdash := m.dash_ne_newline
    simp [Marks.rule, List.intercalate, Ne.symm hdash]
  | w :: w' :: ws => by
    have hdash := m.dash_ne_newline
    have hblank := m.blank_ne_newline
    have ih := newline_not_mem_rule (w' :: ws)
    have hrule : m.rule (w :: w' :: ws) =
        List.replicate w m.dash ++ (m.gap ++ m.rule (w' :: ws)) := by
      simp [Marks.rule, List.intercalate]
    rw [hrule]
    simp [Marks.gap, ih, Ne.symm hdash, Ne.symm hblank]

variable [DecidableEq α]

theorem columns_rule : ∀ {ws : List ℕ}, (∀ w ∈ ws, 0 < w) → m.columns (m.rule ws) = ws
  | [], _ => by simp [Marks.rule, Marks.columns, List.intercalate]
  | [w], h => by
    have hblank : m.blank ∉ List.replicate w m.dash := fun hmem =>
      m.dash_ne_blank (List.eq_of_mem_replicate hmem).symm
    have hw : w ≠ 0 := (h w List.mem_cons_self).ne'
    simp [Marks.rule, Marks.columns, List.intercalate, List.splitOn_eq_singleton hblank, hw]
  | w :: w' :: ws, h => by
    have hblank : m.blank ∉ List.replicate w m.dash := fun hmem =>
      m.dash_ne_blank (List.eq_of_mem_replicate hmem).symm
    have hw : w ≠ 0 := (h w List.mem_cons_self).ne'
    have ih := columns_rule fun w hw => h w (List.mem_cons_of_mem _ hw)
    have hrule : m.rule (w :: w' :: ws) =
        List.replicate w m.dash ++ m.blank :: ([] ++ m.blank :: m.rule (w' :: ws)) := by
      simp [Marks.rule, Marks.gap, List.intercalate]
    rw [Marks.columns, hrule, List.splitOn_append_cons_self_of_not_mem hblank,
      List.splitOn_append_cons_self_of_not_mem (List.not_mem_nil)]
    simpa [hw, Marks.columns] using ih

/-- The cells of a table are read back, but for the blanks at their ends. -/
theorem read_table (hheaders : ∀ h ∈ headers, h ≠ [] ∧ m.newline ∉ h)
    (hlen : ∀ row ∈ rows, row.length = headers.length)
    (hcells : ∀ row ∈ rows, ∀ cell ∈ row, m.newline ∉ cell) :
    m.read (m.table headers rows) = rows.map (List.map m.rstrip) := by
  have hlines : ∀ l ∈ m.lines headers rows, m.newline ∉ l := by
    rw [Marks.lines, List.forall_mem_cons, List.forall_mem_cons]
    refine ⟨newline_not_mem_line fun c hc => (hheaders c hc).2, newline_not_mem_rule _, ?_⟩
    intro l hl
    obtain ⟨row, hrow, rfl⟩ := List.mem_map.mp hl
    exact newline_not_mem_line (hcells row hrow)
  rw [Marks.read, Marks.table, List.splitOn_intercalate m.newline hlines (List.cons_ne_nil _ _)]
  show (rows.map _).map _ = _
  rw [columns_rule (pos_of_fits (fits_headers hlen) fun c hc => (hheaders c hc).1),
    List.map_map]
  exact List.map_congr_left fun row hrow => cut_line (fits_widths hlen hrow)

end MbTools.Columns
