import Mathlib.Data.List.Forall2
import MbTools.Flash.UniversalHex

/-! # The image taken out of a Universal Hex

What is extracted for a target writes the bytes the blocks of its boards write, and
nothing else.
-/

namespace MbTools.UniversalHex

open Bytes IntelHex Text

/-! ## Well-formed files -/

def knownTypes : List UInt8 := [0, 1, 2, 3, 4, 5, 0x0A, 0x0B, 0x0C, 0x0D, 0x0E]

/-- A record that may stand behind the opening of a block. -/
structure Plain (r : Record) : Prop where
  known : r.rtype ∈ knownTypes
  noStart : r.rtype ≠ 0x0A

/-- A block: its address base, the record that names its board, and the rest. -/
structure Block where
  base : Record
  start : Record
  body : List Record
  base_type : base.rtype = extLinearAddress
  start_type : start.rtype = 0x0A
  start_data : 2 ≤ start.data.length
  body_plain : ∀ r ∈ body, Plain r

def Block.records (b : Block) : List Record := b.base :: b.start :: b.body

def Block.boardId (b : Block) : ℤ := Int.ofNat (fromBytesBig (b.start.data.take 2))

/-- The records a Universal Hex reads as data. -/
def carriesData (t : UInt8) : Bool := t = 0 || t = 0x0D

/-- What a block writes, under the base in force inside it. -/
def Block.image (b : Block) : List (ℕ × UInt8) := writes carriesData 0 b.records

def Block.hasData (b : Block) : Prop := ∃ r ∈ b.body, carriesData r.rtype

instance (b : Block) : Decidable b.hasData :=
  inferInstanceAs (Decidable (∃ r ∈ b.body, carriesData r.rtype))

/-- A Universal Hex: records that belong to no block, and blocks. -/
structure File where
  lead : List Record
  blocks : List Block
  lead_plain : ∀ r ∈ lead, Plain r

def File.records (f : File) : List Record := f.lead ++ f.blocks.flatMap Block.records

/-- The lines stand for the records. -/
def Denotes (lines : List Str) (rs : List Record) : Prop :=
  List.Forall₂ (fun line r => parse line = some r) lines rs

/-! ## One line -/

variable {line : Str} {r : Record}

theorem strip_of_parse (h : parse line = some r) : strip line = line := by
  obtain ⟨cs, _, _, _, _, _, rfl, hcs, -⟩ := parse_eq_some h
  exact strip_of_unhex hcs

theorem length_of_parse (h : parse line = some r) : line.length = 2 * r.data.length + 11 := by
  obtain ⟨cs, _, _, _, data, _, rfl, hcs, -, hdata, -⟩ := parse_eq_some h
  have := length_of_unhex hcs
  simp only [List.length_cons, List.length_append, List.length_nil] at this ⊢
  rw [hdata]
  omega

theorem recordType_of_parse (h : parse line = some r) :
    recordType line = some (Int.ofNat r.rtype.toNat) := by
  have hlen := length_of_parse h
  have hstrip := strip_of_parse h
  obtain ⟨cs, len, hi, lo, data, check, rfl, hcs, -⟩ := parse_eq_some h
  have htype : unhex (slice 7 9 (':' :: cs)) = some [r.rtype] :=
    unhex_take (unhex_drop hcs 3) 1
  have hint := int16_of_unhex htype (by simp)
  simp only [recordType, hstrip]
  rw [if_neg (by simp at hlen ⊢; omega), hint]
  simp [fromBytesBig]

theorem boardId_of_parse (h : parse line = some r) (hd : 2 ≤ r.data.length) :
    int16 (slice 9 13 line) = some (Int.ofNat (fromBytesBig (r.data.take 2))) := by
  obtain ⟨cs, len, hi, lo, data, check, rfl, hcs, -, hdata, -⟩ := parse_eq_some h
  have hid : unhex (slice 9 13 (':' :: cs)) = some (data.take 2) := by
    have := unhex_take (unhex_drop hcs 4) 2
    rwa [List.drop_succ_cons, List.drop_succ_cons, List.drop_succ_cons, List.drop_succ_cons,
      List.drop_zero, List.take_append_of_le_length (hdata ▸ hd)] at this
  rw [hdata]
  refine int16_of_unhex hid fun hnil => ?_
  have := congrArg List.length hnil
  rw [List.length_take, ← hdata, List.length_nil] at this
  omega

theorem retype_of_parse (h : parse line = some r) (t : UInt8) :
    ∃ line', retype line t = .ok line' ∧ parse line' = some { r with rtype := t } := by
  have hstrip := strip_of_parse h
  obtain ⟨cs, len, hi, lo, data, check, rfl, hcs, hlen, hdata, haddr⟩ := parse_eq_some h
  have hraw : unhex (slice 1 ((':' :: cs).length - 2) (':' :: cs)) =
      some (len :: hi :: lo :: r.rtype :: data) := by
    have hcslen : cs.length = 2 * (data.length + 5) := by
      simpa [Nat.add_assoc] using length_of_unhex hcs
    have hslice : slice 1 ((':' :: cs).length - 2) (':' :: cs) =
        cs.take (2 * (data.length + 4)) := by
      simp only [slice, List.drop_succ_cons, List.drop_zero, List.length_cons]
      congr 1
      omega
    rw [hslice, unhex_take hcs]
    simp
  simp only [retype, hstrip, fromhex_of_unhex hraw]
  refine ⟨_, rfl, ?_⟩
  rw [hdata, haddr]
  refine parse_write hlen ?_
  have hup := unhex_upperHex
    (len :: hi :: lo :: t :: (data ++ [checksum (len :: hi :: lo :: t :: data)]))
  simpa [upperHex] using hup

/-! ## The grouping -/

variable {lines : List Str} {rs ts : List Record} {g : Grouping}

theorem Plain.not_start (h : parse line = some r) (hp : Plain r) :
    recordType line ≠ some blockStart := by
  rw [recordType_of_parse h]
  intro heq
  have htype : (r.rtype.toNat : ℤ) = (10 : ℕ) := Option.some.inj heq
  exact hp.noStart (UInt8.toNat_inj.mp (Int.ofNat_inj.mp htype))

/-- Plain records go to the block that is being read. -/
theorem lines_plain (h : Denotes lines rs) (hp : ∀ r ∈ rs, Plain r) (more : List Str) :
    g.lines (lines ++ more) = Grouping.lines { g with current := g.current ++ lines } more := by
  induction h generalizing g with
  | nil => simp
  | @cons line r lines rs hline h ih =>
    rw [List.forall_mem_cons] at hp
    rw [List.cons_append, Grouping.lines, Grouping.line, if_neg (hp.1.not_start hline)]
    simp only
    rw [ih hp.2]
    simp

theorem exists_append_of_denotes (h : Denotes lines (rs ++ ts)) :
    ∃ xs ys, Denotes xs rs ∧ Denotes ys ts ∧ lines = xs ++ ys :=
  ⟨_, _, List.forall₂_take_append _ _ _ h, List.forall₂_drop_append _ _ _ h,
    (List.take_append_drop _ _).symm⟩

/-- A block's opening closes the block before it and takes its own base along. -/
theorem lines_opening {b : Block} {base start : Str} (hbase : parse base = some b.base)
    (hstart : parse start = some b.start) (more : List Str) :
    g.lines (base :: start :: more) =
      Grouping.lines ⟨g.blocks ++ [(g.currentId, g.current)], some b.boardId, [base]⟩ more := by
  have htbase : recordType base = some extLinearAddr := by
    rw [recordType_of_parse hbase, b.base_type]
    rfl
  have htstart : recordType start = some blockStart := by
    rw [recordType_of_parse hstart, b.start_type]
    rfl
  have hne : some extLinearAddr ≠ some blockStart := by decide
  rw [Grouping.lines, Grouping.line, htbase, if_neg hne]
  simp only
  rw [Grouping.lines, Grouping.line, if_pos htstart]
  simp only [List.getLast?_concat, htbase, if_true, List.dropLast_concat,
    boardId_of_parse hstart b.start_data, Block.boardId]

/-- The lines of a block as they are grouped: its base and its body. -/
def Groups (b : Block) (group : Option ℤ × List Str) : Prop :=
  group.1 = some b.boardId ∧ Denotes group.2 (b.base :: b.body)

theorem lines_blocks {bs : List Block} (h : Denotes lines (bs.flatMap Block.records)) :
    ∃ g' groups, g.lines lines = .ok g' ∧ g'.close = g.close ++ groups ∧
      List.Forall₂ Groups bs groups := by
  induction bs generalizing lines g with
  | nil =>
    rw [List.flatMap_nil] at h
    cases h
    exact ⟨g, [], rfl, (List.append_nil _).symm, .nil⟩
  | cons b bs ih =>
    rw [List.flatMap_cons, Block.records] at h
    cases h with | @cons base _ tail _ hbase h =>
    cases h with | @cons start _ rest _ hstart h =>
    obtain ⟨body, more, hbody, hmore, rfl⟩ := exists_append_of_denotes h
    rw [lines_opening hbase hstart, lines_plain hbody b.body_plain]
    obtain ⟨g', groups, hg', hclose, hgroups⟩ := ih hmore
    refine ⟨g', (some b.boardId, base :: body) :: groups, hg', ?_, .cons ?_ hgroups⟩
    · rw [hclose]
      simp [Grouping.close]
    · exact ⟨rfl, .cons hbase hbody⟩

/-- The blocks of a well-formed file are grouped as they are. -/
theorem lines_file {f : File} (h : Denotes lines f.records) :
    ∃ g' lead groups, Grouping.lines ⟨[], none, []⟩ lines = .ok g' ∧
      g'.close = (none, lead) :: groups ∧ List.Forall₂ Groups f.blocks groups := by
  obtain ⟨lead, more, hlead, hmore, rfl⟩ := exists_append_of_denotes h
  rw [lines_plain hlead f.lead_plain]
  obtain ⟨g', groups, hg', hclose, hgroups⟩ := lines_blocks hmore
  exact ⟨g', lead, groups, hg', hclose, hgroups⟩

/-! ## What is kept -/

/-- What a record of a wanted block becomes. -/
def keepRecord (r : Record) : List Record :=
  if r.rtype = 0x0D then [{ r with rtype := 0 }]
  else if r.rtype ∈ [0x0B, 0x0C, 0x0E, 0x01] then []
  else [r]

theorem recordType_eq_iff (h : parse line = some r) (t : UInt8) :
    recordType line = some (Int.ofNat t.toNat) ↔ r.rtype = t := by
  rw [recordType_of_parse h, Option.some.injEq, Int.ofNat.injEq, UInt8.toNat_inj]

theorem keepLine_of_parse (h : parse line = some r) :
    ∃ kept, keepLine line = .ok kept ∧ Denotes kept (keepRecord r) := by
  have hcustom : recordType line = some customData ↔ r.rtype = 0x0D := recordType_eq_iff h 0x0D
  have hdrop : recordType line ∈ [some blockEnd, some paddedData, some otherData, some eof, none] ↔
      r.rtype ∈ [0x0B, 0x0C, 0x0E, 0x01] := by
    have hsome : recordType line ≠ none := by
      rw [recordType_of_parse h]
      intro heq
      cases heq
    simp only [List.mem_cons, List.not_mem_nil, or_false, hsome]
    exact or_congr (recordType_eq_iff h 0x0B) (or_congr (recordType_eq_iff h 0x0C)
      (or_congr (recordType_eq_iff h 0x0E) (recordType_eq_iff h 0x01)))
  unfold keepLine keepRecord
  by_cases hd : r.rtype = 0x0D
  · obtain ⟨line', hline', hparse⟩ := retype_of_parse h 0
    rw [if_pos (hcustom.mpr hd), if_pos hd, hline']
    exact ⟨[line'], rfl, .cons hparse .nil⟩
  · rw [if_neg (mt hcustom.mp hd), if_neg hd]
    by_cases hb : r.rtype ∈ [0x0B, 0x0C, 0x0E, 0x01]
    · rw [if_pos (hdrop.mpr hb), if_pos hb]
      exact ⟨[], rfl, .nil⟩
    · rw [if_neg (mt hdrop.mp hb), if_neg hb]
      exact ⟨[line], rfl, .cons h .nil⟩

theorem keepLines_of_denotes (h : Denotes lines rs) :
    ∃ kept, keepLines lines = .ok kept ∧ Denotes kept (rs.flatMap keepRecord) := by
  induction h with
  | nil => exact ⟨[], rfl, .nil⟩
  | cons hline _ ih =>
    obtain ⟨kept, hkept, hden⟩ := keepLine_of_parse hline
    obtain ⟨rest, hrest, hden'⟩ := ih
    refine ⟨kept ++ rest, ?_, List.rel_append hden hden'⟩
    rw [keepLines, hkept, hrest]

/-- The blocks of the boards in `ids`. -/
def wantedBlocks (ids : List ℤ) (bs : List Block) : List Block := bs.filter (·.boardId ∈ ids)

theorem denotes_flatMap_filter {ids : List ℤ} {bs : List Block}
    {groups : List (Option ℤ × List Str)} (h : List.Forall₂ Groups bs groups) :
    Denotes ((groups.filter fun g => decide (∃ bid ∈ ids, g.1 = some bid)).flatMap Prod.snd)
      ((wantedBlocks ids bs).flatMap fun b => b.base :: b.body) := by
  induction h with
  | nil => exact .nil
  | @cons b g bs groups hg _ ih =>
    obtain ⟨hid, hden⟩ := hg
    have hiff : (∃ bid ∈ ids, g.1 = some bid) ↔ b.boardId ∈ ids := by
      rw [hid]
      simp
    unfold wantedBlocks at ih ⊢
    by_cases hw : b.boardId ∈ ids
    · rw [List.filter_cons_of_pos (by simpa using hiff.mpr hw),
        List.filter_cons_of_pos (by simpa using hw), List.flatMap_cons, List.flatMap_cons]
      exact List.rel_append hden ih
    · rw [List.filter_cons_of_neg (by simpa using mt hiff.mp hw),
        List.filter_cons_of_neg (by simpa using hw)]
      exact ih

theorem keepBlocks_of_groups (ids : List ℤ) {bs : List Block} (lead : List Str)
    {groups : List (Option ℤ × List Str)} (h : List.Forall₂ Groups bs groups) :
    ∃ kept, keepBlocks ids ((none, lead) :: groups) = .ok kept ∧
      Denotes kept
        (((wantedBlocks ids bs).flatMap fun b => b.base :: b.body).flatMap keepRecord) := by
  rw [keepBlocks, List.filter_cons_of_neg (by simp)]
  exact keepLines_of_denotes (denotes_flatMap_filter h)

/-! ## What is written -/

def plainData (t : UInt8) : Bool := t = dataType

theorem base_of_ne {r : Record} (h₂ : r.rtype ≠ extSegmentAddress)
    (h₄ : r.rtype ≠ extLinearAddress) (base : ℕ) : r.base base = base := by
  rw [Record.base, if_neg h₂, if_neg h₄]

theorem writes_keepRecord (r : Record) (rs : List Record) (base : ℕ) :
    writes plainData base (keepRecord r ++ rs) =
      (if carriesData r.rtype then r.writes base else []) ++ writes plainData (r.base base) rs := by
  unfold keepRecord
  by_cases hd : r.rtype = 0x0D
  · have hbase := base_of_ne (by rw [hd]; decide) (by rw [hd]; decide) base
    have hbase' : (Record.mk r.address 0 r.data).base base = base := rfl
    rw [if_pos hd, hbase, List.singleton_append, writes, hbase']
    simp [hd, carriesData, plainData, dataType, Record.writes]
  · rw [if_neg hd]
    by_cases hb : r.rtype ∈ [0x0B, 0x0C, 0x0E, 0x01]
    · have hnot : carriesData r.rtype = false ∧ r.rtype ≠ extSegmentAddress ∧
          r.rtype ≠ extLinearAddress := by
        simp only [List.mem_cons, List.not_mem_nil, or_false] at hb
        rcases hb with hb | hb | hb | hb <;> rw [hb] <;> decide
      rw [if_pos hb, hnot.1, base_of_ne hnot.2.1 hnot.2.2]
      rfl
    · have hsame : plainData r.rtype = carriesData r.rtype := by
        rw [plainData, carriesData, decide_eq_false hd, Bool.or_false]
        rfl
      rw [if_neg hb, List.singleton_append, writes, hsame]

/-- Dropping the bookkeeping records and retyping the data leaves what is written
as it is. -/
theorem writes_flatMap_keepRecord (rs : List Record) (base : ℕ) :
    writes plainData base (rs.flatMap keepRecord) = writes carriesData base rs := by
  induction rs generalizing base with
  | nil => rfl
  | cons r rs ih => rw [List.flatMap_cons, writes_keepRecord, ih, writes]

theorem Block.image_eq (b : Block) (base : ℕ) :
    b.image = writes carriesData base (b.base :: b.body) := by
  have hbase := base_of_ne (r := b.start) (by rw [b.start_type]; decide)
    (by rw [b.start_type]; decide)
  have hstart : carriesData b.start.rtype = false := by rw [b.start_type]; decide
  rw [Block.image, Block.records, writes_extLinear b.base_type rfl 0 base, writes, writes, writes,
    hbase, hstart]
  rfl

/-- Each block sets its own base, so the blocks write the same whatever stands
between them. -/
theorem writes_blocks (bs : List Block) (base : ℕ) :
    writes carriesData base (bs.flatMap fun b => b.base :: b.body) = bs.flatMap Block.image := by
  induction bs generalizing base with
  | nil => rfl
  | cons b bs ih => rw [List.flatMap_cons, List.flatMap_cons, writes_append, ih, b.image_eq base]

/-! ## The extraction -/

def eofRecord : Record := ⟨0, eofType, []⟩

theorem parse_eofLine : parse eofLine = some eofRecord := by decide

/-- The records of the output before its last line. -/
def keptRecords (ids : List ℤ) (f : File) : List Record :=
  ((wantedBlocks ids f.blocks).flatMap fun b => b.base :: b.body).flatMap keepRecord

theorem mem_keepRecord {r r' : Record} (h : r' ∈ keepRecord r) (hk : r.rtype ∈ knownTypes)
    (hs : r.rtype ≠ 0x0A) : r'.rtype ∈ [0, 2, 3, 4, 5] := by
  unfold keepRecord at h
  split at h
  · rw [List.mem_singleton.mp h]
    exact List.mem_cons_self
  · split at h
    · cases h
    next hd hb =>
      rw [List.mem_singleton.mp h]
      simp only [knownTypes, List.mem_cons, List.not_mem_nil, or_false] at hk hb ⊢
      tauto

theorem rtype_of_mem_keptRecords {ids : List ℤ} {f : File} (h : r ∈ keptRecords ids f) :
    r.rtype ∈ [0, 2, 3, 4, 5] := by
  obtain ⟨r', hr', hr⟩ := List.mem_flatMap.mp h
  obtain ⟨b, -, hb⟩ := List.mem_flatMap.mp hr'
  rcases List.mem_cons.mp hb with rfl | hb
  · exact mem_keepRecord hr (by rw [b.base_type]; decide) (by rw [b.base_type]; decide)
  · exact mem_keepRecord hr (b.body_plain r' hb).known (b.body_plain r' hb).noStart

theorem exists_data_keepRecord_iff (r : Record) :
    (∃ r' ∈ keepRecord r, r'.rtype = 0) ↔ carriesData r.rtype := by
  unfold keepRecord carriesData
  by_cases hd : r.rtype = 0x0D
  · simp [hd]
  · rw [if_neg hd]
    by_cases hb : r.rtype ∈ [0x0B, 0x0C, 0x0E, 0x01]
    · rw [if_pos hb]
      simp only [List.mem_cons, List.not_mem_nil, or_false] at hb
      rcases hb with hb | hb | hb | hb <;> simp [hb]
    · simp [hb, hd]

theorem exists_data_keptRecords_iff {ids : List ℤ} {f : File} :
    (∃ r ∈ keptRecords ids f, r.rtype = 0) ↔ ∃ b ∈ f.blocks, b.boardId ∈ ids ∧ b.hasData := by
  constructor
  · rintro ⟨r, hr, ht⟩
    obtain ⟨r', hr', hkeep⟩ := List.mem_flatMap.mp hr
    obtain ⟨b, hb, hmem⟩ := List.mem_flatMap.mp hr'
    have hdata := (exists_data_keepRecord_iff r').mp ⟨r, hkeep, ht⟩
    rw [wantedBlocks, List.mem_filter] at hb
    refine ⟨b, hb.1, by simpa using hb.2, r', ?_, hdata⟩
    rcases List.mem_cons.mp hmem with rfl | hmem
    · rw [b.base_type] at hdata
      cases hdata
    · exact hmem
  · rintro ⟨b, hb, hid, r, hr, hdata⟩
    obtain ⟨r', hr', ht⟩ := (exists_data_keepRecord_iff r).mpr hdata
    refine ⟨r', List.mem_flatMap.mpr ⟨r, List.mem_flatMap.mpr ⟨b, ?_, ?_⟩, hr'⟩, ht⟩
    · exact List.mem_filter.mpr ⟨hb, by simpa using hid⟩
    · exact List.mem_cons_of_mem _ hr

theorem any_data_iff (h : Denotes lines rs) :
    (lines.any fun line => recordType line = some data) ↔ ∃ r ∈ rs, r.rtype = 0 := by
  induction h with
  | nil => simp
  | cons hline _ ih =>
    have htype : recordType _ = some data ↔ _ := recordType_eq_iff hline 0
    simp only [List.any_cons, Bool.or_eq_true, ih, decide_eq_true_eq, htype,
      List.exists_mem_cons_iff]

theorem isLineBreak_of_parse (h : parse line = some r) : ∀ c ∈ line, isLineBreak c = false := by
  obtain ⟨cs, _, _, _, _, _, rfl, hcs, -⟩ := parse_eq_some h
  rw [List.forall_mem_cons]
  refine ⟨by decide, fun c hc => ?_⟩
  obtain ⟨n, hn⟩ := hexDigits_of_unhex hcs c hc
  exact isLineBreak_of_hexDigit hn

theorem lines_noBreak (h : Denotes lines rs) : ∀ l ∈ lines, ∀ c ∈ l, isLineBreak c = false := by
  induction h with
  | nil => simp
  | cons hline _ ih => exact List.forall_mem_cons.mpr ⟨isLineBreak_of_parse hline, ih⟩

/-- Lines that stand for records are what is read of a text they make up. -/
theorem nonblankLines_of_denotes (h : Denotes lines rs) :
    nonblankLines (lines.flatMap (· ++ ['\n'])) = lines := by
  rw [nonblankLines, splitlines_flatMap (lines_noBreak h)]
  induction h with
  | nil => rfl
  | @cons line r lines rs hline _ ih =>
    have hne : line ≠ [] := by
      rintro rfl
      cases hline
    rw [List.map_cons, strip_of_parse hline, List.filter_cons_of_pos (by simpa using hne), ih]

theorem splitlines_of_denotes (h : Denotes lines rs) (hne : lines ≠ []) :
    splitlines (['\n'].intercalate lines ++ ['\n']) = lines := by
  have hbreak := lines_noBreak h
  cases lines with
  | nil => exact absurd rfl hne
  | cons l ls => rw [intercalate_newline, splitlines_flatMap hbreak]

/-- What the extraction does on the lines of a well-formed file. -/
theorem extractForMcu_of_denotes {text mcu : Str} {f : File} {ids : List ℤ}
    (hids : boardIdsForMcu mcu = .ok ids) (h : Denotes (nonblankLines text) f.records) :
    ∃ kept found, Denotes kept (keptRecords ids f) ∧ extractForMcu text mcu =
      if ∃ b ∈ f.blocks, b.boardId ∈ ids ∧ b.hasData then
        .ok (['\n'].intercalate (kept ++ [eofLine]) ++ ['\n'])
      else .error (.noImage mcu found) := by
  obtain ⟨g', lead, groups, hg', hclose, hgroups⟩ := lines_file h
  obtain ⟨kept, hkept, hden⟩ := keepBlocks_of_groups ids lead hgroups
  refine ⟨kept, (g'.close.filterMap Prod.fst).dedup.mergeSort, hden, ?_⟩
  rw [extractForMcu, hids]
  simp only [hg']
  rw [hclose, hkept]
  simp only [any_data_iff hden]
  exact if_congr exists_data_keptRecords_iff rfl rfl

/-- For every well-formed Universal Hex and each target: what is extracted is an Intel
hex whose records read back, with one EOF record at its end; it writes, in their order,
the bytes the blocks of the target's boards write under their own bases; and there is
an error exactly when none of them has a data record, and no other error. A file
without a Block Start record is passed on as it is. -/
theorem extract_preserves_image (text mcu : Str) (f : File) (ids : List ℤ)
    (hids : boardIdsForMcu mcu = .ok ids) (h : Denotes (nonblankLines text) f.records) :
    (∀ out, extractForMcu text mcu = .ok out → ∃ rs, Denotes (splitlines out) (rs ++ [eofRecord]) ∧
      (∀ r ∈ rs, r.rtype ∈ [0, 2, 3, 4, 5]) ∧
      writes plainData 0 (rs ++ [eofRecord]) =
        (f.blocks.filter (·.boardId ∈ ids)).flatMap Block.image) ∧
    ((∃ e, extractForMcu text mcu = .error e) ↔
      ∀ b ∈ f.blocks, b.boardId ∈ ids → ¬ b.hasData) ∧
    (∀ e, extractForMcu text mcu = .error e → e.isUniversalHexError) ∧
    ∀ bytes, (∀ line ∈ splitlines (readAscii bytes), recordType line ≠ some blockStart) →
      normalizedHex (some bytes) mcu = .ok .given := by
  obtain ⟨kept, found, hden, hext⟩ := extractForMcu_of_denotes hids h
  rw [hext]
  refine ⟨?_, ?_, ?_, ?_⟩
  · intro out hout
    split at hout
    · cases hout
      have hall : Denotes (kept ++ [eofLine]) (keptRecords ids f ++ [eofRecord]) :=
        List.rel_append hden (.cons parse_eofLine .nil)
      refine ⟨keptRecords ids f, ?_, fun r => rtype_of_mem_keptRecords, ?_⟩
      · rw [splitlines_of_denotes hall (by simp)]
        exact hall
      · rw [writes_append, keptRecords, writes_flatMap_keepRecord, writes_blocks]
        simp [writes, plainData, dataType, eofRecord, eofType, wantedBlocks]
    · cases hout
  · split
    next hdata =>
      obtain ⟨b, hb, hid, hd⟩ := hdata
      refine ⟨?_, fun hnone => absurd hd (hnone b hb hid)⟩
      rintro ⟨e, he⟩
      cases he
    next hnone => exact ⟨fun _ b hb hid hd => hnone ⟨b, hb, hid, hd⟩, fun _ => ⟨_, rfl⟩⟩
  · intro e he
    split at he
    · cases he
    · cases he
      rfl
  · intro bytes hplain
    have hnot : isUniversalHex (readAscii bytes) = false := by
      rw [isUniversalHex, List.any_eq_false]
      exact fun line hline => by simpa using hplain line hline
    simp [normalizedHex, hnot]

def v1Block : Block where
  base := ⟨0, extLinearAddress, [0, 0]⟩
  start := ⟨0, 0x0A, [0x99, 0x00, 0xC0, 0xDE]⟩
  body := [⟨0, 0, [7]⟩]
  base_type := rfl
  start_type := rfl
  start_data := by decide
  body_plain r hr := by
    rw [List.mem_singleton.mp hr]
    exact ⟨by decide, by decide⟩

def v2Block : Block where
  base := ⟨0, extLinearAddress, [0, 1]⟩
  start := ⟨0, 0x0A, [0x99, 0x03, 0xC0, 0xDE]⟩
  body := [⟨16, 0x0D, [8, 9]⟩, eofRecord]
  base_type := rfl
  start_type := rfl
  start_data := by decide
  body_plain r hr := by
    simp only [List.mem_cons, List.not_mem_nil, or_false] at hr
    rcases hr with rfl | rfl <;> exact ⟨by decide, by decide⟩

def bothBoards : File := ⟨[], [v1Block, v2Block], by simp⟩

def bothBoardsLines : List Str :=
  [":020000040000FA", ":0400000A9900C0DEBB", ":0100000007F8", ":020000040001F9",
    ":0400000A9903C0DEB8", ":0200100D0809D0", ":00000001FF"].map String.toList

def bothBoardsText : Str := bothBoardsLines.flatMap (· ++ ['\n'])

theorem denotes_bothBoards : Denotes (nonblankLines bothBoardsText) bothBoards.records := by
  have h : Denotes bothBoardsLines bothBoards.records := by
    repeat' first | exact .nil | refine .cons (by decide) ?_
  exact (nonblankLines_of_denotes h).symm ▸ h

theorem extract_preserves_image_v2 : ∃ out rs,
    extractForMcu bothBoardsText "nrf52833".toList = .ok out ∧
      Denotes (splitlines out) (rs ++ [eofRecord]) ∧
      writes plainData 0 (rs ++ [eofRecord]) = [(65552, 8), (65553, 9)] := by
  obtain ⟨hok, herr, -⟩ := extract_preserves_image bothBoardsText "nrf52833".toList bothBoards
    v2BoardIds (by decide) denotes_bothBoards
  cases hout : extractForMcu bothBoardsText "nrf52833".toList with
  | error e =>
    have hnone := herr.mp ⟨e, hout⟩
    exact absurd (by decide) (hnone v2Block (by simp [bothBoards]) (by decide))
  | ok out =>
    obtain ⟨rs, hden, -, hwrites⟩ := hok out hout
    exact ⟨out, rs, rfl, hden, hwrites.trans (by decide)⟩

end MbTools.UniversalHex
