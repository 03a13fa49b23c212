import Mathlib.Data.Int.Notation
import Mathlib.Data.List.Basic
import MbTools.Lib.Bytes
import Mathlib.Tactic.Common

/-! # Lines, numbers and bytes written as text

Texts are lists of characters. The functions are the ones a Python program calls:
`str.splitlines`, `str.strip`, `int(text, 16)`, `bytes.fromhex` and `bytes.hex`.
-/

namespace MbTools.Text

abbrev Str := List Char

def isLineBreak (c : Char) : Bool :=
  c.toNat ∈ [0x0A, 0x0B, 0x0C, 0x0D, 0x1C, 0x1D, 0x1E, 0x85, 0x2028, 0x2029]

/-- `acc` is the line so far, last character first. -/
def splitlinesFrom (acc : Str) : Str → List Str
  | [] => if acc = [] then [] else [acc.reverse]
  | '\r' :: '\n' :: cs => acc.reverse :: splitlinesFrom [] cs
  | c :: cs =>
    if isLineBreak c then acc.reverse :: splitlinesFrom [] cs else splitlinesFrom (c :: acc) cs

def splitlines (text : Str) : List Str := splitlinesFrom [] text

/-- `str.isspace` for the characters below 256 and the spaces above. -/
def isSpace (c : Char) : Bool :=
  let n := c.toNat
  (0x09 ≤ n && n ≤ 0x0D) || (0x1C ≤ n && n ≤ 0x20) || n = 0x85 || n = 0xA0 || n = 0x1680 ||
    (0x2000 ≤ n && n ≤ 0x200A) || n ∈ [0x2028, 0x2029, 0x202F, 0x205F, 0x3000]

def trim (p : Char → Bool) (text : Str) : Str :=
  ((text.dropWhile p).reverse.dropWhile p).reverse

def strip (text : Str) : Str := trim isSpace text

/-- The blanks that `int` and `fromhex` skip. -/
def isBlank (c : Char) : Bool := (0x09 ≤ c.toNat && c.toNat ≤ 0x0D) || c = ' '

def hexDigit (c : Char) : Option ℕ :=
  let n := c.toNat
  if 48 ≤ n ∧ n ≤ 57 then some (n - 48)
  else if 97 ≤ n ∧ n ≤ 102 then some (n - 87)
  else if 65 ≤ n ∧ n ≤ 70 then some (n - 55)
  else none

/-- Digits with single underscores between them; `digit` says that one came last. -/
def intDigits (digit : Bool) (n : ℕ) : Str → Option ℕ
  | [] => if digit then some n else none
  | '_' :: cs => if digit then intDigits false n cs else none
  | c :: cs =>
    match hexDigit c with
    | none => none
    | some d => intDigits true (16 * n + d) cs

def intPrefixed : Str → Option ℕ
  | '0' :: 'x' :: '_' :: cs | '0' :: 'X' :: '_' :: cs => intDigits false 0 cs
  | '0' :: 'x' :: cs | '0' :: 'X' :: cs => intDigits false 0 cs
  | cs => intDigits false 0 cs

/-- `int(text, 16)`, `none` where it raises `ValueError`. -/
def int16 (text : Str) : Option ℤ :=
  match trim isBlank text with
  | '+' :: cs => (intPrefixed cs).map Int.ofNat
  | '-' :: cs => (intPrefixed cs).map fun n => -Int.ofNat n
  | cs => (intPrefixed cs).map Int.ofNat

/-- `bytes.fromhex`: blanks may stand between two bytes. -/
def fromhex : Str → Option (List UInt8)
  | [] => some []
  | c :: cs =>
    if isBlank c then fromhex cs
    else
      match cs with
      | [] => none
      | d :: cs =>
        match hexDigit c, hexDigit d with
        | some x, some y => (fromhex cs).map (UInt8.ofNat (16 * x + y) :: ·)
        | _, _ => none

/-- Two hexadecimal digits for each byte and nothing else. -/
def unhex : Str → Option (List UInt8)
  | [] => some []
  | [_] => none
  | c :: d :: cs =>
    match hexDigit c, hexDigit d with
    | some x, some y => (unhex cs).map (UInt8.ofNat (16 * x + y) :: ·)
    | _, _ => none

def upperDigit (n : ℕ) : Char := if n < 10 then Char.ofNat (48 + n) else Char.ofNat (55 + n)

/-- `f"{b:02X}"` -/
def byteHex (b : UInt8) : Str := [upperDigit (b.toNat / 16), upperDigit (b.toNat % 16)]

/-- `bytes.hex().upper()` -/
def upperHex (bs : List UInt8) : Str := bs.flatMap byteHex

theorem trim_of_forall {p : Char → Bool} {text : Str} (h : ∀ c ∈ text, p c = false) :
    trim p text = text := by
  have hdrop : ∀ t : Str, (∀ c ∈ t, p c = false) → t.dropWhile p = t := by
    intro t ht
    cases t with
    | nil => rfl
    | cons c t => exact List.dropWhile_cons_of_neg (by simp [ht c])
  rw [trim, hdrop text h, hdrop text.reverse fun c hc => h c (List.mem_reverse.mp hc),
    List.reverse_reverse]

/-! ## Hexadecimal digits -/

open Bytes

variable {c : Char} {cs : Str} {n : ℕ} {bs : List UInt8}

theorem hexDigit_eq_some (h : hexDigit c = some n) :
    n < 16 ∧ (48 ≤ c.toNat ∧ c.toNat ≤ 57 ∨ 97 ≤ c.toNat ∧ c.toNat ≤ 102 ∨
      65 ≤ c.toNat ∧ c.toNat ≤ 70) := by
  simp only [hexDigit] at h
  split at h
  · cases h
    omega
  · split at h
    · cases h
      omega
    · split at h <;> cases h
      omega

theorem isBlank_of_hexDigit (h : hexDigit c = some n) : isBlank c = false := by
  obtain ⟨-, hc⟩ := hexDigit_eq_some h
  have hne : c ≠ ' ' := by
    rintro rfl
    revert hc
    decide
  simp only [isBlank, Bool.or_eq_false_iff, Bool.and_eq_false_iff, decide_eq_false_iff_not, hne,
    not_false_eq_true, and_true]
  omega

theorem isSpace_of_hexDigit (h : hexDigit c = some n) : isSpace c = false := by
  obtain ⟨-, hc⟩ := hexDigit_eq_some h
  simp only [isSpace, List.mem_cons, List.not_mem_nil, or_false, Bool.or_eq_false_iff,
    Bool.and_eq_false_iff, decide_eq_false_iff_not]
  omega

theorem isLineBreak_of_hexDigit (h : hexDigit c = some n) : isLineBreak c = false := by
  obtain ⟨-, hc⟩ := hexDigit_eq_some h
  simp only [isLineBreak, List.mem_cons, List.not_mem_nil, or_false, decide_eq_false_iff_not]
  omega

theorem hexDigit_upperDigit (h : n < 16) : hexDigit (upperDigit n) = some n := by
  revert n
  decide

/-! ## Pairs of digits -/

theorem unhex_eq_cons {b : UInt8} (h : unhex cs = some (b :: bs)) :
    ∃ c d ds x y, cs = c :: d :: ds ∧ hexDigit c = some x ∧ hexDigit d = some y ∧
      b = UInt8.ofNat (16 * x + y) ∧ unhex ds = some bs := by
  match cs with
  | [] => cases h
  | [_] => cases h
  | c :: d :: ds =>
    rw [unhex] at h
    split at h
    next x y hx hy =>
      simp only [Option.map_eq_some_iff, List.cons.injEq] at h
      obtain ⟨bs', hbs, hb, rfl⟩ := h
      exact ⟨c, d, ds, x, y, rfl, hx, hy, hb.symm, hbs⟩
    next => cases h

theorem eq_nil_of_unhex (h : unhex cs = some []) : cs = [] := by
  match cs with
  | [] => rfl
  | [_] => cases h
  | c :: d :: ds =>
    rw [unhex] at h
    split at h
    · simp at h
    · cases h

theorem unhex_cons_cons {d : Char} {x y : ℕ} (hx : hexDigit c = some x) (hy : hexDigit d = some y)
    (h : unhex cs = some bs) : unhex (c :: d :: cs) = some (UInt8.ofNat (16 * x + y) :: bs) := by
  rw [unhex, hx, hy, h]
  rfl

theorem length_of_unhex (h : unhex cs = some bs) : cs.length = 2 * bs.length := by
  induction bs generalizing cs with
  | nil => rw [eq_nil_of_unhex h]; rfl
  | cons b bs ih =>
    obtain ⟨c, d, ds, x, y, rfl, -, -, -, hds⟩ := unhex_eq_cons h
    rw [List.length_cons, List.length_cons, List.length_cons, ih hds]
    omega

theorem unhex_drop (h : unhex cs = some bs) (k : ℕ) :
    unhex (cs.drop (2 * k)) = some (bs.drop k) := by
  induction k generalizing cs bs with
  | zero => exact h
  | succ k ih =>
    cases bs with
    | nil => simp [eq_nil_of_unhex h, unhex]
    | cons b bs =>
      obtain ⟨c, d, ds, x, y, rfl, -, -, -, hds⟩ := unhex_eq_cons h
      exact ih hds

theorem unhex_take (h : unhex cs = some bs) (k : ℕ) :
    unhex (cs.take (2 * k)) = some (bs.take k) := by
  induction k generalizing cs bs with
  | zero => simp [unhex]
  | succ k ih =>
    cases bs with
    | nil => simp [eq_nil_of_unhex h, unhex]
    | cons b bs =>
      obtain ⟨c, d, ds, x, y, rfl, hx, hy, rfl, hds⟩ := unhex_eq_cons h
      exact unhex_cons_cons hx hy (ih hds)

theorem unhex_upperHex (bs : List UInt8) : unhex (upperHex bs) = some bs := by
  induction bs with
  | nil => rfl
  | cons b bs ih =>
    have hb : b.toNat < 256 := b.toNat_lt
    have h := unhex_cons_cons (hexDigit_upperDigit (n := b.toNat / 16) (by omega))
      (hexDigit_upperDigit (n := b.toNat % 16) (by omega)) ih
    rw [Nat.div_add_mod, UInt8.ofNat_toNat] at h
    exact h

theorem hexDigits_of_unhex (h : unhex cs = some bs) : ∀ c ∈ cs, ∃ n, hexDigit c = some n := by
  induction bs generalizing cs with
  | nil => simp [eq_nil_of_unhex h]
  | cons b bs ih =>
    obtain ⟨c, d, ds, x, y, rfl, hx, hy, -, hds⟩ := unhex_eq_cons h
    rw [List.forall_mem_cons, List.forall_mem_cons]
    exact ⟨⟨x, hx⟩, ⟨y, hy⟩, ih hds⟩

theorem fromhex_of_unhex (h : unhex cs = some bs) : fromhex cs = some bs := by
  induction bs generalizing cs with
  | nil => rw [eq_nil_of_unhex h]; rfl
  | cons b bs ih =>
    obtain ⟨c, d, ds, x, y, rfl, hx, hy, rfl, hds⟩ := unhex_eq_cons h
    rw [fromhex, isBlank_of_hexDigit hx]
    simp [hx, hy, ih hds]

/-! ## Numbers -/

theorem ne_of_hexDigit {d : Char} (h : hexDigit c = some n) (hd : hexDigit d = none) : c ≠ d := by
  rintro rfl
  rw [h] at hd
  cases hd

theorem intDigits_cons {digit : Bool} {m : ℕ} (h : hexDigit c = some n) :
    intDigits digit m (c :: cs) = intDigits true (16 * m + n) cs := by
  have hc : c ≠ '_' := ne_of_hexDigit h rfl
  rw [intDigits.eq_def]
  split
  next heq => cases heq
  next heq => exact absurd (List.cons.inj heq).1 hc
  next heq =>
    obtain ⟨rfl, rfl⟩ := List.cons.inj heq
    rw [h]

theorem intDigits_of_unhex {digit : Bool} (h : unhex cs = some bs) (hd : digit = true ∨ bs ≠ []) :
    intDigits digit n cs = some (n * 256 ^ bs.length + fromBytesBig bs) := by
  induction bs generalizing cs n digit with
  | nil =>
    obtain rfl := eq_nil_of_unhex h
    obtain rfl := hd.resolve_right (by simp)
    simp [intDigits, fromBytesBig]
  | cons b bs ih =>
    obtain ⟨c, d, ds, x, y, rfl, hx, hy, rfl, hds⟩ := unhex_eq_cons h
    have hlt : 16 * x + y < 256 := by
      have := (hexDigit_eq_some hx).1
      have := (hexDigit_eq_some hy).1
      omega
    rw [intDigits_cons hx, intDigits_cons hy, ih hds (.inl rfl), fromBytesBig,
      UInt8.toNat_ofNat_of_lt' hlt, List.length_cons, Nat.pow_succ]
    congr 1
    ring

theorem intPrefixed_of_unhex (h : unhex cs = some bs) (hne : bs ≠ []) :
    intPrefixed cs = some (fromBytesBig bs) := by
  have hx := hexDigits_of_unhex h
  have hdigits : intDigits false 0 cs = _ := intDigits_of_unhex h (.inr hne)
  rw [Nat.zero_mul, Nat.zero_add] at hdigits
  unfold intPrefixed
  split
  case h_5 => exact hdigits
  all_goals
    obtain ⟨n, hn⟩ := hx _ (List.mem_cons_of_mem _ List.mem_cons_self)
    cases hn

/-- Plain digits are read as the number their bytes make. -/
theorem int16_of_unhex (h : unhex cs = some bs) (hne : bs ≠ []) :
    int16 cs = some (Int.ofNat (fromBytesBig bs)) := by
  have hx := hexDigits_of_unhex h
  rw [int16, trim_of_forall fun c hc => (hx c hc).elim fun n => isBlank_of_hexDigit]
  split
  case h_3 => rw [intPrefixed_of_unhex h hne]; rfl
  all_goals
    obtain ⟨n, hn⟩ := hx _ List.mem_cons_self
    cases hn

theorem strip_of_unhex (h : unhex cs = some bs) : strip (':' :: cs) = ':' :: cs := by
  refine trim_of_forall fun c hc => ?_
  rcases List.mem_cons.mp hc with rfl | hc
  · decide
  · obtain ⟨n, hn⟩ := hexDigits_of_unhex h c hc
    exact isSpace_of_hexDigit hn

/-! ## Lines -/

theorem splitlinesFrom_line {acc line : Str} (h : ∀ c ∈ line, isLineBreak c = false) :
    splitlinesFrom acc (line ++ '\n' :: cs) = (acc.reverse ++ line) :: splitlinesFrom [] cs := by
  induction line generalizing acc with
  | nil => simp [splitlinesFrom, isLineBreak]
  | cons c line ih =>
    rw [List.forall_mem_cons] at h
    have hstep : splitlinesFrom acc (c :: (line ++ '\n' :: cs)) =
        splitlinesFrom (c :: acc) (line ++ '\n' :: cs) := by
      rw [splitlinesFrom.eq_def]
      split
      next heq => cases heq
      next heq =>
        obtain ⟨rfl, -⟩ := List.cons.inj heq
        cases h.1
      next heq =>
        obtain ⟨rfl, rfl⟩ := List.cons.inj heq
        rw [if_neg (by simp [h.1])]
    rw [List.cons_append, hstep, ih h.2, List.reverse_cons, List.append_assoc,
      List.singleton_append]

/-- Lines written one after the other are split again where they end. -/
theorem splitlines_flatMap {ls : List Str} (h : ∀ l ∈ ls, ∀ c ∈ l, isLineBreak c = false) :
    splitlines (ls.flatMap (· ++ ['\n'])) = ls := by
  induction ls with
  | nil => rfl
  | cons l ls ih =>
    rw [List.forall_mem_cons] at h
    rw [splitlines, List.flatMap_cons, List.append_assoc, List.singleton_append,
      splitlinesFrom_line h.1]
    exact congrArg (l :: ·) (ih h.2)

theorem intercalate_newline (l : Str) (ls : List Str) :
    ['\n'].intercalate (l :: ls) ++ ['\n'] = (l :: ls).flatMap (· ++ ['\n']) := by
  induction ls generalizing l with
  | nil => simp [List.intercalate]
  | cons m ls ih =>
    rw [List.flatMap_cons, ← ih]
    simp [List.intercalate]

end MbTools.Text
