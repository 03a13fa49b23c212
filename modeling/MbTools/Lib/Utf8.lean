import Mathlib.Tactic.Ring
import MbTools.Lib.Lines

/-! # Decoding UTF-8 with an error handler

Bytes that make no character are handed to a handler: each first byte with the bytes
that go on from it, as far as they do, is one error. An ASCII byte always stands for
itself, so that it cuts a text where it cuts the bytes.
-/

namespace MbTools.Utf8

open Lines

/-- A character begun: how many bytes are to come after the next one, where the next one
has to lie, and the bits so far. It will be no ASCII character. -/
structure Begun where
  left : ℕ
  lo : UInt8
  hi : UInt8
  bits : ℕ
  lo_ge : 128 ≤ lo.toNat
  hi_le : hi.toNat ≤ 191
  big : 128 ≤ (64 * bits + lo.toNat % 64) * 64 ^ left

def leadBits (b : UInt8) : ℕ :=
  if b < 0xE0 then b.toNat % 32 else if b < 0xF0 then b.toNat % 16 else b.toNat % 8

theorem begun_of_utf8Lead : ∀ b : UInt8, ∀ n lo hi, utf8Lead b = some (n + 1, lo, hi) →
    128 ≤ lo.toNat ∧ hi.toNat ≤ 191 ∧ 128 ≤ (64 * leadBits b + lo.toNat % 64) * 64 ^ n := by
  intro b n lo hi h
  have hall : ∀ b : Fin 256, ((utf8Lead (UInt8.ofNat b)).all fun (n, lo, hi) =>
      n = 0 || 128 ≤ lo.toNat && hi.toNat ≤ 191 &&
        128 ≤ (64 * leadBits (UInt8.ofNat b) + lo.toNat % 64) * 64 ^ (n - 1)) = true := by
    decide +kernel
  have hb := hall ⟨b.toNat, b.toNat_lt⟩
  rw [UInt8.ofNat_toNat, h] at hb
  simpa [and_assoc] using hb

/-- A byte that stands where a character begins. -/
def lead (onError : List Char) (b : UInt8) : List Char × Option Begun :=
  match h : utf8Lead b with
  | none => (onError, none)
  | some (0, _, _) => ([Char.ofNat b.toNat], none)
  | some (n + 1, lo, hi) =>
    have hb := begun_of_utf8Lead b n lo hi h
    ([], some ⟨n, lo, hi, leadBits b, hb.1, hb.2.1, hb.2.2⟩)

theorem Begun.next_big (c : Begun) {b : UInt8} (h : c.lo ≤ b ∧ b ≤ c.hi) :
    128 ≤ (64 * c.bits + b.toNat % 64) * 64 ^ c.left := by
  have hlo := UInt8.le_iff_toNat_le.mp h.1
  have hhi := UInt8.le_iff_toNat_le.mp h.2
  have := c.lo_ge
  have := c.hi_le
  have hle : 64 * c.bits + c.lo.toNat % 64 ≤ 64 * c.bits + b.toNat % 64 := by omega
  exact Nat.le_trans c.big (Nat.mul_le_mul_right _ hle)

theorem Begun.next_big_succ (c : Begun) {b : UInt8} {n : ℕ} (h : c.lo ≤ b ∧ b ≤ c.hi)
    (hl : c.left = n + 1) :
    128 ≤ (64 * (64 * c.bits + b.toNat % 64) + (0x80 : UInt8).toNat % 64) * 64 ^ n := by
  have hbig := c.next_big h
  rw [hl, Nat.pow_succ] at hbig
  have hzero : (0x80 : UInt8).toNat % 64 = 0 := rfl
  rw [hzero, Nat.add_zero]
  calc 128 ≤ (64 * c.bits + b.toNat % 64) * (64 ^ n * 64) := hbig
    _ = 64 * (64 * c.bits + b.toNat % 64) * 64 ^ n := by ring

/-- The next byte: the characters that are over with it, and the one it goes on with. -/
def feed (onError : List Char) : Option Begun → UInt8 → List Char × Option Begun
  | none, b => lead onError b
  | some c, b =>
    if h : c.lo ≤ b ∧ b ≤ c.hi then
      match hl : c.left with
      | 0 => ([Char.ofNat (64 * c.bits + b.toNat % 64)], none)
      | n + 1 =>
        ([], some ⟨n, 0x80, 0xBF, 64 * c.bits + b.toNat % 64, by decide, by decide,
          c.next_big_succ h hl⟩)
    else (onError ++ (lead onError b).1, (lead onError b).2)

/-- A character that is begun at the end is an error. -/
def finish (onError : List Char) : Option Begun → List Char
  | none => []
  | some _ => onError

def decodeFrom (onError : List Char) : Option Begun → List UInt8 → List Char
  | c, [] => finish onError c
  | c, b :: bs => (feed onError c b).1 ++ decodeFrom onError (feed onError c b).2 bs

/-- `bytes.decode("utf-8", errors)`. -/
def decode (onError : List Char) (bs : List UInt8) : List Char := decodeFrom onError none bs

/-- What the handler `replace` puts for an error. -/
def replace : List Char := ['\uFFFD']

/-- What the handler `ignore` puts for an error. -/
def ignore : List Char := []

variable {onError : List Char} {b : UInt8} {bs : List UInt8} {c : Char}

theorem lead_ascii (h : b.toNat < 128) : lead onError b = ([Char.ofNat b.toNat], none) := by
  have hlead : utf8Lead b = some (0, 0x80, 0xBF) := if_pos (UInt8.lt_iff_toNat_lt.mpr h)
  rw [lead]
  split
  · simp_all
  · rfl
  · simp_all

theorem feed_ascii (p : Option Begun) (h : b.toNat < 128) :
    feed onError p b = (finish onError p ++ [Char.ofNat b.toNat], none) := by
  cases p with
  | none => exact lead_ascii h
  | some p =>
    have hlo : ¬ (p.lo ≤ b ∧ b ≤ p.hi) := by
      rintro ⟨hle, -⟩
      have := UInt8.le_iff_toNat_le.mp hle
      have := p.lo_ge
      omega
    rw [feed, dif_neg hlo, lead_ascii h]
    rfl

theorem decodeFrom_append_ascii (p : Option Begun) (xs : List UInt8) (h : b.toNat < 128) :
    decodeFrom onError p (xs ++ b :: bs) =
      decodeFrom onError p xs ++ Char.ofNat b.toNat :: decode onError bs := by
  induction xs generalizing p with
  | nil =>
    have hstep : decodeFrom onError p (b :: bs) =
        (feed onError p b).1 ++ decodeFrom onError (feed onError p b).2 bs := rfl
    rw [List.nil_append, hstep, feed_ascii p h, List.append_assoc]
    cases p <;> rfl
  | cons x xs ih => rw [List.cons_append, decodeFrom, decodeFrom, ih, List.append_assoc]

theorem decode_append_ascii (xs : List UInt8) (h : b.toNat < 128) :
    decode onError (xs ++ b :: bs) =
      decode onError xs ++ Char.ofNat b.toNat :: decode onError bs :=
  decodeFrom_append_ascii none xs h

theorem decode_append_of_ascii (xs : List UInt8) (h : ∀ b ∈ bs, b.toNat < 128) :
    decode onError (xs ++ bs) = decode onError xs ++ bs.map fun b => Char.ofNat b.toNat := by
  induction bs generalizing xs with
  | nil => rw [List.append_nil, List.map_nil, List.append_nil]
  | cons b bs ih =>
    rw [List.forall_mem_cons] at h
    rw [decode_append_ascii xs h.1, List.map_cons]
    have hrest := ih [] h.2
    rw [List.nil_append] at hrest
    rw [hrest]
    rfl

theorem decode_of_ascii_append (xs : List UInt8) (h : ∀ b ∈ xs, b.toNat < 128) :
    decode onError (xs ++ bs) = xs.map (fun b => Char.ofNat b.toNat) ++ decode onError bs := by
  induction xs with
  | nil => rfl
  | cons x xs ih =>
    rw [List.forall_mem_cons] at h
    have hx := @decode_append_ascii onError x (xs ++ bs) [] h.1
    rw [List.nil_append] at hx
    rw [List.cons_append, hx, ih h.2]
    rfl

theorem toNat_ofNat_le (n : ℕ) : (Char.ofNat n).toNat = n ∨ (Char.ofNat n).toNat = 0 := by
  by_cases h : n.isValidChar
  · rw [Char.ofNat, dif_pos h]
    exact .inl rfl
  · rw [Char.ofNat, dif_neg h]
    exact .inr rfl

theorem mem_lead (hOn : ∀ c ∈ onError, 128 ≤ c.toNat) (hc : c ∈ (lead onError b).1)
    (hlt : c.toNat < 128) (hpos : c.toNat ≠ 0) : b.toNat = c.toNat := by
  rw [lead] at hc
  split at hc
  · have := hOn c hc
    omega
  · rw [List.mem_singleton] at hc
    subst hc
    rcases toNat_ofNat_le b.toNat with h | h
    · exact h.symm
    · exact absurd h hpos
  · cases hc

theorem mem_feed (hOn : ∀ c ∈ onError, 128 ≤ c.toNat) {p : Option Begun}
    (hc : c ∈ (feed onError p b).1) (hlt : c.toNat < 128) (hpos : c.toNat ≠ 0) :
    b.toNat = c.toNat := by
  cases p with
  | none => exact mem_lead hOn hc hlt hpos
  | some p =>
    rw [feed] at hc
    split at hc
    · rename_i h
      have hbig := p.next_big h
      split at hc
      · rename_i hl
        rw [hl, Nat.pow_zero, Nat.mul_one] at hbig
        rw [List.mem_singleton] at hc
        subst hc
        rcases toNat_ofNat_le (64 * p.bits + b.toNat % 64) with h | h
        · omega
        · exact absurd h hpos
      · cases hc
    · rcases List.mem_append.mp hc with hc | hc
      · have := hOn c hc
        omega
      · exact mem_lead hOn hc hlt hpos

theorem mem_decodeFrom (hOn : ∀ c ∈ onError, 128 ≤ c.toNat) {p : Option Begun}
    (hc : c ∈ decodeFrom onError p bs) (hlt : c.toNat < 128) (hpos : c.toNat ≠ 0) :
    ∃ b ∈ bs, b.toNat = c.toNat := by
  induction bs generalizing p with
  | nil =>
    cases p with
    | none => cases hc
    | some p =>
      have := hOn c hc
      omega
  | cons b bs ih =>
    rcases List.mem_append.mp hc with hc | hc
    · exact ⟨b, List.mem_cons_self, mem_feed hOn hc hlt hpos⟩
    · obtain ⟨b', hb', he⟩ := ih hc
      exact ⟨b', List.mem_cons_of_mem _ hb', he⟩

/-- An ASCII character of the text is a byte, if the handler puts none. -/
theorem mem_decode (hOn : ∀ c ∈ onError, 128 ≤ c.toNat) (hc : c ∈ decode onError bs)
    (hlt : c.toNat < 128) (hpos : c.toNat ≠ 0) : ∃ b ∈ bs, b.toNat = c.toNat :=
  mem_decodeFrom hOn hc hlt hpos

theorem decodeFrom_some_ne_nil (hOn : onError ≠ []) (p : Begun) (bs : List UInt8) :
    decodeFrom onError (some p) bs ≠ [] := by
  induction bs generalizing p with
  | nil => exact hOn
  | cons b bs ih =>
    rw [decodeFrom, feed]
    split
    · split
      · exact List.cons_ne_nil _ _
      · exact ih _
    · simp [hOn]

/-- A handler that puts something leaves no bytes without a text. -/
theorem decode_ne_nil (hOn : onError ≠ []) (h : bs ≠ []) : decode onError bs ≠ [] := by
  cases bs with
  | nil => exact absurd rfl h
  | cons b bs =>
    rw [decode, decodeFrom, feed, lead]
    split
    · simp [hOn]
    · simp
    · exact decodeFrom_some_ne_nil hOn _ bs

/-- The character that is begun after these bytes. -/
def begunAfter (onError : List Char) : Option Begun → List UInt8 → Option Begun
  | p, [] => p
  | p, b :: bs => begunAfter onError (feed onError p b).2 bs

theorem decodeFrom_append {p : Option Begun} {xs : List UInt8}
    (h : begunAfter onError p xs = none) :
    decodeFrom onError p (xs ++ bs) = decodeFrom onError p xs ++ decode onError bs := by
  induction xs generalizing p with
  | nil =>
    obtain rfl : p = none := h
    rfl
  | cons x xs ih => rw [List.cons_append, decodeFrom, decodeFrom, ih h, List.append_assoc]

theorem flatMap_decode {pieces : List (List UInt8)}
    (h : ∀ xs ∈ pieces, begunAfter onError none xs = none) :
    pieces.flatMap (decode onError) = decode onError pieces.flatten := by
  induction pieces with
  | nil => rfl
  | cons xs pieces ih =>
    rw [List.forall_mem_cons] at h
    rw [List.flatMap_cons, List.flatten_cons, ih h.2]
    exact (decodeFrom_append h.1).symm

end MbTools.Utf8
