import Mathlib.Data.List.SplitBy
import MbTools.Lib.Text
import MbTools.Lib.Utf8
import MbTools.Lib.Utf8Lines

/-! # Percent-encoding

A text is escaped byte by byte of its UTF-8, and read back run by run of its ASCII characters. What
is escaped comes back whichever of the plain characters are left as they are.
-/

namespace MbTools

namespace Utf8

open Lines

variable {onError : List Char} {b : UInt8} {bs follow : List UInt8} {c : Char}

/-- Bytes that go on with a character. -/
def IsFollow (lo hi : UInt8) : List UInt8 → Prop
  | [] => True
  | b :: bs => lo ≤ b ∧ b ≤ hi ∧ IsFollow 0x80 0xBF bs

/-- The bits of a character, after the bytes that go on with it. -/
def bitsOf (bits : ℕ) (follow : List UInt8) : ℕ :=
  follow.foldl (fun bits b => 64 * bits + b.toNat % 64) bits

theorem decodeFrom_follow {p : Begun} (hl : follow.length = p.left + 1)
    (hf : IsFollow p.lo p.hi follow) : decodeFrom onError (some p) (follow ++ bs) =
      Char.ofNat (bitsOf p.bits follow) :: decodeFrom onError none bs := by
  induction follow generalizing p with
  | nil => simp at hl
  | cons b follow ih =>
    obtain ⟨hlo, hhi, hrest⟩ := hf
    rw [List.cons_append, decodeFrom, feed, dif_pos ⟨hlo, hhi⟩]
    split
    · rename_i hleft
      obtain rfl : follow = [] := by simpa [hleft] using hl
      rfl
    · rename_i n hleft
      exact ih (by simpa [hleft] using hl) hrest

theorem decodeFrom_lead {n : ℕ} {lo hi : UInt8} (hlead : utf8Lead b = some (n + 1, lo, hi))
    (hl : follow.length = n + 1) (hf : IsFollow lo hi follow) :
    decodeFrom onError none (b :: (follow ++ bs)) =
      Char.ofNat (bitsOf (leadBits b) follow) :: decodeFrom onError none bs := by
  rw [decodeFrom, feed, lead]
  split
  · simp_all
  · simp_all
  · rename_i n' lo' hi' hlead'
    obtain ⟨rfl, rfl, rfl⟩ : n' = n ∧ lo' = lo ∧ hi' = hi := by
      rw [hlead] at hlead'
      simpa [eq_comm] using hlead'
    exact decodeFrom_follow hl hf

theorem toNat_follow (k : ℕ) : (UInt8.ofNat (k % 64 + 128)).toNat = k % 64 + 128 := by
  have hlt : k % 64 < 64 := Nat.mod_lt _ (by decide)
  rw [UInt8.toNat_ofNat']
  exact Nat.mod_eq_of_lt (by omega)

theorem isFollow_cons {k : ℕ} {lo hi : UInt8} (hlo : lo.toNat ≤ k % 64 + 128)
    (hhi : k % 64 + 128 ≤ hi.toNat) (hf : IsFollow 0x80 0xBF follow) :
    IsFollow lo hi (UInt8.ofNat (k % 64 + 128) :: follow) := by
  refine ⟨UInt8.le_iff_toNat_le.mpr ?_, UInt8.le_iff_toNat_le.mpr ?_, hf⟩
  · rwa [toNat_follow]
  · rwa [toNat_follow]

theorem isFollow_any {k : ℕ} (hf : IsFollow 0x80 0xBF follow) :
    IsFollow 0x80 0xBF (UInt8.ofNat (k % 64 + 128) :: follow) := by
  have hlt : k % 64 < 64 := Nat.mod_lt _ (by decide)
  exact isFollow_cons (Nat.le_add_left 128 _) (Nat.add_le_add_right (Nat.le_of_lt_succ hlt) 128) hf

theorem bitsOf_cons (bits k : ℕ) (follow : List UInt8) :
    bitsOf bits (UInt8.ofNat (k % 64 + 128) :: follow) = bitsOf (64 * bits + k % 64) follow := by
  have hmod : (k % 64 + 128) % 64 = k % 64 := by omega
  rw [bitsOf, List.foldl_cons, toNat_follow, hmod]
  rfl

/-- The first bytes of characters of two, three and four bytes. -/
theorem utf8Lead_two : ∀ k < 30, utf8Lead (UInt8.ofNat (k + 2 + 192)) = some (1, 0x80, 0xBF) ∧
    leadBits (UInt8.ofNat (k + 2 + 192)) = k + 2 := by
  decide

theorem utf8Lead_three : ∀ k < 16, utf8Lead (UInt8.ofNat (k + 224)) =
      some (2, if k = 0 then 0xA0 else 0x80, if k = 13 then 0x9F else 0xBF) ∧
    leadBits (UInt8.ofNat (k + 224)) = k := by
  decide

theorem utf8Lead_four : ∀ k < 5, utf8Lead (UInt8.ofNat (k + 240)) =
      some (3, if k = 0 then 0x90 else 0x80, if k = 4 then 0x8F else 0xBF) ∧
    leadBits (UInt8.ofNat (k + 240)) = k := by
  decide

theorem decodeFrom_utf8EncodeChar (c : Char) (bs : List UInt8) :
    decodeFrom onError none (String.utf8EncodeChar c ++ bs) = c :: decodeFrom onError none bs := by
  have hvalid : c.val.toNat < 55296 ∨ 57343 < c.val.toNat ∧ c.val.toNat < 1114112 := c.valid
  have hchar : Char.ofNat c.val.toNat = c := Char.ofNat_toNat c
  rw [String.utf8EncodeChar]
  generalize c.val.toNat = v at hvalid hchar
  split
  · have hnat : (UInt8.ofNat v).toNat = v := by
      rw [UInt8.toNat_ofNat']
      exact Nat.mod_eq_of_lt (by omega)
    rw [List.singleton_append, decodeFrom, feed, lead_ascii (by omega), hnat, hchar]
    rfl
  · split
    · obtain ⟨k, hk⟩ : ∃ k, v / 64 = k + 2 := ⟨v / 64 - 2, by omega⟩
      obtain ⟨hlead, hbits⟩ := utf8Lead_two k (by omega)
      have hrow : v / 64 % 32 = k + 2 := by omega
      have hf : IsFollow 0x80 0xBF [UInt8.ofNat (v % 64 + 128)] := isFollow_any trivial
      rw [hrow, List.cons_append, decodeFrom_lead hlead rfl hf, hbits, bitsOf_cons]
      have hv : 64 * (k + 2) + v % 64 = v := by omega
      rw [hv]
      exact congrArg (· :: _) hchar
    · split
      · obtain ⟨hlead, hbits⟩ := utf8Lead_three (v / 4096) (by omega)
        have hrow : v / 4096 % 16 = v / 4096 := by omega
        have hlo : (if v / 4096 = 0 then (0xA0 : UInt8) else 0x80).toNat ≤ v / 64 % 64 + 128 := by
          split
          · exact Nat.add_le_add_right (show 32 ≤ v / 64 % 64 by omega) 128
          · exact Nat.le_add_left 128 _
        have hhi : v / 64 % 64 + 128 ≤ (if v / 4096 = 13 then (0x9F : UInt8) else 0xBF).toNat := by
          split
          · exact Nat.add_le_add_right (show v / 64 % 64 ≤ 31 by omega) 128
          · exact Nat.add_le_add_right (show v / 64 % 64 ≤ 63 by omega) 128
        have hf : IsFollow _ _ [UInt8.ofNat (v / 64 % 64 + 128), UInt8.ofNat (v % 64 + 128)] :=
          isFollow_cons hlo hhi (isFollow_any trivial)
        rw [hrow, List.cons_append, decodeFrom_lead hlead rfl hf, hbits, bitsOf_cons, bitsOf_cons]
        have hv : 64 * (64 * (v / 4096) + v / 64 % 64) + v % 64 = v := by omega
        rw [hv]
        exact congrArg (· :: _) hchar
      · obtain ⟨hlead, hbits⟩ := utf8Lead_four (v / 262144) (by omega)
        have hrow : v / 262144 % 8 = v / 262144 := by omega
        have hlo : (if v / 262144 = 0 then (0x90 : UInt8) else 0x80).toNat ≤
            v / 4096 % 64 + 128 := by
          split
          · exact Nat.add_le_add_right (show 16 ≤ v / 4096 % 64 by omega) 128
          · exact Nat.le_add_left 128 _
        have hhi : v / 4096 % 64 + 128 ≤
            (if v / 262144 = 4 then (0x8F : UInt8) else 0xBF).toNat := by
          split
          · exact Nat.add_le_add_right (show v / 4096 % 64 ≤ 15 by omega) 128
          · exact Nat.add_le_add_right (show v / 4096 % 64 ≤ 63 by omega) 128
        have hf : IsFollow _ _ [UInt8.ofNat (v / 4096 % 64 + 128), UInt8.ofNat (v / 64 % 64 + 128),
            UInt8.ofNat (v % 64 + 128)] :=
          isFollow_cons hlo hhi (isFollow_any (isFollow_any trivial))
        rw [hrow, List.cons_append, decodeFrom_lead hlead rfl hf, hbits, bitsOf_cons, bitsOf_cons,
          bitsOf_cons]
        have hv : 64 * (64 * (64 * (v / 262144) + v / 4096 % 64) + v / 64 % 64) + v % 64 = v := by
          omega
        rw [hv]
        exact congrArg (· :: _) hchar

/-- What a text is written to is read back, by whichever handler. -/
theorem decode_encode (text : List Char) : decode onError (encode text) = text := by
  induction text with
  | nil => rfl
  | cons c text ih => exact (decodeFrom_utf8EncodeChar c _).trans (congrArg (c :: ·) ih)

end Utf8

namespace Percent

open Text

def isAscii (c : Char) : Bool := c.toNat < 128

/-- `unquote_to_bytes` of an ASCII text: a `%` with two hexadecimal digits is a byte, any other
stands for itself. -/
def unquoteToBytes : Str → List UInt8
  | [] => []
  | '%' :: a :: b :: text =>
    match hexDigit a, hexDigit b with
    | some x, some y => UInt8.ofNat (16 * x + y) :: unquoteToBytes text
    | _, _ => UInt8.ofNat '%'.toNat :: unquoteToBytes (a :: b :: text)
  | c :: text => UInt8.ofNat c.toNat :: unquoteToBytes text

/-- `urllib.parse.unquote`: the runs of ASCII characters are decoded, the others left alone. -/
def unquote (text : Str) : Str :=
  (text.splitBy fun a b => isAscii a == isAscii b).flatMap fun run =>
    if run.all isAscii then Utf8.decode Utf8.replace (unquoteToBytes run) else run

/-- `urllib.parse.quote`, by which bytes are left as they are. -/
def quote (safe : UInt8 → Bool) (text : Str) : Str :=
  (Utf8.encode text).flatMap fun b =>
    if safe b then [Char.ofNat b.toNat] else '%' :: byteHex b

/-- What an encoder leaves as it is: ASCII characters, and no `%`. -/
def Plain (safe : UInt8 → Bool) : Prop := ∀ b, safe b = true → b.toNat < 128 ∧ b.toNat ≠ 37

section Quote

variable {safe : UInt8 → Bool} {b : UInt8} {c : Char} {bs : List UInt8} {text : Str}

theorem unquoteToBytes_of_ne (h : c ≠ '%') (text : Str) :
    unquoteToBytes (c :: text) = UInt8.ofNat c.toNat :: unquoteToBytes text := by
  cases text with
  | nil => simp [unquoteToBytes]
  | cons a text =>
    cases text with
    | nil => simp [unquoteToBytes]
    | cons b text => simp [unquoteToBytes, h]

theorem unquoteToBytes_byteHex (b : UInt8) (text : Str) :
    unquoteToBytes ('%' :: (byteHex b ++ text)) = b :: unquoteToBytes text := by
  have hb := b.toNat_lt
  have hx : hexDigit (upperDigit (b.toNat / 16)) = some (b.toNat / 16) :=
    hexDigit_upperDigit (by omega)
  have hy : hexDigit (upperDigit (b.toNat % 16)) = some (b.toNat % 16) :=
    hexDigit_upperDigit (by omega)
  have hsum : 16 * (b.toNat / 16) + b.toNat % 16 = b.toNat := by omega
  rw [byteHex, List.cons_append, List.cons_append, List.nil_append, unquoteToBytes, hx, hy]
  simp [hsum]

theorem toNat_ofNat (hb : b.toNat < 128) : (Char.ofNat b.toNat).toNat = b.toNat := by
  rw [Char.ofNat, dif_pos (Or.inl (by omega))]
  rfl

theorem unquoteToBytes_safe (hs : Plain safe) (hb : safe b = true) (text : Str) :
    unquoteToBytes (Char.ofNat b.toNat :: text) = b :: unquoteToBytes text := by
  obtain ⟨hlt, hne⟩ := hs b hb
  have hnat := toNat_ofNat hlt
  have hc : Char.ofNat b.toNat ≠ '%' := by
    intro h
    rw [h] at hnat
    exact hne hnat.symm
  rw [unquoteToBytes_of_ne hc, hnat, UInt8.ofNat_toNat]

theorem unquoteToBytes_quoted (hs : Plain safe) (bs : List UInt8) :
    unquoteToBytes (bs.flatMap fun b =>
      if safe b then [Char.ofNat b.toNat] else '%' :: byteHex b) = bs := by
  induction bs with
  | nil => rfl
  | cons b bs ih =>
    rw [List.flatMap_cons]
    by_cases hb : safe b = true
    · rw [if_pos hb, List.singleton_append, unquoteToBytes_safe hs hb, ih]
    · rw [if_neg hb, List.cons_append, unquoteToBytes_byteHex, ih]

/-- In an escaped text there are only escapes and what was left as it is. -/
theorem mem_quote (hs : Plain safe) (h : c ∈ quote safe text) : isAscii c = true ∧
    (c = '%' ∨ (∃ n, hexDigit c = some n) ∨ ∃ b, safe b = true ∧ c.toNat = b.toNat) := by
  obtain ⟨b, -, hc⟩ := List.mem_flatMap.mp h
  split at hc
  · rename_i hb
    obtain rfl := List.mem_singleton.mp hc
    have hnat := toNat_ofNat (hs b hb).1
    refine ⟨?_, .inr (.inr ⟨b, hb, hnat⟩)⟩
    rw [isAscii, hnat]
    exact decide_eq_true (hs b hb).1
  · rcases List.mem_cons.mp hc with rfl | hc
    · exact ⟨rfl, .inl rfl⟩
    · have hhex : ∃ n, hexDigit c = some n := by
        rcases List.mem_pair.mp hc with rfl | rfl
        · exact ⟨_, hexDigit_upperDigit (by have := b.toNat_lt; omega)⟩
        · exact ⟨_, hexDigit_upperDigit (by omega)⟩
      refine ⟨?_, .inr (.inl hhex)⟩
      obtain ⟨n, hn⟩ := hhex
      unfold hexDigit at hn
      rw [isAscii, decide_eq_true_iff]
      grind

theorem unquote_of_ascii (h : ∀ c ∈ text, isAscii c = true) :
    unquote text = Utf8.decode Utf8.replace (unquoteToBytes text) := by
  cases text with
  | nil => rfl
  | cons c text =>
    have hrun : (c :: text).splitBy (fun a b => isAscii a == isAscii b) = [c :: text] := by
      refine List.splitBy_of_isChain (List.cons_ne_nil c text) (List.Pairwise.isChain ?_)
      refine List.pairwise_of_forall_mem_list fun a ha b hb => ?_
      rw [h a ha, h b hb]
      rfl
    rw [unquote, hrun, List.flatMap_singleton, if_pos (List.all_eq_true.mpr h)]

/-- Unescaping undoes escaping, whatever the encoder leaves as it is. -/
theorem unquote_quote (hs : Plain safe) (text : Str) : unquote (quote safe text) = text := by
  rw [unquote_of_ascii fun c hc => (mem_quote hs hc).1, quote, unquoteToBytes_quoted hs,
    Utf8.decode_encode]

end Quote

end Percent

end MbTools
