import MbTools.Lib.Text

/-! # Intel hex records

A record is one line: a colon and the bytes of its length, its address, its type,
its data and its checksum in hexadecimal digits. A file of records writes bytes to
addresses; the records of two types set the base of the addresses behind them.
-/

namespace MbTools.IntelHex

open Bytes Text

structure Record where
  address : ℕ
  rtype : UInt8
  data : List UInt8
  deriving Repr, DecidableEq

def byteSum (bs : List UInt8) : ℕ := (bs.map UInt8.toNat).sum

/-- The byte that brings the sum of a record to a multiple of 256. -/
def checksum (bs : List UInt8) : UInt8 := UInt8.ofNat ((256 - byteSum bs % 256) % 256)

theorem byteSum_append (as bs : List UInt8) : byteSum (as ++ bs) = byteSum as + byteSum bs := by
  simp [byteSum]

theorem byteSum_checksum (bs : List UInt8) : byteSum (bs ++ [checksum bs]) % 256 = 0 := by
  have hlt : (256 - byteSum bs % 256) % 256 < 256 := Nat.mod_lt _ (by decide)
  have hsum : byteSum [checksum bs] = (256 - byteSum bs % 256) % 256 := by
    simp [byteSum, checksum]
  rw [byteSum_append, hsum]
  omega

def ofBytes : List UInt8 → Option Record
  | len :: hi :: lo :: t :: rest =>
    if rest.length = len.toNat + 1 ∧ byteSum (len :: hi :: lo :: t :: rest) % 256 = 0 then
      some ⟨fromBytesBig [hi, lo], t, rest.dropLast⟩
    else none
  | _ => none

/-- The record a line stands for, if its length and its checksum are right. -/
def parse : Str → Option Record
  | ':' :: cs => (unhex cs).bind ofBytes
  | _ => none

variable {line : Str} {r : Record}

theorem parse_eq_some (h : parse line = some r) :
    ∃ cs len hi lo data check, line = ':' :: cs ∧
      unhex cs = some (len :: hi :: lo :: r.rtype :: (data ++ [check])) ∧
      data.length = len.toNat ∧ r.data = data ∧ r.address = fromBytesBig [hi, lo] := by
  match line with
  | [] => cases h
  | c :: cs =>
    rw [parse.eq_def] at h
    split at h
    next heq =>
      obtain ⟨rfl, rfl⟩ := List.cons.inj heq
      obtain ⟨bytes, hbytes, hr⟩ := Option.bind_eq_some_iff.mp h
      unfold ofBytes at hr
      split at hr
      next len hi lo t rest =>
        split at hr
        next hlen =>
          cases hr
          have hne : rest ≠ [] := fun hnil => by simp [hnil] at hlen
          refine ⟨cs, len, hi, lo, rest.dropLast, rest.getLast hne, rfl, ?_, ?_, rfl, rfl⟩
          · rw [List.dropLast_append_getLast hne]
            exact hbytes
          · rw [List.length_dropLast, hlen.1, Nat.add_sub_cancel]
        next => cases hr
      next => cases hr
    next => cases h

theorem parse_write {len hi lo t : UInt8} {data : List UInt8} {cs : Str}
    (hlen : data.length = len.toNat)
    (h : unhex cs =
      some (len :: hi :: lo :: t :: (data ++ [checksum (len :: hi :: lo :: t :: data)]))) :
    parse (':' :: cs) = some ⟨fromBytesBig [hi, lo], t, data⟩ := by
  have hsum := byteSum_checksum (len :: hi :: lo :: t :: data)
  rw [parse, h, Option.bind_some, ofBytes, if_pos ⟨by simp [hlen], hsum⟩, List.dropLast_concat]

/-! ## What a file writes -/

def dataType : UInt8 := 0
def eofType : UInt8 := 1
def extSegmentAddress : UInt8 := 2
def extLinearAddress : UInt8 := 4

/-- The base of the addresses behind a record. -/
def Record.base (r : Record) (base : ℕ) : ℕ :=
  if r.rtype = extSegmentAddress then fromBytesBig r.data * 16
  else if r.rtype = extLinearAddress then fromBytesBig r.data * 65536
  else base

def Record.writes (r : Record) (base : ℕ) : List (ℕ × UInt8) :=
  r.data.mapIdx fun i b => (base + r.address + i, b)

/-- The bytes the records write, in order; `isData` says which types carry data. -/
def writes (isData : UInt8 → Bool) : ℕ → List Record → List (ℕ × UInt8)
  | _, [] => []
  | base, r :: rs =>
    (if isData r.rtype then r.writes base else []) ++ writes isData (r.base base) rs

def baseAfter (base : ℕ) (rs : List Record) : ℕ := rs.foldl (fun b r => r.base b) base

theorem writes_append (isData : UInt8 → Bool) (base : ℕ) (rs ts : List Record) :
    writes isData base (rs ++ ts) =
      writes isData base rs ++ writes isData (baseAfter base rs) ts := by
  induction rs generalizing base with
  | nil => rfl
  | cons r rs ih => rw [List.cons_append, writes, writes, ih, List.append_assoc]; rfl

/-- Behind a record that sets the base it does not matter what the base was. -/
theorem writes_extLinear {isData : UInt8 → Bool} {rs : List Record} (h : r.rtype = extLinearAddress)
    (hd : isData extLinearAddress = false) (b b' : ℕ) :
    writes isData b (r :: rs) = writes isData b' (r :: rs) := by
  have hbase : ∀ b, r.base b = fromBytesBig r.data * 65536 := fun b => by
    rw [Record.base, h, if_neg (by decide), if_pos rfl]
  rw [writes, writes, h, hd, hbase b, hbase b']
  rfl

end MbTools.IntelHex
