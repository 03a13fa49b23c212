import MbTools.Lib.IntelHex

/-! # Universal Hex files

One file for several boards: blocks of Intel hex records, each opening with its
address base and a record that names its board. For one target the blocks of its
boards are taken out and written as a plain Intel hex.
-/

namespace MbTools.UniversalHex

open Text

def blockStart : ℤ := 0x0A
def blockEnd : ℤ := 0x0B
def paddedData : ℤ := 0x0C
def customData : ℤ := 0x0D
def otherData : ℤ := 0x0E
def data : ℤ := 0x00
def eof : ℤ := 0x01
def extLinearAddr : ℤ := 0x04

def v1BoardIds : List ℤ := [0x9900, 0x9901]
def v2BoardIds : List ℤ := [0x9903, 0x9904, 0x9905, 0x9906]

/-- What reading a Universal Hex raises: its own error, for a target it does not
know or has no image for, or what a conversion raises on a malformed record. -/
inductive HexRaise
  | unknownTarget (targetMcu : Str)
  | noImage (targetMcu : Str) (found : List ℤ)
  | valueError
  | indexError
  deriving Repr, DecidableEq

def HexRaise.isUniversalHexError : HexRaise → Bool
  | unknownTarget _ | noImage _ _ => true
  | valueError | indexError => false

/-- `f"{n:04X}"` -/
def hex4 (n : ℤ) : Str :=
  let digits := (Nat.toDigits 16 n.natAbs).map Char.toUpper
  if n < 0 then '-' :: (List.replicate (3 - digits.length) '0' ++ digits)
  else List.replicate (4 - digits.length) '0' ++ digits

/-- The text of a `UniversalHexError`. -/
def HexRaise.message : HexRaise → Str
  | unknownTarget mcu => "no micro:bit board IDs known for target '".toList ++ mcu ++ ['\'']
  | noImage mcu found =>
    let foundText := [',', ' '].intercalate (found.map fun bid => '0' :: 'x' :: hex4 bid)
    "Universal Hex has no image for ".toList ++ mcu ++ " (board IDs in file: ".toList ++
      (if found = [] then "none".toList else foundText) ++ [')']
  | _ => []

/-- `line[i:j]` -/
def slice (i j : ℕ) (line : Str) : Str := (line.drop i).take (j - i)

def recordType (line : Str) : Option ℤ :=
  let line := strip line
  if line.head? ≠ some ':' ∨ line.length < 11 then none else int16 (slice 7 9 line)

def isUniversalHex (text : Str) : Bool :=
  (splitlines text).any fun line => recordType line = some blockStart

def boardIdsForMcu (targetMcu : Str) : Except HexRaise (List ℤ) :=
  let mcu := targetMcu.map Char.toLower
  if "nrf51".toList.isPrefixOf mcu then .ok v1BoardIds
  else if "nrf52".toList.isPrefixOf mcu then .ok v2BoardIds
  else .error (.unknownTarget targetMcu)

def retype (line : Str) (newType : UInt8) : Except HexRaise Str :=
  let line := strip line
  match fromhex (slice 1 (line.length - 2) line) with
  | none => .error .valueError
  | some raw =>
    if raw.length ≤ 3 then .error .indexError
    else
      let raw := raw.set 3 newType
      .ok (':' :: (upperHex raw ++ byteHex (IntelHex.checksum raw)))

/-- The blocks so far, and the board and the lines of the one being read. -/
structure Grouping where
  blocks : List (Option ℤ × List Str)
  currentId : Option ℤ
  current : List Str
  deriving Repr, DecidableEq

def Grouping.line (g : Grouping) (line : Str) : Except HexRaise Grouping :=
  if recordType line = some blockStart then
    let (carried, closed) :=
      match g.current.getLast? with
      | some last =>
        if recordType last = some extLinearAddr then ([last], g.current.dropLast)
        else ([], g.current)
      | none => ([], g.current)
    match int16 (slice 9 13 line) with
    | none => .error .valueError
    | some bid => .ok ⟨g.blocks ++ [(g.currentId, closed)], some bid, carried⟩
  else .ok { g with current := g.current ++ [line] }

def Grouping.lines (g : Grouping) : List Str → Except HexRaise Grouping
  | [] => .ok g
  | line :: lines =>
    match g.line line with
    | .error e => .error e
    | .ok g => g.lines lines

def Grouping.close (g : Grouping) : List (Option ℤ × List Str) :=
  g.blocks ++ [(g.currentId, g.current)]

/-- What one line of a wanted block adds to the output. -/
def keepLine (line : Str) : Except HexRaise (List Str) :=
  if recordType line = some customData then
    match retype line 0 with
    | .error e => .error e
    | .ok line => .ok [line]
  else if recordType line ∈ [some blockEnd, some paddedData, some otherData, some eof, none] then
    .ok []
  else .ok [line]

def keepLines : List Str → Except HexRaise (List Str)
  | [] => .ok []
  | line :: lines =>
    match keepLine line with
    | .error e => .error e
    | .ok kept =>
      match keepLines lines with
      | .error e => .error e
      | .ok rest => .ok (kept ++ rest)

/-- The lines of the blocks of the wanted boards. -/
def keepBlocks (wanted : List ℤ) (blocks : List (Option ℤ × List Str)) :
    Except HexRaise (List Str) :=
  keepLines ((blocks.filter fun b => decide (∃ bid ∈ wanted, b.1 = some bid)).flatMap Prod.snd)

def nonblankLines (text : Str) : List Str :=
  ((splitlines text).map strip).filter fun line => line ≠ []

def eofLine : Str := ":00000001FF".toList

def extractForMcu (text : Str) (targetMcu : Str) : Except HexRaise Str :=
  match boardIdsForMcu targetMcu with
  | .error e => .error e
  | .ok wanted =>
    match Grouping.lines ⟨[], none, []⟩ (nonblankLines text) with
    | .error e => .error e
    | .ok grouping =>
      let blocks := grouping.close
      let found := (blocks.filterMap Prod.fst).dedup.mergeSort
      match keepBlocks wanted blocks with
      | .error e => .error e
      | .ok out =>
        if out.any fun line => recordType line = some data then
          .ok (['\n'].intercalate (out ++ [eofLine]) ++ ['\n'])
        else .error (.noImage targetMcu found)

/-! ## Files -/

/-- `open(path, encoding="ascii", errors="replace").read()`: bytes above the ASCII
range are replaced, and the three ends of a line are one. -/
def readAscii : List UInt8 → Str
  | [] => []
  | 0x0D :: 0x0A :: bs => '\n' :: readAscii bs
  | b :: bs =>
    (if b = 0x0D then '\n' else if b < 0x80 then Char.ofNat b.toNat else Char.ofNat 0xFFFD) ::
      readAscii bs

/-- What `normalized_hex` gives its caller to read: the path it was given, or a
temporary file with this text. -/
inductive Normalized
  | given
  | temporary (text : Str)
  deriving Repr, DecidableEq

/-- What `normalized_hex` raises before it yields. Writing the temporary file fails on
a character that is not ASCII. -/
inductive NormalizeRaise
  | hex (e : HexRaise)
  | unicodeEncodeError
  deriving Repr, DecidableEq

/-- `file` is the content of the file, `none` where it cannot be read. -/
def normalizedHex (file : Option (List UInt8)) (targetMcu : Str) :
    Except NormalizeRaise Normalized :=
  match file with
  | none => .ok .given
  | some bytes =>
    let text := readAscii bytes
    if isUniversalHex text then
      match extractForMcu text targetMcu with
      | .error e => .error (.hex e)
      | .ok converted =>
        if converted.all fun c => c.toNat < 128 then .ok (.temporary converted)
        else .error .unicodeEncodeError
    else .ok .given

end MbTools.UniversalHex
