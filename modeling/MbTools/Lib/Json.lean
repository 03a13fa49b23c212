import Mathlib.Data.Rat.Defs
import Mathlib.Data.Nat.Notation

/-! # JSON values as Python reads them

What `json.loads` returns, with the truth value and the integer that Python
makes of each of them. A number with a point or an exponent is a rational, or
one of the three values Python's JSON adds to them.
-/

namespace MbTools

inductive JsonFloat where
  | finite (q : ℚ)
  | inf (negative : Bool)
  | nan
  deriving DecidableEq, Repr

inductive Json where
  | null
  | bool (b : Bool)
  | int (n : ℤ)
  | float (x : JsonFloat)
  | str (s : String)
  /-- A string that holds a lone surrogate, by its code points. -/
  | lone (codes : List ℕ)
  | arr (items : List Json)
  | obj (fields : List (String × Json))

/-- The exceptions of Python that converting a value can raise. -/
inductive PyError where
  | valueError
  | typeError
  | overflowError
  deriving DecidableEq, Repr

namespace Json

/-- `bool(v)`. -/
def truthy : Json → Bool
  | null => false
  | bool b => b
  | int n => n ≠ 0
  | float (.finite q) => q ≠ 0
  | float _ => true
  | str s => s ≠ ""
  | lone _ => true
  | arr items => !items.isEmpty
  | obj fields => !fields.isEmpty

/-- `str(v)`; `text` gives it for the values that are not strings. -/
def strOf (text : Json → String) : Json → String
  | str s => s
  | v => text v

def isNull : Json → Bool
  | null => true
  | _ => false

/-- `d.get(key)` of an object; a key that is not there gives `None`. -/
def get (v : Json) (key : String) : Json :=
  match v with
  | obj fields => ((fields.find? fun p => p.1 = key).map Prod.snd).getD null
  | _ => null

def hasKey (v : Json) (key : String) : Bool :=
  match v with
  | obj fields => fields.any fun p => p.1 = key
  | _ => false

def isObject : Json → Bool
  | obj _ => true
  | _ => false

mutual

/-- How deep the calls of `repr` for the values inside it lie. -/
def depth : Json → ℕ
  | arr items => depthOfItems items
  | obj fields => depthOfFields fields
  | _ => 0

def depthOfItems : List Json → ℕ
  | [] => 0
  | v :: vs => max (depth v + 1) (depthOfItems vs)

def depthOfFields : List (String × Json) → ℕ
  | [] => 0
  | (_, v) :: fields => max (depth v + 1) (depthOfFields fields)

end

theorem hasKey_of_get {v : Json} {key : String} (h : v.get key ≠ null) : v.hasKey key = true := by
  cases v with
  | obj fields =>
    cases hf : fields.find? (fun p => p.1 = key) with
    | none => exact absurd (by simp [get, hf]) h
    | some p =>
      have hk := List.find?_some hf
      exact List.any_eq_true.mpr ⟨p, List.mem_of_find?_eq_some hf, hk⟩
  | _ => exact absurd rfl h

/-- The zeros of the decimal digits: the ten digits of a script follow each other. -/
def decimalZeros : List ℕ :=
  [48, 1632, 1776, 1984, 2406, 2534, 2662, 2790, 2918, 3046, 3174, 3302, 3430, 3558, 3664, 3792,
    3872, 4160, 4240, 6112, 6160, 6470, 6608, 6784, 6800, 6992, 7088, 7232, 7248, 42528, 43216,
    43264, 43472, 43504, 43600, 44016, 65296, 66720, 68912, 69734, 69872, 69942, 70096, 70384,
    70736, 70864, 71248, 71360, 71472, 71904, 72016, 72784, 73040, 73120, 92768, 92864, 93008,
    120782, 120792, 120802, 120812, 120822, 123200, 123632, 125264, 130032]

def digit? (c : Char) : Option ℕ :=
  (decimalZeros.find? fun z => z ≤ c.toNat ∧ c.toNat < z + 10).map fun z => c.toNat - z

/-- The characters that `int` takes for blank around a number. -/
def isBlank (c : Char) : Bool :=
  [9, 10, 11, 12, 13, 32, 133, 160, 5760, 8192, 8193, 8194, 8195, 8196, 8197, 8198, 8199, 8200,
    8201, 8202, 8232, 8233, 8239, 8287, 12288].contains c.toNat

/-- Digits with single underscores between them, most significant first. -/
def digits : List Char → Option (List ℕ)
  | [] => none
  | [c] => (digit? c).map fun d => [d]
  | c :: '_' :: l => (digit? c).bind fun d => (digits l).map (d :: ·)
  | c :: l => (digit? c).bind fun d => (digits l).map (d :: ·)

/-- The most digits `int` reads from a text. -/
def maxStrDigits : ℕ := 4300

def unsigned (l : List Char) : Option ℤ :=
  ((digits l).filter fun ds => ds.length ≤ maxStrDigits).map fun ds =>
    ds.foldl (fun n d => n * 10 + Int.ofNat d) 0

/-- `int(s)` of a text. -/
def parseInt (s : String) : Option ℤ :=
  match ((s.toList.dropWhile isBlank).reverse.dropWhile isBlank).reverse with
  | '+' :: l => unsigned l
  | '-' :: l => (unsigned l).map (- ·)
  | l => unsigned l

/-- `int(v)`. -/
def toInt : Json → Except PyError ℤ
  | null => .error .typeError
  | bool b => .ok (if b then 1 else 0)
  | int n => .ok n
  | float (.finite q) => .ok (q.num.tdiv q.den)
  | float (.inf _) => .error .overflowError
  | float .nan => .error .valueError
  | str s =>
    match parseInt s with
    | some n => .ok n
    | none => .error .valueError
  | lone _ => .error .valueError
  | arr _ => .error .typeError
  | obj _ => .error .typeError

example : toInt (.str " -1_0\n") = .ok (-10) := by decide

end Json

end MbTools
