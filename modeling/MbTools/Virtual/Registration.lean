import MbTools.Lib.Json
import MbTools.Virtual.Boards

/-! # The request to register a board

What `validate_registration` makes of the fields of a request. A pattern with
`$` at its end lets a line feed follow, and a digit of any script is one to
`str.isdigit` and to `int`; every refusal is a `ValueError`.
-/

namespace MbTools.Virtual

def isLetter (c : Char) : Bool := ('A' ≤ c && c ≤ 'Z') || ('a' ≤ c && c ≤ 'z')

def isAsciiDigit (c : Char) : Bool := '0' ≤ c && c ≤ '9'

/-- A pattern `^...$`, given what it is without the anchors. -/
def matchesLine (p : List Char → Bool) (s : String) : Bool :=
  p s.toList || (s.toList.getLast? = some '\n' && p s.toList.dropLast)

/-- `_NAME_RE`. -/
def nameMatches : String → Bool :=
  matchesLine fun
    | [] => false
    | c :: l => isLetter c && (1 ≤ l.length && l.length ≤ 31) &&
      l.all fun c => isLetter c || isAsciiDigit c || c = '-'

/-- `_ROLE_RE`. -/
def roleMatches : String → Bool :=
  matchesLine fun l => (1 ≤ l.length && l.length ≤ 32) &&
    l.all fun c => isLetter c || isAsciiDigit c || c = '_' || c = '-'

/-- `_SERIAL_RE`. -/
def serialMatches : String → Bool :=
  matchesLine fun l => (1 ≤ l.length && l.length ≤ 20) && l.all isAsciiDigit

def defaultRole : String := "NEZHA2"

/-- `str.isspace` of one character. -/
def isSpace (code : ℕ) : Bool :=
  [9, 10, 11, 12, 13, 28, 29, 30, 31, 32, 133, 160, 5760, 8192, 8193, 8194, 8195, 8196, 8197, 8198,
    8199, 8200, 8201, 8202, 8232, 8233, 8239, 8287, 12288].contains code

/-- The first and last of the characters that are digits but no decimal digits. -/
def otherDigits : List (ℕ × ℕ) :=
  [(178, 179), (185, 185), (4969, 4977), (6618, 6618), (8304, 8304), (8308, 8313), (8320, 8329),
    (9312, 9320), (9332, 9340), (9352, 9360), (9450, 9450), (9461, 9469), (9471, 9471),
    (10102, 10110), (10112, 10120), (10122, 10130), (68160, 68163), (69216, 69224), (69714, 69722),
    (127232, 127242)]

def decimal? (code : ℕ) : Option ℕ :=
  (Json.decimalZeros.find? fun z => z ≤ code ∧ code < z + 10).map fun z => code - z

/-- `str.isdigit` of one character. -/
def isDigit (code : ℕ) : Bool :=
  (decimal? code).isSome || otherDigits.any fun p => p.1 ≤ code && code ≤ p.2

/-- `int` of digits. -/
def intOfDigits (codes : List ℕ) : Option ℕ :=
  if codes.length ≤ Json.maxStrDigits then
    (codes.mapM decimal?).map (·.foldl (fun n d => n * 10 + d) 0)
  else none

/-- The code points of a text. -/
def codesOf : Json → Option (List ℕ)
  | .str s => some (s.toList.map Char.toNat)
  | .lone codes => some codes
  | _ => none

def endpointMessage : String := "'endpoint' must be a 'host:port' string"

def bracketed (host : List ℕ) : Bool := host.head? = some 91 && host.getLast? = some 93

/-- `parse_endpoint`; `intError` is the text of the `ValueError` of `int`. -/
def parseEndpoint (intError : List ℕ → String) (endpoint : Json) :
    Except String (List ℕ × ℕ) :=
  match codesOf endpoint with
  | none => .error endpointMessage
  | some codes =>
    let port := (codes.reverse.takeWhile (· ≠ 58)).reverse
    let host := codes.take (codes.length - port.length - 1)
    if codes.any isSpace || 58 ∉ codes || host.isEmpty || port.isEmpty || !port.all isDigit then
      .error endpointMessage
    else
      let host := if bracketed host then (host.drop 1).dropLast else host
      if host.isEmpty then .error endpointMessage
      else
        match intOfDigits port with
        | none => .error (intError port)
        | some n =>
          if 1 ≤ n ∧ n ≤ 65535 then .ok (host, n) else .error "'endpoint' port must be 1-65535"

def roleOf (req : Json) : Json := if req.hasKey "role" then req.get "role" else .str defaultRole

/-- The serial as a text; a whole number that is not negative is written out. -/
def serialOf (req : Json) : Json :=
  match req.get "serial" with
  | .int n => if 0 ≤ n then .str (toString n) else .int n
  | v => v

/-- `validate_registration`. -/
def validateRegistration (intError : List ℕ → String) (req : Json) :
    Except String VirtualRegistration :=
  match req.get "name" with
  | .str name =>
    if nameMatches name then
      match parseEndpoint intError (req.get "endpoint") with
      | .error e => .error e
      | .ok endpoint =>
        match roleOf req with
        | .str role =>
          if roleMatches role then
            match serialOf req with
            | .str serial =>
              if serialMatches serial then
                match req.get "simulated" with
                | .bool true => .ok ⟨name, endpoint, role, serial, none⟩
                | _ => .error "'simulated' must be true"
              else .error serialMessage
            | _ => .error serialMessage
          else .error roleMessage
        | _ => .error roleMessage
    else .error nameMessage
  | _ => .error nameMessage
where
  nameMessage := "'name' must be 2-32 characters: a letter, then letters, digits or '-'"
  roleMessage := "'role' must be a short identifier such as 'NEZHA2'"
  serialMessage := "'serial' must be a decimal string"

end MbTools.Virtual
