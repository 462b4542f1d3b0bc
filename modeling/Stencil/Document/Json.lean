import Stencil.Number.Reading
import Stencil.Value

/-! Reading of JSON. The words for numbers that are not finite are read too; of a key that is
repeated the last value counts. -/
namespace Stencil.Json

/-- Why a text is not read: it is no JSON, or a number in it is too long. -/
inductive Refusal
  | malformed
  | fault (fault : Fault)

/-- What was read and what follows it. -/
abbrev Found (α : Type) := α × List Char

def skip (text : List Char) : List Char :=
  text.dropWhile fun c => c == ' ' || c == '\t' || c == '\n' || c == '\r'

/-! ### Strings -/

def hexValue? (c : Char) : Option Nat :=
  if '0' ≤ c && c ≤ '9' then some (c.toNat - 48)
  else if 'a' ≤ c && c ≤ 'f' then some (c.toNat - 87)
  else if 'A' ≤ c && c ≤ 'F' then some (c.toNat - 55)
  else none

def hexNumber? (digits : List Char) : Option Nat :=
  digits.foldl (fun n c => do return 16 * (← n) + (← hexValue? c)) (some 0)

/-- The code of a character after a backslash. -/
def escapeCode? : Char → Option Nat
  | '"' => some 34
  | '\\' => some 92
  | '/' => some 47
  | 'b' => some 8
  | 'f' => some 12
  | 'n' => some 10
  | 'r' => some 13
  | 't' => some 9
  | _ => none

/-- Codes up to the closing quote. -/
def codes : List Char → Option (List Nat × List Char)
  | [] => none
  | '"' :: rest => some ([], rest)
  | '\\' :: 'u' :: a :: b :: c :: d :: rest => do
    let code ← hexNumber? [a, b, c, d]
    let (more, after) ← codes rest
    return (code :: more, after)
  | '\\' :: c :: rest => do
    let code ← escapeCode? c
    let (more, after) ← codes rest
    return (code :: more, after)
  | c :: rest => do
    if c.toNat < 32 || c == '\\' then none
    let (more, after) ← codes rest
    return (c.toNat :: more, after)

def isHigh (code : Nat) : Bool := 0xD800 ≤ code && code < 0xDC00
def isLow (code : Nat) : Bool := 0xDC00 ≤ code && code < 0xE000

/-- What stands for half of a pair that has no other half. -/
def unpaired : Char := '\uFFFD'

/-- Characters of codes; two halves of a pair are one character. -/
def characters : List Nat → List Char
  | [] => []
  | [code] => [if isHigh code || isLow code then unpaired else Char.ofNat code]
  | high :: low :: rest =>
    if isHigh high && isLow low then
      Char.ofNat (0x10000 + (high - 0xD800) * 0x400 + (low - 0xDC00)) :: characters rest
    else (if isHigh high || isLow high then unpaired else Char.ofNat high) ::
      characters (low :: rest)

/-- A string after its opening quote. -/
def string (text : List Char) : Except Refusal (Found String) :=
  match codes text with
  | some (found, rest) => .ok (String.ofList (characters found), rest)
  | none => .error .malformed

/-! ### Numbers -/

def isDigit (c : Char) : Bool := '0' ≤ c && c ≤ '9'

def digits (text : List Char) : List Nat × List Char :=
  ((text.takeWhile isDigit).map (·.toNat - 48), text.dropWhile isDigit)

/-- Digits after a point, none if no digit follows it. -/
def fraction (text : List Char) : List Nat × List Char :=
  match text with
  | '.' :: rest => match digits rest with
    | ([], _) => ([], text)
    | found => found
  | _ => ([], text)

/-- An exponent and what follows it. -/
def exponent? : List Char → Option (Int × List Char)
  | c :: rest =>
    if c == 'e' || c == 'E' then
      let (negative, body) := Reading.sign rest
      match digits body with
      | ([], _) => none
      | (found, after) =>
        let n : Int := Reading.ofDigits found
        some (if negative then -n else n, after)
    else none
  | [] => none

/-- The digits before the point: a zero stands alone. -/
def wholePart (text : List Char) : List Nat × List Char :=
  match text with
  | '0' :: rest => ([0], rest)
  | _ => digits text

def number (text : List Char) : Except Refusal (Found Value) := do
  let negative := text.head? == some '-'
  let (whole, afterWhole) := wholePart (if negative then text.drop 1 else text)
  if whole.isEmpty then throw .malformed
  let (broken, afterFraction) := fraction afterWhole
  match broken, exponent? afterFraction with
  | [], none =>
    if whole.length > Fault.digitLimit then throw (.fault (.tooManyDigits whole.length))
    let n : Int := Reading.ofDigits whole
    return (.int (if negative then -n else n), afterFraction)
  | broken, power =>
    let (shift, rest) := power.getD (0, afterFraction)
    let mantissa := Reading.ofDigits (whole ++ broken)
    return (.float (Reading.ofDecimal negative mantissa (shift - broken.length)), rest)

/-! ### Values -/

def words : List (String × Value) := [
  ("null", .null), ("true", .bool true), ("false", .bool false),
  ("NaN", .float (.nan .document)), ("Infinity", .float (.infinity false)),
  ("-Infinity", .float (.infinity true))]

/-- A word at the start of a text. -/
def word? (text : List Char) : Option (Value × List Char) :=
  words.findSome? fun (word, value) => (word.toList.isPrefixOf? text).map fun rest => (value, rest)

mutual
/-- A value at the start of a text; `fuel` bounds the nesting and the parts. -/
def value : (fuel : Nat) → List Char → Except Refusal (Found Value)
  | 0, _ => .error .malformed
  | fuel + 1, text =>
    match text with
    | '"' :: rest => do
      let (s, after) ← string rest
      return (.text s, after)
    | '[' :: rest =>
      match skip rest with
      | ']' :: after => .ok (.list [], after)
      | inner => do
        let (found, after) ← items fuel inner
        return (.list found, after)
    | '{' :: rest =>
      match skip rest with
      | '}' :: after => .ok (.dict [], after)
      | inner => do
        let (found, after) ← members fuel inner
        return (.dict (Dict.ofList found), after)
    | _ =>
      match word? text with
      | some found => .ok found
      | none => number text
/-- The items of a list that is not empty, up to its end. -/
def items : (fuel : Nat) → List Char → Except Refusal (Found (List Value))
  | 0, _ => .error .malformed
  | fuel + 1, text => do
    let (item, after) ← value fuel text
    match skip after with
    | ']' :: rest => return ([item], rest)
    | ',' :: rest =>
      let (more, after) ← items fuel (skip rest)
      return (item :: more, after)
    | _ => throw .malformed
/-- The members of an object that is not empty, up to its end. -/
def members : (fuel : Nat) → List Char → Except Refusal (Found (List (String × Value)))
  | 0, _ => .error .malformed
  | fuel + 1, text =>
    match text with
    | '"' :: rest => do
      let (key, after) ← string rest
      match skip after with
      | ':' :: rest =>
        let (item, after) ← value fuel (skip rest)
        match skip after with
        | '}' :: rest => return ([(key, item)], rest)
        | ',' :: rest =>
          let (more, after) ← members fuel (skip rest)
          return ((key, item) :: more, after)
        | _ => throw .malformed
      | _ => throw .malformed
    | _ => .error .malformed
end

/-- The value of a whole text, if it is JSON. Every part takes a character at least, so the
fuel lasts. -/
def read (text : List Char) : Except Fault (Option Value) :=
  match value (text.length + 1) (skip text) with
  | .ok (found, rest) => .ok (if (skip rest).isEmpty then some found else none)
  | .error .malformed => .ok none
  | .error (.fault fault) => .error fault

end Stencil.Json
