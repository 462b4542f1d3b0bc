import Stencil.Number.Double
import Stencil.Text.Words

/-! Reading of numbers: decimal digits of any script, single underscores between digits. -/
namespace Stencil.Reading
open Text

/-- A run of digits and what follows it. An underscore belongs to the run when it stands
between two digits. -/
def digitRun (opened : Bool) : List Char → List Nat × List Char
  | [] => ([], [])
  | c :: rest =>
    match digitValue? c with
    | some digit =>
      let more := digitRun true rest
      (digit :: more.1, more.2)
    | none =>
      if c == '_' && opened && (rest.head?.bind digitValue?).isSome then digitRun false rest
      else ([], c :: rest)

def ofDigits (digits : List Nat) : Nat := digits.foldl (fun n digit => 10 * n + digit) 0

/-- A leading sign: whether it is a minus, and the rest. -/
def sign : List Char → Bool × List Char
  | '-' :: rest => (true, rest)
  | '+' :: rest => (false, rest)
  | text => (false, text)

/-- An integer with the number of digits it is written with. -/
structure Whole where
  value : Int
  digits : Nat

def whole? (text : List Char) : Option Whole :=
  let (negative, body) := sign (trimPlain text)
  match digitRun false body with
  | ([], _) => none
  | (digits, []) =>
    let n := ofDigits digits
    some ⟨if negative then -n else n, digits.length⟩
  | _ => none

/-- The double nearest to a decimal. Exponents far out of range are decided without
computing the power. -/
def ofDecimal (negative : Bool) (mantissa : Nat) (exponent : Int) : Double :=
  let leading : Int := (Nat.toDigits 10 mantissa).length + exponent
  if mantissa == 0 || leading < -330 then .finite negative 0
  else if leading > 330 then .infinity negative
  else if exponent < 0 then .ofRatio negative mantissa (Nat.pow 10 exponent.natAbs)
  else .ofRatio negative (mantissa * Nat.pow 10 exponent.natAbs) 1

/-- An exponent mark at the start of a text, zero if there is none. -/
def exponent : List Char → Int × List Char
  | c :: rest =>
    if c == 'e' || c == 'E' then
      let (negative, body) := sign rest
      match digitRun false body with
      | ([], _) => (0, c :: rest)
      | (digits, after) =>
        let n := ofDigits digits
        (if negative then -n else n, after)
    else (0, c :: rest)
  | [] => (0, [])

def fraction : List Char → List Nat × List Char
  | '.' :: rest => digitRun false rest
  | text => ([], text)

/-- A word that stands for a double that is not finite. -/
def special? (negative : Bool) (text : List Char) : Option Double :=
  let word := String.ofList (text.map Char.toLower)
  if word == "inf" || word == "infinity" then some (.infinity negative)
  else if word == "nan" then some .undetermined
  else none

def double? (text : List Char) : Option Double :=
  let (negative, body) := sign (trim text)
  match special? negative body with
  | some x => some x
  | none =>
    let (before, afterWhole) := digitRun false body
    let (after, afterPoint) := fraction afterWhole
    let (power, rest) := exponent afterPoint
    if rest.isEmpty && !(before.isEmpty && after.isEmpty) then
      some (ofDecimal negative (ofDigits (before ++ after)) (power - after.length))
    else none

end Stencil.Reading
