import Stencil.Library.Routine
import Stencil.Value.Access
import Stencil.Value.Numeric

/-! The built-in functions. -/
namespace Stencil

/-- What is read from outside: the time, a number from zero up to one, and where objects stand. -/
structure Surroundings where
  clock : DateTime
  draw : Double
  memory : Memory

/-- The first moment of 1970 and the number zero. -/
def Surroundings.still : Surroundings := ⟨⟨⟨1970, 1, 1⟩, 0, 0, 0, 0⟩, .zero, .apart⟩

namespace Functions
open Value

def length : Value → Value
  | list items => ofNat items.length
  | text s | safe s => ofNat s.length
  | dict entries => ofNat entries.length
  | _ => int 0

def keys : Value → Value
  | dict entries => list ((Dict.keys entries).map text)
  | _ => list []

def values : Value → Value
  | dict entries => list (Dict.values entries)
  | _ => list []

/-- Integers from `current` on by `step` until `stop` is reached, pushed onto those before. -/
def intsFrom (stop step : Int) : (fuel : Nat) → Int → List Int → List Int
  | 0, _, earlier => earlier.reverse
  | fuel + 1, current, earlier =>
    if (0 < step && current < stop) || (step < 0 && stop < current) then
      intsFrom stop step fuel (current + step) (current :: earlier)
    else earlier.reverse

/-- The integers of a range; each step comes nearer to the end by one at least. -/
def ints (start stop step : Int) : List Int :=
  intsFrom stop step (stop - start).natAbs start []

/-- Numbers from `current` on by `step`; none if the fuel does not last. -/
def numbersFrom (stop step : Number) :
    (fuel : Nat) → Number → List Number → Except Fault (Option (List Number))
  | 0, _, _ => .ok none
  | fuel + 1, current, earlier =>
    if (Number.lt (.int 0) step && current.lt stop) || (step.lt (.int 0) && stop.lt current) then do
      numbersFrom stop step fuel (← current.add step) (current :: earlier)
    else .ok (some earlier.reverse)

/-- Where a number stands on the line, in units; an infinity is the least magnitude out of range. -/
def extent : Number → Int
  | .int n => n * Double.one
  | .real (.nan _) => 0
  | .real (.infinity negative) => Double.signed negative Double.outOfRange
  | .real (.finite negative units) => Double.signed negative units

/-- More steps than a range takes that ends: each comes nearer to its end by a unit at least, and
the first may lead to any of the doubles. -/
def enough (first last : Number) : Nat :=
  (extent first).natAbs + (extent last).natAbs + Double.outOfRange + 4

/-- A number that is zero counts as the integer zero. -/
def bound (value : Value) : Number :=
  let number := value.numberOrZero
  if number.isZero then .int 0 else number

/-- The numbers from `start` up to, and without, `stop`. With one bound they start at zero; by
a step of zero there are none. -/
def range (start stop step : Value) : Except Fault Value :=
  let (first, last) := match stop with
    | null => (Number.int 0, bound start)
    | _ => (bound start, bound stop)
  match first, last, bound step with
  | .int a, .int b, .int s => .ok (list ((ints a b s).map int))
  | a, b, s => do
    match ← numbersFrom b s (enough a b) a [] with
    | some numbers => return list (numbers.map ofNumber)
    | none => throw .endless

/-- A value, unless it is missing or an empty text. -/
def orDefault (value fallback : Value) : Value :=
  if value.isMissing || value.asText? == some "" then fallback else value

/-- A number between two bounds, drawn from outside. -/
def random (draw : Double) (low high : Value) : Except Fault Value := do
  let bottom := bound low
  let top := (high.toNumber).getD (.int 1)
  let width ← top.sub bottom
  return ofNumber (← (← (Number.real draw).mul width).add bottom)

/-- A number rounded to a count of places; without places it is an integer. What stands for
no number stays as it is. -/
def round (value decimals : Value) : Except Fault Value :=
  match value.toNumber with
  | none => .ok value
  | some number => do
    let places ← decimals.numberOrZero.toInt
    let rounded ← number.roundTo places
    if places ≤ 0 then return int (← rounded.toInt) else return ofNumber rounded

def arg (args : List Value) (i : Nat) (default : Value) : Value := args.getD i default

def all (s : Surroundings) : List Builtin := [
  ⟨"len", ⟨"fn_len", none, 1⟩, fun a => .ok (length (arg a 0 undefined))⟩,
  ⟨"keys", ⟨"fn_keys", none, 1⟩, fun a => .ok (keys (arg a 0 undefined))⟩,
  ⟨"values", ⟨"fn_values", none, 1⟩, fun a => .ok (values (arg a 0 undefined))⟩,
  ⟨"range", ⟨"fn_range", none, 3⟩, fun a => range (arg a 0 (int 0)) (arg a 1 null) (arg a 2 (int 1))⟩,
  ⟨"default", ⟨"fn_default", none, 2⟩, fun a => .ok (orDefault (arg a 0 undefined) (arg a 1 (text "")))⟩,
  ⟨"now", ⟨"fn_now", none, 0⟩, fun _ => .ok (datetime s.clock)⟩,
  ⟨"random", ⟨"fn_random", none, 2⟩, fun a => random s.draw (arg a 0 (int 0)) (arg a 1 (int 1))⟩,
  ⟨"round", ⟨"fn_round", some "value", 2⟩, fun a => round (arg a 0 undefined) (arg a 1 (int 0))⟩]

end Functions
end Stencil
