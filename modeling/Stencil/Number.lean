import Stencil.Fault
import Stencil.Number.Double

/-! Numbers of the template language: unbounded integers and doubles. They compare exactly;
arithmetic that mixes the two is done in doubles. -/
namespace Stencil

inductive Number
  | int (n : Int)
  | real (x : Double)
deriving DecidableEq, Repr

namespace Number

/-- The place of a number on the line: negative infinity, a count of units, infinity. -/
structure Rank where
  tier : Int
  units : Int
deriving DecidableEq, Repr

def Rank.compare (a b : Rank) : Ordering :=
  (Ord.compare a.tier b.tier).then (Ord.compare a.units b.units)

/-- What is not a number has no rank. -/
def rank? : Number → Option Rank
  | int n => some ⟨0, n * Double.one⟩
  | real (.nan _) => none
  | real (.infinity negative) => some ⟨if negative then -1 else 1, 0⟩
  | real (.finite negative units) => some ⟨0, Double.signed negative units⟩

def compare? (a b : Number) : Option Ordering := do
  let x ← a.rank?
  let y ← b.rank?
  return x.compare y

def eq (a b : Number) : Bool := compare? a b == some .eq
def lt (a b : Number) : Bool := compare? a b == some .lt
def le (a b : Number) : Bool := a.lt b || a.eq b

def isZero : Number → Bool
  | int n => n == 0
  | real x => x.isZero

/-- A double that must not have been rounded to an infinity. -/
def inRange (fault : Fault) : Double → Except Fault Double
  | .infinity _ => .error fault
  | x => .ok x

/-- The double of a number, unless it is an integer out of range. -/
def toDouble : Number → Except Fault Double
  | int n => inRange .integerTooLarge (Double.ofInt n)
  | real x => .ok x

/-- The integer part. -/
def toInt : Number → Except Fault Int
  | int n => .ok n
  | real (.nan _) => .error .nanToInteger
  | real (.infinity _) => .error .infinityToInteger
  | real (.finite negative units) => .ok (Double.signed negative (units / Double.one))

/-- Integer arithmetic on two integers, double arithmetic otherwise. -/
def combine (whole : Int → Int → Int) (broken : Double → Double → Double) (a b : Number) :
    Except Fault Number :=
  match a, b with
  | int m, int n => .ok (int (whole m n))
  | _, _ => do return real (broken (← a.toDouble) (← b.toDouble))

def add : Number → Number → Except Fault Number := combine (· + ·) Double.add
def sub : Number → Number → Except Fault Number := combine (· - ·) Double.sub
def mul : Number → Number → Except Fault Number := combine (· * ·) Double.mul

/-- A quotient by a divisor that is not zero. That of two integers is rounded once. -/
def div (a b : Number) : Except Fault Number :=
  match a, b with
  | int m, int n => do
    return real (← inRange .quotientTooLarge
      (Double.ofRatio ((m < 0) != (n < 0)) m.natAbs n.natAbs))
  | _, _ => do return real ((← a.toDouble).div (← b.toDouble))

/-- A remainder by a divisor that is not zero, with the sign of the dividend. It is computed
in doubles; that of two integers is an integer again. -/
def mod (a b : Number) : Except Fault Number := do
  let x ← a.toDouble
  let y ← b.toDouble
  match x.remainder? y with
  | none => .error .domain
  | some r =>
    match a, b with
    | int _, int _ => return int (← (real r).toInt)
    | _, _ => return real r

def neg : Number → Number
  | int n => int (-n)
  | real x => real x.neg

/-- An integer rounded to a multiple of a power of ten, a tie going to the even multiple. -/
def roundInt (n : Int) (places : Int) : Int :=
  if 0 ≤ places then n
  else if (Nat.toDigits 10 n.natAbs).length + 1 < places.natAbs then 0
  else
    let scale := Nat.pow 10 places.natAbs
    let rounded := nearest n.natAbs scale * scale
    if n < 0 then -rounded else rounded

/-- Places beyond which rounding changes nothing, or leaves nothing. -/
def finestPlaces : Int := 323
def coarsestPlaces : Int := -308

/-- A number rounded to a count of decimal places. -/
def roundTo (places : Int) : Number → Except Fault Number
  | int n => .ok (int (roundInt n places))
  | real x =>
    if !x.isFinite || places > finestPlaces then .ok (real x.asResult)
    else if places < coarsestPlaces then .ok (real (Double.zero.mul x))
    else do return real (← inRange .roundedTooLarge (x.roundPlaces places))

end Number
end Stencil
