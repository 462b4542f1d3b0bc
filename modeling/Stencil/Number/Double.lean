/-! Double-precision numbers. Every finite one is a whole number of the smallest positive
one, so sums, comparisons and remainders are those of integers and each result is rounded
once, to the nearest number and in a tie to the even one. -/
namespace Stencil

/-- Where a double that is no number came up. It is equal to no double, and still the same as
those that came up at the same place. -/
inductive NanSource
  /-- A result of its own, which is the same as none. -/
  | fresh
  /-- Arithmetic on what stands for no number. -/
  | arithmetic
  /-- The word in a document. -/
  | document
  /-- One of the values that were handed in. -/
  | given (number : Nat)
  /-- An item of a loop: the frame it is bound in first, and its place within the items. -/
  | looped (frame : Nat) (place : List Nat)
deriving DecidableEq, Repr

/-- A double: not a number, an infinity, or a signed count of units of 2⁻¹⁰⁷⁴. -/
inductive Double
  | nan (source : NanSource)
  | infinity (negative : Bool)
  | finite (negative : Bool) (units : Nat)
deriving DecidableEq, Repr

/-- The integer nearest to a quotient; a tie goes to the even one. -/
def nearest (numerator denominator : Nat) : Nat :=
  let floor := numerator / denominator
  let excess := 2 * (numerator % denominator)
  if excess < denominator || (excess == denominator && floor % 2 == 0) then floor else floor + 1

namespace Double

/-- The number one, in units. -/
def one : Nat := Nat.pow 2 1074

/-- The least magnitude that is out of range, in units. -/
def outOfRange : Nat := Nat.pow 2 2098

def zero : Double := finite false 0

/-- A quotient of units rounded to 53 significant bits. -/
def roundUnits (numerator denominator : Nat) : Nat :=
  let spare := (numerator / denominator).log2 + 1 - 53
  nearest numerator (denominator <<< spare) <<< spare

/-- The double nearest to a quotient of units, infinite when out of range. -/
def ofUnits (negative : Bool) (numerator denominator : Nat) : Double :=
  let units := roundUnits numerator denominator
  if units < outOfRange then finite negative units else infinity negative

/-- The double nearest to a quotient. -/
def ofRatio (negative : Bool) (numerator denominator : Nat) : Double :=
  ofUnits negative (numerator * one) denominator

/-- The double nearest to an integer, infinite when out of range. -/
def ofInt (n : Int) : Double := ofRatio (n < 0) n.natAbs 1

/-- The units of a finite double, with its sign. -/
def signed (negative : Bool) (units : Nat) : Int := if negative then -units else units

def isFinite : Double → Bool
  | finite .. => true
  | _ => false

/-- A finite double without a fractional part. -/
def isIntegral : Double → Bool
  | finite _ units => units % one == 0
  | _ => false

/-- The integer part of a finite double. -/
def truncate? : Double → Option Int
  | finite negative units => some (signed negative (units / one))
  | _ => none

def isZero : Double → Bool
  | finite _ units => units == 0
  | _ => false

/-- What is no number is a new one in every result. -/
def undetermined : Double := nan .fresh

/-- The same number as a result. -/
def asResult : Double → Double
  | nan _ => undetermined
  | x => x

/-- Both are no numbers and came up at the same place. -/
def isSameNan : Double → Double → Bool
  | nan a, nan b => a == b && a != .fresh
  | _, _ => false

def neg : Double → Double
  | nan _ => undetermined
  | infinity negative => infinity !negative
  | finite negative units => finite (!negative) units

/-- A sum of zeros of both signs, or of opposite numbers, is the positive zero. -/
def add : Double → Double → Double
  | nan _, _ | _, nan _ => undetermined
  | infinity a, infinity b => if a == b then infinity a else undetermined
  | infinity a, _ => infinity a
  | _, infinity b => infinity b
  | finite a m, finite b n =>
    let sum := signed a m + signed b n
    if sum == 0 then finite (a && b) 0 else ofUnits (sum < 0) sum.natAbs 1

def sub (x y : Double) : Double := add x y.neg

def mul : Double → Double → Double
  | nan _, _ | _, nan _ => undetermined
  | infinity a, infinity b => infinity (a != b)
  | infinity a, finite b n => if n == 0 then undetermined else infinity (a != b)
  | finite a m, infinity b => if m == 0 then undetermined else infinity (a != b)
  | finite a m, finite b n => ofUnits (a != b) (m * n) one

def div : Double → Double → Double
  | nan _, _ | _, nan _ => undetermined
  | infinity _, infinity _ => undetermined
  | infinity a, finite b _ => infinity (a != b)
  | finite a _, infinity b => finite (a != b) 0
  | finite a m, finite b n =>
    if n == 0 then (if m == 0 then undetermined else infinity (a != b))
    else ofUnits (a != b) (m * one) n

/-- The remainder with the sign of the dividend; none for an infinite dividend. -/
def remainder? : Double → Double → Option Double
  | nan _, _ | _, nan _ => some undetermined
  | infinity _, _ => none
  | finite a m, infinity _ => some (finite a m)
  | finite a m, finite _ n => some (if n == 0 then undetermined else finite a (m % n))

/-- The multiple of a power of ten nearest to a finite double: `places` digits are kept
after the point. -/
def roundPlaces (places : Int) : Double → Double
  | finite negative units =>
    if places < 0 then
      let scale := Nat.pow 10 places.natAbs
      ofRatio negative (nearest units (one * scale) * scale) 1
    else
      let scale := Nat.pow 10 places.natAbs
      ofRatio negative (nearest (units * scale) one) scale
  | x => x

end Double
end Stencil
