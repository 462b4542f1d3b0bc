import Stencil.Number.Double

/-! Decimal notation of doubles: the fewest digits that read back, and a fixed number of
places. -/
namespace Stencil.Decimal

/-- A positive decimal: `digits` times ten to the power `exponent`. -/
structure Figure where
  digits : Nat
  exponent : Int
deriving DecidableEq, Repr

/-- The places at which positional notation gives way to an exponent. -/
structure Style where
  lowest : Int
  highest : Int
  exponentWidth : Nat

/-- Numbers from 10⁻⁴ up to 10¹⁶ are written positionally; an exponent has two digits at
least. -/
def plain : Style := ⟨-4, 16, 2⟩

def digitCount (n : Nat) : Nat := (Nat.toDigits 10 n).length

/-- Numerator and denominator of a count of units measured in steps of 10^`exponent`. -/
def scaled (units : Nat) (exponent : Int) : Nat × Nat :=
  if exponent < 0 then (units * Nat.pow 10 exponent.natAbs, Double.one)
  else (units, Double.one * Nat.pow 10 exponent.natAbs)

/-- Least exponent from a starting point on such that the number is below that power of
ten. -/
def ceilingFrom (units : Nat) : (fuel : Nat) → Int → Int
  | 0, exponent => exponent
  | fuel + 1, exponent =>
    let (numerator, denominator) := scaled units exponent
    if numerator < denominator then exponent else ceilingFrom units fuel (exponent + 1)

/-- Number of digits before the point, negative for zeros after it. -/
def magnitude (units : Nat) : Int :=
  let binary : Int := (units.log2 : Int) - 1074
  ceilingFrom units 5 (Int.fdiv (binary * 30103) 100000 - 1)

/-- Width of the interval of reals that round to a double, on either side of it, in half
units, and whether its ends belong to it. -/
structure Rounding where
  below : Nat
  above : Nat
  closed : Bool

def roundingOf (units : Nat) : Rounding :=
  let spare := units.log2 + 1 - 53
  let step := Nat.pow 2 spare
  let boundary := spare > 0 && units == Nat.pow 2 units.log2
  { below := if boundary then step / 2 else step
    above := step
    closed := (units / step) % 2 == 0 }

/-- The decimal `digits · 10^exponent` rounds to the double. -/
def readsBack (units : Nat) (rounding : Rounding) (digits : Nat) (exponent : Int) : Bool :=
  let unit := if exponent < 0 then Double.one else Double.one * Nat.pow 10 exponent.natAbs
  let stretch := if exponent < 0 then Nat.pow 10 exponent.natAbs else 1
  let decimal := 2 * digits * unit
  let exact := 2 * units * stretch
  let within (distance limit : Nat) : Bool :=
    if rounding.closed then distance ≤ limit else distance < limit
  if decimal < exact then within (exact - decimal) (rounding.below * stretch)
  else within (decimal - exact) (rounding.above * stretch)

/-- The nearer of the two neighbours on a decimal grid that read back. -/
def onGrid (units : Nat) (rounding : Rounding) (exponent : Int) : Option Figure :=
  let (numerator, denominator) := scaled units exponent
  let low := numerator / denominator
  let hits (digits : Nat) : Bool := readsBack units rounding digits exponent
  match hits low, hits (low + 1) with
  | true, true => some ⟨nearest numerator denominator, exponent⟩
  | true, false => some ⟨low, exponent⟩
  | false, true => some ⟨low + 1, exponent⟩
  | false, false => none

/-- Grids of one digit more at each step. -/
def firstGrid (units : Nat) (rounding : Rounding) : (fuel : Nat) → Int → Figure
  | 0, exponent => ⟨(scaled units exponent).1 / (scaled units exponent).2, exponent⟩
  | fuel + 1, exponent =>
    match onGrid units rounding exponent with
    | some figure => figure
    | none => firstGrid units rounding fuel (exponent - 1)

/-- A number just below a power of ten may be rounded up to it on the first grid. -/
def carry (figure : Figure) : Figure :=
  if figure.digits == 10 then ⟨1, figure.exponent + 1⟩ else figure

/-- The shortest decimal that reads back as a positive double, and of those the nearest. -/
def shortest (units : Nat) : Figure :=
  carry (firstGrid units (roundingOf units) 17 (magnitude units - 1))

def zeros (n : Nat) : List Char := List.replicate n '0'

/-- An exponent mark with its sign and at least the given number of digits. -/
def exponentMark (width : Nat) (exponent : Int) : List Char :=
  let digits := Nat.toDigits 10 exponent.natAbs
  'e' :: (if exponent < 0 then '-' else '+') :: zeros (width - digits.length) ++ digits

/-- A figure written with a point, or with an exponent where the notation says so. -/
def write (style : Style) (figure : Figure) : List Char :=
  let digits := Nat.toDigits 10 figure.digits
  let leading : Int := digits.length + figure.exponent - 1
  if leading < style.lowest || style.highest ≤ leading then
    let fraction := digits.drop 1
    digits.take 1 ++ (if fraction.isEmpty then [] else '.' :: fraction) ++
      exponentMark style.exponentWidth leading
  else if leading < 0 then '0' :: '.' :: zeros (leading.natAbs - 1) ++ digits
  else
    let whole := leading.natAbs + 1
    if digits.length ≤ whole then digits ++ zeros (whole - digits.length) ++ ['.', '0']
    else digits.take whole ++ '.' :: digits.drop whole

/-- The text of a double that reads back as the same double. -/
def ofDouble : Double → List Char
  | .nan _ => ['n', 'a', 'n']
  | .infinity negative => (if negative then ['-'] else []) ++ ['i', 'n', 'f']
  | .finite negative units =>
    let body := if units == 0 then ['0', '.', '0'] else write plain (shortest units)
    if negative then '-' :: body else body

/-- The text of a double with two places. -/
def cents : Double → List Char
  | .nan _ => ['n', 'a', 'n']
  | .infinity negative => (if negative then ['-'] else []) ++ ['i', 'n', 'f']
  | .finite negative units =>
    let hundredths := nearest (units * 100) Double.one
    let fraction := Nat.toDigits 10 (hundredths % 100)
    (if negative then ['-'] else []) ++ Nat.toDigits 10 (hundredths / 100) ++
      '.' :: zeros (2 - fraction.length) ++ fraction

end Stencil.Decimal
