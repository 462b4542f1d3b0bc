import Stencil.Number.Reading
import Stencil.Value

/-! Values as numbers. -/
namespace Stencil.Value

/-- A text that reads as an integer but is written without a point or an exponent stands for
the integer part of the double it reads as. -/
def numberOfText (text : List Char) : Option Number :=
  let body := Text.trim text
  if body.isEmpty then some (.int 0)
  else do
    let x ← Reading.double? body
    let pointed := body.any fun c => c == '.' || c == 'e' || c == 'E'
    match x with
    | .finite negative units =>
      if x.isIntegral && !pointed then some (.int (Double.signed negative (units / Double.one)))
      else some (.real x)
    | _ => some (.real x)

/-- The number a value stands for in arithmetic and comparisons. -/
def toNumber : Value → Option Number
  | null => some (.int 0)
  | bool b => some (.int (if b then 1 else 0))
  | int n => some (.int n)
  | float x => some (.real x)
  | text s | safe s => numberOfText s.toList
  | _ => none

def numeric? : Value → Option Number
  | bool b => some (.int (if b then 1 else 0))
  | int n => some (.int n)
  | float x => some (.real x)
  | _ => none

/-- A double that is no number, and the same one as another. -/
def isSameNan (value : Value) (x : Double) : Bool :=
  match value with
  | float y => x.isSameNan y
  | _ => false

def numberOrZero (value : Value) : Number := (toNumber value).getD (.int 0)

end Stencil.Value
