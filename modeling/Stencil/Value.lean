import Stencil.Calendar
import Stencil.Dict
import Stencil.Number

/-! Values of the template language. -/
namespace Stencil

/-- Kinds of objects that have methods. -/
inductive Kind
  | bool
  | int
  | float
  | date
  | datetime
  | duration
deriving DecidableEq, Repr

def Kind.text : Kind → String
  | bool => "bool"
  | int => "int"
  | float => "float"
  | date => "datetime.date"
  | datetime => "datetime.datetime"
  | duration => "datetime.timedelta"

/-- A method of an object at an address; a shared one belongs to the kind of the object. Templates
cannot call it, but they can print and compare it. -/
structure Method where
  name : String
  kind : Kind
  shared : Bool
  address : Nat
deriving DecidableEq, Repr

/-- A value. `safe` is text that must not be escaped again; `undefined` is what a name that is
bound nowhere stands for. -/
inductive Value
  | undefined
  | null
  | bool (b : Bool)
  | int (n : Int)
  | float (x : Double)
  | text (s : String)
  | safe (s : String)
  | list (items : List Value)
  | dict (entries : List (String × Value))
  | date (d : Date)
  | datetime (t : DateTime)
  | duration (time : Duration)
  | method (m : Method)

instance : Inhabited Value := ⟨.undefined⟩

namespace Value

def isMissing : Value → Bool
  | undefined | null => true
  | _ => false

/-- Text, whether or not it is safe. -/
def asText? : Value → Option String
  | text s | safe s => some s
  | _ => none

def isSafe : Value → Bool
  | safe _ => true
  | _ => false

def ofChars (chars : List Char) : Value := text (String.ofList chars)

def ofNumber : Number → Value
  | .int n => int n
  | .real x => float x

def ofNat (n : Nat) : Value := int n

def ofTexts (texts : List String) : Value := list (texts.map text)

/-- A value, or null where there is none. -/
def orNull (value : Option Value) : Value := value.getD null

/-- Numbers by name. -/
def ofCounts (counts : Dict Nat) : Value := dict (counts.map fun entry => (entry.1, ofNat entry.2))

/-- A value counts as true unless it is missing, zero or empty. -/
def truthy : Value → Bool
  | undefined | null => false
  | bool b => b
  | int n => n != 0
  | float x => !x.isZero
  | text s | safe s => !s.isEmpty
  | list items => !items.isEmpty
  | dict entries => !entries.isEmpty
  | duration time => time != ⟨0, 0, 0⟩
  | date _ | datetime _ | method _ => true

end Value
end Stencil
