import Stencil.Sorting
import Stencil.Value.Equality
import Stencil.Value.Written

/-! Order of values. Numbers and truth values compare with each other, texts by code points,
lists at their first difference, dates with dates, moments with moments and durations with
durations; no other two values are in order. -/
namespace Stencil.Value

def charsLt (a b : String) : Bool := a.toList < b.toList

def dateKey (d : Date) : List Nat := [d.year, d.month, d.day]

def momentKey (t : DateTime) : List Nat :=
  dateKey t.date ++ [t.hour, t.minute, t.second, t.microsecond]

def durationKey (time : Duration) : List Int := [time.days, time.seconds, time.microseconds]

mutual
/-- Whether one value comes before another; none if the two are not in order. -/
def before? : Value → Value → Option Bool
  | bool b, other => other.numeric?.map (Number.lt (.int (if b then 1 else 0)))
  | int n, other => other.numeric?.map (Number.lt (.int n))
  | float x, other => other.numeric?.map (Number.lt (.real x))
  | text s, other | safe s, other => other.asText?.map (charsLt s)
  | date d, other => match other with
    | date e => some (dateKey d < dateKey e)
    | _ => none
  | datetime t, other => match other with
    | datetime u => some (momentKey t < momentKey u)
    | _ => none
  | duration time, other => match other with
    | duration more => some (durationKey time < durationKey more)
    | _ => none
  | list items, other => match other with
    | list others => itemsBefore? items others
    | _ => none
  | _, _ => none
termination_by structural v => v
def itemsBefore? : List Value → List Value → Option Bool
  | [], others => some !others.isEmpty
  | item :: rest, others => match others with
    | [] => some false
    | other :: more => if same item other then itemsBefore? rest more else before? item other
termination_by structural items => items
end

/-! ### Sorting -/

/-- Any two of the items, taken as they stand, are in order. -/
def allInOrder : List Value → Bool
  | [] => true
  | item :: rest => rest.all (fun other => (before? item other).isSome) && allInOrder rest

/-- Items of one kind that are always in order. -/
def uniform (items : List Value) : Bool :=
  items.all (·.numeric?.isSome) || items.all (·.asText?.isSome)

def inOrder (items : List Value) : Bool := uniform items || allInOrder items

mutual
/-- A double that is no number is equal to nothing and before nothing. -/
def hasNan : Value → Bool
  | float (.nan _) => true
  | list items => anyNan items
  | _ => false
termination_by structural v => v
def anyNan : List Value → Bool
  | [] => false
  | item :: rest => hasNan item || anyNan rest
termination_by structural items => items
end

def before (a b : Value) : Bool := (before? a b).getD false

/-- Items that are in order; items of equal rank keep their order. -/
def sortInOrder (items : List Value) : List Value := items.mergeSort fun a b => !before b a

/-- Items by the text they render to. -/
def sortByText (items : List Value) : Except Fault (List Value) := do
  let keyed := (← itemTexts items).zip items
  return (keyed.mergeSort fun a b => !charsLt b.1 a.1).map (·.2)

/-- The items in increasing order, if they are in order with each other. -/
def sorted? (items : List Value) : Option (List Value) :=
  if anyNan items then Sorting.byRuns before? items
  else if inOrder items then some (sortInOrder items)
  else none

/-- The items in increasing order; if some are not in order with each other, by the text they
render to. -/
def sort (items : List Value) : Except Fault (List Value) :=
  match sorted? items with
  | some sorted => .ok sorted
  | none => sortByText items

end Stencil.Value
