import Stencil.Value.Numeric

/-! Equality of values as items of lists and dictionaries: numbers by what they stand for, texts
by their characters, lists item by item, dictionaries key by key in any order, methods by what they
belong to. What is no number is equal to the same one. -/
namespace Stencil.Value

mutual
def same : Value → Value → Bool
  | undefined, other => match other with
    | undefined => true
    | _ => false
  | null, other => match other with
    | null => true
    | _ => false
  | bool b, other => other.numeric?.any (Number.eq (.int (if b then 1 else 0)))
  | int n, other => other.numeric?.any (Number.eq (.int n))
  | float x, other => other.numeric?.any (Number.eq (.real x)) || other.isSameNan x
  | text s, other | safe s, other => other.asText? == some s
  | list items, other => match other with
    | list others => sameItems items others
    | _ => false
  | dict entries, other => match other with
    | dict others => entries.length == others.length && sameEntries entries others
    | _ => false
  | date d, other => match other with
    | date e => d == e
    | _ => false
  | datetime t, other => match other with
    | datetime u => t == u
    | _ => false
  | duration time, other => match other with
    | duration more => time == more
    | _ => false
  | method m, other => match other with
    | method n => m == n
    | _ => false
termination_by structural v => v
def sameItems : List Value → List Value → Bool
  | [], others => others.isEmpty
  | item :: rest, others => match others with
    | [] => false
    | other :: more => same item other && sameItems rest more
termination_by structural items => items
def sameEntries : List (String × Value) → List (String × Value) → Bool
  | [], _ => true
  | (key, item) :: rest, others =>
    (match others.lookup key with
      | some other => same item other
      | none => false) && sameEntries rest others
termination_by structural entries => entries
end

/-! ### Identity of what is no number

A loop binds its items to names, and from then on an item that is no number is the same one
wherever its name stands. -/

mutual
/-- The value bound in a frame, at a place within the items of a loop. -/
def settled (frame : Nat) (place : List Nat) : Value → Value
  | float (.nan .fresh) => float (.nan (.looped frame place))
  | list items => list (settledItems frame place 0 items)
  | dict entries => dict (settledEntries frame place 0 entries)
  | value => value
termination_by structural v => v
/-- Items from an index on. -/
def settledItems (frame : Nat) (place : List Nat) (index : Nat) : List Value → List Value
  | [] => []
  | item :: rest =>
    item.settled frame (index :: place) :: settledItems frame place (index + 1) rest
termination_by structural items => items
def settledEntries (frame : Nat) (place : List Nat) (index : Nat) :
    List (String × Value) → List (String × Value)
  | [] => []
  | (key, item) :: rest =>
    (key, item.settled frame (index :: place)) :: settledEntries frame place (index + 1) rest
termination_by structural entries => entries
end

end Stencil.Value
