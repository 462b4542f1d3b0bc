import Stencil.Sorting.Search

/-! Merging of two runs that are in order. It goes item by item, and in leaps while one run wins
often. The longer run stays where it is, so the merge begins at its far end: from the front if
the first run is the shorter one, and from the back, mirrored, if the second is. -/
namespace Stencil.Sorting
variable {α : Type}

/-- Whether one item comes before another; none if the two are not in order. -/
abbrev Comparison (α : Type) := α → α → Option Bool

/-- A merge under way: what is taken, newest first, and what remains of the shorter run and of
the longer one, each from the end where the merge goes on. -/
structure Merging (α : Type) where
  taken : List α
  short : List α
  long : List α

namespace Merging

def take (m : Merging α) (fromShort : Bool) (count : Nat) : Merging α :=
  if fromShort then
    { m with taken := (m.short.take count).reverse ++ m.taken, short := m.short.drop count }
  else { m with taken := (m.long.take count).reverse ++ m.taken, long := m.long.drop count }

/-- The items in the order of the merge, those that remain in an order that needs no more
comparison: the last item of the shorter run comes last. -/
def decided? (m : Merging α) : Option (List α) :=
  match m.short, m.long with
  | short, [] => some (m.taken.reverse ++ short)
  | [], long => some (m.taken.reverse ++ long)
  | [last], long => some (m.taken.reverse ++ long ++ [last])
  | _, _ => none

end Merging

/-- What a merge gives: the items, and how many wins in a row the next merge leaps after. -/
structure Merged (α : Type) where
  items : List α
  patience : Nat

/-- A part of a merge. It is left early when the merge is decided, and has no result when two
items are not in order. -/
abbrev Part (α β : Type) := ExceptT (Merged α) Option β

def goOn (patience : Nat) (m : Merging α) : Part α (Merging α) :=
  match m.decided? with
  | some items => throw ⟨items, patience⟩
  | none => return m

def worthwhile : Nat := 7

section
variable (before : Comparison α) (mirrored : Bool)

def overtakes (short long : α) : Option Bool :=
  if mirrored then before short long else before long short

def leading (goes : α → Option Bool) (run : List α) : Option Nat :=
  let size := run.length
  let asked (i : Nat) : Option Bool := do goes (← run[i]?)
  if mirrored then do
    let fails (i : Nat) : Option Bool := return !(← asked (size - 1 - i))
    return size - (← gallop fails size (size - 1))
  else gallop asked size 0

/-- All items of one run that come before the next one of the other, and that one; with the
count of the former. -/
def leap (fromShort : Bool) (patience : Nat) (m : Merging α) : Part α (Nat × Merging α) := do
  let goes (item : α) : Option Bool := do
    if fromShort then return !(← overtakes before mirrored item (← m.long.head?))
    else overtakes before mirrored (← m.short.head?) item
  let count ← liftM (leading mirrored goes (if fromShort then m.short else m.long))
  let leaped ← goOn patience (m.take fromShort count)
  return (count, ← goOn patience (leaped.take (!fromShort) 1))

mutual
/-- Item by item until one run has won `patience` times in a row; `shortWon` tells which run won
last, `streak` how often in a row. Every item that is taken uses up fuel. -/
def stepThrough : (fuel patience : Nat) → (shortWon : Bool) → (streak : Nat) → Merging α →
    Part α (Merged α)
  | 0, patience, _, _, m => return ⟨m.taken.reverse ++ m.short ++ m.long, patience⟩
  | fuel + 1, patience, shortWon, streak, m => do
    let overtaken ← liftM do overtakes before mirrored (← m.short.head?) (← m.long.head?)
    let next ← goOn patience (m.take (!overtaken) 1)
    let wins := if shortWon == !overtaken then streak + 1 else 1
    if patience ≤ wins then leapThrough fuel (patience + 1) next
    else stepThrough fuel patience (!overtaken) wins next
/-- In leaps from both runs while they are worthwhile. Each round of leaps lessens the patience,
and giving up raises it. -/
def leapThrough : (fuel patience : Nat) → Merging α → Part α (Merged α)
  | 0, patience, m => return ⟨m.taken.reverse ++ m.short ++ m.long, patience⟩
  | fuel + 1, patience, m => do
    let less := max 1 (patience - 1)
    let (first, halfway) ← leap before mirrored (!mirrored) less m
    let (second, next) ← leap before mirrored mirrored less halfway
    if worthwhile ≤ first || worthwhile ≤ second then leapThrough fuel less next
    else stepThrough fuel (less + 1) false 0 next
end

/-- The shorter run merged into the longer one, whose first item is known to come first. -/
def mergeInto (patience : Nat) (short long : List α) : Option (Merged α) := do
  let merge : Part α (Merged α) := do
    let start ← goOn patience (Merging.take ⟨[], short, long⟩ false 1)
    stepThrough before mirrored (short.length + long.length) patience false 0 start
  match ← merge.run with
  | .ok merged | .error merged => return merged

end

def mergeRest (before : Comparison α) (patience : Nat) (first second : List α) :
    Option (Merged α) :=
  if second.isEmpty then some ⟨first, patience⟩
  else if first.length ≤ second.length then mergeInto before false patience first second
  else (mergeInto before true patience second.reverse first.reverse).map fun merged =>
    { merged with items := merged.items.reverse }

/-- Two runs, each in order, as one. What stands in place at the start of the first run and at
the end of the second is left out of the merge. -/
def mergeRuns (before : Comparison α) (patience : Nat) (first second : List α) :
    Option (Merged α) := do
  let head ← second.head?
  let behind (i : Nat) : Option Bool := return !(← before head (← first[i]?))
  let kept ← gallop behind first.length 0
  let moving := first.drop kept
  match moving.getLast? with
  | none => return ⟨first ++ second, patience⟩
  | some last =>
    let ahead (i : Nat) : Option Bool := do before (← second[i]?) last
    let count ← gallop ahead second.length (second.length - 1)
    let merged ← mergeRest before patience moving (second.take count)
    return { merged with items := first.take kept ++ merged.items ++ second.drop count }

end Stencil.Sorting
