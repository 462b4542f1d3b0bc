import Stencil.Sorting.Merge

/-! Sorting by runs: runs that are found in order are lengthened to a least length and merged
with their neighbours. For items that are always in order this is the stable sort. The
comparison need not be an order: the result then depends on which items are compared, and these
are the ones. -/
namespace Stencil.Sorting
variable {α : Type}

/-! ### Runs -/

/-- Length of the run at the start that falls at every step, or that never falls. -/
def runLength (before : Comparison α) (falling : Bool) (previous : α) : List α → Option Nat
  | [] => some 1
  | item :: rest => do
    if (← before item previous) == falling then return 1 + (← runLength before falling item rest)
    else return 1

/-- The run at the start, a falling one turned round, and what follows it. -/
def firstRun (before : Comparison α) : List α → Option (List α × List α)
  | first :: second :: rest => do
    let falling ← before second first
    let items := first :: second :: rest
    let count := 1 + (← runLength before falling second rest)
    let run := items.take count
    return (if falling then run.reverse else run, items.drop count)
  | items => some (items, [])

/-- An item inserted into a run, behind those equal to it. -/
def insert (before : Comparison α) (run : List α) (item : α) : Option (List α) := do
  let behind (i : Nat) : Option Bool := return !(← before item (← run[i]?))
  let place ← halve behind 0 run.length
  return run.take place ++ item :: run.drop place

/-- Runs shorter than this are lengthened: a part of the size, from 32 to 64, that divides it
nearly into a power of two. -/
def leastRun (size : Nat) : Nat :=
  if size < 64 then size
  else
    let parts := Nat.pow 2 (size.log2 - 5)
    (size + parts - 1) / parts

/-- A run of the items that were sorted so far. -/
structure Run (α : Type) where
  start : Nat
  items : List α
  /-- How deep the boundary to the next run lies, once that is known. -/
  power : Nat

/-! ### Merging of neighbours -/

/-- Runs, the newest first, and the patience of the next merge. -/
structure Pile (α : Type) where
  runs : List (Run α)
  patience : Nat

/-- The depth at which halving of all items parts the midpoints of two neighbouring runs. -/
def boundaryPower (size start first second : Nat) : Nat :=
  let a := 2 * start + first
  let b := a + first + second
  let parted (depth : Nat) : Bool := a * Nat.pow 2 depth / size != b * Nat.pow 2 depth / size
  ((List.range (size.log2 + 2)).find? parted).getD 0 + 1

section
variable (before : Comparison α)

def joinRuns (patience : Nat) (older newer : Run α) : Option (Run α × Nat) := do
  let merged ← mergeRuns before patience older.items newer.items
  return ({ older with items := merged.items }, merged.patience)

/-- Merges the newest run with those before it that have deeper boundaries. -/
def mergeDeeper (power patience : Nat) (newest : Run α) : List (Run α) → Option (Pile α)
  | [] => some ⟨[{ newest with power }], patience⟩
  | older :: rest =>
    if power < older.power then do
      let (joined, patience) ← joinRuns before patience older newest
      mergeDeeper power patience joined rest
    else some ⟨{ newest with power } :: older :: rest, patience⟩

def Pile.add (size : Nat) (pile : Pile α) (run : Run α) : Option (Pile α) := do
  match pile.runs with
  | [] => return { pile with runs := [run] }
  | newest :: rest =>
    let power := boundaryPower size newest.start newest.items.length run.items.length
    let merged ← mergeDeeper before power pile.patience newest rest
    return { merged with runs := run :: merged.runs }

/-- Merges all runs, the shorter neighbour of the newest but one first. -/
def mergeAll (patience : Nat) : List (Run α) → Option (List α)
  | [] => some []
  | [run] => some run.items
  | [newest, older] => do return (← joinRuns before patience older newest).1.items
  | newest :: older :: oldest :: rest => do
    if oldest.items.length < newest.items.length then
      let (joined, patience) ← joinRuns before patience oldest older
      mergeAll patience (newest :: joined :: rest)
    else
      let (joined, patience) ← joinRuns before patience older newest
      mergeAll patience (joined :: oldest :: rest)
termination_by runs => runs.length

/-- Piles up the runs of items from `start` on; every run takes an item at least. -/
def pileUp (size : Nat) : (fuel start : Nat) → Pile α → List α → Option (Pile α)
  | 0, _, pile, _ => some pile
  | _, _, pile, [] => some pile
  | fuel + 1, start, pile, items => do
    let (found, rest) ← firstRun before items
    let missing := leastRun size - found.length
    let run ← (rest.take missing).foldlM (insert before) found
    pileUp size fuel (start + run.length) (← pile.add before size ⟨start, run, 0⟩)
      (rest.drop missing)

/-- The items sorted; none if two that are compared are not in order. -/
def byRuns (items : List α) : Option (List α) := do
  let pile ← pileUp before items.length items.length 0 ⟨[], worthwhile⟩ items
  mergeAll before pile.patience pile.runs

end
end Stencil.Sorting
