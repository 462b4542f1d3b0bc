import Stencil.Markup.Expression

/-! Constructs: what stands between text in a template, and the filters and calls found in
them. -/
namespace Stencil.Markup

structure Recognition where
  interpolations : List Match
  blockStarts : List Match
  blockEnds : List Match
  comments : List Match
  tags : List Match
  filters : List Match
  functions : List Match

namespace Recognition

/-- The lists by name. -/
def fields (r : Recognition) : List (String × List Match) := [
  ("variables", r.interpolations), ("block_starts", r.blockStarts), ("block_ends", r.blockEnds),
  ("comments", r.comments), ("tags", r.tags), ("filters", r.filters), ("functions", r.functions)]

/-- The matches that start after the ones kept before them have ended. -/
def disjoint (reached : Nat) : List Match → List Match
  | [] => []
  | m :: rest => if m.start < reached then disjoint reached rest else m :: disjoint m.stop rest

/-- The constructs in order; of two that overlap the one that starts first is kept. -/
def constructs (r : Recognition) : List Match :=
  disjoint 0 ((r.interpolations ++ r.blockStarts ++ r.blockEnds ++ r.comments ++ r.tags).mergeSort
    Match.outerFirst)

end Recognition

def interval (m : Match) : Nat × Nat := (m.start, m.stop)

/-- Calls in the expression of a variable. -/
def variableCalls (m : Match) : List Match :=
  let inner := m.capture 0
  calls inner (m.start + 2) (protectedIntervals inner)

/-- Calls in what follows the word of an opening tag. -/
def blockCalls (m : Match) : List Match :=
  match m.captures[1]? with
  | none => []
  | some piece => calls piece.text piece.start (protectedIntervals piece.text)

def recognize (text : List Char) : Recognition :=
  let interpolations := scan .interpolation text 0 []
  let blockStarts := scan .blockStart text 0 []
  let blockEnds := scan .blockEnd text 0 []
  let known := (blockStarts ++ blockEnds).map interval
  { interpolations, blockStarts, blockEnds
    comments := scan .comment text 0 []
    tags := (scan .tag text 0 []).filter fun m => !known.contains (interval m)
    filters := interpolations.flatMap fun m => filters (m.capture 0) (m.start + 2)
    functions := interpolations.flatMap variableCalls ++ blockStarts.flatMap blockCalls }

/-- The constructs of a template in order. -/
def constructs (text : List Char) : List Match := (recognize text).constructs

end Stencil.Markup
