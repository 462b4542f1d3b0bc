import Stencil.Markup.Scan

/-! Parts of expressions: filters, calls and accessor chains with what belongs to them, and
the elements of an expression in the order in which they claim their place. -/
namespace Stencil.Markup
open Text

/-- A filter head with everything up to `stop`. -/
def filterMatch (text : List Char) (base : Nat) (head : Match) (stop : Nat) : Match :=
  let tail := (text.drop head.stop).take (stop - head.stop)
  let stripped := trim tail
  let start := head.stop + blankCount tail + 1
  let whole := trimEnd ((text.drop head.start).take (stop - head.start))
  let detail : Detail := match stripped with
    | ':' :: given =>
      .filter (head.capture 0) (some (trim given))
        (arguments ':' ((text.drop start).take (stop - start)) (base + start)) []
    | garbage => .filter (head.capture 0) none [] garbage
  ⟨.filter, whole, base + head.start, detail⟩

/-- The filters outside quotes and brackets, each reaching to the next. -/
def filters (text : List Char) (base : Nat) : List Match :=
  let free := outside text
  let heads := (scan .filter text 0 []).filter fun head => free.getD head.start false
  let stops := (heads.drop 1).map (·.start) ++ [text.length]
  (heads.zip stops).map fun (head, stop) => filterMatch text base head stop

/-- The call at a head, if its parenthesis is closed. -/
def callMatch? (text : List Char) (base : Nat) (head : Match) : Option Match := do
  let start := head.stop - 1
  let close ← closing? text start
  let inner := (text.drop (start + 1)).take (close - start - 1)
  return ⟨.function, (text.drop head.start).take (close + 1 - head.start), base + head.start,
    .call (head.capture 0) inner (arguments ',' inner (base + start + 1))⟩

/-- Steps of a chain from `offset` on, and where they end; `fuel` bounds their number. -/
def segmentsFrom (base : Nat) : (fuel offset : Nat) → List Char → List Segment × Nat
  | fuel + 1, offset, '.' :: rest =>
    let name := leadingName rest
    if name.isEmpty then ([], offset)
    else
      let more := segmentsFrom base fuel (offset + 1 + name.length) (rest.drop name.length)
      (.property ⟨name, base + offset + 1⟩ :: more.1, more.2)
  | fuel + 1, offset, '[' :: rest =>
    match closingFrom [] none 0 ('[' :: rest) with
    | none => ([], offset)
    | some close =>
      let inner : Piece := ⟨rest.take (close - 1), base + offset + 1⟩
      let more := segmentsFrom base fuel (offset + close + 1) (rest.drop close)
      (.index inner.trim :: more.1, more.2)
  | _, offset, _ => ([], offset)

/-- The accessor chain at a head, if it has a step. -/
def pathMatch? (text : List Char) (base : Nat) (head : Match) : Option Match :=
  let rest := text.drop head.stop
  let (segments, stop) := segmentsFrom base rest.length head.stop rest
  if segments.isEmpty then none
  else some ⟨.accessor, (text.drop head.start).take (stop - head.start), base + head.start,
    .path (head.capture 0) segments⟩

/-- The matches at heads that do not start inside the match before; `reached` is where that
one ends. -/
def outermost (build : Match → Option Match) (base reached : Nat) : List Match → List Match
  | [] => []
  | head :: rest =>
    if head.start < reached then outermost build base reached rest
    else match build head with
      | none => outermost build base reached rest
      | some m => m :: outermost build base (m.stop - base) rest

def calls (text : List Char) (base : Nat) (exclude : List (Nat × Nat)) : List Match :=
  outermost (callMatch? text base) base 0 (scan .function text 0 exclude)

def paths (text : List Char) (base : Nat) (exclude : List (Nat × Nat)) : List Match :=
  outermost (pathMatch? text base) base 0 (scan .accessor text 0 exclude)

/-- The intervals of the string literals. -/
def protectedIntervals (text : List Char) : List (Nat × Nat) :=
  (scan .string text 0 []).map fun m => (m.start, m.stop)

/-- The elements of an expression in the order in which they claim their place: strings, calls
and chains, outer ones first, then keywords, numbers, operators and names. -/
def elements (text : List Char) (base : Nat) : List Match :=
  let guarded := protectedIntervals text
  let nested := scan .string text base [] ++ calls text base guarded ++ paths text base guarded
  nested.mergeSort Match.outerFirst ++
    [Category.keywordLiteral, .number, .operator, .identifier].flatMap
      fun category => scan category text base guarded

end Stencil.Markup
