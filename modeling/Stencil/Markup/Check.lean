import Stencil.Diagnostic
import Stencil.Markup.Construct
import Stencil.Markup.Keyword

/-! The check of a template's constructs: blocks without a partner, misplaced clauses,
unknown tags, interpolations that cannot be read and marks that stand alone. -/
namespace Stencil.Markup.Check
open Text

/-- A block that waits for its end, and whether its `else` was seen. -/
structure OpenBlock where
  keyword : Keyword
  start : Nat
  divided : Bool

def unclosed (opened : OpenBlock) : Problem :=
  ⟨.unmatchedBlockStart, s!"Unclosed '{opened.keyword.text}' block", opened.start⟩

/-- The blocks that are open after a clause, the innermost first, and what is wrong with the
clause. -/
def clause (opened : List OpenBlock) (keyword : Keyword) (start : Nat) :
    List OpenBlock × List Problem :=
  let outside := ⟨.misplacedClause, s!"'{keyword.text}' outside of an if block", start⟩
  match opened with
  | [] => ([], [outside])
  | innermost :: outer =>
    if innermost.keyword != .cond then (opened, [outside])
    else if innermost.divided then
      (opened, [⟨.misplacedClause, s!"'{keyword.text}' after 'else'", start⟩])
    else ({ innermost with divided := keyword == .otherwise } :: outer, [])

/-- An opening tag: a clause, a block, or a tag that stands alone. -/
def opening (opened : List OpenBlock) (keyword : Keyword) (start : Nat) :
    List OpenBlock × List Problem :=
  if keyword.isClause then clause opened keyword start
  else if keyword.opensBlock then (⟨keyword, start, false⟩ :: opened, [])
  else (opened, [])

/-- A closing tag ends the innermost block it fits; those inside that one stay unclosed. -/
def closing (opened : List OpenBlock) (word : String) (start : Nat) :
    List OpenBlock × List Problem :=
  let fits (o : OpenBlock) : Bool := o.keyword.closing == word
  match opened.dropWhile (!fits ·) with
  | [] => (opened, [⟨.unmatchedBlockEnd, s!"Unexpected '{word}' without matching block", start⟩])
  | _ :: outer => (outer, ((opened.takeWhile (!fits ·)).reverse).map unclosed)

/-- Characters of names, paths and numbers. -/
def isWordish (head : List Char) : Bool :=
  !head.isEmpty && head.all fun c => isNamePart c || c == '.'

/-- Names with points between them. -/
def isNamePath (head : List Char) : Bool := (pieces ['.'] head).all isName

/-- Digits, with a fraction or without. -/
def isNumber (head : List Char) : Bool :=
  let parts := pieces ['.'] head
  parts.length ≤ 2 && parts.all fun part => !part.isEmpty && part.all isDigit

/-- What stands before the first filter of an interpolation. -/
def expressionHead (inner : List Char) : List Char :=
  match filters inner 0 with
  | [] => inner
  | first :: _ => inner.take first.start

def interpolation (m : Match) : List Problem :=
  let inner := m.capture 0
  let head := trim (expressionHead inner)
  if inner.all isBlank then [⟨.emptyInterpolation, "Empty variable interpolation", m.start⟩]
  else if isWordish head && !isNamePath head && !isNumber head then
    [⟨.invalidVariable, "Invalid variable name: " ++ String.ofList head, m.start⟩]
  else []

def unknownTag (m : Match) : Problem :=
  ⟨.invalidTag, s!"Unknown tag '{String.ofList (firstWord (m.capture 0))}'", m.start⟩

/-- The blocks that are open after a construct, and its problems. -/
def step (opened : List OpenBlock) (m : Match) : List OpenBlock × List Problem :=
  let word := String.ofList (m.capture 0)
  match m.category with
  | .blockStart => opening opened (.ofText word) m.start
  | .blockEnd => closing opened word m.start
  | .tag => (opened, [unknownTag m])
  | .interpolation => (opened, interpolation m)
  | _ => (opened, [])

/-- Problems of the constructs, inside blocks that are open already. -/
def structureProblems (opened : List OpenBlock) : List Match → List Problem
  | [] => opened.reverse.map unclosed
  | m :: rest =>
    let after := step opened m
    after.2 ++ structureProblems after.1 rest

/-- Marks with what is wrong with them where they belong to no construct. -/
def marks : List (List Char × DiagnosticKind × String) := [
  (['{', '{'], .unclosedInterpolation, "Unclosed variable interpolation"),
  (['}', '}'], .unclosedInterpolation, "Unmatched '\x7d\x7d'"),
  (['{', '%'], .invalidTag, "Unclosed tag")]

def strayMarks (text : List Char) (covered : List (Nat × Nat)) : List Problem :=
  marks.flatMap fun (mark, kind, message) =>
    (scanWith (literally mark) .tag text 0 covered).map fun m => ⟨kind, message, m.start⟩

def problems (text : List Char) : List Problem :=
  let found := constructs text
  structureProblems [] found ++ strayMarks text (found.map interval)

/-- The problems of a template's structure in order of offset. -/
def diagnostics (text : List Char) : List Diagnostic :=
  ((problems text).mergeSort fun a b => a.offset ≤ b.offset).map
    (·.toDiagnostic .check fun offset => some (position text offset))

end Stencil.Markup.Check
