import Stencil.Failure
import Stencil.Text.Quoted
import Stencil.Tree

/-! From lexemes to expressions. An expression splits at its operator of least precedence, the
first of them if there are several; operands and tags that make no sense are reported and
stand for null. Nesting is bounded. -/
namespace Stencil

/-- What is gathered while a tree is read. -/
structure Gathered where
  diagnostics : List Diagnostic
  names : List String
  functions : List String
  blocks : List String

/-- A reading that gathers problems and names, also when it fails. -/
abbrev TreeReading := ExceptT Cause (StateM Gathered)

namespace TreeReading

/-- A name is noted once. -/
def noted (names : List String) (name : String) : List String :=
  if names.contains name then names else names ++ [name]

def report (kind : DiagnosticKind) (message : String) (span : Span) : TreeReading Unit :=
  modify fun g => { g with
    diagnostics := g.diagnostics ++ [.error .tree kind message span.start (some span.position)] }

def noteVariable (name : String) : TreeReading Unit :=
  modify fun g => { g with names := noted g.names name }

def noteFunction (name : String) : TreeReading Unit :=
  modify fun g => { g with functions := noted g.functions name }

def noteBlock (name : String) : TreeReading Unit :=
  modify fun g => { g with blocks := noted g.blocks name }

/-- Nesting at a place that has no room left. -/
def tooDeep {α : Type} (limit : Nat) (span : Span) : TreeReading α := do
  report .maxDepth s!"Maximum nesting depth {limit} exceeded" span
  throw (.tooDeep limit span.start span.position)

end TreeReading

namespace Expression
open TreeReading

/-! ### Splitting -/

/-- Lexemes split at an operator. -/
structure Split where
  left : List Lexeme
  span : Span
  op : Operator
  right : List Lexeme

/-- The splits at operators between operands, from left to right: a minus at the start or
after an operator belongs to its operand. `before` is read backwards. -/
def splits (before : List Lexeme) : List Lexeme → List Split
  | [] => []
  | first :: rest =>
    let further := splits (first :: before) rest
    match first with
    | .operator span op =>
      let sign := op == .sub && before.head?.all (·.isOperator)
      if sign then further else ⟨before.reverse, span, op, rest⟩ :: further
    | _ => further

/-- The split of least precedence, the first of several. -/
def loosest : List Split → Option Split
  | [] => none
  | split :: rest =>
    match loosest rest with
    | some other => some (if other.op.precedence < split.op.precedence then other else split)
    | none => some split

/-- The split of least precedence among those of precedence `floor` or more. -/
def splitAt? (floor : Nat) (lexemes : List Lexeme) : Option Split :=
  loosest ((splits [] lexemes).filter fun split => floor ≤ split.op.precedence)

/-! ### Parts -/

def reportUnexpected (lexeme : Lexeme) : TreeReading Unit :=
  report .unexpectedToken ("Unexpected token in expression: " ++ Value.quotedText lexeme.text)
    lexeme.span

/-- Steps of a chain, taken one after the other. -/
def ofSteps (inner : List Lexeme → TreeReading Expression) (span : Span) (object : Expression) :
    List PathStep → TreeReading Expression
  | [] => return object
  | .property key :: rest => ofSteps inner span (.property span object key) rest
  | .index lexemes :: rest => do
    ofSteps inner span (.element span object (← inner lexemes)) rest

/-- Arguments; those without a lexeme are left out. -/
def ofArguments (inner : List Lexeme → TreeReading Expression) (args : List (List Lexeme)) :
    TreeReading (List Expression) :=
  (args.filter (!·.isEmpty)).mapM inner

/-- One lexeme; `inner` reads the expressions inside it. -/
def ofLexeme (inner : List Lexeme → TreeReading Expression) (lexeme : Lexeme) :
    TreeReading Expression := do
  match lexeme with
  | .literal span _ value => return .literal (some span) value
  | .name span word =>
    noteVariable word
    return .name span word
  | .path span _ base steps =>
    noteVariable base
    ofSteps inner span (.name span base) steps
  | .call span _ callee args =>
    noteFunction callee
    return .call span callee (← ofArguments inner args)
  | .operator span _ =>
    reportUnexpected lexeme
    return .literal (some span) .null

def isCall : Lexeme → Bool
  | .call .. => true
  | _ => false

/-- Of several lexemes without an operator between operands one is kept, the first call or
else the first one, and the first of the others is reported. -/
def ofRun (inner : List Lexeme → TreeReading Expression) (first : Lexeme) (rest : List Lexeme) :
    TreeReading Expression := do
  if isCall first then
    rest.head?.forM reportUnexpected
    ofLexeme inner first
  else match rest.find? isCall with
    | some callee =>
      reportUnexpected first
      ofLexeme inner callee
    | none =>
      rest.head?.forM reportUnexpected
      ofLexeme inner first

def missing (side : String) (split : Split) : TreeReading Unit :=
  report .unexpectedToken s!"Missing {side} operand for '{split.op.symbol}'" split.span

/-! ### Expressions -/

/-- The expression of lexemes, with room for some levels of nesting. Operators of less than
`floor` precedence are not split at. -/
def read (limit : Nat) : (room floor : Nat) → List Lexeme → TreeReading Expression
  | _, _, [] => return .literal none .null
  | 0, _, first :: _ => tooDeep limit first.span
  | room + 1, floor, first :: rest =>
    if rest.isEmpty then ofLexeme (read limit room 0) first
    else match splitAt? floor (first :: rest), first with
      | none, .operator span .sub => do
        return .binary span .sub (.literal (some span) (.number (.int 0)))
          (← read limit room floor rest)
      | none, _ => ofRun (read limit room 0) first rest
      | some split, _ => do
        let left ← if split.left.isEmpty then do
            missing "left" split
            pure (.literal (some split.span) .null)
          else read limit room 0 split.left
        if split.right.isEmpty then missing "right" split
        return .binary split.span split.op left
          (← read limit room split.op.precedence split.right)

end Expression
end Stencil
