import Stencil.Text.Position
import Stencil.Value

/-! Diagnostics: problems that are collected instead of ending the work. -/
namespace Stencil

inductive DiagnosticKind
  | unmatchedBlockStart
  | unmatchedBlockEnd
  | misplacedClause
  | unclosedInterpolation
  | emptyInterpolation
  | invalidVariable
  | unexpectedCharacter
  | unexpectedToken
  | invalidFor
  | invalidTag
  | emptyBlock
  | maxDepth
deriving DecidableEq, Repr

namespace DiagnosticKind

def all : List DiagnosticKind :=
  [unmatchedBlockStart, unmatchedBlockEnd, misplacedClause, unclosedInterpolation,
    emptyInterpolation, invalidVariable, unexpectedCharacter, unexpectedToken, invalidFor,
    invalidTag, emptyBlock, maxDepth]

def label : DiagnosticKind → String
  | unmatchedBlockStart => "unmatched_block_start"
  | unmatchedBlockEnd => "unmatched_block_end"
  | misplacedClause => "misplaced_clause"
  | unclosedInterpolation => "unclosed_interpolation"
  | emptyInterpolation => "empty_interpolation"
  | invalidVariable => "invalid_variable"
  | unexpectedCharacter => "unexpected_character"
  | unexpectedToken => "unexpected_token"
  | invalidFor => "invalid_for"
  | invalidTag => "invalid_tag"
  | emptyBlock => "empty_block"
  | maxDepth => "max_depth"

end DiagnosticKind

inductive Severity
  | error
  | warning
deriving DecidableEq, Repr

def Severity.label : Severity → String
  | error => "error"
  | warning => "warning"

/-- The stage that found a problem: the check of the constructs, the reading of tokens or the
building of the tree. -/
inductive Stage
  | check
  | tokens
  | tree
deriving DecidableEq, Repr

def Stage.label : Stage → String
  | check => "recognizer"
  | tokens => "lexer"
  | tree => "parser"

structure Diagnostic where
  kind : DiagnosticKind
  message : String
  offset : Option Nat
  line : Option Nat
  column : Option Nat
  severity : Severity
  stage : Stage
deriving DecidableEq, Repr

namespace Diagnostic

/-- An error at a place in the text. -/
def error (stage : Stage) (kind : DiagnosticKind) (message : String) (offset : Nat)
    (position : Option Text.Position) : Diagnostic :=
  { kind, message, offset, line := position.map (·.line), column := position.map (·.column)
    severity := .error, stage }

def describe (d : Diagnostic) : String :=
  let place := match d.line, d.column with
    | some line, some column => s!" at {line}:{column}"
    | some line, none => s!" at {line}:None"
    | none, _ => ""
  s!"{d.severity.label}: {d.message}{place}"

/-- What identifies a problem across stages. -/
def key (d : Diagnostic) : DiagnosticKind × Option Nat := (d.kind, d.offset)

/-- The first diagnostic of every key that is not among `seen`. -/
def firsts (seen : List (DiagnosticKind × Option Nat)) : List Diagnostic → List Diagnostic
  | [] => []
  | d :: rest => if seen.contains d.key then firsts seen rest else d :: firsts (d.key :: seen) rest

/-- Increasing offsets, unknown ones last. -/
def notAfter (a b : Diagnostic) : Bool :=
  match a.offset, b.offset with
  | some m, some n => m ≤ n
  | none, some _ => false
  | _, none => true

/-- The diagnostics of several stages, each problem once and in order of offset. -/
def merge (groups : List (List Diagnostic)) : List Diagnostic :=
  (firsts [] groups.flatten).mergeSort notAfter

def toDocument (d : Diagnostic) : Value :=
  .dict [("kind", .text d.kind.label), ("message", .text d.message),
    ("position", .orNull (d.offset.map .ofNat)), ("line", .orNull (d.line.map .ofNat)),
    ("column", .orNull (d.column.map .ofNat)), ("severity", .text d.severity.label),
    ("source", .text d.stage.label)]

def documents (list : List Diagnostic) : Value := .list (list.map toDocument)

end Diagnostic

/-- A problem at an offset whose line and column are not known yet. -/
structure Problem where
  kind : DiagnosticKind
  message : String
  offset : Nat
deriving DecidableEq, Repr

/-- The diagnostic of a problem, placed by what is known of the lines of the text. -/
def Problem.toDiagnostic (stage : Stage) (place : Nat → Option Text.Position) (p : Problem) :
    Diagnostic :=
  .error stage p.kind p.message p.offset (place p.offset)

end Stencil
