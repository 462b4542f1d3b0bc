import Stencil.Markup.Check
import Stencil.Options
import Stencil.Token.Document
import Stencil.Token.Lexing
import Stencil.Tree.Building
import Stencil.Tree.Document
import Stencil.Tree.Emptiness

/-! What can be known of a template without rendering it. -/
namespace Stencil

def version : String := "0.1.0"

/-- Tokens, tree and diagnostics of a template. -/
structure Analysis where
  source : String
  tokens : List Token
  tree : Tree
  diagnostics : List Diagnostic

namespace Analysis

/-- The analysis of a template. Problems that two stages find are kept once. -/
def ofText (options : Options) (source : String) : Except Failure Analysis := do
  let text := source.toList
  let (tokens, lexed) ← liftFault (Token.read options.preserveWhitespace.truthy text)
  let (result, built) := Tree.ofTokens options.maxDepth tokens
  match result with
  | .error cause => throw (.ofCause cause)
  | .ok tree =>
    return { source, tokens, tree
             diagnostics := Diagnostic.merge [Markup.Check.diagnostics text, lexed, built] }

def valid (analysis : Analysis) : Bool := analysis.diagnostics.isEmpty

def tokensDocument (analysis : Analysis) : Value := .list (analysis.tokens.map (·.toDocument))

/-- A summary of structure and problems. -/
def report (analysis : Analysis) (name : Option String) : Value :=
  let outline := analysis.tree.outline
  .dict ([("tool_version", .text version), ("template_name", .orNull (name.map .text)),
    ("valid", .bool analysis.valid), ("token_count", .ofNat analysis.tokens.length),
    ("tokens_by_kind", .ofCounts (Token.counts analysis.tokens)),
    ("nodes_by_type", .ofCounts outline.counts), ("max_depth", .ofNat outline.height)] ++
    analysis.tree.nameFields ++
    [("diagnostics", Diagnostic.documents analysis.diagnostics),
      ("warnings", Diagnostic.documents analysis.tree.warnings)])

/-- Everything that was found, with what rendering gave: an output or an error. -/
def fullReport (analysis : Analysis) (rendered : Except String String) : Value :=
  let (output, error) := match rendered with
    | .ok text => (Value.text text, Value.null)
    | .error message => (.null, .text message)
  .dict [("source", .text analysis.source), ("tokens", analysis.tokensDocument.plain),
    ("ast", analysis.tree.toDocument.plain), ("tree", .text analysis.tree.outline.text),
    ("diagnostics", Diagnostic.documents analysis.diagnostics), ("output", output), ("error", error)]

end Analysis

/-! ### Export -/

inductive ExportFormat
  | ast
  | tokens
  | analysis
  | tree
deriving DecidableEq, Repr

namespace ExportFormat

def all : List ExportFormat := [ast, tokens, analysis, tree]

def label : ExportFormat → String
  | ast => "ast"
  | tokens => "tokens"
  | analysis => "analysis"
  | tree => "tree"

/-- Formats are named without regard to case. -/
def ofText (name : String) : Except Fault ExportFormat :=
  let plain := String.ofList (Text.lower name.toList)
  match all.find? (·.label == plain) with
  | some format => .ok format
  | none => .error (.unknownFormat plain)

end ExportFormat

/-- A document as JSON text over several lines. -/
def Value.pretty (document : Value) : Except Fault String := document.toJson (.indented 0)

def Analysis.export (analysis : Analysis) (format : ExportFormat) : Except Fault String :=
  match format with
  | .tree => .ok analysis.tree.outline.text
  | .ast => analysis.tree.toDocument.pretty
  | .tokens => analysis.tokensDocument.pretty
  | .analysis => (analysis.report none).pretty

end Stencil
