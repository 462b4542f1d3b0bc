import Stencil.Diagnostic
import Stencil.Tree

/-! Blocks without content, which are warned of. -/
namespace Stencil.Node

/-- The warning about a block, if its body is empty. -/
def warningIfEmpty (word : String) (span : Span) (body : List Node) : List Diagnostic :=
  if body.isEmpty then
    [{ kind := .emptyBlock, message := s!"Empty '{word}' block", offset := span.start
       line := span.position.line, column := span.position.column
       severity := .warning, stage := .tree }]
  else []

mutual
/-- Warnings of a node and everything below it, from the top down. -/
def warnings : Node → List Diagnostic
  | conditional span _ body clauses otherwise =>
    warningIfEmpty "if" span body ++ allWarnings body ++ clauseWarnings clauses ++
      allWarnings otherwise
  | loop span binding _ body => warningIfEmpty binding.word span body ++ allWarnings body
  | repetition span _ body => warningIfEmpty "while" span body ++ allWarnings body
  | exception span _ body => warningIfEmpty "unless" span body ++ allWarnings body
  | block named => blockWarning named
  | extension _ _ blocks => blockWarnings blocks
  | _ => []
termination_by structural node => node
def allWarnings : List Node → List Diagnostic
  | [] => []
  | node :: rest => node.warnings ++ allWarnings rest
termination_by structural nodes => nodes
def clauseWarning : Clause → List Diagnostic
  | .mk _ _ body => allWarnings body
termination_by structural clause => clause
def clauseWarnings : List Clause → List Diagnostic
  | [] => []
  | clause :: rest => clauseWarning clause ++ clauseWarnings rest
termination_by structural clauses => clauses
def blockWarning : Block → List Diagnostic
  | .mk span name body => warningIfEmpty name span body ++ allWarnings body
termination_by structural named => named
def blockWarnings : List Block → List Diagnostic
  | [] => []
  | named :: rest => blockWarning named ++ blockWarnings rest
termination_by structural blocks => blocks
end

end Stencil.Node

namespace Stencil

def Tree.warnings (tree : Tree) : List Diagnostic := Node.allWarnings tree.nodes

end Stencil
