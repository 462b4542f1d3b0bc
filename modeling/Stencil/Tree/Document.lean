import Stencil.Token.Document
import Stencil.Tree.Outline

/-! Trees as documents: what stands in a node, its type first. -/
namespace Stencil

/-- The field for a span, left out where there is none. -/
def spanField (span : Option Span) : List (String × Value) :=
  match span with
  | some s => [("span", s.toDocument)]
  | none => []

def typed (type : String) (fields : List (String × Value)) : Value :=
  .dict (("type", .text type) :: fields)

namespace Expression

mutual
def toDocument : Expression → Value
  | literal span value =>
    typed "Literal" ([("value", value.value), ("literal_type", .text value.label)] ++
      spanField span)
  | name span word => typed "Identifier" [("name", .text word), ("span", span.toDocument)]
  | property span object key =>
    typed "PropertyAccess"
      [("object", object.toDocument), ("property", .text key), ("span", span.toDocument)]
  | element span array index =>
    typed "ArrayAccess"
      [("array", array.toDocument), ("index", index.toDocument), ("span", span.toDocument)]
  | binary span op left right =>
    typed "Expression" [("operator", .text op.symbol), ("left", left.toDocument),
      ("right", right.toDocument), ("span", span.toDocument)]
  | call span callee args =>
    typed "FunctionCall"
      [("name", .text callee), ("args", .list (documents args)), ("span", span.toDocument)]
termination_by structural expression => expression
def documents : List Expression → List Value
  | [] => []
  | expression :: rest => expression.toDocument :: documents rest
termination_by structural expressions => expressions
end

end Expression

def FilterUse.toDocument (filter : FilterUse) : Value :=
  typed "Filter" [("name", .text filter.name), ("args", .list (Expression.documents filter.args)),
    ("span", filter.span.toDocument)]

namespace Node

/-- The fields that all nodes with a condition and a body have. -/
def bodyFields (word : String) (condition : Expression) (body otherwise : List Value)
    (span : Span) : List (String × Value) :=
  [("block_type", .text word), ("condition", condition.toDocument), ("body", .list body),
    ("else_body", .list otherwise), ("span", span.toDocument)]

def bindingFields (binding : LoopBinding) : List (String × Value) :=
  [("variable", .text binding.item), ("index_alias", Value.orNull (binding.index.map .text)),
    ("iterable_text", .text binding.iterable)]

mutual
def toDocument : Node → Value
  | text span content => typed "Text" [("text", .text content), ("span", span.toDocument)]
  | comment span content => typed "Comment" [("text", .text content), ("span", span.toDocument)]
  | output span source expression filters =>
    typed "Variable" [("name", .text source),
      ("expression", Value.orNull (expression.map (·.toDocument))),
      ("filters", .list (filters.map (·.toDocument))), ("span", span.toDocument)]
  | conditional span condition body clauses otherwise =>
    typed "If" (bodyFields "if" condition (documents body) (documents otherwise) span ++
      [("elseif_blocks", .list (clauseDocuments clauses))])
  | loop span binding iterable body =>
    typed "For" (bodyFields binding.word iterable (documents body) [] span ++
      bindingFields binding)
  | repetition span condition body =>
    typed "While" (bodyFields "while" condition (documents body) [] span)
  | exception span condition body =>
    typed "Block" (bodyFields "unless" condition (documents body) [] span)
  | block named => blockDocument named
  | inclusion span path => typed "Include" [("path", path.toDocument), ("span", span.toDocument)]
  | extension span parent blocks =>
    typed "Extends" [("parent", parent.toDocument), ("blocks", .dict (blockEntries blocks)),
      ("span", span.toDocument)]
termination_by structural node => node
def documents : List Node → List Value
  | [] => []
  | node :: rest => node.toDocument :: documents rest
termination_by structural nodes => nodes
def clauseDocument : Clause → Value
  | .mk span condition body =>
    typed "ElseIf" [("condition", condition.toDocument), ("body", .list (documents body)),
      ("span", span.toDocument)]
termination_by structural clause => clause
def clauseDocuments : List Clause → List Value
  | [] => []
  | clause :: rest => clauseDocument clause :: clauseDocuments rest
termination_by structural clauses => clauses
def blockDocument : Block → Value
  | .mk span name body =>
    typed "BlockDef" [("name", .text name), ("body", .list (documents body)),
      ("span", span.toDocument)]
termination_by structural named => named
def blockEntries : List Block → List (String × Value)
  | [] => []
  | named :: rest => (named.name, blockDocument named) :: blockEntries rest
termination_by structural blocks => blocks
end

end Node

def Tree.toDocument (tree : Tree) : Value :=
  typed "Template" (("children_nodes", .list (Node.documents tree.nodes)) :: tree.nameFields)

end Stencil
