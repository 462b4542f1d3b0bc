import Stencil.Dict
import Stencil.Tree
import Stencil.Value.Written

/-! Outlines: trees of types and labels, which are printed, counted and measured. -/
namespace Stencil

inductive Outline
  | entry (type label : String) (children : List Outline)

namespace Outline

def indentation (depth : Nat) : String := String.ofList (List.replicate (2 * depth) ' ')

mutual
/-- A label on each line, two blanks deeper at each level. -/
def lines (depth : Nat) : Outline → List String
  | entry _ label children => (indentation depth ++ label) :: childLines (depth + 1) children
termination_by structural outline => outline
def childLines (depth : Nat) : List Outline → List String
  | [] => []
  | child :: rest => child.lines depth ++ childLines depth rest
termination_by structural children => children
end

def text (outline : Outline) : String := "\n".intercalate (outline.lines 0)

mutual
/-- The types of an outline and everything below it, from the top down. -/
def types : Outline → List String
  | entry type _ children => type :: childTypes children
termination_by structural outline => outline
def childTypes : List Outline → List String
  | [] => []
  | child :: rest => child.types ++ childTypes rest
termination_by structural children => children
end

/-- How many entries there are of each type, in order of first appearance. -/
def counts (outline : Outline) : Dict Nat :=
  outline.types.foldl (fun found type => found.set type ((found.get? type).getD 0 + 1)) []

def size (outline : Outline) : Nat := outline.types.length

mutual
/-- Number of entries on the longest way down. -/
def height : Outline → Nat
  | entry _ _ children => childHeight children + 1
termination_by structural outline => outline
def childHeight : List Outline → Nat
  | [] => 0
  | child :: rest => max child.height (childHeight rest)
termination_by structural children => children
end

end Outline

/-! ### Labels -/

/-- A literal as it is shown in an outline. -/
def Literal.printed : Literal → String
  | text s => Value.quotedText s
  | number (.int n) => Value.decimalText n
  | number (.real x) => Value.doubleText x
  | bool b => if b then "True" else "False"
  | null => "None"

/-- The first characters of a text. -/
def previewText (text : String) : String :=
  if text.length ≤ 30 then text else String.ofList (text.toList.take 27) ++ "..."

def yesNo (b : Bool) : String := if b then "True" else "False"

def LoopBinding.target (binding : LoopBinding) : String :=
  match binding.index with
  | none => binding.item
  | some index => s!"{binding.item}, {index}"

namespace Expression

mutual
def outline : Expression → Outline
  | literal _ value => .entry "Literal" s!"Literal({value.printed}: {value.label})" []
  | name _ word => .entry "Identifier" s!"Identifier({word})" []
  | property _ object key =>
    .entry "PropertyAccess" s!"PropertyAccess(.{key})" [object.outline]
  | element _ array index => .entry "ArrayAccess" "ArrayAccess" [array.outline, index.outline]
  | binary _ op left right =>
    .entry "Expression" s!"Expression({op.symbol})" [left.outline, right.outline]
  | call _ callee args => .entry "FunctionCall" s!"FunctionCall({callee})" (outlines args)
termination_by structural expression => expression
def outlines : List Expression → List Outline
  | [] => []
  | expression :: rest => expression.outline :: outlines rest
termination_by structural expressions => expressions
end

end Expression

def FilterUse.outline (filter : FilterUse) : Outline :=
  .entry "Filter" s!"Filter({filter.name})" (Expression.outlines filter.args)

namespace Node

mutual
def outline : Node → Outline
  | text _ content => .entry "Text" s!"Text({Value.quotedText (previewText content)})" []
  | comment .. => .entry "Comment" "Comment" []
  | output _ source expression filters =>
    .entry "Variable" s!"Variable({source})"
      (expression.toList.map (·.outline) ++ filters.map (·.outline))
  | conditional _ condition body clauses otherwise =>
    .entry "If" s!"If(elseif={clauses.length}, else={yesNo (!otherwise.isEmpty)})"
      (condition.outline :: outlines body ++ clauseOutlines clauses ++ outlines otherwise)
  | loop _ binding iterable body =>
    .entry "For" s!"For({binding.target} in {binding.iterable})"
      (iterable.outline :: outlines body)
  | repetition _ condition body =>
    .entry "While" "Block(while)" (condition.outline :: outlines body)
  | exception _ condition body =>
    .entry "Block" "Block(unless)" (condition.outline :: outlines body)
  | block named => blockOutline named
  | inclusion _ path => .entry "Include" "Include" [path.outline]
  | extension _ parent blocks =>
    .entry "Extends" "Extends" (parent.outline :: blockOutlines blocks)
termination_by structural node => node
def outlines : List Node → List Outline
  | [] => []
  | node :: rest => node.outline :: outlines rest
termination_by structural nodes => nodes
def clauseOutline : Clause → Outline
  | .mk _ condition body => .entry "ElseIf" "ElseIf" (condition.outline :: outlines body)
termination_by structural clause => clause
def clauseOutlines : List Clause → List Outline
  | [] => []
  | clause :: rest => clauseOutline clause :: clauseOutlines rest
termination_by structural clauses => clauses
def blockOutline : Block → Outline
  | .mk _ name body => .entry "BlockDef" s!"BlockDef({name})" (outlines body)
termination_by structural block => block
def blockOutlines : List Block → List Outline
  | [] => []
  | named :: rest => blockOutline named :: blockOutlines rest
termination_by structural blocks => blocks
end

end Node

namespace Tree

def outline (tree : Tree) : Outline :=
  .entry "Template" s!"Template({tree.nodes.length} nodes)" (Node.outlines tree.nodes)

/-- The names that a tree uses. -/
def nameFields (tree : Tree) : List (String × Value) :=
  [("variables", .ofTexts tree.names), ("functions", .ofTexts tree.functions),
    ("blocks", .ofTexts tree.blocks)]

def statistics (tree : Tree) : Value :=
  .dict ([("total_nodes", .ofNat tree.outline.size), ("by_type", .ofCounts tree.outline.counts),
    ("max_depth", .ofNat tree.outline.height)] ++ tree.nameFields)

end Tree

end Stencil
