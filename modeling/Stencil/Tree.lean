import Stencil.Token

/-! Trees of templates. -/
namespace Stencil

/-- An expression. The literal that stands in for an operand that is missing has no span. -/
inductive Expression
  | literal (span : Option Span) (value : Literal)
  | name (span : Span) (name : String)
  | property (span : Span) (object : Expression) (name : String)
  | element (span : Span) (array index : Expression)
  | binary (span : Span) (op : Operator) (left right : Expression)
  | call (span : Span) (name : String) (args : List Expression)

/-- A filter with its arguments. -/
structure FilterUse where
  span : Span
  name : String
  args : List Expression

/-- What a loop binds, and the text of what it runs over. -/
structure LoopBinding where
  word : String
  item : String
  index : Option String
  iterable : String
deriving DecidableEq, Repr

mutual
/-- A part of a template. -/
inductive Node
  | text (span : Span) (text : String)
  | comment (span : Span) (text : String)
  | output (span : Span) (source : String) (expression : Option Expression)
      (filters : List FilterUse)
  | conditional (span : Span) (condition : Expression) (body : List Node) (clauses : List Clause)
      (otherwise : List Node)
  | loop (span : Span) (binding : LoopBinding) (iterable : Expression) (body : List Node)
  | repetition (span : Span) (condition : Expression) (body : List Node)
  | exception (span : Span) (condition : Expression) (body : List Node)
  | block (block : Block)
  | inclusion (span : Span) (path : Expression)
  | extension (span : Span) (parent : Expression) (blocks : List Block)
/-- A further condition of a conditional, with the body it guards. -/
inductive Clause
  | mk (span : Span) (condition : Expression) (body : List Node)
/-- A named block, which templates that extend this one may replace. -/
inductive Block
  | mk (span : Span) (name : String) (body : List Node)
end

instance : Inhabited Node := ⟨.text ⟨0, 0, ⟨1, 1⟩⟩ ""⟩

namespace Block

def span : Block → Span
  | mk span .. => span

def name : Block → String
  | mk _ name _ => name

def body : Block → List Node
  | mk _ _ body => body

end Block

/-- A template: its parts, and the names that its expressions and blocks use, each once. -/
structure Tree where
  nodes : List Node
  names : List String
  functions : List String
  blocks : List String

end Stencil
