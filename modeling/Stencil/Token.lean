import Stencil.Markup.Keyword
import Stencil.Operator
import Stencil.Text.Position

/-! Tokens of templates, and the lexemes that the expressions inside them are made of. -/
namespace Stencil

/-- Where something stands in a template. -/
structure Span where
  start : Nat
  stop : Nat
  position : Text.Position
deriving DecidableEq, Repr

/-- The span of a part of a text; without the lines of the text every part is at its start. -/
def Span.locate (lines : Option Text.Lines) (start stop : Nat) : Span :=
  ⟨start, stop, (lines.map (·.locate start)).getD ⟨1, 1⟩⟩

/-- A value that is written out. -/
inductive Literal
  | text (s : String)
  | number (n : Number)
  | bool (b : Bool)
  | null
deriving DecidableEq, Repr

namespace Literal

def value : Literal → Value
  | text s => .text s
  | number n => .ofNumber n
  | bool b => .bool b
  | null => .null

def label : Literal → String
  | text _ => "string"
  | number _ => "number"
  | bool _ => "boolean"
  | null => "null"

end Literal

mutual
/-- An element of an expression. -/
inductive Lexeme
  | literal (span : Span) (text : String) (value : Literal)
  | operator (span : Span) (op : Operator)
  | name (span : Span) (name : String)
  | path (span : Span) (text base : String) (steps : List PathStep)
  | call (span : Span) (text name : String) (args : List (List Lexeme))
/-- A step of an accessor chain. -/
inductive PathStep
  | property (name : String)
  | index (inner : List Lexeme)
end

instance : Inhabited Lexeme := ⟨.name ⟨0, 0, ⟨1, 1⟩⟩ ""⟩

namespace Lexeme

def span : Lexeme → Span
  | literal span .. | operator span _ | name span _ | path span .. | call span .. => span

/-- The text it was read from. -/
def text : Lexeme → String
  | literal _ text _ | path _ text .. | call _ text .. => text
  | operator _ op => op.symbol
  | name _ word => word

def isOperator : Lexeme → Bool
  | operator .. => true
  | _ => false

/-- A chain that ends in an index. -/
def endsInIndex (steps : List PathStep) : Bool :=
  match steps.getLast? with
  | some (.index _) => true
  | _ => false

end Lexeme

/-- A filter of an interpolation with the expressions of its arguments. -/
structure FilterLexeme where
  span : Span
  text : String
  name : String
  args : List (List Lexeme)

inductive TextKind
  | plain
  | blank
  | lineEnd
deriving DecidableEq, Repr

def TextKind.label : TextKind → String
  | plain => "TEXT"
  | blank => "WHITESPACE"
  | lineEnd => "NEWLINE"

/-- Kinds of tokens that belong inside expressions. -/
inductive StrayKind
  | filter
  | function
  | operator
  | literal
  | identifier
  | propertyAccess
  | arrayAccess
deriving DecidableEq, Repr

namespace StrayKind

def all : List StrayKind :=
  [filter, function, operator, literal, identifier, propertyAccess, arrayAccess]

def label : StrayKind → String
  | filter => "FILTER"
  | function => "FUNCTION"
  | operator => "OPERATOR"
  | literal => "LITERAL"
  | identifier => "IDENTIFIER"
  | propertyAccess => "PROPERTY_ACCESS"
  | arrayAccess => "ARRAY_ACCESS"

end StrayKind

/-- The names a loop binds and the text of what it runs over. -/
structure LoopHead where
  target : String
  iterable : String
deriving DecidableEq, Repr

/-- What an opening tag says after its word. The lexemes are those of the condition, or of what
a loop runs over. -/
structure Opening where
  condition : String
  loop : Option LoopHead
  lexemes : List Lexeme

inductive TokenContent
  | text (kind : TextKind)
  | output (expression : List Lexeme) (filters : List FilterLexeme) (source : String)
  | opening (tag : Opening) (source : String)
  | closing (source : String)
  | comment (content : String)
  | stray (kind : StrayKind)
  | done

/-- A token. Its text is that of a text or comment, the expression of an interpolation without
its filters, or the word of a tag. -/
structure Token where
  text : String
  span : Span
  content : TokenContent

namespace Token

def isDone (token : Token) : Bool :=
  match token.content with
  | .done => true
  | _ => false

def keyword (token : Token) : Markup.Keyword := .ofText token.text

end Token

/-! ### Cursors, which move forward only -/

/-- The tokens that are still to be read and the number of those that were. -/
structure Cursor where
  position : Nat
  rest : List Token

namespace Cursor

def ofTokens (tokens : List Token) : Cursor := ⟨0, tokens⟩

def peek (cursor : Cursor) : Option Token := cursor.rest.head?

/-- Past the end the cursor stays. -/
def next (cursor : Cursor) : Option Token × Cursor :=
  match cursor.rest with
  | [] => (none, cursor)
  | token :: rest => (some token, ⟨cursor.position + 1, rest⟩)

/-- A token other than the last one is next. -/
def hasNext (cursor : Cursor) : Bool := cursor.peek.any (!·.isDone)

end Cursor
end Stencil
