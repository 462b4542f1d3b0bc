import Stencil.Markup.Bracket

/-! Matches: occurrences of the parts that templates and expressions are made of. -/
namespace Stencil.Markup

inductive Category
  | interpolation
  | blockStart
  | blockEnd
  | tag
  | comment
  | filter
  | function
  | accessor
  | operator
  | string
  | number
  | keywordLiteral
  | identifier
  | whitespace
  | newline
  | custom (name : String)
deriving DecidableEq, Repr

namespace Category

def standard : List Category :=
  [interpolation, blockStart, blockEnd, tag, comment, filter, function, accessor, operator, string,
    number, keywordLiteral, identifier, whitespace, newline]

def label : Category → String
  | interpolation => "variable"
  | blockStart => "block_start"
  | blockEnd => "block_end"
  | tag => "tag"
  | comment => "comment"
  | filter => "filter"
  | function => "function"
  | accessor => "accessor"
  | operator => "operator"
  | string => "string"
  | number => "number"
  | keywordLiteral => "keyword_literal"
  | identifier => "identifier"
  | whitespace => "whitespace"
  | newline => "newline"
  | custom name => name

end Category

inductive Segment
  | property (name : Piece)
  | index (inner : Piece)
deriving DecidableEq, Repr

/-- The parts of a match: captured pieces, or what a filter, a call or an accessor chain is
made of. -/
inductive Detail
  | captured (pieces : List Piece)
  | filter (name : List Char) (argumentText : Option (List Char)) (arguments : List Piece)
      (garbage : List Char)
  | call (name argumentText : List Char) (arguments : List Piece)
  | path (base : List Char) (segments : List Segment)
deriving DecidableEq, Repr

structure Match where
  category : Category
  text : List Char
  start : Nat
  detail : Detail
deriving DecidableEq, Repr

namespace Match

/-- The offset after the last character. -/
def stop (m : Match) : Nat := m.start + m.text.length

def captures (m : Match) : List Piece :=
  match m.detail with
  | .captured pieces => pieces
  | _ => []

/-- Text of a captured piece, empty if there is no such piece. -/
def capture (m : Match) (i : Nat) : List Char := ((m.captures[i]?).map (·.text)).getD []

/-- Earlier matches first, and of two that start together the longer one. -/
def outerFirst (a b : Match) : Bool :=
  a.start < b.start || (a.start == b.start && b.stop ≤ a.stop)

end Match

def inside (offset : Nat) (intervals : List (Nat × Nat)) : Bool :=
  intervals.any fun interval => interval.1 ≤ offset && offset < interval.2

end Stencil.Markup
