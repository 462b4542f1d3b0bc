import Stencil.Text.Words

/-! Brackets and quotes inside expressions: where a bracket closes, which characters stand
outside quotes and brackets, and cutting at separators there. -/
namespace Stencil.Markup

/-- A part of a text with the offset at which it starts. -/
structure Piece where
  text : List Char
  start : Nat
deriving DecidableEq, Repr

namespace Piece

def stop (piece : Piece) : Nat := piece.start + piece.text.length

def shift (piece : Piece) (base : Nat) : Piece := { piece with start := base + piece.start }

def isBlank (piece : Piece) : Bool := piece.text.all Text.isBlank

/-- The piece without blanks around it. -/
def trim (piece : Piece) : Piece :=
  ⟨Text.trim piece.text, piece.start + (piece.text.takeWhile Text.isBlank).length⟩

end Piece

def isQuote (c : Char) : Bool := c == '\'' || c == '"'

/-- The bracket that closes an opening one. -/
def closerOf? : Char → Option Char
  | '(' => some ')'
  | '[' => some ']'
  | _ => none

def isOpener (c : Char) : Bool := (closerOf? c).isSome

def isCloser (c : Char) : Bool := c == ')' || c == ']'

/-- Offset of the bracket that empties the stack of expected closers. A backslash inside
quotes takes the next character with it. -/
def closingFrom (stack : List Char) (quote : Option Char) (offset : Nat) : List Char → Option Nat
  | [] => none
  | c :: rest =>
    match quote with
    | some q =>
      if c == '\\' then
        match rest with
        | [] => none
        | _ :: more => closingFrom stack quote (offset + 2) more
      else closingFrom stack (if c == q then none else quote) (offset + 1) rest
    | none =>
      if isQuote c then closingFrom stack (some c) (offset + 1) rest
      else match closerOf? c with
        | some closer => closingFrom (closer :: stack) none (offset + 1) rest
        | none =>
          if isCloser c then
            match stack with
            | [] => none
            | expected :: outer =>
              if expected != c then none
              else if outer.isEmpty then some offset
              else closingFrom outer none (offset + 1) rest
          else closingFrom stack none (offset + 1) rest

/-- Offset of the bracket that closes the one at `start`. -/
def closing? (text : List Char) (start : Nat) : Option Nat :=
  closingFrom [] none start (text.drop start)

/-- For every character whether it stands outside quotes and brackets, and `true` for the
end of the text. Brackets and quotes themselves are never outside. -/
def outsideFrom (quote : Option Char) (escaped : Bool) (depth : Nat) : List Char → List Bool
  | [] => [true]
  | c :: rest =>
    match quote with
    | some q =>
      false ::
        (if escaped then outsideFrom quote false depth rest
         else if c == '\\' then outsideFrom quote true depth rest
         else outsideFrom (if c == q then none else quote) false depth rest)
    | none =>
      if isQuote c then false :: outsideFrom (some c) false depth rest
      else if isOpener c then false :: outsideFrom none false (depth + 1) rest
      else if isCloser c then false :: outsideFrom none false (depth - 1) rest
      else (depth == 0) :: outsideFrom none false depth rest

def outside (text : List Char) : List Bool := outsideFrom none false 0 text

/-- Cuts characters, paired with whether they may separate, at a separator; `piece` is the
current piece read backwards and `start` its offset. -/
def cutFrom (separator : Char) (start : Nat) (piece : List Char) :
    List (Char × Bool) → List Piece
  | [] => [⟨piece.reverse, start⟩]
  | (c, free) :: rest =>
    if c == separator && free then
      ⟨piece.reverse, start⟩ :: cutFrom separator (start + piece.length + 1) [] rest
    else cutFrom separator start (c :: piece) rest

/-- The pieces between separators that stand outside quotes and brackets. -/
def cut (separator : Char) (text : List Char) : List Piece :=
  cutFrom separator 0 [] (text.zip (outside text))

/-- The pieces that are not blank, without blanks around them, in a text at `base`. -/
def arguments (separator : Char) (text : List Char) (base : Nat) : List Piece :=
  ((cut separator text).filter (!·.isBlank)).map fun piece => piece.trim.shift base

end Stencil.Markup
