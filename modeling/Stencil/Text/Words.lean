import Stencil.Text.Character

/-! Trimming, cutting and joining of texts. -/
namespace Stencil.Text

def trimStart (text : List Char) : List Char := text.dropWhile isBlank

def trimEnd (text : List Char) : List Char := (text.reverse.dropWhile isBlank).reverse

def trim (text : List Char) : List Char := trimEnd (trimStart text)

/-- The text without the plain blanks around it. -/
def trimPlain (text : List Char) : List Char :=
  ((text.dropWhile isPlainBlank).reverse.dropWhile isPlainBlank).reverse

/-- What stands before and after the first occurrence of `mark`. -/
def breakAt (mark : List Char) : List Char → Option (List Char × List Char)
  | [] => if mark.isEmpty then some ([], []) else none
  | c :: rest =>
    match mark.isPrefixOf? (c :: rest) with
    | some after => some ([], after)
    | none => (breakAt mark rest).map fun parts => (c :: parts.1, parts.2)

/-- The pieces between occurrences of `mark`; `skip` characters of the last occurrence are
still to be passed over and `piece` is the current piece, read backwards. -/
def piecesFrom (mark : List Char) (skip : Nat) (piece : List Char) : List Char → List (List Char)
  | [] => [piece.reverse]
  | c :: rest =>
    match skip with
    | more + 1 => piecesFrom mark more piece rest
    | 0 =>
      if mark.isPrefixOf (c :: rest) then
        piece.reverse :: piecesFrom mark (mark.length - 1) [] rest
      else piecesFrom mark 0 (c :: piece) rest

/-- The pieces between the occurrences of a mark that is not empty, from left to right. -/
def pieces (mark text : List Char) : List (List Char) := piecesFrom mark 0 [] text

/-- The pieces with `glue` between them. -/
def glueTogether (glue : List Char) : List (List Char) → List Char
  | [] => []
  | [piece] => piece
  | piece :: rest => piece ++ glue ++ glueTogether glue rest

/-- Every occurrence of `mark` becomes `substitute`. -/
def substitute (mark replacement text : List Char) : List Char :=
  glueTogether replacement (pieces mark text)

/-- Words between blanks. -/
def firstWord (text : List Char) : List Char :=
  (trimStart text).takeWhile (!isBlank ·)

/-- The part of a sequence from `start` to `stop`; negative positions count from the end. -/
def slice {α : Type} (items : List α) (start : Int) (stop : Option Int) : List α :=
  let size : Int := items.length
  let place (i : Int) : Nat := (if i < 0 then max 0 (i + size) else min i size).toNat
  let first := place start
  let last := match stop with
    | some i => place i
    | none => items.length
  (items.drop first).take (last - first)

end Stencil.Text
