import Stencil.Markup.Match

/-! Matchers: for each category, how far a match at the start of a text reaches. A matcher
also sees the character before. -/
namespace Stencil.Markup
open Text

/-- The size of a match and its captured parts, as offset and size within it. -/
structure Hit where
  size : Nat
  groups : List (Nat × Nat)

abbrev Matcher := Option Char → List Char → Option Hit

/-- The words that open or divide blocks, or stand alone in a tag. -/
def openingWords : List String :=
  ["if", "elseif", "else", "for", "each", "while", "unless", "include", "extends", "block"]

/-- The words that close blocks. -/
def closingWords : List String :=
  ["endif", "endfor", "endeach", "endwhile", "endunless", "endblock"]

def blankCount (text : List Char) : Nat := (text.takeWhile isBlank).length

/-- No name, number or chain is running up to here. -/
def freeBefore (previous : Option Char) : Bool :=
  previous.all fun c => !(isNamePart c || c == '.')

/-- No name goes on from here. -/
def freeAfter (text : List Char) : Bool := text.head?.all (!isNamePart ·)

/-- Everything from an opening mark to the first closing one. -/
def enclosed (opening closing : List Char) : Matcher := fun _ text => do
  let after ← opening.isPrefixOf? text
  let (inner, _) ← breakAt closing after
  return ⟨opening.length + inner.length + closing.length, [(opening.length, inner.length)]⟩

def tagOpening : List Char := ['{', '%']
def tagClosing : List Char := ['%', '}']

/-- A tag with an opening word; what follows it up to the end is captured without blanks
around it. -/
def openingTag : Matcher := fun _ text => do
  let after ← tagOpening.isPrefixOf? text
  let wordStart := 2 + blankCount after
  let word := (text.drop wordStart).takeWhile isNamePart
  guard (openingWords.contains (String.ofList word))
  let wordStop := wordStart + word.length
  let start := wordStop + blankCount (text.drop wordStop)
  let (inner, _) ← breakAt tagClosing (text.drop start)
  return ⟨start + inner.length + 2,
    [(wordStart, word.length), (start, (trimEnd inner).length)]⟩

def closingTag : Matcher := fun _ text => do
  let after ← tagOpening.isPrefixOf? text
  let wordStart := 2 + blankCount after
  let word := (text.drop wordStart).takeWhile isNamePart
  guard (closingWords.contains (String.ofList word))
  let wordStop := wordStart + word.length
  let stop := wordStop + blankCount (text.drop wordStop)
  let _ ← tagClosing.isPrefixOf? (text.drop stop)
  return ⟨stop + 2, [(wordStart, word.length)]⟩

/-- A single bar and a name. -/
def filterHead : Matcher := fun previous text =>
  match text with
  | '|' :: rest =>
    if previous == some '|' || rest.head? == some '|' then none
    else
      let blanks := blankCount rest
      let name := leadingName (rest.drop blanks)
      if name.isEmpty then none else some ⟨1 + blanks + name.length, [(1 + blanks, name.length)]⟩
  | _ => none

/-- A matcher only where no name, number or chain is running. -/
def whereFree (matcher : List Char → Option Hit) : Matcher := fun previous text =>
  if freeBefore previous then matcher text else none

/-- A name and an opening parenthesis. -/
def callHead : Matcher := whereFree fun text =>
  let name := leadingName text
  let stop := name.length + blankCount (text.drop name.length)
  if !name.isEmpty && (text.drop stop).head? == some '(' then
    some ⟨stop + 1, [(0, name.length)]⟩
  else none

/-- A name that a property or an index follows. -/
def pathHead : Matcher := whereFree fun text =>
  let name := leadingName text
  let goesOn := match text.drop name.length with
    | '[' :: _ => true
    | '.' :: c :: _ => isNameStart c
    | _ => false
  if !name.isEmpty && goesOn then some ⟨name.length, [(0, name.length)]⟩ else none

def operatorSigns : List (List Char) :=
  [['=', '='], ['!', '='], ['<', '='], ['>', '='], ['&', '&'], ['|', '|'], ['<'], ['>'], ['+'],
    ['-'], ['*'], ['/'], ['%']]

def operatorSign : Matcher := fun _ text =>
  (operatorSigns.find? (·.isPrefixOf text)).map fun sign => ⟨sign.length, []⟩

/-- Number of characters up to the closing quote; a backslash takes the next character with
it. -/
def quotedSize (quote : Char) (size : Nat) : List Char → Option Nat
  | [] => none
  | '\\' :: rest =>
    match rest with
    | [] => none
    | _ :: more => quotedSize quote (size + 2) more
  | c :: rest => if c == quote then some size else quotedSize quote (size + 1) rest

def stringLiteral : Matcher := fun _ text =>
  match text with
  | c :: rest =>
    if isQuote c then
      (quotedSize c 0 rest).map fun size => ⟨size + 2, [(0, 1), (1, size)]⟩
    else none
  | [] => none

/-- Digits, with a fraction if that leads to the end of a word. -/
def numberLiteral : Matcher := whereFree fun text =>
  let whole := (text.takeWhile isDigit).length
  let after := text.drop whole
  let fraction := match after with
    | '.' :: rest => (rest.takeWhile isDigit).length
    | _ => 0
  if whole == 0 then none
  else if fraction != 0 && freeAfter (after.drop (fraction + 1)) then
    some ⟨whole + 1 + fraction, []⟩
  else if freeAfter after then some ⟨whole, []⟩
  else none

def keywordLiterals : List String := ["true", "false", "null"]

def keywordLiteral : Matcher := whereFree fun text =>
  let word := text.takeWhile isNamePart
  if keywordLiterals.contains (String.ofList word) then
    some ⟨word.length, [(0, word.length)]⟩
  else none

def identifier : Matcher := whereFree fun text =>
  let name := leadingName text
  if name.isEmpty then none else some ⟨name.length, [(0, name.length)]⟩

/-- Blanks other than line ends. -/
def blankRun : Matcher := fun _ text =>
  let size := (text.takeWhile fun c => isBlank c && c != '\n').length
  if size == 0 then none else some ⟨size, []⟩

def lineEnd : Matcher := fun _ text =>
  match text with
  | '\n' :: _ => some ⟨1, []⟩
  | '\r' :: '\n' :: _ => some ⟨2, []⟩
  | _ => none

/-- A fixed text. -/
def literally (mark : List Char) : Matcher := fun _ text =>
  if mark.isPrefixOf text then some ⟨mark.length, []⟩ else none

/-! ### Custom patterns -/

inductive Atom
  | literal (c : Char)
  | word

def Atom.accepts : Atom → Char → Bool
  | literal c, d => c == d
  | word, d => isWord d

/-- How often an atom is repeated: once, or at least a number of times and as often as the
rest of the pattern allows. -/
inductive Repetition
  | once
  | many (least : Nat)

abbrev Pattern := List (Atom × Repetition)

namespace Pattern

def repetition : List Char → Repetition × List Char
  | '*' :: rest => (.many 0, rest)
  | '+' :: rest => (.many 1, rest)
  | rest => (.once, rest)

/-- A pattern of characters and `\w`, each once or repeated; `fuel` bounds its length. -/
def parse : (fuel : Nat) → List Char → Pattern
  | fuel + 1, '\\' :: 'w' :: rest =>
    let (count, more) := repetition rest
    (.word, count) :: parse fuel more
  | fuel + 1, c :: rest =>
    let (count, more) := repetition rest
    (.literal c, count) :: parse fuel more
  | _, _ => []

def ofText (text : List Char) : Pattern := parse text.length text

/-- Size of the match that repeats each atom as often as possible. -/
def size? : Pattern → List Char → Option Nat
  | [], _ => some 0
  | (atom, .once) :: more, text =>
    match text with
    | [] => none
    | c :: rest => if atom.accepts c then (size? more rest).map (· + 1) else none
  | (atom, .many least) :: more, text =>
    let run := (text.takeWhile atom.accepts).length
    (List.range (run + 1)).reverse.findSome? fun count =>
      if count < least then none else (size? more (text.drop count)).map (· + count)

def matcher (pattern : Pattern) : Matcher := fun _ text =>
  (size? pattern text).map fun size => ⟨size, []⟩

end Pattern

/-- The matcher of a category; a custom one has none of its own. -/
def Category.matcher : Category → Matcher
  | .interpolation => enclosed ['{', '{'] ['}', '}']
  | .blockStart => openingTag
  | .blockEnd => closingTag
  | .tag => enclosed tagOpening tagClosing
  | .comment => enclosed ['{', '#'] ['#', '}']
  | .filter => filterHead
  | .function => callHead
  | .accessor => pathHead
  | .operator => operatorSign
  | .string => stringLiteral
  | .number => numberLiteral
  | .keywordLiteral => Markup.keywordLiteral
  | .identifier => Markup.identifier
  | .whitespace => blankRun
  | .newline => lineEnd
  | .custom _ => fun _ _ => none

end Stencil.Markup
