import Stencil.Markup.Construct
import Stencil.Number.Reading
import Stencil.Text.Quoted
import Stencil.Token

/-! From text to tokens. Every construct of a template becomes one token and so does the text
between two of them; expressions are taken apart into lexemes, down to the arguments of calls.
Characters that belong to no lexeme are reported. -/
namespace Stencil
open Text Markup

/-- Reading of tokens: problems are collected, an integer that is too long ends it. -/
abbrev Lexing := ExceptT Fault (StateM (List Problem))

namespace Lexing

def report (kind : DiagnosticKind) (message : String) (offset : Nat) : Lexing Unit :=
  modify (· ++ [⟨kind, message, offset⟩])

/-- The result, with the problems as diagnostics. -/
def run {α : Type} (lines : Option Lines) (reading : Lexing α) :
    Except Fault (α × List Diagnostic) :=
  let (result, problems) := ExceptT.run reading []
  let place (offset : Nat) : Option Position := lines.map (·.locate offset)
  result.map fun a => (a, problems.map (·.toDiagnostic .tokens place))

end Lexing

namespace Lexeme

/-! ### Elements that claim their place -/

def overlaps (a b : Match) : Bool := a.start < b.stop && b.start < a.stop

/-- Elements in the order in which they claim their place; one whose place is taken is passed
over. -/
def claim (claimed : List Match) : List Match → List Match
  | [] => claimed
  | m :: rest => claim (if claimed.any (overlaps m) then claimed else claimed ++ [m]) rest

/-- The elements of an expression that found a place, from left to right. -/
def selected (piece : Piece) : List Match :=
  (claim [] (elements piece.text piece.start)).mergeSort fun a b => a.start ≤ b.start

/-- Offsets and characters that are neither blank nor inside an element. -/
def unclaimed (found : List Match) (offset : Nat) : List Char → List (Nat × Char)
  | [] => []
  | c :: rest =>
    let covered := isBlank c || inside offset (found.map interval)
    if covered then unclaimed found (offset + 1) rest
    else (offset, c) :: unclaimed found (offset + 1) rest

def reportUnclaimed (piece : Piece) (found : List Match) : Lexing Unit :=
  (unclaimed found piece.start piece.text).forM fun (offset, c) =>
    Lexing.report .unexpectedCharacter
      ("Unexpected character in expression: " ++ String.ofList (quoted [c])) offset

/-! ### Lexemes -/

/-- A number with a point is a double. -/
def readNumber (text : List Char) : Except Fault Number :=
  if text.contains '.' then .ok (.real ((Reading.double? text).getD .undetermined))
  else match Reading.whole? text with
    | none => .ok (.int 0)
    | some whole =>
      if whole.digits ≤ Fault.digitLimit then .ok (.int whole.value)
      else .error (.tooManyDigits whole.digits)

def readKeyword (text : String) : Literal :=
  if text == "null" then .null else .bool (text == "true")

/-- The lexeme of an element; `inner` reads the expressions inside it. -/
def ofElement (inner : Piece → Lexing (List Lexeme)) (span : Span) (m : Match) : Lexing Lexeme := do
  let text := String.ofList m.text
  match m.detail with
  | .call callee _ arguments =>
    return .call span text (String.ofList callee) (← arguments.mapM inner)
  | .path base segments =>
    return .path span text (String.ofList base) (← segments.mapM fun
      | .property piece => return .property (String.ofList piece.text)
      | .index piece => return .index (← inner piece))
  | _ =>
    match m.category with
    | .string => return .literal span text (.text (String.ofList (unescape (m.capture 1))))
    | .number => return .literal span text (.number (← readNumber m.text))
    | .keywordLiteral => return .literal span text (readKeyword text)
    | .operator => return ((Operator.ofSymbol? text).map (.operator span)).getD (.name span text)
    | _ => return .name span text

/-- A minus at the start or after an operator becomes part of the number it stands before;
`operand` tells that an operand stands before the lexemes. -/
def foldNegatives (operand : Bool) : List Lexeme → List Lexeme
  | [] => []
  | operator minus .sub :: literal span text (.number n) :: rest =>
    let folded :=
      if operand then [operator minus .sub, literal span text (.number n)]
      else [literal ⟨minus.start, span.stop, minus.position⟩ ("-" ++ text) (.number n.neg)]
    folded ++ foldNegatives true rest
  | first :: rest => first :: foldNegatives (!first.isOperator) rest

/-- The lexemes of an expression. Expressions inside it are shorter, so `fuel` bounds their
nesting. -/
def readWithin (lines : Option Lines) : (fuel : Nat) → Piece → Lexing (List Lexeme)
  | 0, _ => return []
  | fuel + 1, piece => do
    let found := selected piece
    reportUnclaimed piece found
    let lexemes ← found.mapM fun m =>
      ofElement (readWithin lines fuel) (.locate lines m.start m.stop) m
    return foldNegatives false lexemes

def read (lines : Option Lines) (piece : Piece) : Lexing (List Lexeme) :=
  readWithin lines (piece.text.length + 1) piece

end Lexeme

namespace Token

/-! ### Text -/

def textKindOf (c : Char) : TextKind := if isBlank c then .blank else .plain

/-- A run that has been read, put in front of the pieces after it unless it is empty. -/
def emit (kind : TextKind) (run : List Char) (after : List (TextKind × List Char)) :
    List (TextKind × List Char) :=
  if run.isEmpty then after else (kind, run.reverse) :: after

/-- Text in words, blanks and line ends; `run` is the current run, read backwards. A carriage
return belongs to the line end after it, unless blanks run up to it. -/
def textRuns (kind : TextKind) (run : List Char) : List Char → List (TextKind × List Char)
  | [] => emit kind run []
  | '\r' :: '\n' :: rest =>
    if kind == .blank then emit kind ('\r' :: run) ((.lineEnd, ['\n']) :: textRuns .plain [] rest)
    else emit kind run ((.lineEnd, ['\r', '\n']) :: textRuns .plain [] rest)
  | c :: rest =>
    if c == '\n' then emit kind run ((.lineEnd, [c]) :: textRuns .plain [] rest)
    else if textKindOf c == kind then textRuns kind (c :: run) rest
    else emit kind run (textRuns (textKindOf c) [c] rest)

def ofRuns (lines : Lines) (start : Nat) : List (TextKind × List Char) → List Token
  | [] => []
  | (kind, run) :: rest =>
    let stop := start + run.length
    ⟨String.ofList run, .locate (some lines) start stop, .text kind⟩ :: ofRuns lines stop rest

/-- The tokens of a text between constructs: one, or its words, blanks and line ends. -/
def ofText (lines : Lines) (separate : Bool) (piece : Piece) : List Token :=
  if piece.text.isEmpty then []
  else ofRuns lines piece.start
    (if separate then textRuns .plain [] piece.text else [(.plain, piece.text)])

/-! ### Constructs -/

def filterOf (lines : Lines) (m : Match) : Lexing FilterLexeme := do
  let span := Span.locate (some lines) m.start m.stop
  match m.detail with
  | .filter name _ arguments garbage =>
    let args ← arguments.mapM (Lexeme.read (some lines))
    let name := String.ofList name
    unless garbage.isEmpty do
      Lexing.report .unexpectedToken
        (s!"Unexpected text after filter '{name}': " ++ String.ofList garbage) m.start
    return ⟨span, String.ofList m.text, name, args⟩
  | _ => return ⟨span, String.ofList m.text, "", []⟩

def outputOf (lines : Lines) (span : Span) (m : Match) : Lexing Token := do
  let inner := m.capture 0
  let start := m.start + 2
  let found := filters inner start
  let head := match found with
    | [] => inner
    | first :: _ => inner.take (first.start - start)
  let expression ← Lexeme.read (some lines) ⟨head, start⟩
  let filters ← found.mapM (filterOf lines)
  return ⟨String.ofList (trim head), span, .output expression filters (String.ofList m.text)⟩

/-- Names and iterable of a loop: what stands before and after the first `in` between
blanks; `before` is read backwards and not empty. -/
def splitLoop (before : List Char) (offset : Nat) : List Char → Option (List Char × Piece)
  | [] => none
  | c :: rest =>
    let further := splitLoop (c :: before) (offset + 1) rest
    if before.isEmpty || !isBlank c then further
    else match (c :: rest).dropWhile isBlank with
      | 'i' :: 'n' :: after =>
        let iterable := after.dropWhile isBlank
        if iterable.length < after.length && !iterable.isEmpty then
          some (before.reverse, ⟨iterable, offset + (rest.length + 1 - iterable.length)⟩)
        else further
      | _ => further

def isLoop : Keyword → Bool
  | .for | .each => true
  | _ => false

def openingOf (lines : Lines) (keyword : Keyword) (condition : Piece) : Lexing Opening := do
  let text := String.ofList condition.text
  if isLoop keyword then
    match splitLoop [] condition.start condition.text with
    | none => return ⟨text, none, []⟩
    | some (target, iterable) =>
      let loop := ⟨String.ofList (trim target), String.ofList (trim iterable.text)⟩
      return ⟨text, some loop, ← Lexeme.read (some lines) iterable⟩
  else return ⟨text, none, ← Lexeme.read (some lines) condition⟩

/-- The token of a construct. A tag with an unknown word is text. -/
def ofConstruct (lines : Lines) (m : Match) : Lexing Token := do
  let span := Span.locate (some lines) m.start m.stop
  let source := String.ofList m.text
  let word := String.ofList (m.capture 0)
  match m.category with
  | .interpolation => outputOf lines span m
  | .blockStart =>
    let condition := (m.captures[1]?).getD ⟨[], m.stop⟩
    return ⟨word, span, .opening (← openingOf lines (.ofText word) condition) source⟩
  | .blockEnd => return ⟨word, span, .closing source⟩
  | .comment => return ⟨source, span, .comment (String.ofList (trim (m.capture 0)))⟩
  | _ => return ⟨source, span, .text .plain⟩

/-- Tokens of the rest of a template at `offset`, with the constructs in it. -/
def readFrom (lines : Lines) (separate : Bool) (offset : Nat) (rest : List Char) :
    List Match → Lexing (List Token)
  | [] => do
    let stop := offset + rest.length
    return ofText lines separate ⟨rest, offset⟩ ++
      [⟨"", .locate (some lines) stop stop, .done⟩]
  | m :: more => do
    let gap := rest.take (m.start - offset)
    let token ← ofConstruct lines m
    let after ← readFrom lines separate m.stop (rest.drop (m.stop - offset)) more
    return ofText lines separate ⟨gap, offset⟩ ++ token :: after

/-- The tokens of a template and the problems met on the way. With `separate` text is divided
into words, blanks and line ends. -/
def read (separate : Bool) (text : List Char) : Except Fault (List Token × List Diagnostic) :=
  let lines := Lines.ofText text
  Lexing.run (some lines) (readFrom lines separate 0 text (constructs text))

end Token
end Stencil
