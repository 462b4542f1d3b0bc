import Stencil.Document.Json

/-! Documents: files with settings and contexts, in JSON or in indented blocks. These have
`key: value` lines, lists with an item after each dash, and plain scalars. -/
namespace Stencil.Blocks
open Text

/-- A line without the blanks around it, and how many there were before it. -/
structure Line where
  indent : Nat
  text : List Char

/-- The lines that are neither blank nor comments. -/
def linesOf (text : List Char) : List Line :=
  ((pieces ['\n'] text).map fun line => ⟨(line.takeWhile (· == ' ')).length, trim line⟩).filter
    fun line => !line.text.isEmpty && line.text.head? != some '#' && line.text != ['-', '-', '-']

/-! ### Scalars -/

def words : List (String × Value) := [
  ("null", .null), ("Null", .null), ("NULL", .null), ("~", .null), ("true", .bool true),
  ("True", .bool true), ("TRUE", .bool true), ("false", .bool false), ("False", .bool false),
  ("FALSE", .bool false)]

/-- Digits with a sign or without. -/
def isInteger (text : List Char) : Bool :=
  let (_, digits) := Reading.sign text
  !digits.isEmpty && digits.all Json.isDigit

/-- A character with which a value begins that is written as in JSON. -/
def opensJson (c : Char) : Bool := c == '"' || c == '[' || c == '{' || Json.isDigit c || c == '-'

def scalar (text : List Char) : Except Fault Value := do
  let plain := String.ofList text
  match words.lookup plain with
  | some value => return value
  | none =>
    if isInteger text then return ((Reading.whole? text).map fun n => Value.int n.value).getD .null
    else if text.head?.any opensJson then return (← Json.read text).getD (.text plain)
    else return .text plain

/-! ### Blocks -/

/-- What stands after the dash of an item, with the column it starts at. -/
def item? (line : Line) : Option Line :=
  match line.text with
  | ['-'] => some ⟨line.indent + 2, []⟩
  | '-' :: ' ' :: rest =>
    some ⟨line.indent + 2 + (rest.takeWhile (· == ' ')).length, trim rest⟩
  | _ => none

/-- Key and value of an entry. -/
def binding? (line : Line) : Option (List Char × List Char) :=
  match breakAt [':', ' '] line.text with
  | some (key, value) => some (trim key, trim value)
  | none => if line.text.getLast? == some ':' then some (line.text.dropLast, []) else none

mutual
/-- The block at the start of the lines, and the lines after it; `fuel` bounds its parts. -/
def block : (fuel : Nat) → List Line → Except Fault (Value × List Line)
  | 0, lines => return (.null, lines)
  | _, [] => return (.null, [])
  | fuel + 1, first :: rest => do
    if (item? first).isSome then
      let (found, after) ← items fuel first.indent (first :: rest)
      return (.list found, after)
    else if (binding? first).isSome then
      let (found, after) ← entries fuel first.indent (first :: rest)
      return (.dict (Dict.ofList found), after)
    else return (← scalar first.text, rest)
def items : (fuel indent : Nat) → List Line → Except Fault (List Value × List Line)
  | 0, _, lines => return ([], lines)
  | _, _, [] => return ([], [])
  | fuel + 1, indent, first :: rest => do
    match if first.indent == indent then item? first else none with
    | none => return ([], first :: rest)
    | some inner =>
      let (found, after) ← block fuel (if inner.text.isEmpty then rest else inner :: rest)
      let (more, after) ← items fuel indent after
      return (found :: more, after)
def entries : (fuel indent : Nat) → List Line → Except Fault (List (String × Value) × List Line)
  | 0, _, lines => return ([], lines)
  | _, _, [] => return ([], [])
  | fuel + 1, indent, first :: rest => do
    match if first.indent == indent then binding? first else none with
    | none => return ([], first :: rest)
    | some (key, text) =>
      let nested := rest.head?.any fun next =>
        next.indent > indent || (next.indent == indent && (item? next).isSome)
      let (found, after) ←
        if !text.isEmpty then pure (← scalar text, rest)
        else if nested then block fuel rest
        else pure (.null, rest)
      let (more, after) ← entries fuel indent after
      return ((String.ofList key, found) :: more, after)
end

/-- The value of a document, null if it is empty; none if lines are left over. -/
def read (text : List Char) : Except Fault (Option Value) := do
  let lines := linesOf text
  let (found, rest) ← block (2 * lines.length + 2) lines
  return if rest.isEmpty then some found else none

end Stencil.Blocks

namespace Stencil.Document

/-- Line ends of all kinds become line feeds. -/
def unifyLineEnds : List Char → List Char
  | [] => []
  | '\r' :: '\n' :: rest => '\n' :: unifyLineEnds rest
  | '\r' :: rest => '\n' :: unifyLineEnds rest
  | c :: rest => c :: unifyLineEnds rest

/-- The value of a document in JSON or in indented blocks. -/
def read (text : List Char) : Except Fault Value := do
  match ← Json.read text with
  | some value => return value
  | none =>
    match ← Blocks.read text with
    | some value => return value
    | none => throw (.complaint "The document cannot be read")

end Stencil.Document
