import Stencil.Number.Decimal
import Stencil.Text.Quoted
import Stencil.Value

/-! Written forms of values: the text that is rendered, the printed form with quotes, and
JSON. An integer of too many digits has none of them. -/
namespace Stencil.Value

abbrev Written := Except Fault String

def decimalDigits (n : Int) : List Char := Nat.toDigits 10 n.natAbs

/-- Decimal digits of an integer, with a sign if it is negative. -/
def decimalText (n : Int) : String :=
  String.ofList (if n < 0 then '-' :: decimalDigits n else decimalDigits n)

/-- The text of an integer, up to the limit of digits. -/
def intText (n : Int) : Written :=
  if (decimalDigits n).length > Fault.digitLimit then .error (.tooManyDigits none)
  else .ok (decimalText n)

def doubleText (x : Double) : String := String.ofList (Decimal.ofDouble x)

def dateText (d : Date) : String := String.ofList (Calendar.dateText d)

def momentText (t : DateTime) : String := String.ofList (Calendar.text ' ' t)

def durationText (time : Duration) : String := String.ofList (Calendar.durationText time)

def methodText (m : Method) : String :=
  let owner := if m.shared then "type" else m.kind.text
  "<built-in method " ++ m.name ++ " of " ++ owner ++ " object at 0x" ++
    String.ofList (Nat.toDigits 16 m.address) ++ ">"

def quotedText (s : String) : String := String.ofList (Text.quoted s.toList)

/-- A double as it is rendered: integral ones without a fractional part. -/
def renderedDouble (x : Double) : Written :=
  match x with
  | .nan _ => .ok "NaN"
  | .infinity negative => .ok (if negative then "-Infinity" else "Infinity")
  | .finite negative units =>
    if x.isIntegral then intText (Double.signed negative (units / Double.one))
    else .ok (doubleText x)

/-! ### JSON -/

def jsonChar (c : Char) : List Char :=
  match c with
  | '"' => ['\\', '"']
  | '\\' => ['\\', '\\']
  | '\n' => ['\\', 'n']
  | '\r' => ['\\', 'r']
  | '\t' => ['\\', 't']
  | '\x08' => ['\\', 'b']
  | '\x0c' => ['\\', 'f']
  | c => if c.toNat < 32 then '\\' :: 'u' :: Text.hexDigits 4 c.toNat else [c]

def jsonText (s : String) : String :=
  String.ofList ('"' :: s.toList.flatMap jsonChar ++ ['"'])

def jsonDouble : Double → String
  | .nan _ => "NaN"
  | .infinity negative => if negative then "-Infinity" else "Infinity"
  | x => doubleText x

/-- How the parts of a JSON list or object are laid out: on one line, or on a line each with
two more blanks for every level. -/
inductive Layout
  | line
  | indented (level : Nat)

namespace Layout

def inner : Layout → Layout
  | line => line
  | indented level => indented (level + 1)

def lineBreak (level : Nat) : String := "\n" ++ String.ofList (List.replicate (2 * level) ' ')

/-- Brackets around parts that may be none. -/
def enclose (layout : Layout) (opening closing : String) (parts : List String) : String :=
  if parts.isEmpty then opening ++ closing
  else match layout with
    | line => opening ++ ", ".intercalate parts ++ closing
    | indented level =>
      let start := lineBreak (level + 1)
      opening ++ start ++ ("," ++ start).intercalate parts ++ lineBreak level ++ closing

end Layout

mutual
/-- Dates and undefined values become the text they render to. -/
def toJson (layout : Layout) : Value → Written
  | undefined => .ok (jsonText "")
  | null => .ok "null"
  | bool b => .ok (if b then "true" else "false")
  | int n => intText n
  | float x => .ok (jsonDouble x)
  | text s | safe s => .ok (jsonText s)
  | list items => do
    return layout.enclose "[" "]" (← jsonItems layout.inner items)
  | dict entries => do
    return layout.enclose "\x7b" "\x7d" (← jsonEntries layout.inner entries)
  | date d => .ok (jsonText (dateText d))
  | datetime t => .ok (jsonText (momentText t))
  | duration time => .ok (jsonText (durationText time))
  | method m => .ok (jsonText (methodText m))
termination_by structural v => v
def jsonItems (layout : Layout) : List Value → Except Fault (List String)
  | [] => .ok []
  | item :: rest => do
    let first ← toJson layout item
    return first :: (← jsonItems layout rest)
termination_by structural items => items
def jsonEntries (layout : Layout) : List (String × Value) → Except Fault (List String)
  | [] => .ok []
  | (key, item) :: rest => do
    let first ← toJson layout item
    return (jsonText key ++ ": " ++ first) :: (← jsonEntries layout rest)
termination_by structural entries => entries
end

/-! ### Rendered text -/

mutual
/-- What a value renders to. Missing values render to nothing, lists to their items with
commas, dictionaries to JSON. -/
def toText : Value → Written
  | undefined | null => .ok ""
  | bool b => .ok (if b then "true" else "false")
  | int n => intText n
  | float x => renderedDouble x
  | text s | safe s => .ok s
  | list items => do return ",".intercalate (← itemTexts items)
  | dict entries => toJson .line (dict entries)
  | date d => .ok (dateText d)
  | datetime t => .ok (momentText t)
  | duration time => .ok (durationText time)
  | method m => .ok (methodText m)
termination_by structural v => v
def itemTexts : List Value → Except Fault (List String)
  | [] => .ok []
  | item :: rest => do
    let first ← toText item
    return first :: (← itemTexts rest)
termination_by structural items => items
end

/-! ### Printed form -/

def dateFields (d : Date) : String := s!"{d.year}, {d.month}, {d.day}"

/-- Seconds and microseconds are left out from the end while they are zero. -/
def timeFields (t : DateTime) : String :=
  let seconds :=
    if t.microsecond != 0 then s!", {t.second}, {t.microsecond}"
    else if t.second != 0 then s!", {t.second}"
    else ""
  s!"{t.hour}, {t.minute}" ++ seconds

/-- Only the parts of a duration that are not zero are shown. -/
def durationFields (time : Duration) : String :=
  let shown := [("days", time.days), ("seconds", time.seconds), ("microseconds", time.microseconds)]
    |>.filter (·.2 != 0) |>.map fun part => part.1 ++ "=" ++ toString part.2
  if shown.isEmpty then "0" else ", ".intercalate shown

mutual
/-- A value as it is shown in messages and outlines. -/
def printed : Value → Written
  | undefined => .ok "UNDEFINED"
  | null => .ok "None"
  | bool b => .ok (if b then "True" else "False")
  | int n => intText n
  | float x => .ok (doubleText x)
  | text s | safe s => .ok (quotedText s)
  | list items => do return "[" ++ ", ".intercalate (← printedItems items) ++ "]"
  | dict entries => do
    return "\x7b" ++ ", ".intercalate (← printedEntries entries) ++ "\x7d"
  | date d => .ok ("datetime.date(" ++ dateFields d ++ ")")
  | datetime t => .ok ("datetime.datetime(" ++ dateFields t.date ++ ", " ++ timeFields t ++ ")")
  | duration time => .ok ("datetime.timedelta(" ++ durationFields time ++ ")")
  | method m => .ok (methodText m)
termination_by structural v => v
def printedItems : List Value → Except Fault (List String)
  | [] => .ok []
  | item :: rest => do
    let first ← printed item
    return first :: (← printedItems rest)
termination_by structural items => items
def printedEntries : List (String × Value) → Except Fault (List String)
  | [] => .ok []
  | (key, item) :: rest => do
    let first ← printed item
    return (quotedText key ++ ": " ++ first) :: (← printedEntries rest)
termination_by structural entries => entries
end

/-- The key that a value names in a dictionary: texts, dates and durations as they are, undefined
the empty one, everything else as it is printed. -/
def keyText : Value → Written
  | undefined => .ok ""
  | text s | safe s => .ok s
  | date d => .ok (dateText d)
  | datetime t => .ok (momentText t)
  | duration time => .ok (durationText time)
  | value => printed value

/-! ### Plain forms, in which reports hold values: what JSON has no form for is replaced -/

def plainDouble (x : Double) : Value := if x.isFinite then float x else null

mutual
/-- Numbers that are not finite become null, safe texts, dates and moments plain texts. -/
def plain : Value → Value
  | float x => plainDouble x
  | safe s => text s
  | list items => list (plainItems items)
  | dict entries => dict (plainEntries entries)
  | date d => text (dateText d)
  | datetime t => ofChars (Calendar.text 'T' t)
  | value => value
termination_by structural v => v
def plainItems : List Value → List Value
  | [] => []
  | item :: rest => item.plain :: plainItems rest
termination_by structural items => items
def plainEntries : List (String × Value) → List (String × Value)
  | [] => []
  | (key, item) :: rest => (key, item.plain) :: plainEntries rest
termination_by structural entries => entries
end

end Stencil.Value
