import Stencil.Library.Functions
import Stencil.Text.Case
import Stencil.Value.Order

/-! The built-in filters. Text that a filter passes on whole stays safe if it was safe; text
that a filter makes is plain, except that of `escape` and `safe`. -/
namespace Stencil.Filters
open Value

/-- The text of a value, through a function on characters. -/
def onText (change : List Char → List Char) (value : Value) : Except Fault Value := do
  return ofChars (change (← value.toText).toList)

/-- A value as text; a text is passed on as it is. -/
def asItself (value : Value) : Except Fault Value :=
  match value.asText? with
  | some _ => .ok value
  | none => do return text (← value.toText)

def upper : Value → Except Fault Value := onText Text.upper

def lower : Value → Except Fault Value := onText Text.lower

def capitalize : Value → Except Fault Value :=
  onText fun chars => Text.upper (chars.take 1) ++ Text.lower (chars.drop 1)

def trim : Value → Except Fault Value := onText Text.trim

def reverse : Value → Except Fault Value
  | list items => .ok (list items.reverse)
  | value => onText List.reverse value

def sort : Value → Except Fault Value
  | list items => do return list (← Value.sort items)
  | value => .ok value

def join (value separator : Value) : Except Fault Value :=
  match value with
  | list items => do
    let glue ← separator.toText
    return text (glue.intercalate (← itemTexts items))
  | value => asItself value

/-- An empty separator splits into characters. -/
def split (value separator : Value) : Except Fault Value := do
  let mark ← separator.toText
  let chars := (← value.toText).toList
  let parts := if mark.isEmpty then chars.map ([·]) else Text.pieces mark.toList chars
  return list (parts.map ofChars)

/-- The integer part of an argument that stands for a number, else zero. -/
def whole (value : Value) : Except Fault Int := value.numberOrZero.toInt

def slice (value start stop : Value) : Except Fault Value := do
  let first ← whole start
  let last ← if stop.isMissing then pure none else some <$> whole stop
  match value with
  | list items => return list (Text.slice items first last)
  | value => onText (Text.slice · first last) value

def first : Value → Except Fault Value
  | list items => .ok (items.headD undefined)
  | value => onText (·.take 1) value

def last : Value → Except Fault Value
  | list items => .ok (items.getLastD undefined)
  | value => onText (fun chars => chars.drop (chars.length - 1)) value

/-- A character as it may stand in markup. -/
def escapeChar : Char → List Char
  | '&' => ['&', 'a', 'm', 'p', ';']
  | '<' => ['&', 'l', 't', ';']
  | '>' => ['&', 'g', 't', ';']
  | '"' => ['&', 'q', 'u', 'o', 't', ';']
  | '\'' => ['&', '#', 'x', '2', '7', ';']
  | c => [c]

def escapeText (s : String) : String := String.ofList (s.toList.flatMap escapeChar)

def escape (value : Value) : Except Fault Value := do return safe (escapeText (← value.toText))

def markSafe (value : Value) : Except Fault Value := do return safe (← value.toText)

/-- The moment a value stands for: numbers count milliseconds from 1970, texts are read. -/
def moment? : Value → Option DateTime
  | datetime t => some t
  | date d => some ⟨d, 0, 0, 0, 0⟩
  | int n => ofMillis (.int n)
  | float x => ofMillis (.real x)
  | text s | safe s =>
    Calendar.read? (Text.substitute ['Z'] ['+', '0', '0', ':', '0', '0'] (Text.trim s.toList))
  | _ => none
where
  ofMillis (n : Number) : Option DateTime :=
    match n.div (.int 1000) with
    | .ok (.real seconds) => Calendar.ofSeconds? seconds
    | _ => none

/-- The markers of a date format with the fields they stand for. -/
def dateMarkers (t : DateTime) : List (List Char × List Char) := [
  (['Y', 'Y', 'Y', 'Y'], Calendar.padded 4 t.date.year),
  (['M', 'M'], Calendar.padded 2 t.date.month),
  (['D', 'D'], Calendar.padded 2 t.date.day),
  (['H', 'H'], Calendar.padded 2 t.hour),
  (['m', 'm'], Calendar.padded 2 t.minute),
  (['s', 's'], Calendar.padded 2 t.second)]

def formatDate (t : DateTime) (format : List Char) : List Char :=
  (dateMarkers t).foldl (fun chars marker => Text.substitute marker.1 marker.2 chars) format

def formatted (value format : Value) : Except Fault Value :=
  match moment? value with
  | none => asItself value
  | some t => onText (formatDate t) format

def truncate (value length suffix : Value) : Except Fault Value := do
  let shown ← asItself value
  let chars := (← shown.toText).toList
  let limit ← whole length
  if chars.length > limit then
    return ofChars (Text.slice chars 0 (some limit) ++ (← suffix.toText).toList)
  else return shown

/-- The singular for one, else the plural, by default the singular with an s. -/
def pluralize (count singular plural : Value) : Except Fault Value :=
  if (count.toNumber).any (Number.eq (.int 1)) then asItself singular
  else if plural.isMissing || plural.asText? == some "" then do
    return text ((← singular.toText) ++ "s")
  else asItself plural

def currency (value symbol : Value) : Except Fault Value :=
  match value.toNumber with
  | none => .ok value
  | some number =>
    if value.isMissing then .ok value
    else do
      let mark ← symbol.toText
      return ofChars (mark.toList ++ Decimal.cents (← number.toDouble))

def json : Value → Except Fault Value
  | undefined => .ok (text "")
  | value => do return text (← value.toJson (.indented 0))

open Functions (arg)

/-- The value that is filtered is the first argument. -/
def subject (a : List Value) : Value := arg a 0 undefined

def all : List Builtin := [
  ⟨"upper", ⟨"f_upper", some "value", 1⟩, fun a => upper (subject a)⟩,
  ⟨"lower", ⟨"f_lower", some "value", 1⟩, fun a => lower (subject a)⟩,
  ⟨"capitalize", ⟨"f_capitalize", some "value", 1⟩, fun a => capitalize (subject a)⟩,
  ⟨"trim", ⟨"f_trim", some "value", 1⟩, fun a => trim (subject a)⟩,
  ⟨"reverse", ⟨"f_reverse", some "value", 1⟩, fun a => reverse (subject a)⟩,
  ⟨"sort", ⟨"f_sort", some "value", 1⟩, fun a => sort (subject a)⟩,
  ⟨"join", ⟨"f_join", some "value", 2⟩, fun a => join (subject a) (arg a 1 (text ","))⟩,
  ⟨"split", ⟨"f_split", some "value", 2⟩, fun a => split (subject a) (arg a 1 (text ","))⟩,
  ⟨"slice", ⟨"f_slice", some "value", 3⟩, fun a => slice (subject a) (arg a 1 (int 0)) (arg a 2 null)⟩,
  ⟨"first", ⟨"f_first", some "value", 1⟩, fun a => first (subject a)⟩,
  ⟨"last", ⟨"f_last", some "value", 1⟩, fun a => last (subject a)⟩,
  ⟨"escape", ⟨"f_escape", some "value", 1⟩, fun a => escape (subject a)⟩,
  ⟨"safe", ⟨"f_safe", some "value", 1⟩, fun a => markSafe (subject a)⟩,
  ⟨"date", ⟨"f_date", some "value", 2⟩, fun a => formatted (subject a) (arg a 1 (text "YYYY-MM-DD"))⟩,
  ⟨"truncate", ⟨"f_truncate", some "value", 3⟩,
    fun a => truncate (subject a) (arg a 1 (int 50)) (arg a 2 (text "..."))⟩,
  ⟨"pluralize", ⟨"f_pluralize", some "count", 3⟩,
    fun a => pluralize (subject a) (arg a 1 (text "")) (arg a 2 null)⟩,
  ⟨"currency", ⟨"f_currency", some "value", 2⟩, fun a => currency (subject a) (arg a 1 (text "$"))⟩,
  ⟨"json", ⟨"f_json", some "value", 1⟩, fun a => json (subject a)⟩,
  ⟨"default", ⟨"fn_default", none, 2⟩,
    fun a => .ok (Functions.orDefault (subject a) (arg a 1 (text "")))⟩]

end Stencil.Filters
