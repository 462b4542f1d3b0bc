import Stencil.Value.Written
import Stencil.Number.Reading

/-! Parts of values: named properties and indexed items. What has no such part gives
undefined. Numbers, truth values, dates and durations are objects with methods, and a method tells
where in memory the object stands that it belongs to. -/
namespace Stencil

/-- What a method belongs to: an object, or a kind of objects. -/
inductive Owner
  | bool (b : Bool)
  | number (n : Number)
  | date (d : Date)
  | datetime (t : DateTime)
  | duration (time : Duration)
  | kind (kind : Kind)

/-- Where objects stand. Objects that are equal may be one, and those that are reached from
different names may be two. -/
abbrev Memory := (name : String) → Owner → Nat

namespace Memory

def code (text : String) : Nat := text.toList.foldl (fun n c => n * Nat.pow 2 21 + c.toNat) 1

/-- Kinds, truth values and small integers stand at one place, all else at one for each name. -/
def apart : Memory := fun name owner =>
  match owner with
  | .kind kind => code kind.text
  | .bool b => if b then 1 else 2
  | .number (.int n) => if -5 ≤ n && n ≤ 256 then (n + 5).toNat else code name
  | _ => code name

end Memory

namespace Kind

/-- Methods of the objects of a kind. -/
def methods : Kind → List String
  | bool | int => ["as_integer_ratio", "bit_count", "bit_length", "conjugate", "to_bytes"]
  | float => ["as_integer_ratio", "conjugate", "hex", "is_integer"]
  | date => ["ctime", "isocalendar", "isoformat", "isoweekday", "replace", "strftime", "timetuple",
      "toordinal", "weekday"]
  | datetime => ["astimezone", "ctime", "date", "dst", "isocalendar", "isoformat", "isoweekday",
      "replace", "strftime", "time", "timestamp", "timetuple", "timetz", "toordinal", "tzname",
      "utcoffset", "utctimetuple", "weekday"]
  | duration => ["total_seconds"]

/-- Methods of a kind itself, which its objects share. -/
def sharedMethods : Kind → List String
  | bool | int => ["from_bytes"]
  | float => ["fromhex"]
  | date => ["fromisocalendar", "fromisoformat", "fromordinal", "fromtimestamp", "today"]
  | datetime => ["combine", "fromisocalendar", "fromisoformat", "fromordinal", "fromtimestamp", "now",
      "strptime", "today", "utcfromtimestamp", "utcnow"]
  | duration => []

end Kind

namespace Value

/-! ### Fields -/

/-- Fields of a number; `broken` tells a double from an integer. -/
def numberField? (value : Value) (broken : Bool) (name : String) : Option Value :=
  match name with
  | "real" => some value
  | "imag" => some (if broken then float .zero else int 0)
  | "numerator" => if broken then none else some value
  | "denominator" => if broken then none else some (int 1)
  | _ => none

def firstDate : Date := ⟨1, 1, 1⟩
def lastDate : Date := ⟨9999, 12, 31⟩

def dateField? (d : Date) (name : String) : Option Value :=
  match name with
  | "year" => some (ofNat d.year)
  | "month" => some (ofNat d.month)
  | "day" => some (ofNat d.day)
  | "min" => some (date firstDate)
  | "max" => some (date lastDate)
  | "resolution" => some (duration ⟨1, 0, 0⟩)
  | _ => none

def microsecond : Duration := ⟨0, 0, 1⟩

def momentField? (t : DateTime) (name : String) : Option Value :=
  match name with
  | "hour" => some (ofNat t.hour)
  | "minute" => some (ofNat t.minute)
  | "second" => some (ofNat t.second)
  | "microsecond" => some (ofNat t.microsecond)
  | "tzinfo" => some null
  | "fold" => some (int 0)
  | "min" => some (datetime ⟨firstDate, 0, 0, 0, 0⟩)
  | "max" => some (datetime ⟨lastDate, 23, 59, 59, 999999⟩)
  | "resolution" => some (duration microsecond)
  | _ => dateField? t.date name

def durationField? (time : Duration) (name : String) : Option Value :=
  match name with
  | "days" => some (int time.days)
  | "seconds" => some (ofNat time.seconds)
  | "microseconds" => some (ofNat time.microseconds)
  | "min" => some (duration ⟨-999999999, 0, 0⟩)
  | "max" => some (duration ⟨999999999, 86399, 999999⟩)
  | "resolution" => some (duration microsecond)
  | _ => none

/-- A field that a value has by name, without its methods. -/
def field? (value : Value) (name : String) : Option Value :=
  match value with
  | dict entries => Dict.get? entries name
  | list items => if name == "length" then some (ofNat items.length) else none
  | text s | safe s => if name == "length" then some (ofNat s.length) else none
  | bool b => numberField? (int (if b then 1 else 0)) false name
  | int _ => numberField? value false name
  | float _ => numberField? value true name
  | date d => dateField? d name
  | datetime t => momentField? t name
  | duration time => durationField? time name
  | undefined | null | method _ => none

/-! ### Methods -/

/-- The object that a value is, with its kind. What is no number is one object. -/
def owner? : Value → Option (Kind × Owner)
  | bool b => some (.bool, .bool b)
  | int n => some (.int, .number (.int n))
  | float x => some (.float, .number (.real x.asResult))
  | date d => some (.date, .date d)
  | datetime t => some (.datetime, .datetime t)
  | duration time => some (.duration, .duration time)
  | _ => none

/-- A method of a value by name; `standing` tells where its owner stands. -/
def method? (standing : Owner → Nat) (value : Value) (name : String) : Option Method := do
  let (kind, owner) ← value.owner?
  if kind.methods.contains name then some ⟨name, kind, false, standing owner⟩
  else if kind.sharedMethods.contains name then some ⟨name, kind, true, standing (.kind kind)⟩
  else none

/-- A property of a value; `standing` tells where the value and its kind stand. -/
def property (standing : Owner → Nat) (value : Value) (name : String) : Value :=
  match value.field? name with
  | some part => part
  | none => ((value.method? standing name).map method).getD undefined

/-! ### Items -/

/-- A place in a sequence. -/
inductive Place
  | at (position : Int)
  | size
  | nowhere

/-- Texts are places when they read as integers; doubles when they are integral. -/
def placeOf : Value → Place
  | int n => .at n
  | float x => if x.isIntegral then (x.truncate?.map Place.at).getD .nowhere else .nowhere
  | text s | safe s =>
    match Reading.whole? s.toList with
    | some whole => if whole.digits ≤ Fault.digitLimit then .at whole.value else .nowhere
    | none => if s == "length" then .size else .nowhere
  | _ => .nowhere

/-- The item of a sequence at a place. -/
def itemAt {α : Type} (items : List α) (wrap : α → Value) (place : Place) : Value :=
  match place with
  | .at (.ofNat n) => ((items[n]?).map wrap).getD undefined
  | .size => ofNat items.length
  | _ => undefined

/-- An indexed part. Lists and texts have places; dictionaries have keys, and an index that is
not a text names the key it is printed as. -/
def index (value key : Value) : Except Fault Value :=
  match value with
  | list items => .ok (itemAt items id (placeOf key))
  | text s | safe s => .ok (itemAt s.toList (fun c => ofChars [c]) (placeOf key))
  | dict entries =>
    match key with
    | list _ | dict _ => .ok undefined
    | key => do return (Dict.get? entries (← keyText key)).getD undefined
  | _ => .ok undefined

end Value
end Stencil
