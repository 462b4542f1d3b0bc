import Stencil.Text.Words

/-! Arguments of a command: one positional argument, and switches of which some take a value.
Long switches may be shortened as long as they stay unambiguous. -/
namespace Stencil.CommandLine

/-- What ends a command line before its command runs. -/
inductive Stop
  | misuse
  | help
  | version
deriving DecidableEq, Repr

inductive Effect
  | stop (stop : Stop)
  | mark
  /-- Takes a value; if there are choices it is one of them. -/
  | value (choices : List String)

/-- A switch: its spellings and what it does. -/
structure Switch where
  spellings : List String
  key : String
  effect : Effect

def Switch.takesValue (s : Switch) : Bool :=
  match s.effect with
  | .value _ => true
  | _ => false

/-- What an argument looks like. -/
inductive Look
  | plain
  /-- The mark after which all arguments are plain. -/
  | separator
  | switch (switch : Switch) (given : Option String)
  /-- Short switches run together. -/
  | cluster (switches : List Switch)
  | unknown

namespace Look

def separatorText : String := "--"

def isDash (arg : List Char) : Bool := arg.head? == some '-'

/-- A negative number, which is no switch. A line end may follow it. -/
def isNegative (arg : List Char) : Bool :=
  let body := (if arg.getLast? == some '\n' then arg.dropLast else arg).drop 1
  let whole := body.takeWhile Text.isDigit
  match body.drop whole.length with
  | [] => !whole.isEmpty
  | '.' :: fraction => !fraction.isEmpty && fraction.all Text.isDigit
  | _ => false

/-- Name and value of an argument with an equals sign. -/
def assigned? (arg : List Char) : Option (List Char × List Char) := Text.breakAt ['='] arg

def find? (switches : List Switch) (spelling : List Char) : Option Switch :=
  switches.find? (·.spellings.contains (String.ofList spelling))

/-- The switches with a spelling that begins like this, one for each such spelling. -/
def startingWith (switches : List Switch) (start : List Char) : List Switch :=
  switches.flatMap fun s => (s.spellings.filter (start.isPrefixOf ·.toList)).map fun _ => s

/-- The switches of short spellings, each by its letter; none if a letter is unknown. -/
def letters? (switches : List Switch) (text : List Char) : Option (List Switch) :=
  text.mapM fun c => if c == '-' then none else find? switches ['-', c]

/-- A switch with a text attached to its spelling. After a short switch that takes no value the
text is the letters of more switches. -/
def attached (switches : List Switch) (spelling : List Char) (s : Switch) (text : List Char) :
    Look :=
  let more := if spelling.length == 2 && !s.takesValue && !text.isEmpty
    then letters? switches text else none
  match more with
  | some more => cluster (s :: more)
  | none => switch s (some (String.ofList text))

/-- A short switch with more letters after it. -/
def ofShort (switches : List Switch) (arg : List Char) : Option Look :=
  (find? switches (arg.take 2)).map fun s => attached switches (arg.take 2) s (arg.drop 2)

/-- An argument that begins like a switch and is spelled like none. -/
def ofShortened (switches : List Switch) (arg : List Char) : Except Stop Look := do
  let found ← if ['-', '-'].isPrefixOf arg then
      let (start, given) := match assigned? arg with
        | some (start, value) => (start, some (String.ofList value))
        | none => (arg, none)
      match startingWith switches start with
      | [] => pure none
      | [only] => pure (some (switch only given))
      | _ => throw .misuse
    else pure (ofShort switches arg)
  match found with
  | some look => return look
  | none => return if isNegative arg || arg.contains ' ' then plain else unknown

def ofArgument (switches : List Switch) (text : String) : Except Stop Look := do
  let arg := text.toList
  if !isDash arg || arg.length == 1 then return plain
  match find? switches arg, assigned? arg with
  | some s, _ => return switch s none
  | none, some (name, value) =>
    match find? switches name with
    | some s => return attached switches name s value
    | none => ofShortened switches arg
  | none, none => ofShortened switches arg

/-- Arguments with their looks. -/
def ofArguments (switches : List Switch) : List String → Except Stop (List (Look × String))
  | [] => return []
  | arg :: rest => do
    if arg == separatorText then return (separator, arg) :: rest.map fun plainArg => (plain, plainArg)
    else
      let look ← ofArgument switches arg
      return (look, arg) :: (← ofArguments switches rest)

end Look

/-- What arguments say: the positional one, the switches in order with the values that some of
them have, and whether something was left over. -/
structure Said where
  positional : Option String
  switches : List (String × Option String)
  surplus : Bool

namespace Said

def add (said : Said) (key : String) (value : Option String) : Said :=
  { said with switches := said.switches ++ [(key, value)] }

def has (said : Said) (key : String) : Bool := said.switches.any (·.1 == key)

/-- Every use of a switch, with its value if it has one. -/
def all (said : Said) (key : String) : List (Option String) :=
  (said.switches.filter (·.1 == key)).map (·.2)

/-- The last use of a switch. -/
def last? (said : Said) (key : String) : Option (Option String) := (said.all key).getLast?

/-- A value for a switch. The separator is no value, and leaves the switch without one. -/
def takeValue (said : Said) (s : Switch) (value : String) : Except Stop Said :=
  match s.effect with
  | .value choices =>
    if value == Look.separatorText then .ok (said.add s.key none)
    else if choices.isEmpty || choices.contains value then .ok (said.add s.key (some value))
    else .error .misuse
  | _ => .error .misuse

/-- A switch that takes no value. -/
def applySwitch (said : Said) (s : Switch) : Except Stop Said :=
  match s.effect with
  | .stop stop => .error stop
  | .mark => .ok (said.add s.key none)
  | .value _ => .error .misuse

/-- Reads arguments. `waiting` is a switch whose value comes next, `closed` tells that a
separator may not stand here. -/
def read (said : Said) (waiting : Option Switch) (closed : Bool) :
    List (Look × String) → Except Stop Said
  | [] => if waiting.isSome then .error .misuse else .ok said
  | (look, arg) :: rest =>
    match waiting with
    | some s =>
      match look with
      | .plain => do read (← said.takeValue s arg) none said.positional.isSome rest
      | _ => .error .misuse
    | none =>
      match look with
      | .plain =>
        if said.positional.isSome then read { said with surplus := true } none true rest
        else read { said with positional := some arg } none false rest
      | .separator => read { said with surplus := said.surplus || closed } none closed rest
      | .unknown => read { said with surplus := true } none said.positional.isSome rest
      | .switch s (some value) => do
        read (← said.takeValue s value) none said.positional.isSome rest
      | .switch s none => do
        if s.takesValue then read said (some s) closed rest
        else read (← said.applySwitch s) none said.positional.isSome rest
      | .cluster switches => do
        let said ← switches.foldlM applySwitch said
        read said none said.positional.isSome rest

/-- What the arguments of a command say. The positional one is required, and nothing may be
left over. -/
def ofArguments (switches : List Switch) (args : List String) : Except Stop Said := do
  let said ← read ⟨none, [], false⟩ none false (← Look.ofArguments switches args)
  if said.positional.isNone then throw .misuse
  return said

end Said

/-- The word of the command and the arguments after it; what stands before the word is
either a switch that ends the command line or left over. -/
def splitCommand (surplus : Bool) : List (Look × String) → Except Stop (Bool × String × List String)
  | [] => .error .misuse
  | (look, arg) :: rest =>
    match look with
    | .plain => .ok (surplus, arg, rest.map (·.2))
    | .separator => .error .misuse
    | .unknown => splitCommand true rest
    | .switch s none => do
      let _ ← Said.applySwitch ⟨none, [], false⟩ s
      splitCommand surplus rest
    | .switch _ (some _) => .error .misuse
    | .cluster switches => do
      let _ ← switches.foldlM Said.applySwitch (⟨none, [], false⟩ : Said)
      splitCommand surplus rest

end Stencil.CommandLine
