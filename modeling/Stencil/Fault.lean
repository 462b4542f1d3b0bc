/-! Faults of arithmetic, of calls and of the surroundings. They are not the template
author's to annotate: only when a routine raises one does it become a rendering error. A loop that
never ends is no fault that a routine could raise: nothing comes after it. -/
namespace Stencil

/-- The family of the value operators that a symbol was given to. -/
inductive OperatorFamily
  | any
  | comparison
  | logical
  | arithmetic
deriving DecidableEq, Repr

inductive Fault
  | infinityToInteger
  | nanToInteger
  | integerTooLarge
  | quotientTooLarge
  | roundedTooLarge
  | domain
  /-- More decimal digits than an integer may be read or written with; the count is known
  when reading. -/
  | tooManyDigits (count : Option Nat)
  | unknownOperator (family : OperatorFamily) (symbol : String)
  | unknownCategory (name : String)
  | unknownFormat (name : String)
  /-- A routine that takes from `least` to `most` arguments was given `given`. -/
  | tooManyArguments (routine : String) (least most given : Nat)
  | missingArgument (routine parameter : String)
  | missingKey (key : String)
  | framesOutOfOrder
  | globalFrame
  /-- Calls nest deeper than the stack has room for. -/
  | stackExhausted
  /-- A loop that never ends. -/
  | endless
  /-- The format of an export was asked for without a value. -/
  | noFormat
  /-- The complaint of a routine or of the command line, in its own words. -/
  | complaint (message : String)
deriving DecidableEq, Repr

/-- What a fault is about. -/
inductive FaultKind
  | overflow
  | value
  | type
  | key
  | scope
  | recursion
  | attribute
  | endless
deriving DecidableEq, Repr

namespace Fault

/-- Most decimal digits of an integer that is read or written. -/
def digitLimit : Nat := 4300

def kind : Fault → FaultKind
  | infinityToInteger | integerTooLarge | quotientTooLarge | roundedTooLarge => .overflow
  | tooManyArguments .. | missingArgument .. => .type
  | missingKey _ => .key
  | framesOutOfOrder | globalFrame => .scope
  | stackExhausted => .recursion
  | endless => .endless
  | noFormat => .attribute
  | _ => .value

def familyName : OperatorFamily → String
  | .any => ""
  | .comparison => "comparison "
  | .logical => "logical "
  | .arithmetic => "arithmetic "

def argumentsMessage (routine : String) (least most given : Nat) : String :=
  let expected :=
    if least == most then
      s!"{most} positional argument" ++ (if most == 1 then "" else "s")
    else s!"from {least} to {most} positional arguments"
  let verb := if given == 1 then "was" else "were"
  s!"{routine}() takes {expected} but {given} {verb} given"

def message : Fault → String
  | infinityToInteger => "cannot convert float infinity to integer"
  | nanToInteger => "cannot convert float NaN to integer"
  | integerTooLarge => "int too large to convert to float"
  | quotientTooLarge => "integer division result too large for a float"
  | roundedTooLarge => "rounded value too large to represent"
  | domain => "math domain error"
  | tooManyDigits count =>
    let counted := match count with
      | some n => s!": value has {n} digits"
      | none => ""
    s!"Exceeds the limit ({digitLimit} digits) for integer string conversion" ++ counted ++
      "; use sys.set_int_max_str_digits() to increase the limit"
  | unknownOperator family symbol => s!"Unknown {familyName family}operator: {symbol}"
  | unknownCategory name => s!"Unknown pattern: {name}"
  | unknownFormat name => s!"Unknown export format: {name}"
  | tooManyArguments routine least most given => argumentsMessage routine least most given
  | missingArgument routine parameter =>
    s!"{routine}() missing 1 required positional argument: '{parameter}'"
  | missingKey key => s!"'{key}'"
  | framesOutOfOrder => "Scope frames were popped out of order"
  | globalFrame => "Cannot pop the global scope"
  | stackExhausted => "maximum recursion depth exceeded"
  | endless => ""
  | noFormat => "'list' object has no attribute 'lower'"
  | complaint message => message

end Fault
end Stencil
