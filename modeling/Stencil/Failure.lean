import Stencil.Diagnostic
import Stencil.Fault

/-! Failures of templates. A failure during rendering is annotated on its way out with the
innermost construct and the template it happened in; what is set first stays. -/
namespace Stencil

/-- Why evaluation stopped. -/
inductive Trouble
  /-- Operands, as they are printed. -/
  | cannotAdd (left right : String)
  | nonNumeric (symbol : String)
  | divisionByZero (symbol : String)
  | functionFailed (name complaint : String)
  | filterFailed (name complaint : String)
  | includeDepth (limit : Nat)
  | loopIterations (limit : Nat)
  | reported (message : String) (name : Option String)
deriving DecidableEq, Repr

namespace Trouble

def message : Trouble → String
  | cannotAdd left right => s!"Cannot add {left} and {right}"
  | nonNumeric symbol => s!"Non-numeric operand for '{symbol}'"
  | divisionByZero symbol => s!"Division by zero in '{symbol}'"
  | functionFailed name complaint => s!"Function '{name}' failed: {complaint}"
  | filterFailed name complaint => s!"Filter '{name}' failed: {complaint}"
  | includeDepth limit => s!"Maximum include depth {limit} exceeded"
  | loopIterations limit => s!"While loop exceeded {limit} iterations"
  | reported message _ => message

/-- The function or filter that failed. -/
def name? : Trouble → Option String
  | functionFailed name _ | filterFailed name _ => some name
  | reported _ name => name
  | _ => none

end Trouble

/-- Why options were refused. -/
inductive OptionTrouble
  | unknown (names : List String)
  /-- The value as it is printed. -/
  | notPositive (name value : String)
  | fileNotFound (path : String)
  | notMapping (path : String)
  | sectionNotMapping (path : String)
deriving DecidableEq, Repr

def OptionTrouble.message : OptionTrouble → String
  | unknown names => "Unknown engine option(s): " ++ ", ".intercalate names
  | notPositive name value => s!"Option '{name}' must be a positive integer, got {value}"
  | fileNotFound path => s!"File not found: {path}"
  | notMapping path => s!"YAML must be a mapping: {path}"
  | sectionNotMapping path => s!"'engine' section must be a mapping: {path}"

inductive Cause
  | tooDeep (limit offset : Nat) (position : Text.Position)
  | unexpectedEnd (offset : Option Nat)
  /-- Diagnostics that are not tolerated. -/
  | refused (diagnostics : List Diagnostic)
  | unknownFunction (name : String)
  | unknownFilter (name : String)
  | trouble (trouble : Trouble)
  | notFound (name : String)
  | options (trouble : OptionTrouble)
deriving DecidableEq, Repr

namespace Cause

def refusedMessage (diagnostics : List Diagnostic) : String :=
  let summary := match diagnostics with
    | [] => "invalid template"
    | [only] => only.message
    | first :: others => s!"{first.message} (+{others.length} more)"
  "Template syntax error: " ++ summary

def message : Cause → String
  | tooDeep limit _ position =>
    s!"Maximum nesting depth {limit} exceeded at {position.line}:{position.column}"
  | unexpectedEnd _ => "Unexpected end of template"
  | refused diagnostics => refusedMessage diagnostics
  | unknownFunction name => s!"Unknown function: {name}"
  | unknownFilter name => s!"Unknown filter: {name}"
  | trouble t => t.message
  | notFound name => s!"Template '{name}' not found. Use precompile() first."
  | options t => t.message

def name? : Cause → Option String
  | unknownFunction name | unknownFilter name | notFound name => some name
  | trouble t => t.name?
  | _ => none

def offset? : Cause → Option Nat
  | tooDeep _ offset _ => some offset
  | unexpectedEnd offset => offset
  | _ => none

end Cause

/-- A construct of a template: how it is described and where it starts. -/
structure Construct where
  description : String
  position : Option Text.Position
deriving DecidableEq, Repr

structure TemplateError where
  cause : Cause
  template : Option String
  construct : Option Construct
deriving DecidableEq, Repr

namespace TemplateError

def ofCause (cause : Cause) : TemplateError := ⟨cause, none, none⟩

/-- An empty name names no template. -/
def inTemplate (error : TemplateError) (name : Option String) : TemplateError :=
  { error with template := error.template.or (name.filter (!·.isEmpty)) }

def inConstruct (error : TemplateError) (construct : Construct) : TemplateError :=
  { error with construct := error.construct.or (some construct) }

def describe (error : TemplateError) : String :=
  let place := match error.construct with
    | none => ""
    | some ⟨description, none⟩ => s!" in {description}"
    | some ⟨description, some p⟩ => s!" in {description} at {p.line}:{p.column}"
  let template := match error.template with
    | none => ""
    | some name => s!" (template '{name}')"
  error.cause.message ++ place ++ template

end TemplateError

/-- What ends the work: an error of a template, or a fault beneath it. -/
inductive Failure
  | template (error : TemplateError)
  | fault (fault : Fault)
deriving DecidableEq, Repr

namespace Failure

def ofCause (cause : Cause) : Failure := template (.ofCause cause)

def ofTrouble (t : Trouble) : Failure := ofCause (.trouble t)

def describe : Failure → String
  | template error => error.describe
  | fault f => f.message

end Failure

/-- A result whose faults are failures. -/
def liftFault {α : Type} : Except Fault α → Except Failure α
  | .ok a => .ok a
  | .error f => .error (.fault f)

instance : MonadLift (Except Fault) (Except Failure) := ⟨liftFault⟩

end Stencil
