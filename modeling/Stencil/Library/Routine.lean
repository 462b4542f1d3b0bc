import Stencil.Failure
import Stencil.Value

/-! Routines: what functions and filters run. A routine may keep a state of its own between
calls. -/
namespace Stencil

/-- A routine over a state: its arguments give a value or a failure. -/
abbrev Routine (σ : Type) := List Value → σ → Except Failure Value × σ

/-- The arguments a routine takes: at most one is required. -/
structure Signature where
  routine : String
  required : Option String
  most : Nat

namespace Signature

def least (signature : Signature) : Nat := if signature.required.isSome then 1 else 0

/-- The fault of a call with a wrong number of arguments. -/
def fault? (signature : Signature) (given : Nat) : Option Fault :=
  if given > signature.most then
    some (.tooManyArguments signature.routine signature.least signature.most given)
  else match signature.required with
    | some parameter =>
      if given == 0 then some (.missingArgument signature.routine parameter) else none
    | none => none

end Signature

/-- A built-in: a signature and a stateless body. -/
structure Builtin where
  name : String
  signature : Signature
  body : List Value → Except Fault Value

namespace Builtin

def run (builtin : Builtin) (args : List Value) : Except Fault Value :=
  match builtin.signature.fault? args.length with
  | some fault => .error fault
  | none => builtin.body args

def routine {σ : Type} (builtin : Builtin) : Routine σ :=
  fun args state => (liftFault (builtin.run args), state)

end Builtin
end Stencil
