import Stencil.Library.Filters

/-! Libraries: the functions and filters that templates may call by name. -/
namespace Stencil

structure Library (σ : Type) where
  functions : Dict (Routine σ)
  filters : Dict (Routine σ)

namespace Library
variable {σ : Type}

def entries (builtins : List Builtin) : Dict (Routine σ) :=
  builtins.map fun builtin => (builtin.name, builtin.routine)

def standard (s : Surroundings) : Library σ := ⟨entries (Functions.all s), entries Filters.all⟩

def addFunction (library : Library σ) (name : String) (routine : Routine σ) : Library σ :=
  { library with functions := library.functions.set name routine }

def addFilter (library : Library σ) (name : String) (routine : Routine σ) : Library σ :=
  { library with filters := library.filters.set name routine }

/-- A fault of a routine becomes a trouble of its own. What never ends stays so. -/
def wrapped (wrap : String → Trouble) : Failure → Failure
  | .template error => .template error
  | .fault .endless => .fault .endless
  | .fault fault => .ofTrouble (wrap fault.message)

/-- Runs a routine and wraps what it fails with. -/
def guarded (wrap : String → Trouble) (routine : Routine σ) : Routine σ :=
  fun args state =>
    let (result, next) := routine args state
    (result.mapError (wrapped wrap), next)

/-- A call of a function. -/
def call (library : Library σ) (name : String) : Routine σ :=
  match library.functions.get? name with
  | none => fun _ state => (.error (.ofCause (.unknownFunction name)), state)
  | some routine => guarded (.functionFailed name) routine

/-- A filter applied to a value: the first argument. -/
def applyFilter (library : Library σ) (name : String) : Routine σ :=
  match library.filters.get? name with
  | none => fun _ state => (.error (.ofCause (.unknownFilter name)), state)
  | some routine => guarded (.filterFailed name) routine

end Library
end Stencil
