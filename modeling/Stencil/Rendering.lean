import Stencil.Diagnostic
import Stencil.Library
import Stencil.Options
import Stencil.Scope
import Stencil.Store
import Stencil.Tree

/-! Rendering: what it reads, what it changes, and how failures are annotated on their way
out. -/
namespace Stencil

/-- A template that is ready to render. No two templates of an engine share a number. -/
structure Template where
  number : Nat
  name : Option String
  source : String
  nodes : List Node
  diagnostics : List Diagnostic

/-- What stays the same while a template is rendered. Without a catalogue no other template
can be found. -/
structure Setting (σ : Type) where
  library : Library σ
  options : Options
  catalogue : Option (Dict Template)
  memory : Memory

/-- What rendering changes: the scope, the counts of the store and the state of routines. -/
structure World (σ : Type) where
  scope : Scope
  store : Store Template
  routines : σ

/-- A step of rendering. What it changed stays changed when it fails. -/
abbrev Rendering (σ : Type) := ExceptT Failure (StateM (World σ))

namespace Rendering
variable {σ α : Type}

def ofResult (result : Except Failure α) : Rendering σ α := fun world => (result, world)

def ofFault (result : Except Fault α) : Rendering σ α := ofResult (liftFault result)

def fail (trouble : Trouble) : Rendering σ α := ofResult (.error (.ofTrouble trouble))

/-- Runs a routine on its state. -/
def call (routine : Routine σ) (args : List Value) : Rendering σ Value := fun world =>
  let (result, routines) := routine args world.routines
  (result, { world with routines })

/-- A step under a frame of its own. -/
def withFrame (bindings : Dict Value) (body : Rendering σ α) : Rendering σ α := fun world =>
  let step (scope : Scope) (rest : Store Template × σ) :
      Except Failure α × Scope × Store Template × σ :=
    let (result, after) := body ⟨scope, rest.1, rest.2⟩
    (result, after.scope, after.store, after.routines)
  let (result, scope, store, routines) :=
    Scope.within Failure.fault bindings step world.scope (world.store, world.routines)
  (result, ⟨scope, store, routines⟩)

/-- A failure of a template takes an annotation; a fault passes as it is. -/
def annotated (annotate : TemplateError → TemplateError) (body : Rendering σ α) : Rendering σ α :=
  fun world =>
    match body world with
    | (.error (.template error), after) => (.error (.template (annotate error)), after)
    | other => other

/-- The template that a name stands for: one of the catalogue, or else of the store. -/
def resolve (setting : Setting σ) (name : String) : Rendering σ Template := fun world =>
  match setting.catalogue with
  | none => (.error (.ofCause (.notFound name)), world)
  | some catalogue =>
    match Dict.get? catalogue name with
    | some template => (.ok template, world)
    | none =>
      let (found, store) := world.store.get name
      let result := match found with
        | some template => .ok template
        | none => .error (.ofCause (.notFound name))
      (result, { world with store })

end Rendering
end Stencil
