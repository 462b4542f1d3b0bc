import Stencil.Analysis
import Stencil.Rendering.Output

/-! Engines: they compile and render templates and keep what outlives a rendering, the
functions and filters, the store of compiled templates and the catalogue of templates that
others may include. -/
namespace Stencil

structure Engine (σ : Type) where
  surroundings : Surroundings
  options : Options
  library : Library σ
  store : Store Template
  catalogue : Dict Template
  compilations : Nat
  renders : Nat

/-- Work on an engine and the state of its routines. What it changed stays changed when it
fails. -/
abbrev Engine.Work (σ : Type) := ExceptT Failure (StateM (Engine σ × σ))

namespace Engine
variable {σ : Type}

def create (surroundings : Surroundings) (options : Options) : Engine σ :=
  { surroundings, options
    library := .standard surroundings
    store := .empty options.cacheTemplates.truthy options.maxCacheSize
    catalogue := [], compilations := 0, renders := 0 }

/-- A new engine with changed options. It has the functions and filters, and nothing of what
was compiled. -/
def withOptions (engine : Engine σ) (changes : Dict Value) : Except Failure (Engine σ) := do
  let fresh := create engine.surroundings (← engine.options.replace changes)
  return { fresh with library := {
    functions := Dict.update fresh.library.functions engine.library.functions
    filters := Dict.update fresh.library.filters engine.library.filters } }

def setting (engine : Engine σ) (library : Library σ) : Setting σ :=
  ⟨library, engine.options, some engine.catalogue, engine.surroundings.memory⟩

namespace Work

def engine : Work σ (Engine σ) := return (← get).1

def change (f : Engine σ → Engine σ) : Work σ Unit := modify fun (engine, routines) =>
  (f engine, routines)

def ofResult {α : Type} (result : Except Failure α) : Work σ α := fun session => (result, session)

end Work

/-! ### Compiling -/

/-- The template stored under a name. -/
def stored (name : String) : Work σ (Option Template) := do
  let (found, store) := (← Work.engine).store.get name
  Work.change fun e => { e with store }
  return found

/-- The template that is stored under the name, if it was compiled from the same source. -/
def reusable (name : Option String) (source : String) : Work σ (Option Template) := do
  match name with
  | none => return none
  | some name =>
    if (← Work.engine).options.cacheTemplates.truthy then
      return (← stored name).filter (·.source == source)
    else return none

/-- A new template. Where the engine is strict diagnostics are an error. -/
def build (engine : Engine σ) (source : String) (name : Option String) :
    Except Failure Template := do
  let analysis ← Analysis.ofText engine.options source
  if !analysis.valid && engine.options.strictMode.truthy then
    throw (.template ((TemplateError.ofCause (.refused analysis.diagnostics)).inTemplate name))
  return ⟨engine.compilations, name, source, analysis.tree.nodes, analysis.diagnostics⟩

/-- A compiled template; one with a name is kept in the store. -/
def compile (source : String) (name : Option String) : Work σ Template := do
  match ← reusable name source with
  | some template => return template
  | none =>
    let template ← Work.ofResult (build (← Work.engine) source name)
    Work.change fun e => { e with
      compilations := e.compilations + 1
      store := name.elim e.store fun key => e.store.put key (some template) }
    return template

/-- A compiled template that is kept in the catalogue. -/
def precompile (name source : String) : Work σ Template := do
  let template ← compile source (some name)
  Work.change fun e => { e with catalogue := Dict.set e.catalogue name template }
  return template

def clearCache : Work σ Unit := Work.change fun e =>
  { e with store := e.store.clear, catalogue := [] }

/-! ### Rendering -/

/-- A template rendered on a scope, with the functions and filters of a library. -/
def renderOn (engine : Engine σ) (library : Library σ) (template : Template)
    (context : Dict Value) (scope : Scope) (routines : σ) :
    Except Failure String × Scope × Engine σ × σ :=
  let (result, world) :=
    (template.render (engine.setting library) context).run ⟨scope, engine.store, routines⟩
  (result, world.scope, { engine with store := world.store }, world.routines)

/-- A template rendered on a scope of its own. -/
def call (template : Template) (context : Dict Value) : Work σ String := fun (engine, routines) =>
  let (result, _, after) := renderOn engine engine.library template context .empty routines
  (result, after)

/-- A rendering that counts. -/
def counted (template : Template) (context : Dict Value) : Work σ String := do
  let output ← call template context
  Work.change fun e => { e with renders := e.renders + 1 }
  return output

def render (source : String) (context : Dict Value) (name : Option String) : Work σ String := do
  counted (← compile source name) context

/-- The template that a name stands for. -/
def find (name : String) : Work σ Template := do
  match Dict.get? (← Work.engine).catalogue name with
  | some template => return template
  | none =>
    match ← stored name with
    | some template => return template
    | none => throw (.ofCause (.notFound name))

def renderTemplate (name : String) (context : Dict Value) : Work σ String := do
  counted (← find name) context

/-! ### Batches -/

structure BatchItem where
  source : Option String
  context : Dict Value
  name : Option String

/-- What became of an item: an output, or an error as it is described. -/
structure BatchResult where
  outcome : Except String String
  name : Option String

def renderItem (item : BatchItem) : Work σ String := do
  match item.source with
  | none => throw (.fault (.missingKey "template"))
  | some source => render source item.context item.name

/-- A failure of a template as a result; a fault stays a fault. -/
def attempt (work : Work σ String) : Work σ (Except String String) := fun session =>
  match work.run session with
  | (.ok output, after) => (.ok (.ok output), after)
  | (.error (.template error), after) => (.ok (.error error.describe), after)
  | (.error (.fault fault), after) => (.error (.fault fault), after)

/-- Items one after the other, each run in the same way; one that fails does not stop those after
it. -/
def renderBatchBy (run : BatchItem → Work σ String) : List BatchItem → Work σ (List BatchResult)
  | [] => return []
  | item :: rest => do
    let outcome ← attempt (run item)
    return ⟨outcome, item.name⟩ :: (← renderBatchBy run rest)

def renderBatch : List BatchItem → Work σ (List BatchResult) := renderBatchBy renderItem

def BatchResult.toDocument (result : BatchResult) : Value :=
  let (success, field, content) := match result.outcome with
    | .ok output => (true, "output", output)
    | .error description => (false, "error", description)
  .dict [("success", .bool success), (field, .text content), ("name", .orNull (result.name.map .text))]

/-! ### Reports -/

def analyze (source : String) : Work σ Analysis := do
  Work.ofResult (Analysis.ofText (← Work.engine).options source)

/-- A full report; when rendering fails the error is part of it. -/
def debug (source : String) (context : Dict Value) : Work σ Value := do
  let analysis ← analyze source
  return analysis.fullReport (← attempt (render source context none))

def exported (source format : String) : Work σ String := do
  let format ← Work.ofResult (liftFault (ExportFormat.ofText format))
  let analysis ← analyze source
  Work.ofResult (liftFault (analysis.export format))

/-- What can be told of the store, which is shown as enabled if its flag is read as on. -/
def storeReport (engine : Engine σ) : Value :=
  let enabled : Value := .bool (Options.isOn engine.options.cacheTemplates)
  .dict (Dict.set engine.store.report "enabled" enabled ++
    [("precompiled", .ofTexts (Dict.keys engine.catalogue))])

def sortedNames (entries : Dict (Routine σ)) : Value :=
  .ofTexts ((Dict.keys entries).mergeSort fun a b => !decide (b.toList < a.toList))

def report (engine : Engine σ) : Value :=
  .dict [("tool_version", .text version), ("options", (Value.dict engine.options.toDict).plain),
    ("functions", sortedNames engine.library.functions),
    ("filters", sortedNames engine.library.filters), ("cache", engine.storeReport),
    ("compilations", .ofNat engine.compilations), ("renders", .ofNat engine.renders)]

end Engine
end Stencil
