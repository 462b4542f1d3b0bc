import Stencil.Rendering.Evaluation
import Stencil.Value.Equality

/-! The text that templates render to. An include, a parent or the replacement of a block is
entered through a `Door`; how often doors open inside each other is bounded. -/
namespace Stencil
open Rendering
variable {σ : Type}

/-- Where rendering stands: the name of the template and the bodies that replace its blocks. -/
structure Place where
  template : Option String
  replacements : Dict (List Node)

/-- The ways out of a node: into another template, and into a body that replaces a block. -/
structure Door (σ : Type) where
  enter : Place → List Node → Rendering σ String
  replace : Place → List Node → Rendering σ String

namespace Node

/-! ### Interpolations -/

/-- A value as it is put out: escaped, unless it is safe or escaping is switched off. -/
def display (setting : Setting σ) (value : Value) : Rendering σ String := do
  if setting.options.autoEscape.truthy && !value.isSafe then
    if Dict.has setting.library.filters "escape" then
      ofFault (← Rendering.call (setting.library.applyFilter "escape") [value]).toText
    else return Filters.escapeText (← ofFault value.toText)
  else ofFault value.toText

def renderOutput (setting : Setting σ) (expression : Option Expression)
    (filters : List FilterUse) : Rendering σ String := do
  let value ← match expression with
    | some e => e.evaluate setting
    | none => pure .undefined
  display setting (← FilterUse.applyAll setting value filters)

/-! ### Loops -/

/-- What a loop tells about its state. -/
def loopState (index length : Nat) : Value :=
  .dict [("index", .ofNat index), ("length", .ofNat length), ("first", .bool (index == 0)),
    ("last", .bool (index + 1 == length))]

def loopBindings (binding : LoopBinding) (item : Value) (index length : Nat) : Dict Value :=
  Dict.ofList ([(binding.item, item), ("loop", loopState index length)] ++
    (binding.index.map fun name => (name, Value.ofNat index)).toList)

/-- The outputs of a body for items from `index` on, each under a frame of its own. -/
def renderItems (body : Rendering σ String) (binding : LoopBinding) (length index : Nat) :
    List Value → Rendering σ String
  | [] => return ""
  | item :: rest => do
    let first ← withFrame (loopBindings binding item index length) body
    return first ++ (← renderItems body binding length (index + 1) rest)

/-- The outputs of a body while a condition holds, at most `remaining` times. -/
def renderWhile (setting : Setting σ) (condition : Rendering σ Value) (body : Rendering σ String) :
    (remaining : Nat) → Rendering σ String
  | 0 => do
    if (← condition).truthy then fail (.loopIterations setting.options.maxLoopIterations)
    else return ""
  | remaining + 1 => do
    if (← condition).truthy then
      let first ← body
      return first ++ (← renderWhile setting condition body remaining)
    else return ""

/-! ### Nodes -/

/-- The text of a tag in messages. -/
def tagText (words : String) : String := "\x7b% " ++ words ++ " %\x7d"

/-- How a node is described in messages. -/
def describe : Node → String
  | output _ source _ _ => "\x7b\x7b " ++ source ++ " \x7d\x7d"
  | conditional .. => tagText "if"
  | loop _ binding _ _ => tagText binding.word
  | repetition .. => tagText "while"
  | exception .. => tagText "unless"
  | block named => tagText ("block " ++ named.name)
  | inclusion .. => tagText "include"
  | extension .. => tagText "extends"
  | text .. | comment .. => ""

def span : Node → Span
  | text span _ | comment span _ | output span .. | conditional span .. | loop span ..
  | repetition span .. | exception span .. | inclusion span _ | extension span .. => span
  | block named => named.span

/-- A failure inside a node names the template and the innermost node. -/
def annotate (place : Place) (node : Node) (error : TemplateError) : TemplateError :=
  (error.inTemplate place.template).inConstruct ⟨node.describe, some node.span.position⟩

/-- The bodies of blocks by name. -/
def bodies (blocks : List Block) : Dict (List Node) :=
  Dict.ofList (blocks.map fun named => (named.name, named.body))

/-- Another template with replacements for its blocks, found by its name. -/
def renderOther (setting : Setting σ) (door : Door σ) (name : Value)
    (replacements : Dict (List Node)) : Rendering σ String := do
  let template ← resolve setting (← ofFault name.toText)
  door.enter ⟨template.name, replacements⟩ template.nodes

mutual
def render (setting : Setting σ) (door : Door σ) (place : Place) : Node → Rendering σ String
  | text _ content => return content
  | comment .. => return ""
  | output span source expression filters =>
    annotated (annotate place (output span source expression filters))
      (renderOutput setting expression filters)
  | conditional span condition body clauses otherwise =>
    annotated (annotate place (conditional span condition body clauses otherwise)) do
      if (← condition.evaluate setting).truthy then renderAll setting door place body
      else renderClauses setting door place (renderAll setting door place otherwise) clauses
  | loop span binding iterable body =>
    annotated (annotate place (loop span binding iterable body)) do
      match ← iterable.evaluate setting with
      | .list items => do
        let settled := Value.settledItems (← get).scope.fresh [] 0 items
        renderItems (renderAll setting door place body) binding items.length 0 settled
      | _ => return ""
  | repetition span condition body =>
    annotated (annotate place (repetition span condition body))
      (renderWhile setting (condition.evaluate setting) (renderAll setting door place body)
        setting.options.maxLoopIterations)
  | exception span condition body =>
    annotated (annotate place (exception span condition body)) do
      if (← condition.evaluate setting).truthy then return ""
      else renderAll setting door place body
  | block named =>
    annotated (annotate place (block named)) (renderBlock setting door place named)
  | inclusion span path =>
    annotated (annotate place (inclusion span path)) do
      renderOther setting door (← path.evaluate setting) []
  | extension span parent blocks =>
    annotated (annotate place (extension span parent blocks)) do
      renderOther setting door (← parent.evaluate setting)
        (Dict.update (bodies blocks) place.replacements)
termination_by structural node => node
/-- The outputs of nodes, one after the other. -/
def renderAll (setting : Setting σ) (door : Door σ) (place : Place) :
    List Node → Rendering σ String
  | [] => return ""
  | node :: rest => do
    let first ← node.render setting door place
    return first ++ (← renderAll setting door place rest)
termination_by structural nodes => nodes
/-- The body of the first clause whose condition holds, or what stands after the `else`. -/
def renderClauses (setting : Setting σ) (door : Door σ) (place : Place)
    (otherwise : Rendering σ String) : List Clause → Rendering σ String
  | [] => otherwise
  | .mk _ condition body :: rest => do
    if (← condition.evaluate setting).truthy then renderAll setting door place body
    else renderClauses setting door place otherwise rest
termination_by structural clauses => clauses
/-- A block, or the body that replaces it. -/
def renderBlock (setting : Setting σ) (door : Door σ) (place : Place) :
    Block → Rendering σ String
  | .mk _ name body =>
    match Dict.get? place.replacements name with
    | some other => door.replace place other
    | none => renderAll setting door place body
termination_by structural named => named
end

/-! ### Doors -/

/-- How often replacements may open inside each other within one template. -/
def replacementLimit : Nat := 1000

/-- Nodes of one template; `replacements` bounds how often bodies that replace blocks open
inside each other. -/
def renderWithin (setting : Setting σ) (enter : Place → List Node → Rendering σ String) :
    (replacements : Nat) → Place → List Node → Rendering σ String
  | 0, _, _ => ofFault (.error .stackExhausted)
  | replacements + 1, place, nodes =>
    renderAll setting ⟨enter, renderWithin setting enter replacements⟩ place nodes

/-- Nodes of a template inside others; `levels` more may be entered. -/
def renderEntered (setting : Setting σ) : (levels : Nat) → Place → List Node → Rendering σ String
  | 0, _, _ => fail (.includeDepth setting.options.maxDepth)
  | levels + 1, place, nodes =>
    renderWithin setting (renderEntered setting levels) replacementLimit place nodes

/-- Nodes of a template that is rendered on its own. -/
def renderTop (setting : Setting σ) (place : Place) (nodes : List Node) : Rendering σ String :=
  renderWithin setting (renderEntered setting setting.options.maxDepth) replacementLimit place
    nodes

end Node

/-- A template rendered on a scope, with its context in a frame on top. -/
def Template.render (setting : Setting σ) (template : Template) (context : Dict Value) :
    Rendering σ String :=
  withFrame context
    (annotated (·.inTemplate template.name) (Node.renderTop setting ⟨template.name, []⟩ template.nodes))

end Stencil
