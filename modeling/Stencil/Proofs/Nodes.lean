import Stencil.Rendering.Output

/-! Nodes inside nodes. A node renders lists of nodes of its own template, its inner lists; an
extension renders none and keeps the bodies of its blocks for another template. -/
namespace Stencil

def Clause.body : Clause → List Node
  | mk _ _ body => body

namespace Node

/-- The lists of nodes that a node renders in its own template. -/
def inner : Node → List (List Node)
  | conditional _ _ body clauses otherwise => body :: otherwise :: clauses.map Clause.body
  | loop _ _ _ body | repetition _ _ body | exception _ _ body => [body]
  | block named => [named.body]
  | _ => []

/-- The lists of nodes that a node replaces blocks of another template with. -/
def replacing : Node → List (List Node)
  | extension _ _ blocks => blocks.map Block.body
  | _ => []

/-- All lists of nodes directly inside a node. -/
def parts (node : Node) : List (List Node) := node.inner ++ node.replacing

theorem inner_subset_parts {node : Node} {body : List Node} (part : body ∈ node.inner) :
    body ∈ node.parts :=
  List.mem_append_left _ part

theorem sizeOf_lt_of_mem_parts {node : Node} {body : List Node} (part : body ∈ node.parts) :
    sizeOf body < sizeOf node := by
  cases node with
  | conditional span condition first clauses otherwise =>
    simp only [parts, inner, replacing, List.append_nil, List.mem_cons, List.mem_map] at part
    rw [Node.conditional.sizeOf_spec]
    rcases part with rfl | rfl | ⟨⟨span, condition, body⟩, member, rfl⟩
    · omega
    · omega
    · have less := List.sizeOf_lt_of_mem member
      rw [Clause.mk.sizeOf_spec] at less
      rw [Clause.body]
      omega
  | block named =>
    obtain ⟨span, name, body⟩ := named
    simp only [parts, inner, replacing, List.append_nil, List.mem_singleton] at part
    subst part
    rw [Node.block.sizeOf_spec, Block.mk.sizeOf_spec]
    omega
  | extension span parent blocks =>
    simp only [parts, inner, replacing, List.nil_append, List.mem_map] at part
    obtain ⟨⟨span, name, body⟩, member, rfl⟩ := part
    have less := List.sizeOf_lt_of_mem member
    rw [Block.mk.sizeOf_spec] at less
    rw [Node.extension.sizeOf_spec, Block.body]
    omega
  | loop | repetition | exception =>
    simp only [parts, inner, replacing, List.append_nil, List.mem_singleton] at part
    subst part
    simp only [Node.loop.sizeOf_spec, Node.repetition.sizeOf_spec, Node.exception.sizeOf_spec]
    omega
  | text | comment | output | inclusion => simp [parts, inner, replacing] at part

/-- Induction over lists of nodes: the lists inside the first node, and the rest. -/
theorem list_induction {motive : List Node → Prop} (nil : motive [])
    (cons : ∀ node rest, (∀ body ∈ node.parts, motive body) → motive rest →
      motive (node :: rest)) :
    ∀ nodes, motive nodes
  | [] => nil
  | node :: rest =>
    cons node rest (fun body _ => list_induction nil cons body) (list_induction nil cons rest)
termination_by nodes => sizeOf nodes
decreasing_by
  · rename_i part
    have less := sizeOf_lt_of_mem_parts part
    rw [List.cons.sizeOf_spec]
    omega
  · rw [List.cons.sizeOf_spec]
    omega

/-- A node stands among nodes, or in one of the lists inside them; `lists` tells which lists
inside a node count. -/
inductive Within (lists : Node → List (List Node)) (node : Node) : List Node → Prop
  | here {nodes : List Node} (member : node ∈ nodes) : Within lists node nodes
  | inside {outer : Node} {body nodes : List Node} (member : outer ∈ nodes)
      (part : body ∈ lists outer) (deeper : Within lists node body) : Within lists node nodes

variable {lists : Node → List (List Node)} {node outer : Node} {nodes body rest : List Node}

theorem within_nil : ¬ Within lists node [] := by
  intro within
  cases within with
  | here member | inside member => cases member

theorem within_cons : Within lists node (outer :: rest) ↔
    node = outer ∨ (∃ body ∈ lists outer, Within lists node body) ∨ Within lists node rest := by
  constructor
  · intro within
    cases within with
    | here member =>
      exact (List.mem_cons.mp member).imp_right fun later => .inr (.here later)
    | inside member part deeper =>
      rcases List.mem_cons.mp member with rfl | later
      · exact .inr (.inl ⟨_, part, deeper⟩)
      · exact .inr (.inr (.inside later part deeper))
  · rintro (rfl | ⟨body, part, deeper⟩ | later)
    · exact .here List.mem_cons_self
    · exact .inside List.mem_cons_self part deeper
    · cases later with
      | here member => exact .here (List.mem_cons_of_mem _ member)
      | inside member part deeper => exact .inside (List.mem_cons_of_mem _ member) part deeper

theorem Within.of_subset (within : Within lists node nodes) (subset : nodes ⊆ rest) :
    Within lists node rest := by
  cases within with
  | here member => exact .here (subset member)
  | inside member part deeper => exact .inside (subset member) part deeper

theorem Within.trans (within : Within lists node body) (part : body ∈ lists outer)
    (around : Within lists outer nodes) : Within lists node nodes := by
  induction around with
  | here member => exact .inside member part within
  | inside member other _ ih => exact .inside member other ih

/-- A block of this name is rendered in its place among nodes. -/
def Asks (nodes : List Node) (name : String) : Prop :=
  ∃ named, Within inner (block named) nodes ∧ named.name = name

theorem Asks.of_inner {name : String} (asks : Asks body name) (part : body ∈ node.inner) :
    Asks (node :: rest) name := by
  obtain ⟨named, within, same⟩ := asks
  exact ⟨named, .inside List.mem_cons_self part within, same⟩

theorem Asks.of_rest {name : String} (asks : Asks rest name) : Asks (node :: rest) name := by
  obtain ⟨named, within, same⟩ := asks
  exact ⟨named, within.of_subset (List.subset_cons_self _ _), same⟩

theorem asks_block (named : Block) (rest : List Node) : Asks (block named :: rest) named.name :=
  ⟨named, .here List.mem_cons_self, rfl⟩

/-! ### Contents -/

section Content
open Rendering
variable {σ : Type} (setting : Setting σ) (door : Door σ) (place : Place)

/-- The template that an expression names. -/
def named (path : Expression) : Rendering σ Template := do
  resolve setting (← ofFault (← path.evaluate setting).toText)

/-- The rendering of a node before its failures are annotated. -/
def content : Node → Rendering σ String
  | text _ content => return content
  | comment .. => return ""
  | output _ _ expression filters => renderOutput setting expression filters
  | conditional span condition body clauses otherwise =>
    renderClauses setting door place (renderAll setting door place otherwise)
      (.mk span condition body :: clauses)
  | loop _ binding iterable body => do
    match ← iterable.evaluate setting with
    | .list items => do
      let settled := Value.settledItems (← get).scope.fresh [] 0 items
      renderItems (renderAll setting door place body) binding items.length 0 settled
    | _ => return ""
  | repetition _ condition body =>
    renderWhile setting (condition.evaluate setting) (renderAll setting door place body)
      setting.options.maxLoopIterations
  | exception _ condition body => do
    if (← condition.evaluate setting).truthy then return ""
    else renderAll setting door place body
  | block named => renderBlock setting door place named
  | inclusion _ path => do
    let template ← named setting path
    door.enter ⟨template.name, []⟩ template.nodes
  | extension _ parent blocks => do
    let template ← named setting parent
    door.enter ⟨template.name, Dict.update (bodies blocks) place.replacements⟩ template.nodes

theorem render_eq (node : Node) :
    node.render setting door place =
      annotated (annotate place node) (node.content setting door place) := by
  have other (path : Expression) (replacements : Dict (List Node)) :
      (do renderOther setting door (← path.evaluate setting) replacements) =
        (do let template ← named setting path
            door.enter ⟨template.name, replacements⟩ template.nodes) := by
    simp only [renderOther, named, bind_assoc]
  cases node with
  | inclusion span path => exact congrArg (annotated _) (other path [])
  | extension span parent blocks => exact congrArg (annotated _) (other parent _)
  | _ => rfl

theorem renderAll_cons (node : Node) (rest : List Node) :
    renderAll setting door place (node :: rest) = do
      let first ← annotated (annotate place node) (node.content setting door place)
      return first ++ (← renderAll setting door place rest) := by
  rw [renderAll, render_eq]

theorem renderBlock_kept {named : Block}
    (kept : Dict.get? place.replacements named.name = none) :
    renderBlock setting door place named = renderAll setting door place named.body := by
  obtain ⟨span, name, body⟩ := named
  rw [renderBlock, show Dict.get? place.replacements name = none from kept]
  rfl

theorem renderBlock_replaced {named : Block} {other : List Node}
    (replaced : Dict.get? place.replacements named.name = some other) :
    renderBlock setting door place named = door.replace place other := by
  obtain ⟨span, name, body⟩ := named
  rw [renderBlock, show Dict.get? place.replacements name = some other from replaced]

end Content
end Node
end Stencil
