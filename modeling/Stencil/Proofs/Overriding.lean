import Stencil.Proofs.Likeness

/-! Blocks that are replaced before rendering. Nodes that enter no other template render, at a place
that replaces blocks, what they render after the bodies of these blocks have been put into them. -/
namespace Stencil

def Clause.mapBody (f : List Node → List Node) : Clause → Clause
  | mk span condition body => mk span condition (f body)

namespace Node
open Rendering

/-! ### Nodes with other bodies -/

section Overridden

variable (other : String → Option (List Node))

mutual
/-- The node where blocks, at whatever depth, have the bodies that `other` gives them. -/
def overridden : Node → Node
  | text span content => text span content
  | comment span content => comment span content
  | output span source expression filters => output span source expression filters
  | conditional span condition body clauses otherwise =>
    conditional span condition (overriddenAll body) (overriddenClauses clauses)
      (overriddenAll otherwise)
  | loop span binding iterable body => loop span binding iterable (overriddenAll body)
  | repetition span condition body => repetition span condition (overriddenAll body)
  | exception span condition body => exception span condition (overriddenAll body)
  | block named => block (overriddenBlock named)
  | inclusion span path => inclusion span path
  | extension span parent blocks => extension span parent blocks
termination_by structural node => node
def overriddenAll : List Node → List Node
  | [] => []
  | node :: rest => node.overridden :: overriddenAll rest
termination_by structural nodes => nodes
def overriddenClauses : List Clause → List Clause
  | [] => []
  | .mk span condition body :: rest => .mk span condition (overriddenAll body) :: overriddenClauses rest
termination_by structural clauses => clauses
/-- A block that gets another body, or else keeps its own with the blocks inside it overridden. -/
def overriddenBlock : Block → Block
  | .mk span name body => .mk span name ((other name).getD (overriddenAll body))
termination_by structural named => named
end

end Overridden

/-! ### Properties of all nodes -/

/-- All nodes have the property, also those inside others. -/
def Throughout (good : Node → Prop) (nodes : List Node) : Prop :=
  ∀ node, Within parts node nodes → good node

theorem throughout_cons {good : Node → Prop} {node : Node} {rest : List Node} :
    Throughout good (node :: rest) ↔
      good node ∧ (∀ body ∈ node.parts, Throughout good body) ∧ Throughout good rest := by
  constructor
  · exact fun all => ⟨all node (within_cons.mpr (.inl rfl)),
      fun body part inner within => all inner (within_cons.mpr (.inr (.inl ⟨body, part, within⟩))),
      fun inner within => all inner (within_cons.mpr (.inr (.inr within)))⟩
  · rintro ⟨here, inside, later⟩ inner within
    rcases within_cons.mp within with rfl | ⟨body, part, deeper⟩ | after
    · exact here
    · exact inside body part inner deeper
    · exact later inner after

def isBlock : Node → Bool
  | block _ => true
  | _ => false

/-! ### Renderings -/

/-- Every list of nodes right inside the node, taken through `f`. -/
def mapInner (f : List Node → List Node) : Node → Node
  | conditional span condition body clauses otherwise =>
    conditional span condition (f body) (clauses.map (·.mapBody f)) (f otherwise)
  | loop span binding iterable body => loop span binding iterable (f body)
  | repetition span condition body => repetition span condition (f body)
  | exception span condition body => exception span condition (f body)
  | block (.mk span name body) => block (.mk span name (f body))
  | node => node

theorem mapInner_id (node : Node) : node.mapInner id = node := by
  cases node with
  | conditional span condition body clauses otherwise =>
    have each : ∀ clause ∈ clauses, clause.mapBody id = id clause := by
      rintro ⟨span, condition, body⟩ -
      rfl
    rw [mapInner, List.map_congr_left each, List.map_id, id, id]
  | block named =>
    cases named
    rfl
  | _ => rfl

theorem overridden_eq_mapInner {other : String → Option (List Node)} {node : Node}
    (settled : node.isBlock = false) : node.overridden other = node.mapInner (overriddenAll other) := by
  have clausewise (clauses : List Clause) : overriddenClauses other clauses =
      clauses.map (·.mapBody (overriddenAll other)) := by
    induction clauses with
    | nil => rfl
    | cons clause rest ih =>
      cases clause
      rw [overriddenClauses, ih]
      rfl
  cases node with
  | conditional span condition body clauses otherwise =>
    rw [overridden, clausewise, mapInner]
  | block named => contradiction
  | _ => rfl

section Render

variable {σ : Type} {setting : Setting σ} {door door' : Door σ} {place place' : Place}

theorem annotate_mapInner (same : place.template = place'.template) (f : List Node → List Node)
    (node : Node) : annotate place' (node.mapInner f) = annotate place node := by
  funext error
  cases node with
  | block named =>
    cases named
    simp only [annotate, same, mapInner, describe, Block.name, span, Block.span]
  | _ => simp only [annotate, same, mapInner, describe, span]

theorem renderClauses_map {f : List Node → List Node} {clauses : List Clause}
    (bodies : ∀ clause ∈ clauses, renderAll setting door place clause.body =
      renderAll setting door' place' (f clause.body)) (otherwise : Rendering σ String) :
    renderClauses setting door place otherwise clauses =
      renderClauses setting door' place' otherwise (clauses.map (·.mapBody f)) := by
  induction clauses with
  | nil => rfl
  | cons clause rest ih =>
    obtain ⟨span, condition, body⟩ := clause
    have here : renderAll setting door place body = renderAll setting door' place' (f body) :=
      bodies _ List.mem_cons_self
    rw [List.map_cons, Clause.mapBody, renderClauses, renderClauses, here,
      ih fun clause member => bodies clause (List.mem_cons_of_mem _ member)]

/-- A node that is neither a block nor leads into another template looks at its place only to name
the template and for the lists inside it. -/
theorem content_mapInner {f : List Node → List Node} {node : Node}
    (settled : node.entersOther = false) (plain : node.isBlock = false)
    (bodies : ∀ body ∈ node.inner, renderAll setting door place body =
      renderAll setting door' place' (f body)) :
    node.content setting door place = (node.mapInner f).content setting door' place' := by
  cases node with
  | text | comment | output => rfl
  | conditional span condition body clauses otherwise =>
    have last := bodies otherwise (by simp [inner])
    have all : ∀ clause ∈ Clause.mk span condition body :: clauses,
        renderAll setting door place clause.body =
          renderAll setting door' place' (f clause.body) := by
      refine List.forall_mem_cons.mpr ⟨bodies _ List.mem_cons_self, fun clause member => ?_⟩
      exact bodies _ (List.mem_cons_of_mem _ (List.mem_cons_of_mem _ (List.mem_map_of_mem member)))
    rw [mapInner, content, content, last]
    exact renderClauses_map all _
  | loop span binding iterable body =>
    rw [mapInner, content, content, bodies body List.mem_cons_self]
  | repetition span condition body =>
    rw [mapInner, content, content, bodies body List.mem_cons_self]
  | exception span condition body =>
    rw [mapInner, content, content, bodies body List.mem_cons_self]
  | block | inclusion | extension => contradiction

/-- Nodes without a block, and without a way into another template, render the same wherever
failures name the same template. -/
theorem renderAll_plain {nodes : List Node} (same : place.template = place'.template)
    (plain : Throughout (fun node => node.entersOther = false ∧ node.isBlock = false) nodes) :
    renderAll setting door place nodes = renderAll setting door' place' nodes := by
  induction nodes using list_induction with
  | nil => rfl
  | cons node rest parts later =>
    obtain ⟨⟨settled, unblocked⟩, inside, behind⟩ := throughout_cons.mp plain
    have contents : node.content setting door place =
        (node.mapInner id).content setting door' place' :=
      content_mapInner settled unblocked fun body part =>
        parts body (inner_subset_parts part) (inside body (inner_subset_parts part))
    have annotation := annotate_mapInner same id node
    rw [mapInner_id] at contents annotation
    rw [renderAll_cons, renderAll_cons, contents, annotation, later behind]

/-- At a place that replaces blocks nodes render what they render with the bodies put into the
blocks beforehand. -/
theorem renderAll_overridden {nodes : List Node} (same : place.template = place'.template)
    (closed : Throughout (·.entersOther = false) nodes) (fresh : place'.replacements = [])
    (replaced : ∀ name body, Dict.get? place.replacements name = some body →
      door.replace place body = renderAll setting door' place' body) :
    renderAll setting door place nodes =
      renderAll setting door' place' (overriddenAll (Dict.get? place.replacements) nodes) := by
  induction nodes using list_induction with
  | nil => rfl
  | cons node rest parts later =>
    obtain ⟨settled, inside, behind⟩ := throughout_cons.mp closed
    have bodies : ∀ body ∈ node.inner, renderAll setting door place body =
        renderAll setting door' place' (overriddenAll (Dict.get? place.replacements) body) :=
      fun body part => parts body (inner_subset_parts part) (inside body (inner_subset_parts part))
    rw [overriddenAll, renderAll_cons, renderAll_cons, later behind]
    cases kind : node.isBlock with
    | false =>
      rw [overridden_eq_mapInner kind, annotate_mapInner same,
        content_mapInner settled kind bodies]
    | true =>
      cases node with
      | block named =>
        obtain ⟨span, name, body⟩ := named
        -- Both sides render the body that is given, or else the own one with its blocks replaced.
        let given := (Dict.get? place.replacements name).getD
          (overriddenAll (Dict.get? place.replacements) body)
        have contents : (block (.mk span name body)).content setting door place =
            renderAll setting door' place' given := by
          cases found : Dict.get? place.replacements name with
          | none =>
            have kept : (block (.mk span name body)).content setting door place =
                renderAll setting door place body := renderBlock_kept setting door place found
            rw [kept, bodies body List.mem_cons_self]
            simp only [given, found, Option.getD_none]
          | some other =>
            have gone : (block (.mk span name body)).content setting door place =
                door.replace place other := renderBlock_replaced setting door place found
            rw [gone, replaced name other found]
            simp only [given, found, Option.getD_some]
        have kept : (block (.mk span name given)).content setting door' place' =
            renderAll setting door' place' given :=
          renderBlock_kept setting door' place' (by rw [fresh]; rfl)
        have annotation := annotate_mapInner same (fun _ => given) (block (.mk span name body))
        rw [mapInner] at annotation
        rw [overridden, overriddenBlock, contents, kept, annotation]
      | _ => contradiction

/-- The bodies that replace blocks are plain, so two levels of replacement are enough. -/
theorem renderWithin_overridden {enter : Place → List Node → Rendering σ String} {limit : Nat}
    {nodes : List Node} (closed : Throughout (·.entersOther = false) nodes)
    (plain : ∀ name body, Dict.get? place.replacements name = some body →
      Throughout (fun node => node.entersOther = false ∧ node.isBlock = false) body) :
    renderWithin setting enter (limit + 2) place nodes =
      renderAll setting door' ⟨place.template, []⟩
        (overriddenAll (Dict.get? place.replacements) nodes) :=
  renderAll_overridden rfl closed rfl fun name body found => renderAll_plain rfl (plain name body found)

end Render

end Node
end Stencil
