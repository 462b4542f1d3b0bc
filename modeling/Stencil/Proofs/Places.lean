import Mathlib
import Stencil.Proofs.Derivation
import Stencil.Tree.Outline

/-! Visits of trees: every node from the top down, before the nodes inside it, with its type and
its span. The places of a tree are the stops at parts of the template, those that tokens stand
for; the places of the open blocks grow at their end only. -/
namespace Stencil

/-- A stop of a visit. The literal that stands in for a missing operand has no span. -/
structure Site where
  type : String
  span : Option Span
deriving DecidableEq

namespace Expression

mutual
def sites : Expression → List Site
  | literal span _ => [⟨"Literal", span⟩]
  | name span _ => [⟨"Identifier", some span⟩]
  | property span object _ => ⟨"PropertyAccess", some span⟩ :: object.sites
  | element span array index => ⟨"ArrayAccess", some span⟩ :: (array.sites ++ index.sites)
  | binary span _ left right => ⟨"Expression", some span⟩ :: (left.sites ++ right.sites)
  | call span _ args => ⟨"FunctionCall", some span⟩ :: allSites args
termination_by structural expression => expression
def allSites : List Expression → List Site
  | [] => []
  | expression :: rest => expression.sites ++ allSites rest
termination_by structural expressions => expressions
end

end Expression

def FilterUse.sites (filter : FilterUse) : List Site :=
  ⟨"Filter", some filter.span⟩ :: Expression.allSites filter.args

namespace Node

mutual
def sites : Node → List Site
  | text span _ => [⟨"Text", some span⟩]
  | comment span _ => [⟨"Comment", some span⟩]
  | output span _ expression filters =>
    ⟨"Variable", some span⟩ ::
      (expression.toList.flatMap (·.sites) ++ filters.flatMap (·.sites))
  | conditional span condition body clauses otherwise =>
    ⟨"If", some span⟩ ::
      (condition.sites ++ allSites body ++ clauseSites clauses ++ allSites otherwise)
  | loop span _ iterable body => ⟨"For", some span⟩ :: (iterable.sites ++ allSites body)
  | repetition span condition body => ⟨"While", some span⟩ :: (condition.sites ++ allSites body)
  | exception span condition body => ⟨"Block", some span⟩ :: (condition.sites ++ allSites body)
  | block named => blockSites named
  | inclusion span path => ⟨"Include", some span⟩ :: path.sites
  | extension span parent blocks =>
    ⟨"Extends", some span⟩ :: (parent.sites ++ allBlockSites blocks)
termination_by structural node => node
def allSites : List Node → List Site
  | [] => []
  | node :: rest => node.sites ++ allSites rest
termination_by structural nodes => nodes
def clauseSites : List Clause → List Site
  | [] => []
  | clause :: rest => clauseSite clause ++ clauseSites rest
termination_by structural clauses => clauses
def clauseSite : Clause → List Site
  | .mk span condition body => ⟨"ElseIf", some span⟩ :: (condition.sites ++ allSites body)
termination_by structural clause => clause
def blockSites : Block → List Site
  | .mk span _ body => ⟨"BlockDef", some span⟩ :: allSites body
termination_by structural block => block
def allBlockSites : List Block → List Site
  | [] => []
  | named :: rest => blockSites named ++ allBlockSites rest
termination_by structural blocks => blocks
end

end Node

/-! ### Stops and outlines -/

namespace Outline

theorem childTypes_append (first second : List Outline) :
    childTypes (first ++ second) = childTypes first ++ childTypes second := by
  induction first with
  | nil => rfl
  | cons outline rest ih => simp [childTypes, ih]

theorem childTypes_map {α : Type} (outline : α → Outline) (items : List α) :
    childTypes (items.map outline) = items.flatMap fun item => (outline item).types := by
  induction items with
  | nil => rfl
  | cons item rest ih => simp [childTypes, ih]

end Outline

section Types
open Outline

mutual
theorem Expression.types_sites (expression : Expression) :
    expression.sites.map (·.type) = expression.outline.types := by
  cases expression with
  | literal span value => rfl
  | name span word => rfl
  | property span object key =>
    simp [sites, outline, types, childTypes, Expression.types_sites object]
  | element span array index =>
    simp [sites, outline, types, childTypes, Expression.types_sites array,
      Expression.types_sites index]
  | binary span op left right =>
    simp [sites, outline, types, childTypes, Expression.types_sites left,
      Expression.types_sites right]
  | call span callee args =>
    simp [sites, outline, types, Expression.types_allSites args]
termination_by structural expression
theorem Expression.types_allSites (expressions : List Expression) :
    (allSites expressions).map (·.type) = childTypes (outlines expressions) := by
  cases expressions with
  | nil => rfl
  | cons expression rest =>
    simp [allSites, outlines, childTypes, Expression.types_sites expression,
      Expression.types_allSites rest]
termination_by structural expressions
end

theorem FilterUse.types_sites (filter : FilterUse) :
    filter.sites.map (·.type) = filter.outline.types := by
  simp [sites, outline, types, Expression.types_allSites]

mutual
theorem Node.types_sites (node : Node) : node.sites.map (·.type) = node.outline.types := by
  cases node with
  | text span content => rfl
  | comment span content => rfl
  | output span source expression filters =>
    simp [sites, outline, types, childTypes_append, childTypes_map, List.map_flatMap,
      Expression.types_sites, FilterUse.types_sites]
  | conditional span condition body clauses otherwise =>
    simp [sites, outline, types, childTypes, childTypes_append, Expression.types_sites,
      Node.types_allSites body, Node.types_clauseSites clauses, Node.types_allSites otherwise]
  | loop span binding iterable body =>
    simp [sites, outline, types, childTypes, Expression.types_sites, Node.types_allSites body]
  | repetition span condition body =>
    simp [sites, outline, types, childTypes, Expression.types_sites, Node.types_allSites body]
  | exception span condition body =>
    simp [sites, outline, types, childTypes, Expression.types_sites, Node.types_allSites body]
  | block named => exact Node.types_blockSites named
  | inclusion span path => simp [sites, outline, types, childTypes, Expression.types_sites]
  | extension span parent blocks =>
    simp [sites, outline, types, childTypes, Expression.types_sites,
      Node.types_allBlockSites blocks]
termination_by structural node
/-- The types at the stops of a visit are those of the outlines, in the same order. -/
theorem Node.types_allSites (nodes : List Node) :
    (allSites nodes).map (·.type) = childTypes (outlines nodes) := by
  cases nodes with
  | nil => rfl
  | cons node rest =>
    simp [allSites, outlines, childTypes, Node.types_sites node, Node.types_allSites rest]
termination_by structural nodes
theorem Node.types_clauseSites (clauses : List Clause) :
    (clauseSites clauses).map (·.type) = childTypes (clauseOutlines clauses) := by
  cases clauses with
  | nil => rfl
  | cons clause rest =>
    simp [clauseSites, clauseOutlines, childTypes, Node.types_clauseSite clause,
      Node.types_clauseSites rest]
termination_by structural clauses
theorem Node.types_clauseSite (clause : Clause) :
    (clauseSite clause).map (·.type) = (clauseOutline clause).types := by
  cases clause with
  | mk span condition body =>
    simp [clauseSite, clauseOutline, types, childTypes, Expression.types_sites,
      Node.types_allSites body]
termination_by structural clause
theorem Node.types_blockSites (named : Block) :
    (blockSites named).map (·.type) = (blockOutline named).types := by
  cases named with
  | mk span name body => simp [blockSites, blockOutline, types, Node.types_allSites body]
termination_by structural named
theorem Node.types_allBlockSites (blocks : List Block) :
    (allBlockSites blocks).map (·.type) = childTypes (blockOutlines blocks) := by
  cases blocks with
  | nil => rfl
  | cons named rest =>
    simp [allBlockSites, blockOutlines, childTypes, Node.types_blockSites named,
      Node.types_allBlockSites rest]
termination_by structural blocks
end

end Types

/-! ### Parts of a template -/

/-- The types of nodes that stand for tokens. Those of expressions stand for nothing of their own. -/
def Site.partTypes : List String :=
  ["Text", "Variable", "Comment", "If", "ElseIf", "For", "While", "Block", "BlockDef", "Include"]

def Site.isPart (site : Site) : Bool := partTypes.contains site.type

namespace Site

def parts (sites : List Site) : List Site := sites.filter (·.isPart)

@[simp] theorem parts_append (first second : List Site) :
    parts (first ++ second) = parts first ++ parts second :=
  List.filter_append first second

theorem parts_flatMap_nil {α : Type} {sites : α → List Site} (none : ∀ a, parts (sites a) = [])
    (items : List α) : parts (items.flatMap sites) = [] := by
  induction items with
  | nil => rfl
  | cons item rest ih => rw [List.flatMap_cons, parts_append, none item, ih, List.append_nil]

theorem parts_part {site : Site} (part : site.isPart = true) (rest : List Site) :
    parts (site :: rest) = site :: parts rest :=
  List.filter_cons_of_pos part

theorem parts_other {site : Site} (other : site.isPart = false) (rest : List Site) :
    parts (site :: rest) = parts rest :=
  List.filter_cons_of_neg (by simp [other])

end Site
open Site

mutual
@[simp] theorem Expression.parts_sites (expression : Expression) : parts expression.sites = [] := by
  cases expression with
  | literal span value => rfl
  | name span word => rfl
  | property span object key => exact Expression.parts_sites object
  | element span array index =>
    rw [sites, parts_other rfl, parts_append, Expression.parts_sites array,
      Expression.parts_sites index, List.append_nil]
  | binary span op left right =>
    rw [sites, parts_other rfl, parts_append, Expression.parts_sites left,
      Expression.parts_sites right, List.append_nil]
  | call span callee args => exact Expression.parts_allSites args
termination_by structural expression
theorem Expression.parts_allSites (expressions : List Expression) :
    parts (allSites expressions) = [] := by
  cases expressions with
  | nil => rfl
  | cons expression rest =>
    rw [allSites, parts_append, Expression.parts_sites expression, Expression.parts_allSites rest,
      List.append_nil]
termination_by structural expressions
end

theorem FilterUse.parts_sites (filter : FilterUse) : parts filter.sites = [] :=
  Expression.parts_allSites filter.args

namespace Node

/-- The stops at parts of the template on a visit of a node. -/
def places (node : Node) : List Site := parts node.sites

def allPlaces (nodes : List Node) : List Site := parts (allSites nodes)

def clausePlaces (clauses : List Clause) : List Site := parts (clauseSites clauses)

@[simp] theorem allPlaces_nil : allPlaces [] = [] := rfl

@[simp] theorem allPlaces_cons (node : Node) (rest : List Node) :
    allPlaces (node :: rest) = node.places ++ allPlaces rest :=
  parts_append node.sites _

@[simp] theorem allPlaces_append (first second : List Node) :
    allPlaces (first ++ second) = allPlaces first ++ allPlaces second := by
  induction first with
  | nil => rfl
  | cons node rest ih => simp [ih]

section Parts

variable (span : Span) (condition : Expression) (body : List Node)

@[simp] theorem clausePlaces_nil : clausePlaces [] = [] := rfl

@[simp] theorem clausePlaces_cons (rest : List Clause) :
    clausePlaces (.mk span condition body :: rest) =
      ⟨"ElseIf", some span⟩ :: (allPlaces body ++ clausePlaces rest) := by
  rw [clausePlaces, clauseSites, clauseSite, List.cons_append, parts_part rfl]
  simp [allPlaces, clausePlaces]

@[simp] theorem clausePlaces_append (first second : List Clause) :
    clausePlaces (first ++ second) = clausePlaces first ++ clausePlaces second := by
  induction first with
  | nil => rfl
  | cons clause rest ih =>
    obtain ⟨span, condition, body⟩ := clause
    simp [ih]

@[simp] theorem places_text (content : String) : (text span content).places = [⟨"Text", some span⟩] :=
  rfl

@[simp] theorem places_comment (content : String) :
    (comment span content).places = [⟨"Comment", some span⟩] := rfl

@[simp] theorem places_output (source : String) (expression : Option Expression)
    (filters : List FilterUse) :
    (output span source expression filters).places = [⟨"Variable", some span⟩] := by
  rw [places, sites, parts_part rfl, parts_append, parts_flatMap_nil Expression.parts_sites,
    parts_flatMap_nil FilterUse.parts_sites, List.append_nil]

@[simp] theorem places_conditional (clauses : List Clause) (otherwise : List Node) :
    (conditional span condition body clauses otherwise).places =
      ⟨"If", some span⟩ :: (allPlaces body ++ clausePlaces clauses ++ allPlaces otherwise) := by
  rw [places, sites, parts_part rfl]
  simp [allPlaces, clausePlaces]

@[simp] theorem places_loop (binding : LoopBinding) :
    (loop span binding condition body).places = ⟨"For", some span⟩ :: allPlaces body := by
  rw [places, sites, parts_part rfl, parts_append, Expression.parts_sites]
  rfl

@[simp] theorem places_repetition :
    (repetition span condition body).places = ⟨"While", some span⟩ :: allPlaces body := by
  rw [places, sites, parts_part rfl, parts_append, Expression.parts_sites]
  rfl

@[simp] theorem places_exception :
    (exception span condition body).places = ⟨"Block", some span⟩ :: allPlaces body := by
  rw [places, sites, parts_part rfl, parts_append, Expression.parts_sites]
  rfl

@[simp] theorem places_block (name : String) :
    (block (.mk span name body)).places = ⟨"BlockDef", some span⟩ :: allPlaces body := by
  rw [places, sites, blockSites, parts_part rfl]
  rfl

@[simp] theorem places_inclusion :
    (inclusion span condition).places = [⟨"Include", some span⟩] := by
  rw [places, sites, parts_part rfl, Expression.parts_sites]

end Parts

end Node

/-! ### Open blocks -/

namespace Frame

/-- The places of an open block are those of the node that it would be if it ended here. -/
def places (frame : Frame) : List Site := frame.finish.places

variable {frame : Frame}

theorem places_add (settled : frame.isExtension = false) (node : Node) :
    (frame.add node).places = frame.places ++ node.places := by
  rw [add_of_settled settled]
  obtain ⟨word, span, shape, body⟩ := frame
  cases shape with
  | extension parent blocks => contradiction
  | _ => simp [places, extend, finish, nodes]

theorem places_addOtherwise (takes : frame.takesClauses = true) :
    frame.addOtherwise.places = frame.places := by
  obtain ⟨word, span, shape, body⟩ := frame
  cases shape with
  | first condition => simp [places, addOtherwise, finish, nodes]
  | later condition before clauses current clause => simp [places, addOtherwise, finish, nodes]
  | _ => contradiction

theorem places_addClause (takes : frame.takesClauses = true) (span : Span)
    (condition : Expression) :
    (frame.addClause span condition).places = frame.places ++ [⟨"ElseIf", some span⟩] := by
  obtain ⟨word, start, shape, body⟩ := frame
  cases shape with
  | first condition => simp [places, addClause, finish, nodes]
  | later condition before clauses current clause => simp [places, addClause, finish, nodes]
  | _ => contradiction

end Frame

namespace Placement

def places : Placement → List Site
  | .node part => part.places
  | .opened frame => frame.places
  | .nothing => []

/-- No extension is opened. -/
def Plain (placement : Placement) : Prop :=
  ∀ frame, placement = .opened frame → frame.isExtension = false

theorem plain_node (part : Node) : (node part).Plain := by
  rintro frame ⟨⟩

theorem plain_nothing : nothing.Plain := by
  rintro frame ⟨⟩

theorem plain_opened {frame : Frame} (settled : frame.isExtension = false) :
    (opened frame).Plain := by
  rintro other ⟨⟩
  exact settled

end Placement

namespace Stack

/-- The places of the template so far: those of its nodes, then those of the open blocks from the
outermost on. -/
def places (stack : Stack) : List Site :=
  Node.allPlaces stack.root.reverse ++ stack.frames.reverse.flatMap (·.places)

/-- No extension is open. -/
def Plain (stack : Stack) : Prop := ∀ frame ∈ stack.frames, frame.isExtension = false

variable {stack : Stack} {top : Frame} {outer : List Frame} {root : List Node}

theorem Plain.below (plain : Plain ⟨top :: outer, root⟩) : Plain ⟨outer, root⟩ :=
  fun frame member => plain frame (List.mem_cons_of_mem _ member)

theorem Plain.settled (plain : Plain ⟨top :: outer, root⟩) : top.isExtension = false :=
  plain top List.mem_cons_self

theorem Plain.cons (below : Plain ⟨outer, root⟩) (settled : top.isExtension = false) :
    Plain ⟨top :: outer, root⟩ := by
  intro frame member
  rcases List.mem_cons.mp member with rfl | inside
  · exact settled
  · exact below frame inside

theorem Plain.add (plain : stack.Plain) (node : Node) : (stack.add node).Plain := by
  obtain ⟨_ | ⟨top, outer⟩, root⟩ := stack
  · exact plain
  · exact Plain.cons plain.below (by simpa using plain.settled)

theorem places_push (frame : Frame) : (stack.push frame).places = stack.places ++ frame.places := by
  simp [places, push]

theorem places_cons : places ⟨top :: outer, root⟩ = places ⟨outer, root⟩ ++ top.places := by
  simp [places]

theorem places_add (plain : stack.Plain) (node : Node) :
    (stack.add node).places = stack.places ++ node.places := by
  obtain ⟨_ | ⟨top, outer⟩, root⟩ := stack
  · simp [places, add]
  · change places ⟨top.add node :: outer, root⟩ = _
    rw [places_cons, places_cons, Frame.places_add plain.settled, List.append_assoc]

/-- A block that ends leaves the places as they are. -/
theorem places_ended (plain : Plain ⟨top :: outer, root⟩) :
    (Stack.add ⟨outer, root⟩ top.finish).places = places ⟨top :: outer, root⟩ := by
  rw [places_add plain.below, places_cons]
  rfl

theorem Plain.put (plain : stack.Plain) {placement : Placement} (settled : placement.Plain) :
    (stack.put placement).Plain := by
  cases placement with
  | node node => exact plain.add node
  | opened frame => exact Plain.cons plain (settled frame rfl)
  | nothing => exact plain

theorem places_put (plain : stack.Plain) (placement : Placement) :
    (stack.put placement).places = stack.places ++ placement.places := by
  cases placement with
  | node node => exact places_add plain node
  | opened frame => exact places_push frame
  | nothing => simp [put, Placement.places]

end Stack

end Stencil
