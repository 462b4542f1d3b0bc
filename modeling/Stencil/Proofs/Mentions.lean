import Stencil.Proofs.Places

/-! What a tree mentions: names, calls, filters and blocks, in the order in which a visit meets
them. What is mentioned in open blocks is what their nodes would mention if they ended here. -/
namespace Stencil

/-- A node of a tree that mentions a name. -/
inductive Mention
  | name (word : String)
  | call (span : Span) (callee : String) (args : List Expression)
  | filter (use : FilterUse)
  | block (name : String)

namespace Mention

/-- The type and the label of the node. -/
def entry : Mention → String × String
  | name word => ("Identifier", s!"Identifier({word})")
  | call _ callee _ => ("FunctionCall", s!"FunctionCall({callee})")
  | filter use => ("Filter", s!"Filter({use.name})")
  | block word => ("BlockDef", s!"BlockDef({word})")

/-- The entry of a node that mentions a name. -/
def isEntry (entry : String × String) : Bool :=
  ["Identifier", "FunctionCall", "Filter", "BlockDef"].contains entry.1

def name? : Mention → Option String
  | .name word => some word
  | _ => none

def function? : Mention → Option String
  | .call _ callee _ => some callee
  | _ => none

/-- The name of a block, if it has one. -/
def block? : Mention → Option String
  | .block word => if word.isEmpty then none else some word
  | _ => none

end Mention

/-! ### Visits -/

namespace Expression

mutual
def mentions : Expression → List Mention
  | literal .. => []
  | name _ word => [.name word]
  | property _ object _ => object.mentions
  | element _ array index => array.mentions ++ index.mentions
  | binary _ _ left right => left.mentions ++ right.mentions
  | call span callee args => .call span callee args :: allMentions args
termination_by structural expression => expression
def allMentions : List Expression → List Mention
  | [] => []
  | expression :: rest => expression.mentions ++ allMentions rest
termination_by structural expressions => expressions
end

theorem allMentions_eq (expressions : List Expression) :
    allMentions expressions = expressions.flatMap mentions := by
  induction expressions with
  | nil => rfl
  | cons expression rest ih => rw [allMentions, ih, List.flatMap_cons]

end Expression

def FilterUse.mentions (use : FilterUse) : List Mention :=
  .filter use :: Expression.allMentions use.args

namespace Node

mutual
def mentions : Node → List Mention
  | text .. | comment .. => []
  | output _ _ expression filters =>
    expression.toList.flatMap (·.mentions) ++ filters.flatMap (·.mentions)
  | conditional _ condition body clauses otherwise =>
    condition.mentions ++ allMentions body ++ clauseMentions clauses ++ allMentions otherwise
  | loop _ _ iterable body => iterable.mentions ++ allMentions body
  | repetition _ condition body => condition.mentions ++ allMentions body
  | exception _ condition body => condition.mentions ++ allMentions body
  | block named => blockMentions named
  | inclusion _ path => path.mentions
  | extension _ parent blocks => parent.mentions ++ allBlockMentions blocks
termination_by structural node => node
def allMentions : List Node → List Mention
  | [] => []
  | node :: rest => node.mentions ++ allMentions rest
termination_by structural nodes => nodes
def clauseMentions : List Clause → List Mention
  | [] => []
  | clause :: rest => clauseMention clause ++ clauseMentions rest
termination_by structural clauses => clauses
def clauseMention : Clause → List Mention
  | .mk _ condition body => condition.mentions ++ allMentions body
termination_by structural clause => clause
def blockMentions : Block → List Mention
  | .mk _ name body => .block name :: allMentions body
termination_by structural block => block
def allBlockMentions : List Block → List Mention
  | [] => []
  | named :: rest => blockMentions named ++ allBlockMentions rest
termination_by structural blocks => blocks
end

end Node

namespace Outline

mutual
/-- The types and labels of an outline and everything below it, from the top down. -/
def entries : Outline → List (String × String)
  | entry type label children => (type, label) :: childEntries children
termination_by structural outline => outline
def childEntries : List Outline → List (String × String)
  | [] => []
  | child :: rest => child.entries ++ childEntries rest
termination_by structural children => children
end

theorem childEntries_append (first second : List Outline) :
    childEntries (first ++ second) = childEntries first ++ childEntries second := by
  induction first with
  | nil => rfl
  | cons outline rest ih => rw [List.cons_append, childEntries, childEntries, ih, List.append_assoc]

end Outline

section Entries
open Outline

/-- Mentions and entries that tell of the same nodes. -/
def Tell (mentions : List Mention) (entries : List (String × String)) : Prop :=
  mentions.map (·.entry) = entries.filter Mention.isEntry

theorem tell_nil : Tell [] [] := rfl

variable {mentions : List Mention} {entries : List (String × String)}

theorem Tell.append {more : List Mention} {others : List (String × String)}
    (here : Tell mentions entries) (there : Tell more others) :
    Tell (mentions ++ more) (entries ++ others) := by
  unfold Tell at *
  rw [List.map_append, List.filter_append, here, there]

theorem Tell.mention (inside : Tell mentions entries) {mention : Mention}
    (known : Mention.isEntry mention.entry = true) :
    Tell (mention :: mentions) (mention.entry :: entries) := by
  unfold Tell at *
  rw [List.map_cons, List.filter_cons_of_pos known, inside]

theorem Tell.other (inside : Tell mentions entries) {entry : String × String}
    (unknown : Mention.isEntry entry = false) : Tell mentions (entry :: entries) := by
  unfold Tell at *
  rw [List.filter_cons_of_neg (by simp [unknown]), inside]

theorem Tell.child {outline : Outline} (here : Tell mentions outline.entries) :
    Tell mentions (childEntries [outline]) := by
  rwa [childEntries, childEntries, List.append_nil]

theorem tell_flatMap {α : Type} {mentions : α → List Mention} {outline : α → Outline}
    (each : ∀ a, Tell (mentions a) (outline a).entries) (items : List α) :
    Tell (items.flatMap mentions) (childEntries (items.map outline)) := by
  induction items with
  | nil => rfl
  | cons item rest ih => exact (each item).append ih

mutual
theorem Expression.tell (e : Expression) : Tell e.mentions e.outline.entries := by
  cases e with
  | literal span value => exact tell_nil.other rfl
  | name span word => exact tell_nil.mention rfl
  | property span object key => exact (Expression.tell object).child.other rfl
  | element span array index =>
    exact ((Expression.tell array).append (Expression.tell index).child).other rfl
  | binary span op left right =>
    exact ((Expression.tell left).append (Expression.tell right).child).other rfl
  | call span callee args => exact (Expression.tell_all args).mention rfl
termination_by structural e
theorem Expression.tell_all (es : List Expression) :
    Tell (allMentions es) (childEntries (outlines es)) := by
  cases es with
  | nil => rfl
  | cons e rest => exact (Expression.tell e).append (Expression.tell_all rest)
termination_by structural es
end

theorem FilterUse.tell (use : FilterUse) : Tell use.mentions use.outline.entries :=
  (Expression.tell_all use.args).mention rfl

mutual
theorem Node.tell (node : Node) : Tell node.mentions node.outline.entries := by
  cases node with
  | text span content => exact tell_nil.other rfl
  | comment span content => exact tell_nil.other rfl
  | output span source expression filters =>
    refine Tell.other ?_ rfl
    rw [childEntries_append]
    exact (tell_flatMap Expression.tell _).append (tell_flatMap FilterUse.tell _)
  | conditional span condition body clauses otherwise =>
    refine Tell.other ?_ rfl
    rw [childEntries_append, childEntries_append, childEntries]
    exact (((Expression.tell condition).append (Node.tell_all body)).append
      (Node.tell_clauses clauses)).append (Node.tell_all otherwise)
  | loop span binding iterable body =>
    exact ((Expression.tell iterable).append (Node.tell_all body)).other rfl
  | repetition span condition body =>
    exact ((Expression.tell condition).append (Node.tell_all body)).other rfl
  | exception span condition body =>
    exact ((Expression.tell condition).append (Node.tell_all body)).other rfl
  | block named => exact Node.tell_block named
  | inclusion span path => exact (Expression.tell path).child.other rfl
  | extension span parent blocks =>
    exact ((Expression.tell parent).append (Node.tell_blocks blocks)).other rfl
termination_by structural node
/-- The mentions are the stops of a visit at nodes that mention a name, in the same order. -/
theorem Node.tell_all (nodes : List Node) :
    Tell (allMentions nodes) (childEntries (outlines nodes)) := by
  cases nodes with
  | nil => rfl
  | cons node rest => exact (Node.tell node).append (Node.tell_all rest)
termination_by structural nodes
theorem Node.tell_clauses (clauses : List Clause) :
    Tell (clauseMentions clauses) (childEntries (clauseOutlines clauses)) := by
  cases clauses with
  | nil => rfl
  | cons clause rest => exact (Node.tell_clause clause).append (Node.tell_clauses rest)
termination_by structural clauses
theorem Node.tell_clause (clause : Clause) :
    Tell (clauseMention clause) (clauseOutline clause).entries := by
  cases clause with
  | mk span condition body =>
    exact ((Expression.tell condition).append (Node.tell_all body)).other rfl
termination_by structural clause
theorem Node.tell_block (named : Block) :
    Tell (blockMentions named) (blockOutline named).entries := by
  cases named with
  | mk span name body => exact (Node.tell_all body).mention rfl
termination_by structural named
theorem Node.tell_blocks (blocks : List Block) :
    Tell (allBlockMentions blocks) (childEntries (blockOutlines blocks)) := by
  cases blocks with
  | nil => rfl
  | cons named rest => exact (Node.tell_block named).append (Node.tell_blocks rest)
termination_by structural blocks
end

end Entries

end Stencil
