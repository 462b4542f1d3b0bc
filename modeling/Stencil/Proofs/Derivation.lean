import Mathlib
import Stencil.Proofs.Grammar

/-! A template whose tokens the grammar derives is built without structural problems, and its tree
is the derivation: every block holds the nodes of its own parts, in order. -/
namespace Stencil

/-- The reading may return this. -/
def Reads {α : Type} (reading : TreeReading α) (a : α) : Prop := ∃ g g', Returns reading g a g'

/-- The node of a block, from what its tag says and the nodes of its body. -/
inductive Encloses (span : Span) (body : List Node) : Shape → Node → Prop
  | loop (binding : LoopBinding) (iterable : Expression) :
      Encloses span body (.loop binding iterable) (.loop span binding iterable body)
  | repetition (condition : Expression) :
      Encloses span body (.repetition condition) (.repetition span condition body)
  | exception (condition : Expression) :
      Encloses span body (.exception condition) (.exception span condition body)
  | block (name : String) : Encloses span body (.block name) (.block (.mk span name body))

mutual
/-- The nodes are those of the derivation, inside `height` open blocks: one for each of its parts,
and in each block exactly the nodes of what it derives. -/
inductive Body.Builds (limit : Nat) : Nat → Body → List Node → Prop
  | nil {height : Nat} : Body.Builds limit height .nil []
  | leaf {height : Nat} {token : Token} {alone : token.standsAlone = true} {rest : Body}
      {node : Node} {others : List Node}
      (read : Reads (Placement.ofToken limit height token) (.node node))
      (later : rest.Builds limit height others) :
      Body.Builds limit height (.leaf token alone rest) (node :: others)
  | block {height : Nat} {opener closer : Token} {opens : opener.opensBody = true} {inner : Body}
      {closes : closer.Closes opener.keyword} {rest : Body} {shape : Shape} {body : List Node}
      {node : Node} {others : List Node}
      (read : Reads (Placement.ofToken limit height opener)
        (.opened ⟨opener.text, opener.span, shape, []⟩))
      (inside : inner.Builds limit (height + 1) body)
      (encloses : Encloses opener.span body shape node) (later : rest.Builds limit height others) :
      Body.Builds limit height (.block opener opens inner closer closes rest) (node :: others)
  | conditional {height : Nat} {opener : Token} {opens : opener.Opens .cond} {inner : Body}
      {branches : Branches} {rest : Body} {condition : Expression} {body otherwise : List Node}
      {clauses : List Clause} {others : List Node}
      (read : Reads (Placement.ofToken limit height opener)
        (.opened ⟨opener.text, opener.span, .first condition, []⟩))
      (inside : inner.Builds limit (height + 1) body)
      (divided : branches.Builds limit (height + 1) clauses otherwise)
      (later : rest.Builds limit height others) :
      Body.Builds limit height (.conditional opener opens inner branches rest)
        (.conditional opener.span condition body clauses otherwise :: others)
/-- The clauses and the nodes after the `else` are those of the derivation. -/
inductive Branches.Builds (limit : Nat) : Nat → Branches → List Clause → List Node → Prop
  | close {height : Nat} {closer : Token} {closes : closer.Closes .cond} :
      Branches.Builds limit height (.close closer closes) [] []
  | otherwise {height : Nat} {clause closer : Token} {divides : clause.Opens .otherwise}
      {inner : Body} {closes : closer.Closes .cond} {body : List Node}
      (inside : inner.Builds limit height body) :
      Branches.Builds limit height (.otherwise clause divides inner closer closes) [] body
  | elseif {height : Nat} {clause : Token} {divides : clause.Opens .elseif} {inner : Body}
      {more : Branches} {tag : Opening} {source : String} {condition : Expression}
      {body otherwise : List Node} {clauses : List Clause}
      (content : clause.content = .opening tag source)
      (read : Reads (Placement.condition limit (limit - height) clause tag) condition)
      (inside : inner.Builds limit height body)
      (later : more.Builds limit height clauses otherwise) :
      Branches.Builds limit height (.elseif clause divides inner more)
        (.mk clause.span condition body :: clauses) otherwise
end

theorem Encloses.settled {span : Span} {body : List Node} {shape : Shape} {node : Node}
    (encloses : Encloses span body shape node) (word : String) (nodes : List Node) :
    (Frame.mk word span shape nodes).isExtension = false := by
  cases encloses <;> rfl

/-! ### Nodes in open blocks -/

namespace Frame

/-- Nodes at the end of the current part. -/
def extend (frame : Frame) (nodes : List Node) : Frame :=
  { frame with body := nodes.reverse ++ frame.body }

/-- The node of a conditional with the clauses that are still to come. -/
def conclude (frame : Frame) (clauses : List Clause) (otherwise : List Node) : Node :=
  match frame.shape with
  | .first condition => .conditional frame.span condition frame.nodes clauses otherwise
  | .later condition body before span clause =>
    .conditional frame.span condition body (before ++ .mk span clause frame.nodes :: clauses)
      otherwise
  | _ => frame.finish

variable {frame : Frame}

@[simp] theorem isExtension_extend (nodes : List Node) :
    (frame.extend nodes).isExtension = frame.isExtension := rfl

@[simp] theorem takesClauses_extend (nodes : List Node) :
    (frame.extend nodes).takesClauses = frame.takesClauses := rfl

@[simp] theorem closing_extend (nodes : List Node) :
    (frame.extend nodes).closing = frame.closing := rfl

theorem add_of_settled (settled : frame.isExtension = false) (node : Node) :
    frame.add node = frame.extend [node] := by
  rcases frame with ⟨word, span, shape, body⟩
  cases shape <;> cases node <;> first | rfl | contradiction

theorem isExtension_addOtherwise (takes : frame.takesClauses = true) :
    frame.addOtherwise.isExtension = false := by
  obtain ⟨_, _, _, same⟩ := addOtherwise_eq takes
  rw [same]
  rfl

theorem closing_addOtherwise (takes : frame.takesClauses = true) :
    frame.addOtherwise.closing = frame.closing := by
  obtain ⟨_, _, _, same⟩ := addOtherwise_eq takes
  rw [same]
  rfl

section Clause

variable (takes : frame.takesClauses = true) (span : Span) (condition : Expression)
include takes

theorem isExtension_addClause : (frame.addClause span condition).isExtension = false := by
  obtain ⟨_, _, _, same⟩ := addClause_eq takes span condition
  rw [same]
  rfl

theorem closing_addClause : (frame.addClause span condition).closing = frame.closing := by
  obtain ⟨_, _, _, same⟩ := addClause_eq takes span condition
  rw [same]
  rfl

theorem takesClauses_addClause : (frame.addClause span condition).takesClauses = true := by
  obtain ⟨_, _, _, same⟩ := addClause_eq takes span condition
  rw [same]
  rfl

end Clause

theorem finish_eq_conclude (takes : frame.takesClauses = true) :
    frame.finish = frame.conclude [] [] := by
  rcases frame with ⟨word, span, shape, body⟩
  cases shape <;> simp_all [takesClauses, finish, conclude, nodes]

theorem finish_otherwise (takes : frame.takesClauses = true) (body : List Node) :
    (frame.addOtherwise.extend body).finish = frame.conclude [] body := by
  rcases frame with ⟨word, span, shape, before⟩
  cases shape <;> simp_all [takesClauses, finish, conclude, nodes, extend, addOtherwise]

theorem conclude_clause (takes : frame.takesClauses = true) (span : Span) (condition : Expression)
    (body : List Node) (clauses : List Clause) (otherwise : List Node) :
    ((frame.addClause span condition).extend body).conclude clauses otherwise =
      frame.conclude (.mk span condition body :: clauses) otherwise := by
  rcases frame with ⟨word, start, shape, before⟩
  cases shape <;> simp_all [takesClauses, conclude, nodes, extend, addClause]

end Frame

namespace Stack

/-- Nodes at the end of the innermost open block, one after the other. -/
def append (stack : Stack) (nodes : List Node) : Stack := nodes.foldl add stack

@[simp] theorem height_add (stack : Stack) (node : Node) :
    (stack.add node).height = stack.height := by
  rcases stack with ⟨_ | ⟨top, outer⟩, root⟩ <;> rfl

theorem Settled.add {stack : Stack} (settled : stack.Settled) (node : Node) :
    (stack.add node).Settled := by
  rcases stack with ⟨_ | ⟨top, outer⟩, root⟩
  · exact settled
  · intro other member
    cases member
    simpa using settled top rfl

theorem append_root (root nodes : List Node) :
    append ⟨[], root⟩ nodes = ⟨[], nodes.reverse ++ root⟩ := by
  induction nodes generalizing root with
  | nil => rfl
  | cons node rest ih =>
    rw [List.reverse_cons, List.append_assoc]
    exact ih (node :: root)

theorem append_cons {top : Frame} (settled : top.isExtension = false) (outer : List Frame)
    (root nodes : List Node) :
    append ⟨top :: outer, root⟩ nodes = ⟨top.extend nodes :: outer, root⟩ := by
  induction nodes generalizing top with
  | nil => rfl
  | cons node rest ih =>
    have first : add ⟨top :: outer, root⟩ node = ⟨top.extend [node] :: outer, root⟩ := by
      rw [← Frame.add_of_settled settled]
      rfl
    have later : (top.extend [node]).extend rest = top.extend (node :: rest) := by
      simp [Frame.extend]
    rw [append, List.foldl_cons, first, ← later]
    exact ih settled

/-! ### Steps of derived tokens -/

variable {limit : Nat} {token : Token} {stack last : Stack} {g g' : Gathered}
  {top : Frame} {outer : List Frame} {root : List Node}

theorem step_placed (settled : stack.Settled) (whole : token.isClosing = false)
    (undivided : token.isClause = false) (step : Step limit token stack g last g') :
    ∃ placement, last = stack.put placement ∧
      Returns (Placement.ofToken limit stack.height token) g placement g' := by
  cases step with
  | placed _ _ _ read => exact ⟨_, rfl, read⟩
  | filler extension _ | passed extension _ _ =>
    rw [settled _ rfl] at extension
    contradiction
  | closed _ ends _ | abandoned _ ends _ _ _ | unmatched _ ends _ =>
    rw [whole] at ends
    contradiction
  | otherwise divides _ _ | further divides _ _ _ _ | misplaced _ divides _ =>
    rw [undivided] at divides
    contradiction

theorem not_clause_of_closing (ends : token.isClosing = true) : token.isClause = false := by
  unfold Token.isClosing at ends
  unfold Token.isClause
  cases content : token.content <;> simp_all

theorem isClause_of_opens {keyword : Markup.Keyword} (opens : token.Opens keyword)
    (clause : keyword.isClause = true) : token.isClause = true := by
  obtain ⟨opening, rfl⟩ := opens
  unfold Token.isOpening at opening
  unfold Token.isClause
  cases content : token.content <;> simp_all

theorem step_closed (settled : top.isExtension = false) (ends : token.isClosing = true)
    (fits : top.closing = token.text) (step : Step limit token ⟨top :: outer, root⟩ g last g') :
    last = Stack.add ⟨outer, root⟩ top.finish ∧ g' = g := by
  cases step with
  | closed _ _ _ => exact ⟨rfl, rfl⟩
  | placed _ whole _ _ =>
    rw [ends] at whole
    contradiction
  | filler extension _ | passed extension _ _ =>
    rw [settled] at extension
    contradiction
  | abandoned _ _ other _ _ => exact absurd fits other
  | unmatched _ _ other => exact absurd fits (other top (by simp))
  | otherwise divides _ _ | further divides _ _ _ _ | misplaced _ divides _ =>
    rw [not_clause_of_closing ends] at divides
    contradiction

theorem settled_of_takes (takes : top.takesClauses = true) : top.isExtension = false := by
  unfold Frame.takesClauses at takes
  unfold Frame.isExtension
  cases shape : top.shape <;> simp_all

/-- A clause in a conditional begins its next part. -/
theorem step_clause (takes : top.takesClauses = true) (clause : token.isClause = true)
    (step : Step limit token ⟨top :: outer, root⟩ g last g') :
    token.keyword = .otherwise ∧ last = ⟨top.addOtherwise :: outer, root⟩ ∧ g' = g ∨
      token.keyword = .elseif ∧ ∃ tag source condition, token.content = .opening tag source ∧
        Returns (Placement.condition limit (limit - (outer.length + 1)) token tag) g condition g' ∧
        last = ⟨top.addClause token.span condition :: outer, root⟩ := by
  cases step with
  | otherwise _ word _ => exact .inl ⟨word, rfl, rfl⟩
  | further _ content word _ read => exact .inr ⟨word, _, _, _, content, read, rfl⟩
  | misplaced _ _ refused =>
    rw [refused top rfl] at takes
    contradiction
  | placed _ _ undivided _ =>
    rw [clause] at undivided
    contradiction
  | filler extension _ | passed extension _ _ =>
    rw [settled_of_takes takes] at extension
    contradiction
  | closed _ ends _ | abandoned _ ends _ _ _ | unmatched _ ends _ =>
    rw [not_clause_of_closing ends] at clause
    contradiction

theorem step_otherwise (takes : top.takesClauses = true) (opens : token.Opens .otherwise)
    (step : Step limit token ⟨top :: outer, root⟩ g last g') :
    last = ⟨top.addOtherwise :: outer, root⟩ ∧ g' = g := by
  rcases step_clause takes (isClause_of_opens opens rfl) step with ⟨-, result⟩ | ⟨word, -⟩
  · exact result
  · rw [opens.2] at word
    contradiction

theorem step_elseif (takes : top.takesClauses = true) (opens : token.Opens .elseif)
    (step : Step limit token ⟨top :: outer, root⟩ g last g') :
    ∃ tag source condition, token.content = .opening tag source ∧
      Returns (Placement.condition limit (limit - (outer.length + 1)) token tag) g condition g' ∧
      last = ⟨top.addClause token.span condition :: outer, root⟩ := by
  rcases step_clause takes (isClause_of_opens opens rfl) step with ⟨word, -⟩ | ⟨-, result⟩
  · rw [opens.2] at word
    contradiction
  · exact result

end Stack

/-! ### Placements of derived tokens -/

namespace Placement

variable {limit height : Nat} {token : Token} {placement : Placement} {g g' : Gathered}

theorem node_of_standsAlone (alone : token.standsAlone = true)
    (read : Returns (ofToken limit height token) g placement g') : ∃ node, placement = .node node := by
  unfold Token.standsAlone at alone
  cases content : token.content with
  | text kind =>
    simp only [ofToken, content, returns_pure] at read
    exact ⟨_, read.1⟩
  | comment note =>
    simp only [ofToken, content, returns_pure] at read
    exact ⟨_, read.1⟩
  | output expression filters source =>
    simp only [ofToken, content, returns_bind, returns_pure] at read
    obtain ⟨_, _, _, same, _⟩ := read
    exact ⟨_, same⟩
  | opening tag source =>
    have word : token.keyword = .include := by simpa [content] using alone
    simp only [ofToken, content, word, Markup.Keyword.isClause, Bool.false_eq_true, if_false] at read
    cases tagged_of_ofOpening read with
    | inclusion _ path => exact ⟨_, rfl⟩
    | unknown _ other => exact absurd word other
    | loop other _ _ =>
      rw [word] at other
      rcases other with other | other <;> contradiction
    | conditional other _ | repetition other _ | exception other _ | block other _
    | extension other _ =>
      rw [word] at other
      contradiction
  | _ => simp [content] at alone

theorem opened_of_isOpening (opens : token.isOpening = true)
    (undivided : token.keyword.isClause = false)
    (read : Returns (ofToken limit height token) g placement g') : Tagged token placement := by
  unfold Token.isOpening at opens
  cases content : token.content with
  | opening tag source =>
    simp only [ofToken, content, undivided, Bool.false_eq_true, if_false] at read
    exact tagged_of_ofOpening read
  | _ => simp [content] at opens

theorem Tagged.encloses (tagged : Tagged token placement) (opens : token.opensBody = true) :
    ∃ shape, placement = .opened ⟨token.text, token.span, shape, []⟩ ∧
      ∀ nodes, Encloses token.span nodes shape
        (Frame.extend ⟨token.text, token.span, shape, []⟩ nodes).finish := by
  simp only [Token.opensBody, Bool.and_eq_true, bne_iff_ne] at opens
  obtain ⟨⟨_, block⟩, plain⟩ := opens
  cases tagged with
  | conditional word condition => exact absurd word plain
  | loop word binding iterable =>
    refine ⟨_, rfl, fun nodes => ?_⟩
    simpa [Frame.extend, Frame.finish, Frame.nodes] using .loop binding iterable
  | repetition word condition =>
    refine ⟨_, rfl, fun nodes => ?_⟩
    simpa [Frame.extend, Frame.finish, Frame.nodes] using .repetition condition
  | exception word condition =>
    refine ⟨_, rfl, fun nodes => ?_⟩
    simpa [Frame.extend, Frame.finish, Frame.nodes] using .exception condition
  | block word name =>
    refine ⟨_, rfl, fun nodes => ?_⟩
    simpa [Frame.extend, Frame.finish, Frame.nodes] using .block name
  | inclusion word path =>
    rw [word] at block
    contradiction
  | extension word parent =>
    rw [word] at block
    contradiction
  | unknown other _ =>
    rw [other] at block
    contradiction

theorem Tagged.condition (tagged : Tagged token placement) (word : token.keyword = .cond) :
    ∃ condition, placement = .opened ⟨token.text, token.span, .first condition, []⟩ := by
  cases tagged with
  | conditional _ condition => exact ⟨condition, rfl⟩
  | unknown other _ =>
    rw [word] at other
    contradiction
  | loop other _ _ =>
    rw [word] at other
    rcases other with other | other <;> contradiction
  | repetition other _ | exception other _ | block other _ | inclusion other _
  | extension other _ =>
    rw [word] at other
    contradiction

end Placement

/-! ### Runs of derived tokens -/

section Run

variable {limit : Nat} {stack last : Stack} {g g' : Gathered} {token : Token}

private theorem not_closing_of_isOpening (opens : token.isOpening = true) :
    token.isClosing = false := by
  unfold Token.isOpening at opens
  unfold Token.isClosing
  cases content : token.content <;> simp_all

private theorem whole_of_standsAlone (alone : token.standsAlone = true) :
    token.isClosing = false ∧ token.isClause = false := by
  unfold Token.standsAlone at alone
  unfold Token.isClosing Token.isClause
  cases content : token.content <;> simp_all [Markup.Keyword.isClause]

private theorem undivided_of_opensBlock (block : token.keyword.opensBlock = true) :
    token.keyword.isClause = false ∧ token.isClause = false := by
  have undivided : token.keyword.isClause = false := by
    revert block
    cases token.keyword <;> simp [Markup.Keyword.isClause, Markup.Keyword.opensBlock]
  refine ⟨undivided, ?_⟩
  unfold Token.isClause
  split
  · exact undivided
  · rfl

/-- A part of its own becomes a node. -/
theorem leaf_built (settled : stack.Settled) (alone : token.standsAlone = true)
    (step : Stack.Step limit token stack g last g') :
    g'.structural = g.structural ∧ ∃ node, last = stack.add node ∧
      Reads (Placement.ofToken limit stack.height token) (.node node) := by
  obtain ⟨whole, undivided⟩ := whole_of_standsAlone alone
  obtain ⟨placement, rfl, read⟩ := Stack.step_placed settled whole undivided step
  obtain ⟨node, rfl⟩ := Placement.node_of_standsAlone alone read
  exact ⟨(Placement.ofToken_calm whole undivided).view_eq read, node, rfl, g, g', read⟩

/-- An opening tag puts a block on the stack. -/
theorem opener_built (settled : stack.Settled) (opens : token.isOpening = true)
    (block : token.keyword.opensBlock = true) (step : Stack.Step limit token stack g last g') :
    g'.structural = g.structural ∧ ∃ placement, last = stack.put placement ∧
      Placement.Tagged token placement ∧
      Reads (Placement.ofToken limit stack.height token) placement := by
  obtain ⟨undivided, whole⟩ := undivided_of_opensBlock block
  have closing := not_closing_of_isOpening opens
  obtain ⟨placement, rfl, read⟩ := Stack.step_placed settled closing whole step
  exact ⟨(Placement.ofToken_calm closing whole).view_eq read, placement, rfl,
    Placement.opened_of_isOpening opens undivided read, g, g', read⟩

theorem closing_of_opener {shape : Shape} {body nodes : List Node} :
    (Frame.extend ⟨token.text, token.span, shape, body⟩ nodes).closing = token.keyword.closing := by
  rw [Markup.Keyword.closing, Token.keyword, Markup.Keyword.text_ofText]
  rfl

mutual
/-- Tokens of a body add its nodes to the innermost open block. -/
theorem body_built {stack last : Stack} {g g' : Gathered} (body : Body) (settled : stack.Settled)
    (run : Stack.Fed limit stack g body.tokens last g') :
    g'.structural = g.structural ∧
      ∃ nodes, last = stack.append nodes ∧ body.Builds limit stack.height nodes := by
  match body with
  | .nil =>
    cases run
    exact ⟨rfl, [], rfl, .nil⟩
  | .leaf token alone rest =>
    cases run with
    | cons step later =>
      obtain ⟨calm, node, rfl, read⟩ := leaf_built settled alone step
      obtain ⟨same, nodes, rfl, builds⟩ := body_built rest (settled.add node) later
      rw [Stack.height_add] at builds
      exact ⟨same.trans calm, node :: nodes, rfl, .leaf read builds⟩
  | .block opener opens inner closer closes rest =>
    have parts := opens
    simp only [Token.opensBody, Bool.and_eq_true] at parts
    cases run with
    | cons step later =>
      obtain ⟨calm, placement, rfl, tagged, read⟩ := opener_built settled parts.1.1 parts.1.2 step
      obtain ⟨shape, rfl, encloses⟩ := tagged.encloses opens
      have plain := (encloses []).settled opener.text []
      -- The body adds to the frame of the opener, and only its own closer takes that frame off.
      obtain ⟨middle, h, inside, ending⟩ := Stack.fed_append.mp later
      obtain ⟨still, body, rfl, builds⟩ := body_built inner (Stack.settled_cons plain) inside
      rw [Stack.append_cons plain] at ending
      cases ending with
      | cons close after =>
        obtain ⟨rfl, rfl⟩ := Stack.step_closed ((Frame.isExtension_extend body).trans plain)
          closes.1 (closing_of_opener.trans closes.2.symm) close
        obtain ⟨same, nodes, rfl, others⟩ := body_built rest (settled.add _) after
        rw [Stack.height_add] at others
        exact ⟨same.trans (still.trans calm), _ :: nodes, rfl,
          .block read builds (encloses body) others⟩
  | .conditional opener opens inner branches rest =>
    cases run with
    | cons step later =>
      obtain ⟨calm, placement, rfl, tagged, read⟩ :=
        opener_built settled opens.1 (by rw [opens.2]; rfl) step
      obtain ⟨condition, rfl⟩ := tagged.condition opens.2
      obtain ⟨middle, h, inside, ending⟩ := Stack.fed_append.mp later
      obtain ⟨still, body, rfl, builds⟩ := body_built inner (Stack.settled_cons rfl) inside
      rw [Stack.append_cons rfl] at ending
      obtain ⟨between, i, divided, after⟩ := Stack.fed_append.mp ending
      obtain ⟨quiet, clauses, otherwise, rfl, parts⟩ :=
        branches_built branches rfl (closing_of_opener.trans (by rw [opens.2])) divided
      obtain ⟨same, nodes, rfl, others⟩ := body_built rest (settled.add _) after
      rw [Stack.height_add] at others
      refine ⟨same.trans (quiet.trans (still.trans calm)), _ :: nodes, rfl, ?_⟩
      have node : Frame.conclude
          (Frame.extend ⟨opener.text, opener.span, .first condition, []⟩ body) clauses otherwise =
            .conditional opener.span condition body clauses otherwise := by
        simp [Frame.conclude, Frame.extend, Frame.nodes]
      rw [node]
      exact .conditional read builds parts others
/-- Tokens after the first body of a conditional divide it and end it. -/
theorem branches_built {last : Stack} {g g' : Gathered} (branches : Branches) {top : Frame}
    {outer : List Frame} {root : List Node} (takes : top.takesClauses = true)
    (word : top.closing = Markup.Keyword.cond.closing)
    (run : Stack.Fed limit ⟨top :: outer, root⟩ g branches.tokens last g') :
    g'.structural = g.structural ∧ ∃ clauses otherwise,
      last = Stack.add ⟨outer, root⟩ (top.conclude clauses otherwise) ∧
      branches.Builds limit (outer.length + 1) clauses otherwise := by
  match branches with
  | .close closer closes =>
    cases run with
    | cons close after =>
      cases after
      obtain ⟨rfl, rfl⟩ := Stack.step_closed (Stack.settled_of_takes takes) closes.1
        (word.trans closes.2.symm) close
      rw [Frame.finish_eq_conclude takes]
      exact ⟨rfl, [], [], rfl, .close⟩
  | .otherwise clause divides inner closer closes =>
    have plain := Frame.isExtension_addOtherwise takes
    cases run with
    | cons step later =>
      obtain ⟨rfl, rfl⟩ := Stack.step_otherwise takes divides step
      obtain ⟨middle, h, inside, ending⟩ := Stack.fed_append.mp later
      obtain ⟨still, body, rfl, builds⟩ := body_built inner (Stack.settled_cons plain) inside
      rw [Stack.append_cons plain] at ending
      cases ending with
      | cons close after =>
        cases after
        have fits : (top.addOtherwise.extend body).closing = closer.text :=
          (Frame.closing_addOtherwise takes).trans (word.trans closes.2.symm)
        obtain ⟨rfl, rfl⟩ :=
          Stack.step_closed ((Frame.isExtension_extend body).trans plain) closes.1 fits close
        rw [Frame.finish_otherwise takes]
        exact ⟨still, [], body, rfl, .otherwise builds⟩
  | .elseif clause divides inner more =>
    cases run with
    | cons step later =>
      obtain ⟨tag, source, condition, content, read, rfl⟩ := Stack.step_elseif takes divides step
      have still := (Placement.condition_calm limit _ clause tag).view_eq read
      have plain := Frame.isExtension_addClause takes clause.span condition
      obtain ⟨middle, h, inside, ending⟩ := Stack.fed_append.mp later
      obtain ⟨same, body, rfl, builds⟩ := body_built inner (Stack.settled_cons plain) inside
      rw [Stack.append_cons plain] at ending
      -- The frame still takes clauses and waits for the same word, so the rest is divided alike.
      have stays := Frame.takesClauses_addClause takes clause.span condition
      have name := (Frame.closing_addClause takes clause.span condition).trans word
      obtain ⟨quiet, clauses, otherwise, rfl, parts⟩ :=
        branches_built more ((Frame.takesClauses_extend body).trans stays)
          ((Frame.closing_extend body).trans name) ending
      rw [Frame.conclude_clause takes]
      exact ⟨quiet.trans (same.trans still), _, otherwise, rfl,
        .elseif content ⟨g, _, read⟩ builds parts⟩
end

end Run

/-! ### Trees -/

theorem Token.isDone_of_isGrammatical {token : Token} (grammatical : token.isGrammatical = true) :
    token.isDone = false := by
  unfold Token.isGrammatical at grammatical
  unfold Token.isDone
  cases content : token.content <;> simp_all

theorem Token.endsBlocks_of_isGrammatical {token : Token}
    (grammatical : token.isGrammatical = true) : Stack.EndsBlocks token := by
  intro ends same
  unfold Token.isClosing at ends
  unfold Token.isGrammatical at grammatical
  cases content : token.content <;> simp_all [Markup.closingWords]

/-- Tokens of text, interpolations, comments and blocks are built to a tree unless nesting is too
deep. There is no structural problem exactly if the grammar derives them, and then the tree is the
derivation. -/
theorem ofTokens_follows_grammar {limit : Nat} {tokens : List Token} {last : Token}
    (grammatical : ∀ token ∈ tokens, token.isGrammatical = true) (done : last.isDone = true)
    (shallow : ∀ cause, (Tree.ofTokens limit (tokens ++ [last])).1 = .error cause →
      ¬ cause.OfDepth) :
    ∃ tree diagnostics, Tree.ofTokens limit (tokens ++ [last]) = (.ok tree, diagnostics) ∧
      ((∀ d ∈ diagnostics, d.kind.isStructural = false) ↔ Derivable tokens) ∧
      ∀ body : Body, body.tokens = tokens → body.Builds limit 0 tree.nodes := by
  rcases returns_or_fails (Stack.build limit
    ((tokens ++ [last]).getLast?.map (·.span.stop)) ⟨[], []⟩ (tokens ++ [last])) Tree.start with
    ⟨nodes, g, run⟩ | ⟨cause, g, run⟩
  · have whole := Tree.ofTokens_of_returns run
    have unfinished : ∀ token ∈ tokens, token.isDone = false :=
      fun token member => Token.isDone_of_isGrammatical (grammatical token member)
    have known : ∀ token ∈ tokens, Stack.EndsBlocks token :=
      fun token member => Token.endsBlocks_of_isGrammatical (grammatical token member)
    have problems := Stack.build_problems unfinished done known (fun _ member => by cases member) run
    obtain ⟨next, h, fed, ends⟩ := Stack.fed_of_build unfinished done run
    have derived (body : Body) (same : body.tokens = tokens) :
        g.structural = [] ∧ body.Builds limit 0 nodes := by
      subst same
      obtain ⟨calm, parts, rfl, builds⟩ := body_built body (fun _ member => by cases member) fed
      rw [Stack.append_root, Stack.unwind, returns_pure] at ends
      obtain ⟨rfl, rfl⟩ := ends
      refine ⟨calm, ?_⟩
      simpa [Stack.addAll, Stack.height] using builds
    refine ⟨_, _, whole, ?_, fun body same => (derived body same).2⟩
    constructor
    · intro silent
      refine completed_of_no_problems [] grammatical (List.Perm.nil_eq ?_).symm
      have none : g.problems = [] := by
        simp only [Gathered.problems, Gathered.structural, List.map_eq_nil_iff,
          List.filter_eq_nil_iff]
        intro d member
        simpa using silent d member
      rw [none] at problems
      exact problems
    · rintro ⟨body, same⟩ d member
      have none := (derived body same).1
      rw [Gathered.structural, List.filter_eq_nil_iff] at none
      simpa using none d member
  · have deep := (Stack.build_bounded _ _ tokens done Tree.start).2 cause g run
    exact absurd deep.2 (shallow cause (by rw [Tree.ofTokens_of_fails run]))

/-- A conditional with a loop under its first condition and text after its `else`. -/
def loopInConditional : List Token :=
  let tag (start : Nat) (word condition : String) (loop : Option LoopHead) : Token :=
    ⟨word, ⟨start, start + 1, ⟨1, start + 1⟩⟩,
      .opening ⟨condition, loop, [.name ⟨start, start + 1, ⟨1, start + 1⟩⟩ "xs"]⟩ ""⟩
  let plain (start : Nat) (content : TokenContent) (text : String) : Token :=
    ⟨text, ⟨start, start + 1, ⟨1, start + 1⟩⟩, content⟩
  [tag 0 "if" "xs" none, tag 1 "for" "x in xs" (some ⟨"x", "xs"⟩), plain 2 (.text .plain) "a",
    plain 3 (.closing "") "endfor", tag 4 "else" "" none, plain 5 (.text .plain) "b",
    plain 6 (.closing "") "endif"]

theorem loopInConditional_follows_grammar :
    ∃ tree diagnostics,
      Tree.ofTokens 4 (loopInConditional ++ [⟨"", ⟨7, 7, ⟨1, 8⟩⟩, .done⟩]) =
        (.ok tree, diagnostics) ∧
      ((∀ d ∈ diagnostics, d.kind.isStructural = false) ↔ Derivable loopInConditional) ∧
      ∀ body : Body, body.tokens = loopInConditional → body.Builds 4 0 tree.nodes := by
  refine ofTokens_follows_grammar (by decide) rfl ?_
  intro cause failed
  have built : (Tree.ofTokens 4
      (loopInConditional ++ [⟨"", ⟨7, 7, ⟨1, 8⟩⟩, .done⟩])).1.isOk = true := by
    cbv
  rw [failed] at built
  contradiction

end Stencil
