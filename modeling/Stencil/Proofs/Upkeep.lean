import Stencil.Proofs.Step
/-! What the building of a tree keeps up. A law says what holds of a node that stands inside some
number of blocks and of a block that is open inside as many, and that single tokens respect it;
then the stack respects it at every token, and so do the nodes of the template, however its tokens
end. -/
namespace Stencil

variable {limit : Nat} {fit : Gathered → Prop} {known : Token → Prop}
  {inside : Nat → Node → Prop} {opened : Nat → Frame → Prop}

/-- Reports at the span do no harm to what is gathered. -/
def TreeReading.Reportable (fit : Gathered → Prop) (span : Span) : Prop :=
  ∀ g kind message, fit g → fit (g.reported kind message span)

theorem TreeReading.report_keeps {span : Span} (here : Reportable fit span) (kind : DiagnosticKind)
    (message : String) : Ensures fit (fun _ => True) (report kind message span) :=
  ensures_modify fun g before => here g kind message before

/-- What a token becomes inside `height` blocks. -/
def Placement.Meets (inside : Nat → Node → Prop) (opened : Nat → Frame → Prop) (height : Nat) :
    Placement → Prop
  | .node part => inside height part
  | .opened frame => opened height frame
  | .nothing => True

/-- Known tokens, and blocks that end or are divided, respect what is to hold of nodes `inside` and
blocks `opened` in some number of blocks. -/
structure Upkeep (limit : Nat) (fit : Gathered → Prop) (known : Token → Prop)
    (inside : Nat → Node → Prop) (opened : Nat → Frame → Prop) : Prop where
  finish {height : Nat} {frame : Frame} (here : opened height frame) : inside height frame.finish
  add {height : Nat} {frame : Frame} {node : Node} (here : opened height frame)
    (within : inside (height + 1) node) : opened height (frame.add node)
  otherwise {height : Nat} {frame : Frame} (here : opened height frame) :
    opened height frame.addOtherwise
  clause {height : Nat} {frame : Frame} {token : Token} {tag : Opening} {source : String}
    (here : opened height frame) (read : known token)
    (content : token.content = .opening tag source) :
    Ensures fit (fun clause => opened height (frame.addClause token.span clause))
      (Placement.condition limit (limit - (height + 1)) token tag)
  placed {height : Nat} {token : Token} (read : known token) :
    Ensures fit (Placement.Meets inside opened height) (Placement.ofToken limit height token)
  unclosed {height : Nat} {frame : Frame} (here : opened height frame) :
    TreeReading.Reportable fit frame.span
  reported {token : Token} (read : known token) : TreeReading.Reportable fit token.span

namespace Stack

/-- Every open block respects the law for the blocks around it. -/
def AllOpened (opened : Nat → Frame → Prop) : List Frame → Prop
  | [] => True
  | top :: outer => opened outer.length top ∧ AllOpened opened outer

structure Kept (inside : Nat → Node → Prop) (opened : Nat → Frame → Prop) (stack : Stack) :
    Prop where
  frames : AllOpened opened stack.frames
  root : ∀ node ∈ stack.root, inside 0 node

theorem height_addAll (frames : List Frame) (root : List Node) (finished : Option Node) :
    (Stack.addAll ⟨frames, root⟩ finished).height = frames.length := by
  cases finished <;> cases frames <;> rfl

section Law

variable (law : Upkeep limit fit known inside opened) {stack : Stack} {top : Frame}
  {outer : List Frame} {root : List Node}
include law

theorem Kept.add (kept : stack.Kept inside opened) {node : Node}
    (within : inside stack.height node) : (stack.add node).Kept inside opened := by
  rcases stack with ⟨_ | ⟨top, outer⟩, root⟩
  · exact ⟨kept.frames, List.forall_mem_cons.mpr ⟨within, kept.root⟩⟩
  · exact ⟨⟨law.add kept.frames.1 within, kept.frames.2⟩, kept.root⟩

theorem Kept.put (kept : stack.Kept inside opened) {placement : Placement}
    (meets : placement.Meets inside opened stack.height) :
    (stack.put placement).Kept inside opened := by
  cases placement with
  | node node => exact kept.add law meets
  | opened frame => exact ⟨⟨meets, kept.frames⟩, kept.root⟩
  | nothing => exact kept

theorem Kept.ended (kept : Kept inside opened ⟨top :: outer, root⟩) :
    (Stack.add ⟨outer, root⟩ top.finish).Kept inside opened :=
  have outside : Kept inside opened ⟨outer, root⟩ := ⟨kept.frames.2, kept.root⟩
  outside.add law (law.finish kept.frames.1)

theorem reportUnclosed_keeps (kept : Kept inside opened ⟨top :: outer, root⟩) :
    Ensures fit (fun _ => True) (reportUnclosed top) :=
  TreeReading.report_keeps (law.unclosed kept.frames.1) _ _

variable {token : Token} (read : known token)
include read

theorem ofOpening_keeps {tag : Opening} {source : String} {height : Nat}
    (content : token.content = .opening tag source) (plain : token.keyword.isClause = false) :
    Ensures fit (Placement.Meets inside opened height)
      (Placement.ofOpening limit height token tag) := by
  have placed : Ensures fit (Placement.Meets inside opened height)
      (Placement.ofToken limit height token) := law.placed read
  simpa only [Placement.ofToken, content, plain, Bool.false_eq_true, if_false] using placed

/-- A token that is reported and becomes nothing. -/
theorem refused_keeps (kind : DiagnosticKind) (message : String) {height : Nat} :
    Ensures fit (Placement.Meets inside opened height) (do
      TreeReading.report kind message token.span
      return .nothing) :=
  ensures_bind (TreeReading.report_keeps (law.reported read) kind message) fun _ _ =>
    ensures_pure trivial

theorem divide_keeps (kept : Kept inside opened ⟨top :: outer, root⟩) {tag : Opening}
    {source : String} (content : token.content = .opening tag source) :
    Ensures fit (Kept inside opened) (divide limit top outer root token tag) := by
  unfold divide
  split
  · split
    · exact ensures_pure ⟨⟨law.otherwise kept.frames.1, kept.frames.2⟩, kept.root⟩
    · exact ensures_bind (law.clause kept.frames.1 read content) fun clause divided =>
        ensures_pure ⟨⟨divided, kept.frames.2⟩, kept.root⟩
  · exact ensures_bind (refused_keeps law read _ _) fun placement meets =>
      ensures_pure (kept.put law meets)

/-- A token leaves a stack that respects the law. -/
theorem feed_keeps {finished : Option Node} {frames : List Frame}
    (kept : (Stack.addAll ⟨frames, root⟩ finished).Kept inside opened) :
    Ensures fit (Kept inside opened) (feed limit token finished frames root) := by
  -- A frame that ends is added to the one below it, so the induction is on the frames.
  induction frames generalizing finished root with
  | nil =>
    refine ensures_bind (law.placed read) fun placement meets => ensures_pure (kept.put law ?_)
    rwa [height_addAll]
  | cons frame outer ih =>
    rw [addAll_cons] at kept
    unfold feed
    dsimp only
    generalize finished.elim frame frame.add = top at kept
    have ended := kept.ended law
    have put {reading : TreeReading Placement}
        (placed : Ensures fit (Placement.Meets inside opened (outer.length + 1)) reading) :
        Ensures fit (Kept inside opened) (do return Stack.put ⟨top :: outer, root⟩ (← reading)) :=
      ensures_bind placed fun placement meets => ensures_pure (kept.put law meets)
    split
    · split
      · exact ensures_pure kept
      · rename_i tag _ block
        unfold blockTag? at block
        split at block
        · rename_i content
          split at block
          · rename_i word
            cases block
            exact put (ofOpening_keeps law read content (by rw [eq_of_beq word]; rfl))
          · contradiction
        · contradiction
      · exact ih ended
    · split
      · split
        · exact ensures_pure ended
        · split
          · exact ensures_bind (reportUnclosed_keeps law kept) fun _ _ => ih ended
          · exact put (refused_keeps law read _ _)
      · rename_i content
        split
        · exact divide_keeps law read kept content
        · rename_i plain
          exact put (ofOpening_keeps law read content (by simpa using plain))
      · exact put (law.placed read)

omit read

theorem unwind_keeps {finished : Option Node} {frames : List Frame}
    (kept : (Stack.addAll ⟨frames, root⟩ finished).Kept inside opened) :
    Ensures fit (fun nodes => ∀ node ∈ nodes, inside 0 node) (unwind finished frames root) := by
  induction frames generalizing finished root with
  | nil => exact ensures_pure fun node member => kept.root node (List.mem_reverse.mp member)
  | cons frame outer ih =>
    rw [addAll_cons] at kept
    unfold unwind
    dsimp only
    generalize finished.elim frame frame.add = top at kept
    split
    · exact ih (kept.ended law)
    · exact ensures_bind (reportUnclosed_keeps law kept) fun _ _ => ih (kept.ended law)

theorem runOut_keeps (stop : Option Nat) {finished : Option Node} {frames : List Frame}
    (kept : (Stack.addAll ⟨frames, root⟩ finished).Kept inside opened) :
    Ensures fit (fun nodes => ∀ node ∈ nodes, inside 0 node)
      (runOut stop finished frames root) := by
  induction frames generalizing finished root with
  | nil => exact ensures_pure fun node member => kept.root node (List.mem_reverse.mp member)
  | cons frame outer ih =>
    rw [addAll_cons] at kept
    unfold runOut
    dsimp only
    split
    · exact ih (kept.ended law)
    · exact ensures_throw _

/-- All nodes of a template respect the law. -/
theorem build_keeps (stop : Option Nat) {tokens : List Token}
    (read : ∀ token ∈ tokens, known token) (kept : stack.Kept inside opened) :
    Ensures fit (fun nodes => ∀ node ∈ nodes, inside 0 node) (build limit stop stack tokens) := by
  induction tokens generalizing stack with
  | nil => exact runOut_keeps law stop kept
  | cons token rest ih =>
    obtain ⟨here, later⟩ := List.forall_mem_cons.mp read
    unfold build
    split
    · exact unwind_keeps law kept
    · exact ensures_bind (feed_keeps law here kept) fun next respects => ih later respects

end Law
end Stack

/-- What is gathered for a tree, and its nodes, if it can be built. -/
theorem Tree.ofTokens_keeps (law : Upkeep limit fit known inside opened) (nothing : fit start)
    {tokens : List Token} (read : ∀ token ∈ tokens, known token) {result : Except Cause Tree}
    {built : List Diagnostic} (parsed : ofTokens limit tokens = (result, built)) :
    (∃ g, fit g ∧ built = g.diagnostics) ∧
      ∀ tree, result = .ok tree → ∀ node ∈ tree.nodes, inside 0 node := by
  have bare : Stack.Kept inside opened ⟨[], []⟩ := ⟨trivial, by simp⟩
  have keeps := Stack.build_keeps law (tokens.getLast?.map (·.span.stop)) read bare
  rcases returns_or_fails (Stack.build limit (tokens.getLast?.map (·.span.stop)) ⟨[], []⟩ tokens)
    start with ⟨nodes, g, run⟩ | ⟨cause, g, run⟩
  · cases (ofTokens_of_returns run).symm.trans parsed
    obtain ⟨gathered, within⟩ := (keeps start nothing).1 nodes g run
    refine ⟨⟨g, gathered, rfl⟩, ?_⟩
    rintro tree same
    cases same
    exact within
  · cases (ofTokens_of_fails run).symm.trans parsed
    refine ⟨⟨g, (keeps start nothing).2 cause g run, rfl⟩, ?_⟩
    rintro tree same
    cases same

end Stencil
