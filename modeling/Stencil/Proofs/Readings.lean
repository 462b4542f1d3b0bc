import Mathlib.Data.List.Forall2
import Stencil.Analysis
import Stencil.Proofs.Likeness
import Stencil.Proofs.Mirrors
import Stencil.Proofs.Operands
import Stencil.Proofs.Step

/-! Trees read side by side. A token does the same to stacks of open blocks that are alike, and
where the comparison is lenient the second reading may have more room for nesting. -/
namespace Stencil

variable {l : Likeness}

/-! ### Open blocks -/

inductive Shape.Alike (l : Likeness) : Shape → Shape → Prop
  | first {condition : Expression} (used : condition.Uses l) :
      Shape.Alike l (.first condition) (.first condition)
  | later {condition clause : Expression} {body other : List Node} {clauses further : List Clause}
      (span : Span) (used : condition.Uses l) (opening : clause.Uses l)
      (inner : Node.AllAlike l body other) (between : Clause.AllAlike l clauses further) :
      Shape.Alike l (.later condition body clauses span clause)
        (.later condition other further span clause)
  | otherwise {condition : Expression} {body other : List Node} {clauses further : List Clause}
      (used : condition.Uses l) (inner : Node.AllAlike l body other)
      (between : Clause.AllAlike l clauses further) :
      Shape.Alike l (.otherwise condition body clauses) (.otherwise condition other further)
  | loop (binding : LoopBinding) {iterable : Expression} (used : iterable.Uses l) :
      Shape.Alike l (.loop binding iterable) (.loop binding iterable)
  | repetition {condition : Expression} (used : condition.Uses l) :
      Shape.Alike l (.repetition condition) (.repetition condition)
  | exception {condition : Expression} (used : condition.Uses l) :
      Shape.Alike l (.exception condition) (.exception condition)
  | block (name : String) : Shape.Alike l (.block name) (.block name)
  | extension {parent : Expression} {blocks others : List Block} (entered : l.templates)
      (used : parent.Uses l) (given : Block.AllAlike l blocks others) :
      Shape.Alike l (.extension parent blocks) (.extension parent others)

structure Frame.Alike (l : Likeness) (frame other : Frame) : Prop where
  word : frame.word = other.word
  span : frame.span = other.span
  shape : Shape.Alike l frame.shape other.shape
  nodes : Node.AllAlike l frame.nodes other.nodes

structure Stack.Alike (l : Likeness) (stack other : Stack) : Prop where
  frames : List.Forall₂ (Frame.Alike l) stack.frames other.frames
  root : Node.AllAlike l stack.root.reverse other.root.reverse

inductive Placement.Alike (l : Likeness) : Placement → Placement → Prop
  | node {node other : Node} (alike : Node.Alike l node other) :
      Placement.Alike l (.node node) (.node other)
  | opened {frame other : Frame} (alike : Frame.Alike l frame other) :
      Placement.Alike l (.opened frame) (.opened other)
  | nothing : Placement.Alike l .nothing .nothing

theorem Clause.AllAlike.append {clauses others rest remaining : List Clause}
    (first : Clause.AllAlike l clauses others) (later : Clause.AllAlike l rest remaining) :
    Clause.AllAlike l (clauses ++ rest) (others ++ remaining) := by
  induction clauses generalizing others with
  | nil =>
    cases first
    exact later
  | cons clause more ih =>
    cases first with
    | cons span used kept further => exact .cons span used kept (ih further)

theorem Block.setIn_cons (span place : Span) (name key : String) (body held : List Node)
    (rest : List Block) :
    Block.setIn (.mk span name body) (.mk place key held :: rest) =
      if key == name then .mk span name body :: rest
      else .mk place key held :: Block.setIn (.mk span name body) rest := rfl

theorem Block.AllAlike.setIn {blocks others : List Block} (alike : Block.AllAlike l blocks others)
    (span : Span) (name : String) {body other : List Node} (kept : Node.AllAlike l body other) :
    Block.AllAlike l (Block.setIn (.mk span name body) blocks)
      (Block.setIn (.mk span name other) others) := by
  induction blocks generalizing others with
  | nil =>
    cases alike
    exact .cons span name kept .nil
  | cons named rest ih =>
    cases alike with
    | cons place key held later =>
      rw [Block.setIn_cons, Block.setIn_cons]
      split
      · exact .cons span name kept later
      · exact .cons place key held (ih later)

namespace Frame.Alike

variable {frame other : Frame} {span : Span} {clause : Expression}

theorem closing (alike : Alike l frame other) : frame.closing = other.closing := by
  rw [Frame.closing, Frame.closing, alike.word]

theorem isExtension (alike : Alike l frame other) : frame.isExtension = other.isExtension := by
  obtain ⟨word, span, shape, body⟩ := frame
  obtain ⟨word', span', shape', body'⟩ := other
  cases alike.shape <;> rfl

theorem isConditional (alike : Alike l frame other) :
    frame.isConditional = other.isConditional := by
  obtain ⟨word, span, shape, body⟩ := frame
  obtain ⟨word', span', shape', body'⟩ := other
  cases alike.shape <;> rfl

theorem takesClauses (alike : Alike l frame other) : frame.takesClauses = other.takesClauses := by
  obtain ⟨word, span, shape, body⟩ := frame
  obtain ⟨word', span', shape', body'⟩ := other
  cases alike.shape <;> rfl

theorem finish (alike : Alike l frame other) : Node.Alike l frame.finish other.finish := by
  obtain ⟨word, span, shape, body⟩ := frame
  obtain ⟨word', span', shape', body'⟩ := other
  obtain ⟨rfl, rfl, shaped, nodes⟩ := alike
  cases shaped with
  | first used => exact .conditional _ used nodes .nil .nil
  | later span used opening inner between =>
    exact .conditional _ used inner (between.append (.cons span opening nodes .nil)) .nil
  | otherwise used inner between => exact .conditional _ used inner between nodes
  | loop binding used => exact .loop _ binding used nodes
  | repetition used => exact .repetition _ used nodes
  | exception used => exact .exception _ used nodes
  | block name => exact .block _ name nodes
  | extension entered used given => exact .extension _ entered used given

theorem pushed (alike : Alike l frame other) {node node' : Node} (same : Node.Alike l node node') :
    Alike l { frame with body := node :: frame.body } { other with body := node' :: other.body } where
  word := alike.word
  span := alike.span
  shape := alike.shape
  nodes := by
    simp only [Frame.nodes, List.reverse_cons]
    exact alike.nodes.append (.cons same .nil)

theorem add (alike : Alike l frame other) {node node' : Node} (same : Node.Alike l node node') :
    Alike l (frame.add node) (other.add node') := by
  have pushed := alike.pushed same
  obtain ⟨word, span, shape, body⟩ := frame
  obtain ⟨word', span', shape', body'⟩ := other
  obtain ⟨rfl, rfl, shaped, nodes⟩ := alike
  cases shaped with
  | extension entered used given =>
    cases same with
    | block place name inner => exact ⟨rfl, rfl, .extension entered used (given.setIn place name inner), nodes⟩
    | _ => exact pushed
  | _ => exact pushed

theorem addClause (alike : Alike l frame other) (opening : clause.Uses l) :
    Alike l (frame.addClause span clause) (other.addClause span clause) := by
  have unchanged := alike
  obtain ⟨word, place, shape, body⟩ := frame
  obtain ⟨word', place', shape', body'⟩ := other
  obtain ⟨rfl, rfl, shaped, nodes⟩ := alike
  cases shaped with
  | first used => exact ⟨rfl, rfl, .later span used opening nodes .nil, .nil⟩
  | later previous used before inner between =>
    exact ⟨rfl, rfl,
      .later span used opening inner (between.append (.cons previous before nodes .nil)), .nil⟩
  | _ => exact unchanged

theorem addOtherwise (alike : Alike l frame other) :
    Alike l frame.addOtherwise other.addOtherwise := by
  have unchanged := alike
  obtain ⟨word, place, shape, body⟩ := frame
  obtain ⟨word', place', shape', body'⟩ := other
  obtain ⟨rfl, rfl, shaped, nodes⟩ := alike
  cases shaped with
  | first used => exact ⟨rfl, rfl, .otherwise used nodes .nil, .nil⟩
  | later previous used before inner between =>
    exact ⟨rfl, rfl,
      .otherwise used inner (between.append (.cons previous before nodes .nil)), .nil⟩
  | _ => exact unchanged

end Frame.Alike

namespace Stack.Alike

variable {stack other : Stack}

theorem height (alike : Alike l stack other) : stack.height = other.height :=
  alike.frames.length_eq

theorem add (alike : Alike l stack other) {node node' : Node} (same : Node.Alike l node node') :
    Alike l (stack.add node) (other.add node') := by
  obtain ⟨frames, root⟩ := stack
  obtain ⟨frames', root'⟩ := other
  obtain ⟨open_, outside⟩ := alike
  cases open_ with
  | nil =>
    refine ⟨.nil, ?_⟩
    simp only [Stack.add, List.reverse_cons]
    exact outside.append (.cons same .nil)
  | cons top outer => exact ⟨.cons (top.add same) outer, outside⟩

theorem put (alike : Alike l stack other) {placement placement' : Placement}
    (same : Placement.Alike l placement placement') :
    Alike l (stack.put placement) (other.put placement') := by
  cases same with
  | node same => exact alike.add same
  | opened same => exact ⟨.cons same alike.frames, alike.root⟩
  | nothing => exact alike

end Stack.Alike

/-! ### Expressions and tags -/

variable {lenient : Prop} {limit limit' room room' : Nat} {α β : Type}

/-- The second reading does the same and gathers the same. -/
abbrev TreeReading.Repeats (lenient : Prop) (first second : TreeReading α) : Prop :=
  Mirrors lenient Eq Eq first second

open TreeReading

namespace TreeReading

theorem tooDeep_fails (limit : Nat) (span : Span) (g : Gathered) :
    ∃ e g', Fails (tooDeep limit span : TreeReading α) g e g' := ⟨_, _, rfl⟩

theorem tooDeep_repeats (limits : Reaches lenient limit limit') (span : Span) :
    Repeats lenient (tooDeep limit span : TreeReading α) (tooDeep limit' span) := by
  rcases limits with rfl | ⟨mild, -⟩
  · exact mirrors_refl _
  · exact mirrors_of_fails mild (tooDeep_fails limit span)

/-- What is read where there is room for another level. -/
theorem guarded_repeats (limits : Reaches lenient limit limit') (height : Nat) (span : Span)
    {next next' : PUnit → TreeReading α} (later : Repeats lenient (next ⟨⟩) (next' ⟨⟩)) :
    Repeats lenient (if limit ≤ height then tooDeep limit span >>= next else next ⟨⟩)
      (if limit' ≤ height then tooDeep limit' span >>= next' else next' ⟨⟩) := by
  split
  · rcases limits with rfl | ⟨mild, -⟩
    · rename_i full
      rw [if_pos full]
      exact tooDeep_repeats (.refl limit) span
    · exact mirrors_of_fails mild (tooDeep_fails limit span)
  · rcases limits with rfl | ⟨-, le⟩
    · rename_i roomy
      rw [if_neg roomy]
      exact later
    · rw [if_neg (by omega)]
      exact later

end TreeReading

namespace Expression

section Parts

variable {inner inner' : List Lexeme → TreeReading Expression}
  (each : ∀ lexemes, Repeats lenient (inner lexemes) (inner' lexemes))
include each

theorem ofSteps_repeats (span : Span) (object : Expression) (steps : List PathStep) :
    Repeats lenient (ofSteps inner span object steps) (ofSteps inner' span object steps) := by
  induction steps generalizing object with
  | nil => exact mirrors_pure rfl
  | cons step rest ih =>
    cases step with
    | property key => exact ih _
    | index lexemes => exact (each lexemes).bind_eq fun _ => ih _

theorem ofArguments_repeats (args : List (List Lexeme)) :
    Repeats lenient (ofArguments inner args) (ofArguments inner' args) :=
  mirrors_mapM _ fun arg _ => each arg

theorem ofLexeme_repeats (lexeme : Lexeme) :
    Repeats lenient (ofLexeme inner lexeme) (ofLexeme inner' lexeme) := by
  cases lexeme with
  | literal | name | operator => exact mirrors_refl _
  | path span text base steps =>
    exact (mirrors_refl _).bind_eq fun _ => ofSteps_repeats each span _ steps
  | call span text callee args =>
    exact (mirrors_refl _).bind_eq fun _ =>
      (ofArguments_repeats each args).bind_eq fun _ => mirrors_pure rfl

theorem ofRun_repeats (first : Lexeme) (rest : List Lexeme) :
    Repeats lenient (ofRun inner first rest) (ofRun inner' first rest) := by
  unfold ofRun
  split
  · exact (mirrors_refl _).bind_eq fun _ => ofLexeme_repeats each first
  · split
    · exact (mirrors_refl _).bind_eq fun _ => ofLexeme_repeats each _
    · exact (mirrors_refl _).bind_eq fun _ => ofLexeme_repeats each first

theorem ofUnsplit_repeats {behind behind' : TreeReading Expression}
    (later : Repeats lenient behind behind') {first : Lexeme} {rest : List Lexeme} :
    Repeats lenient (ofUnsplit inner behind rest first) (ofUnsplit inner' behind' rest first) := by
  unfold ofUnsplit
  split
  · exact later.bind_eq fun _ => mirrors_pure rfl
  · exact ofRun_repeats each _ rest

end Parts

section Sides
variable {split : Split} {before before' after after' : TreeReading Expression}

theorem joined_repeats (behind : Repeats lenient after after') (left : Expression) :
    Repeats lenient (joined split left after) (joined split left after') := by
  have last : Repeats lenient
      (do return binary split.span split.op left (← after))
      (do return binary split.span split.op left (← after')) :=
    behind.bind_eq fun _ => mirrors_pure rfl
  unfold joined
  split
  · exact (mirrors_refl _).bind_eq fun _ => last
  · exact last

theorem ofSplit_repeats (here : Repeats lenient before before')
    (behind : Repeats lenient after after') :
    Repeats lenient (ofSplit split before after) (ofSplit split before' after') := by
  unfold ofSplit
  split
  · exact (mirrors_refl _).bind_eq fun _ =>
      (mirrors_pure rfl).bind_eq fun left => joined_repeats behind left
  · exact here.bind_eq fun left => joined_repeats behind left

end Sides

theorem read_repeats (limits : Reaches lenient limit limit') (rooms : Reaches lenient room room')
    (floor : Nat) (lexemes : List Lexeme) :
    Repeats lenient (read limit room floor lexemes) (read limit' room' floor lexemes) := by
  -- On the levels of nesting that are left to the first reading.
  induction room generalizing room' floor lexemes with
  | zero =>
    cases lexemes with
    | nil =>
      cases room' <;> exact mirrors_pure rfl
    | cons first rest =>
      rcases rooms with rfl | ⟨mild, -⟩
      · exact tooDeep_repeats limits first.span
      · exact mirrors_of_fails mild (tooDeep_fails limit first.span)
  | succ room ih =>
    obtain ⟨less, rfl, further⟩ := rooms.of_succ
    have each (floor : Nat) (lexemes : List Lexeme) := ih further floor lexemes
    cases lexemes with
    | nil => exact mirrors_pure rfl
    | cons first rest =>
      rw [read_cons, read_cons]
      split
      · exact ofLexeme_repeats (each 0) first
      · split
        · exact ofUnsplit_repeats (each 0) (each floor rest)
        · exact ofSplit_repeats (each 0 _) (each _ _)

end Expression

namespace Placement

variable (limits : Reaches lenient limit limit') (token : Token)
include limits

theorem condition_repeats (rooms : Reaches lenient room room') (tag : Opening) :
    Repeats lenient (condition limit room token tag) (condition limit' room' token tag) := by
  unfold condition
  split
  · exact mirrors_refl _
  · exact Expression.read_repeats limits rooms 0 _

theorem loop_repeats (rooms : Reaches lenient room room') (tag : Opening) :
    Repeats lenient (loop limit room token tag) (loop limit' room' token tag) := by
  unfold loop
  split
  · exact (Expression.read_repeats limits rooms 0 _).bind_eq fun _ => mirrors_pure rfl
  · exact mirrors_refl _

theorem ofOpening_repeats (height : Nat) (tag : Opening) :
    Repeats lenient (ofOpening limit height token tag) (ofOpening limit' height token tag) := by
  have rooms := limits.sub (height + 1)
  have condition := condition_repeats limits token rooms tag
  unfold ofOpening
  refine guarded_repeats limits height token.span ?_
  dsimp only
  cases token.keyword
  case cond | «while» | «unless» | «include» | «extends» =>
    exact condition.bind_eq fun _ => mirrors_pure rfl
  case «for» | each =>
    exact (loop_repeats limits token rooms tag).bind_eq fun _ => mirrors_pure rfl
  all_goals exact mirrors_refl _

theorem output_repeats (rooms : Reaches lenient room room') (expression : List Lexeme)
    (filters : List FilterLexeme) :
    Repeats lenient (output limit room token expression filters)
      (output limit' room' token expression filters) := by
  have uses : Repeats lenient (filters.mapM (filterUse limit room))
      (filters.mapM (filterUse limit' room')) :=
    mirrors_mapM filters fun filter _ =>
      (Expression.ofArguments_repeats (Expression.read_repeats limits rooms 0) _).bind_eq fun _ =>
        mirrors_pure rfl
  have last (value : Option Expression) : Repeats lenient
      (do return Node.output token.span token.text value (← filters.mapM (filterUse limit room)))
      (do return Node.output token.span token.text value (← filters.mapM (filterUse limit' room'))) :=
    uses.bind_eq fun _ => mirrors_pure rfl
  unfold output
  dsimp only
  split
  · refine (mirrors_refl _).bind_eq fun _ => ?_
    exact (mirrors_pure rfl).bind_eq last
  · refine Mirrors.bind_eq ?_ last
    exact (Expression.read_repeats limits rooms 0 _).map fun _ _ same => congrArg some same

theorem ofToken_repeats (height : Nat) :
    Repeats lenient (ofToken limit height token) (ofToken limit' height token) := by
  unfold ofToken
  split
  · exact mirrors_refl _
  · exact mirrors_refl _
  · exact (output_repeats limits token (limits.sub height) _ _).bind_eq fun _ => mirrors_pure rfl
  · split
    · exact mirrors_refl _
    · exact ofOpening_repeats limits token height _
  all_goals exact mirrors_refl _

end Placement

/-! ### Stacks -/

theorem Shape.Alike.refl (full : l.Full) (shape : Shape) : Shape.Alike l shape shape := by
  have used (expression : Expression) := Expression.uses_of_full full expression
  cases shape with
  | first condition => exact .first (used condition)
  | later condition body clauses span clause =>
    exact .later span (used condition) (used clause) (.refl full body) (.refl full clauses)
  | otherwise condition body clauses =>
    exact .otherwise (used condition) (.refl full body) (.refl full clauses)
  | loop binding iterable => exact .loop binding (used iterable)
  | repetition condition => exact .repetition (used condition)
  | exception condition => exact .exception (used condition)
  | block name => exact .block name
  | extension parent blocks => exact .extension full.templates (used parent) (.refl full blocks)

theorem Placement.Alike.refl (full : l.Full) (placement : Placement) :
    Placement.Alike l placement placement := by
  cases placement with
  | node node => exact .node (.refl full node)
  | opened frame => exact .opened ⟨rfl, rfl, .refl full frame.shape, .refl full frame.nodes⟩
  | nothing => exact .nothing

namespace Stack

variable {stack other : Stack} {finished finished' : Option Node}

theorem Alike.addAll (alike : Alike l stack other)
    (ended : Option.Rel (Node.Alike l) finished finished') :
    Alike l (stack.addAll finished) (other.addAll finished') := by
  cases ended with
  | none => exact alike
  | some same => exact alike.add same

theorem top_alike {frame frame' : Frame} (alike : Frame.Alike l frame frame')
    (ended : Option.Rel (Node.Alike l) finished finished') :
    Frame.Alike l (finished.elim frame frame.add) (finished'.elim frame' frame'.add) := by
  cases ended with
  | none => exact alike
  | some same => exact alike.add same

theorem reportUnclosed_repeats {top top' : Frame} (alike : Frame.Alike l top top') :
    Repeats lenient (reportUnclosed top) (reportUnclosed top') := by
  rw [reportUnclosed, reportUnclosed, alike.word, alike.span]
  exact mirrors_refl _

theorem any_closing {frames frames' : List Frame} (alike : List.Forall₂ (Frame.Alike l) frames frames')
    {word : String} : frames.any (·.closing == word) = frames'.any (·.closing == word) := by
  induction alike with
  | nil => rfl
  | cons here _ ih => rw [List.any_cons, List.any_cons, here.closing, ih]

theorem unwind_mirrors {frames frames' : List Frame} {root root' : List Node}
    (opened : List.Forall₂ (Frame.Alike l) frames frames')
    (inside : Node.AllAlike l root.reverse root'.reverse)
    (ended : Option.Rel (Node.Alike l) finished finished') :
    Mirrors lenient Eq (Node.AllAlike l) (unwind finished frames root)
      (unwind finished' frames' root') := by
  induction opened generalizing finished finished' with
  | nil =>
    have bottom : Alike l ⟨[], root⟩ ⟨[], root'⟩ := ⟨.nil, inside⟩
    exact mirrors_pure (bottom.addAll ended).root
  | cons here _ ih =>
    have top := top_alike here ended
    rw [unwind, unwind]
    dsimp only
    rw [top.isExtension]
    split
    · exact ih (.some top.finish)
    · exact (reportUnclosed_repeats top).bind_eq fun _ => ih (.some top.finish)

theorem runOut_mirrors (stop : Option Nat) {frames frames' : List Frame} {root root' : List Node}
    (opened : List.Forall₂ (Frame.Alike l) frames frames')
    (inside : Node.AllAlike l root.reverse root'.reverse)
    (ended : Option.Rel (Node.Alike l) finished finished') :
    Mirrors lenient Eq (Node.AllAlike l) (runOut stop finished frames root)
      (runOut stop finished' frames' root') := by
  induction opened generalizing finished finished' with
  | nil =>
    have bottom : Alike l ⟨[], root⟩ ⟨[], root'⟩ := ⟨.nil, inside⟩
    exact mirrors_pure (bottom.addAll ended).root
  | cons here _ ih =>
    have top := top_alike here ended
    rw [runOut, runOut, top.isExtension]
    split
    · exact ih (.some top.finish)
    · exact mirrors_throw _

section Tokens

variable (full : l.Full) (limits : Reaches lenient limit limit')
include full

/-- What the same reading places on stacks that are alike. -/
theorem put_mirrors {first second : TreeReading Placement} (alike : Alike l stack other)
    (repeats : Repeats lenient first second) :
    Mirrors lenient Eq (Alike l) (do return stack.put (← first))
      (do return other.put (← second)) :=
  repeats.bind_eq fun placement => mirrors_pure (alike.put (.refl full placement))

include limits

theorem divide_mirrors {top top' : Frame} {outer outer' : List Frame} {root root' : List Node}
    (alike : Alike l ⟨top :: outer, root⟩ ⟨top' :: outer', root'⟩) (token : Token) (tag : Opening) :
    Mirrors lenient Eq (Alike l) (divide limit top outer root token tag)
      (divide limit' top' outer' root' token tag) := by
  obtain ⟨_ | ⟨head, tail⟩, inside⟩ := alike
  have same : Alike l ⟨top :: outer, root⟩ ⟨top' :: outer', root'⟩ := ⟨.cons head tail, inside⟩
  unfold divide
  dsimp only
  rw [head.takesClauses, head.isConditional, same.height]
  split
  · split
    · exact mirrors_pure ⟨.cons head.addOtherwise tail, inside⟩
    · refine (Placement.condition_repeats limits token (limits.sub _) tag).bind_eq fun clause => ?_
      exact mirrors_pure
        ⟨.cons (head.addClause (Expression.uses_of_full full clause)) tail, inside⟩
  · exact put_mirrors full same (mirrors_refl _)

theorem feed_mirrors (token : Token) {frames frames' : List Frame} {root root' : List Node}
    (opened : List.Forall₂ (Frame.Alike l) frames frames')
    (inside : Node.AllAlike l root.reverse root'.reverse)
    (ended : Option.Rel (Node.Alike l) finished finished') :
    Mirrors lenient Eq (Alike l) (feed limit token finished frames root)
      (feed limit' token finished' frames' root') := by
  -- Blocks that end on the way out are finished on both sides, and what they become is alike.
  induction opened generalizing finished finished' with
  | nil =>
    have bottom : Alike l ⟨[], root⟩ ⟨[], root'⟩ := ⟨.nil, inside⟩
    exact put_mirrors full (bottom.addAll ended) (Placement.ofToken_repeats limits token 0)
  | cons here outer ih =>
    rename_i frame frame' rest rest'
    have top := top_alike here ended
    have same : Alike l ⟨finished.elim frame frame.add :: rest, root⟩
        ⟨finished'.elim frame' frame'.add :: rest', root'⟩ := ⟨.cons top outer, inside⟩
    have below : Alike l ⟨rest, root⟩ ⟨rest', root'⟩ := ⟨outer, inside⟩
    rw [feed, feed, top.isExtension, same.height]
    split
    · split
      · exact mirrors_pure same
      · exact put_mirrors full same (Placement.ofOpening_repeats limits token _ _)
      · exact ih (.some top.finish)
    · split
      · rw [top.closing, any_closing outer]
        split
        · exact mirrors_pure (below.add top.finish)
        · split
          · exact (reportUnclosed_repeats top).bind_eq fun _ => ih (.some top.finish)
          · exact put_mirrors full same (mirrors_refl _)
      · split
        · exact divide_mirrors full limits same token _
        · exact put_mirrors full same (Placement.ofOpening_repeats limits token _ _)
      · exact put_mirrors full same (Placement.ofToken_repeats limits token _)

/-- The nodes of a template, built with the same tokens. -/
theorem build_mirrors (stop : Option Nat) (alike : Alike l stack other) (tokens : List Token) :
    Mirrors lenient Eq (Node.AllAlike l) (build limit stop stack tokens)
      (build limit' stop other tokens) := by
  induction tokens generalizing stack other with
  | nil => exact runOut_mirrors stop alike.frames alike.root .none
  | cons token rest ih =>
    rw [build, build]
    split
    · exact unwind_mirrors alike.frames alike.root .none
    · exact (feed_mirrors full limits token alike.frames alike.root .none).bind fun _ _ => ih

end Tokens

end Stack

/-! ### Trees -/

structure Tree.Alike (l : Likeness) (tree other : Tree) : Prop where
  nodes : Node.AllAlike l tree.nodes other.nodes
  names : tree.names = other.names
  functions : tree.functions = other.functions
  blocks : tree.blocks = other.blocks

theorem Tree.Alike.eq (whole : ¬ l.cuts) {tree other : Tree} (alike : Alike l tree other) :
    tree = other := by
  obtain ⟨nodes, names, functions, blocks⟩ := tree
  obtain ⟨nodes', names', functions', blocks'⟩ := other
  obtain ⟨same, rfl, rfl, rfl⟩ := alike
  obtain rfl := same.eq whole
  rfl

/-- What becomes of tokens is alike where their building is. -/
theorem Tree.ofTokens_alike {tokens tokens' : List Token}
    (built : MirrorsAt lenient Eq (Node.AllAlike l)
      (Stack.build limit (tokens.getLast?.map (·.span.stop)) ⟨[], []⟩ tokens)
      (Stack.build limit' (tokens'.getLast?.map (·.span.stop)) ⟨[], []⟩ tokens') start start) :
    (∃ tree tree' diagnostics, ofTokens limit tokens = (.ok tree, diagnostics) ∧
      ofTokens limit' tokens' = (.ok tree', diagnostics) ∧ Alike l tree tree') ∨
    (∃ cause diagnostics, ofTokens limit tokens = (.error cause, diagnostics) ∧
      ofTokens limit' tokens' = (.error cause, diagnostics)) ∨
    lenient ∧ ∃ cause diagnostics, ofTokens limit tokens = (.error cause, diagnostics) := by
  rcases built with ⟨nodes, g, nodes', _, here, there, alike, rfl⟩ |
    ⟨cause, g, _, here, there, rfl⟩ | ⟨mild, cause, g, here⟩
  · exact .inl ⟨_, _, _, ofTokens_of_returns here, ofTokens_of_returns there, alike, rfl, rfl, rfl⟩
  · exact .inr (.inl ⟨cause, _, ofTokens_of_fails here, ofTokens_of_fails there⟩)
  · exact .inr (.inr ⟨mild, cause, _, ofTokens_of_fails here⟩)

namespace Analysis

section Stages

variable {options : Options} {source : String} {tokens : List Token} {lexed found : List Diagnostic}
  (read : Token.read options.preserveWhitespace.truthy source.toList = .ok (tokens, lexed))
include read

theorem ofText_of_tree {tree : Tree}
    (built : Tree.ofTokens options.maxDepth tokens = (.ok tree, found)) :
    ofText options source = .ok ⟨source, tokens, tree,
      Diagnostic.merge [Markup.Check.diagnostics source.toList, lexed, found]⟩ := by
  rw [ofText, read]
  simp only [liftFault, bind, Except.bind, built]
  rfl

theorem ofText_of_cause {cause : Cause}
    (built : Tree.ofTokens options.maxDepth tokens = (.error cause, found)) :
    ofText options source = .error (.ofCause cause) := by
  rw [ofText, read]
  simp only [liftFault, bind, Except.bind, built]
  rfl

end Stages

structure Alike (l : Likeness) (analysis other : Analysis) : Prop where
  tree : Tree.Alike l analysis.tree other.tree
  diagnostics : analysis.diagnostics = other.diagnostics

theorem Alike.eq (whole : ¬ l.cuts) {analysis other : Analysis} (alike : Alike l analysis other)
    (source : analysis.source = other.source) (tokens : analysis.tokens = other.tokens) :
    analysis = other := by
  obtain ⟨_, _, tree, _⟩ := analysis
  obtain ⟨_, _, tree', _⟩ := other
  obtain ⟨same, rfl⟩ := alike
  obtain rfl := same.eq whole
  cases source
  cases tokens
  rfl

/-- Tokens with the same diagnostics, of which trees that are alike are built under two limits. -/
structure Built (lenient : Prop) (l : Likeness) (limit limit' : Nat)
    (read read' : List Token × List Diagnostic) : Prop where
  diagnostics : read.2 = read'.2
  nodes : MirrorsAt lenient Eq (Node.AllAlike l)
    (Stack.build limit (read.1.getLast?.map (·.span.stop)) ⟨[], []⟩ read.1)
    (Stack.build limit' (read'.1.getLast?.map (·.span.stop)) ⟨[], []⟩ read'.1) Tree.start Tree.start

theorem ofText_alike {options options' : Options} {source : String}
    (lexed : Accord False (Built lenient l options.maxDepth options'.maxDepth)
      (Token.read options.preserveWhitespace.truthy source.toList)
      (Token.read options'.preserveWhitespace.truthy source.toList)) :
    Accord lenient (Alike l) (ofText options source) (ofText options' source) := by
  rcases lexed with ⟨⟨tokens, lexed⟩, ⟨tokens', _⟩, read, read', rfl, built⟩ |
    ⟨fault, read, read'⟩ | ⟨impossible, -⟩
  · rcases Tree.ofTokens_alike built with ⟨tree, tree', found, here, there, alike⟩ |
      ⟨cause, found, here, there⟩ | ⟨mild, cause, found, here⟩
    · exact .inl ⟨_, _, ofText_of_tree read here, ofText_of_tree read' there, alike, rfl⟩
    · exact .inr (.inl ⟨_, ofText_of_cause read here, ofText_of_cause read' there⟩)
    · exact .inr (.inr ⟨mild, _, ofText_of_cause read here⟩)
  · simp only [ofText, read, read']
    exact .inr (.inl ⟨.fault fault, rfl, rfl⟩)
  · exact impossible.elim

/-- The same tokens make trees that are alike. -/
theorem ofText_repeats (full : l.Full) {options options' : Options}
    (same : options.preserveWhitespace.truthy = options'.preserveWhitespace.truthy)
    (limits : Reaches lenient options.maxDepth options'.maxDepth) (source : String) :
    Accord lenient (Alike l) (ofText options source) (ofText options' source) := by
  refine ofText_alike ?_
  rw [same]
  cases Token.read options'.preserveWhitespace.truthy source.toList with
  | error fault => exact .inr (.inl ⟨fault, rfl, rfl⟩)
  | ok read =>
    exact .inl ⟨read, read, rfl, rfl, rfl,
      Stack.build_mirrors full limits _ ⟨.nil, .nil⟩ read.1 _ _ rfl⟩

/-- An analysis comes from tokens that are read and a tree that is built of them. -/
theorem ofText_stages {options : Options} {source : String} {analysis : Analysis}
    (analysed : ofText options source = .ok analysis) :
    ∃ lexed found,
      Token.read options.preserveWhitespace.truthy source.toList = .ok (analysis.tokens, lexed) ∧
      Tree.ofTokens options.maxDepth analysis.tokens = (.ok analysis.tree, found) ∧
      analysis.source = source ∧ analysis.diagnostics =
        Diagnostic.merge [Markup.Check.diagnostics source.toList, lexed, found] := by
  cases read : Token.read options.preserveWhitespace.truthy source.toList with
  | error fault =>
    simp only [ofText, read] at analysed
    cases analysed
  | ok tokens =>
    rcases built : Tree.ofTokens options.maxDepth tokens.1 with ⟨result, found⟩
    cases result with
    | error cause =>
      rw [ofText_of_cause read built] at analysed
      cases analysed
    | ok tree =>
      rw [ofText_of_tree read built] at analysed
      cases analysed
      exact ⟨tokens.2, found, rfl, built, rfl, rfl⟩

end Analysis
end Stencil
