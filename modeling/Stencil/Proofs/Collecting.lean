import Stencil.Proofs.Noting
import Stencil.Proofs.Step

/-! Names collected while a tree is built. What the open blocks mention grows at its end only, in
step with what is noted, unless an extension replaces a block that it has collected by another one
of the same name. So the names that are collected are those of a visit of the tree, each once. -/
namespace Stencil
open TreeReading

variable {good : Mention → Prop} {fair : Prop} {limit : Nat}

/-! ### Parts -/

namespace Node

theorem allMentions_append (first second : List Node) :
    allMentions (first ++ second) = allMentions first ++ allMentions second := by
  induction first with
  | nil => rfl
  | cons node rest ih => rw [List.cons_append, allMentions, allMentions, ih, List.append_assoc]

theorem clauseMentions_append (first second : List Clause) :
    clauseMentions (first ++ second) = clauseMentions first ++ clauseMentions second := by
  induction first with
  | nil => rfl
  | cons clause rest ih =>
    rw [List.cons_append, clauseMentions, clauseMentions, ih, List.append_assoc]

variable {named : Block} {blocks : List Block}

/-- A block of a new name comes after the others. -/
theorem allBlockMentions_setIn (fresh : ∀ other ∈ blocks, other.name ≠ named.name) :
    allBlockMentions (named.setIn blocks) = allBlockMentions blocks ++ blockMentions named := by
  induction blocks with
  | nil => simp [Block.setIn, allBlockMentions]
  | cons other rest ih =>
    obtain ⟨differs, fresh⟩ := List.forall_mem_cons.mp fresh
    have unlike : ¬(other.name == named.name) = true := fun same => differs (eq_of_beq same)
    rw [Block.setIn, if_neg unlike, allBlockMentions, allBlockMentions, ih fresh, List.append_assoc]

theorem allBlockMentions_setIn_subset (named : Block) (blocks : List Block) :
    allBlockMentions (named.setIn blocks) ⊆ allBlockMentions blocks ++ blockMentions named := by
  induction blocks with
  | nil => simp [Block.setIn, allBlockMentions]
  | cons other rest ih =>
    rw [Block.setIn]
    split
    · intro mention member
      simp only [allBlockMentions, List.mem_append] at member ⊢
      tauto
    · intro mention member
      simp only [allBlockMentions, List.mem_append] at member ⊢
      rcases member with here | later
      · exact .inl (.inl here)
      · rcases List.mem_append.mp (ih later) with old | new
        · exact .inl (.inr old)
        · exact .inr new

end Node
open Node

/-! ### Open blocks -/

namespace Frame

/-- What an open block mentions is what its node would mention if it ended here. -/
def mentions (frame : Frame) : List Mention := frame.finish.mentions

/-- In an extension stands a block of a name that the extension has not collected. -/
def Fresh (inner outer : Frame) : Prop :=
  ∀ parent blocks, outer.shape = .extension parent blocks →
    ∃ name, inner.shape = .block name ∧ ∀ other ∈ blocks, other.name ≠ name

variable {frame inner outer : Frame}

theorem mentions_add (settled : frame.isExtension = false) (node : Node) :
    (frame.add node).mentions = frame.mentions ++ node.mentions := by
  rw [add_of_settled settled]
  obtain ⟨word, span, shape, body⟩ := frame
  cases shape with
  | extension parent blocks => contradiction
  | _ =>
    simp [mentions, extend, finish, nodes, Node.mentions, blockMentions, allMentions_append,
      clauseMentions_append, allMentions, clauseMentions, clauseMention]

theorem mentions_add_subset (frame : Frame) (node : Node) :
    (frame.add node).mentions ⊆ frame.mentions ++ node.mentions := by
  cases extension : frame.isExtension with
  | false => rw [mentions_add extension]; exact List.Subset.refl _
  | true =>
    obtain ⟨word, span, shape, body⟩ := frame
    cases shape with
    | extension parent blocks =>
      cases node with
      | block named =>
        simp only [mentions, add, finish, Node.mentions]
        rw [List.append_assoc]
        exact List.append_subset.mpr ⟨List.subset_append_left _ _,
          List.Subset.trans (allBlockMentions_setIn_subset named blocks)
            (List.subset_append_right _ _)⟩
      | _ => exact List.subset_append_left _ _
    | _ => contradiction

/-- The node of a block that may stand here adds what it mentions. -/
theorem mentions_add_finish (fresh : inner.Fresh outer) :
    (outer.add inner.finish).mentions = outer.mentions ++ inner.mentions := by
  cases extension : outer.isExtension with
  | false => exact mentions_add extension _
  | true =>
    obtain ⟨word, span, shape, body⟩ := outer
    cases shape with
    | extension parent blocks =>
      obtain ⟨name, shape, fresh⟩ := fresh parent blocks rfl
      simp only [mentions, finish, shape, add, Node.mentions]
      rw [allBlockMentions_setIn fresh, List.append_assoc]
    | _ => contradiction

theorem mentions_addOtherwise (takes : frame.takesClauses = true) :
    frame.addOtherwise.mentions = frame.mentions := by
  obtain ⟨word, span, shape, body⟩ := frame
  cases shape with
  | first condition =>
    simp [mentions, addOtherwise, finish, nodes, Node.mentions, clauseMentions, allMentions]
  | later condition before clauses current clause =>
    simp [mentions, addOtherwise, finish, nodes, Node.mentions, allMentions]
  | _ => contradiction

theorem mentions_addClause (takes : frame.takesClauses = true) (span : Span)
    (condition : Expression) :
    (frame.addClause span condition).mentions = frame.mentions ++ condition.mentions := by
  obtain ⟨word, start, shape, body⟩ := frame
  cases shape with
  | first condition =>
    simp [mentions, addClause, finish, nodes, Node.mentions, clauseMentions, clauseMention,
      allMentions]
  | later condition before clauses current clause =>
    simp [mentions, addClause, finish, nodes, Node.mentions, clauseMentions, clauseMention,
      clauseMentions_append, allMentions]
  | _ => contradiction

theorem fresh_of_settled (settled : outer.isExtension = false) : inner.Fresh outer := by
  intro parent blocks shape
  rw [isExtension, shape] at settled
  contradiction

/-- A divided block is conditional, so it stands in no extension. -/
theorem Fresh.settled (fresh : inner.Fresh outer) (takes : inner.takesClauses = true) :
    outer.isExtension = false := by
  cases extension : outer.isExtension with
  | false => rfl
  | true =>
    unfold isExtension at extension
    split at extension
    · rename_i parent blocks shape
      obtain ⟨name, block, -⟩ := fresh parent blocks shape
      rw [takesClauses, block] at takes
      contradiction
    · contradiction

/-- What a block collects does not matter for where it stands. -/
theorem Fresh.add (fresh : inner.Fresh outer) (node : Node) : (inner.add node).Fresh outer := by
  intro parent blocks extension
  obtain ⟨name, shape, others⟩ := fresh parent blocks extension
  refine ⟨name, ?_, others⟩
  obtain ⟨word, span, _, body⟩ := inner
  cases shape
  rfl

end Frame

namespace Stack

/-- What the template mentions so far. -/
def mentions (stack : Stack) : List Mention :=
  allMentions stack.root.reverse ++ stack.frames.reverse.flatMap (·.mentions)

/-- Extensions hold open blocks of new names only. -/
def Tidy (stack : Stack) : Prop := stack.frames.IsChain Frame.Fresh

/-- The blocks that the innermost open block has collected, if it is an extension. -/
def collected (stack : Stack) : List Block :=
  match stack.frames.head?.map (·.shape) with
  | some (Shape.extension _ blocks) => blocks
  | _ => []

/-- The tag of a block meets an extension that has collected a block of that name. -/
def namesake (stack : Stack) (token : Token) : Bool :=
  (blockTag? token).any fun tag =>
    stack.collected.any (·.name == Placement.blockName tag.condition)

/-- At one of the tokens the tag of a block meets its namesake. -/
def clashes (limit : Nat) (stack : Stack) (g : Gathered) : List Token → Bool
  | [] => false
  | token :: rest =>
    stack.namesake token ||
      match (feed limit token none stack.frames stack.root).run g with
      | (.ok next, after) => clashes limit next after rest
      | (.error _, _) => false

/-- The template mentions at most this more, and exactly this where it is tidy and `clear`. -/
structure Grows (clear : Prop) (stack : Stack) (more : List Mention) (next : Stack) : Prop where
  subset : next.mentions ⊆ stack.mentions ++ more
  tidy (before : stack.Tidy) (known : clear) : next.Tidy
  mentions (before : stack.Tidy) (known : clear) : next.mentions = stack.mentions ++ more

variable {clear : Prop} {stack next last : Stack} {top : Frame} {outer : List Frame}
  {root : List Node} {token : Token}

theorem mentions_cons : mentions ⟨top :: outer, root⟩ = mentions ⟨outer, root⟩ ++ top.mentions := by
  simp [mentions]

/-- What the innermost open block becomes does not matter for those around it. -/
theorem tidy_cons {other : Frame} (tidy : Tidy ⟨top :: outer, root⟩)
    (same : ∀ around, top.Fresh around → other.Fresh around) : Tidy ⟨other :: outer, root⟩ := by
  cases outer with
  | nil => exact .singleton _
  | cons around rest =>
    obtain ⟨fresh, later⟩ := List.isChain_cons_cons.mp tidy
    exact List.isChain_cons_cons.mpr ⟨same around fresh, later⟩

theorem Tidy.below (tidy : Tidy ⟨top :: outer, root⟩) : Tidy ⟨outer, root⟩ := List.IsChain.tail tidy

theorem Tidy.add (tidy : stack.Tidy) (node : Node) : (stack.add node).Tidy := by
  obtain ⟨_ | ⟨top, outer⟩, root⟩ := stack
  · exact .nil
  · exact tidy_cons tidy fun around fresh => fresh.add node

theorem tidy_push {frame : Frame} (tidy : stack.Tidy)
    (fresh : ∀ top ∈ stack.frames.head?, frame.Fresh top) : (stack.push frame).Tidy := by
  obtain ⟨_ | ⟨top, outer⟩, root⟩ := stack
  · exact .singleton _
  · exact List.isChain_cons_cons.mpr ⟨fresh top rfl, tidy⟩

theorem mentions_push (frame : Frame) :
    (stack.push frame).mentions = stack.mentions ++ frame.mentions := by
  simp [mentions, push]

theorem mentions_add (settled : stack.Settled) (node : Node) :
    (stack.add node).mentions = stack.mentions ++ node.mentions := by
  obtain ⟨_ | ⟨top, outer⟩, root⟩ := stack
  · simp [mentions, add, allMentions_append, allMentions]
  · change mentions ⟨top.add node :: outer, root⟩ = _
    rw [mentions_cons, mentions_cons, Frame.mentions_add (settled top rfl), List.append_assoc]

theorem mentions_add_subset (stack : Stack) (node : Node) :
    (stack.add node).mentions ⊆ stack.mentions ++ node.mentions := by
  obtain ⟨_ | ⟨top, outer⟩, root⟩ := stack
  · simp [mentions, add, allMentions_append, allMentions]
  · change mentions ⟨top.add node :: outer, root⟩ ⊆ _
    rw [mentions_cons, mentions_cons, List.append_assoc]
    exact List.append_subset.mpr ⟨List.subset_append_left _ _,
      List.Subset.trans (Frame.mentions_add_subset top node) (List.subset_append_right _ _)⟩

namespace Grows

theorem refl (stack : Stack) : Grows clear stack [] stack where
  subset := by simp
  tidy before _ := before
  mentions _ _ := (List.append_nil _).symm

theorem trans {more further : List Mention} (first : Grows clear stack more next)
    (later : Grows clear next further last) : Grows clear stack (more ++ further) last where
  subset := by
    refine List.Subset.trans later.subset (List.append_subset.mpr ⟨?_, by simp⟩)
    exact List.Subset.trans first.subset (by simp)
  tidy before known := later.tidy (first.tidy before known) known
  mentions before known := by
    rw [later.mentions (first.tidy before known) known, first.mentions before known,
      List.append_assoc]

theorem weaken {wider : Prop} {more : List Mention} (grows : Grows clear stack more next)
    (always : wider → clear) : Grows wider stack more next where
  subset := grows.subset
  tidy before known := grows.tidy before (always known)
  mentions before known := grows.mentions before (always known)

/-- A block that ends keeps its mentions in place. -/
theorem ended : Grows clear ⟨top :: outer, root⟩ [] (Stack.add ⟨outer, root⟩ top.finish) where
  subset := by
    rw [List.append_nil, mentions_cons]
    exact mentions_add_subset ⟨outer, root⟩ top.finish
  tidy before _ := before.below.add _
  mentions before _ := by
    rw [List.append_nil]
    cases outer with
    | nil => simp [Stack.mentions, Stack.add, allMentions_append, allMentions, Frame.mentions]
    | cons around rest =>
      obtain ⟨fresh, -⟩ := List.isChain_cons_cons.mp before
      change Stack.mentions ⟨around.add top.finish :: rest, root⟩ = _
      rw [mentions_cons, mentions_cons, mentions_cons, Frame.mentions_add_finish fresh,
        List.append_assoc]

/-- Outside of extensions whatever becomes of a token is mentioned next. -/
theorem put (settled : stack.Settled) (placement : Placement) :
    Grows clear stack placement.mentions (stack.put placement) := by
  have fresh (frame : Frame) : ∀ top ∈ stack.frames.head?, frame.Fresh top :=
    fun top member => Frame.fresh_of_settled (settled top member)
  cases placement with
  | node node =>
    have same := Stack.mentions_add settled node
    exact ⟨same ▸ List.Subset.refl _, fun before _ => before.add node, fun _ _ => same⟩
  | opened frame =>
    have same : (stack.push frame).mentions = stack.mentions ++ _ := mentions_push frame
    exact ⟨same ▸ List.Subset.refl _, fun before _ => tidy_push before (fresh frame),
      fun _ _ => same⟩
  | nothing => exact .refl stack

theorem opened {tag : Opening} (block : blockTag? token = some tag) :
    Grows (Stack.namesake ⟨top :: outer, root⟩ token = false) ⟨top :: outer, root⟩
      [.block (Placement.blockName tag.condition)]
      (Stack.push ⟨top :: outer, root⟩
        ⟨token.text, token.span, .block (Placement.blockName tag.condition), []⟩) := by
  have same : (Stack.push ⟨top :: outer, root⟩
      ⟨token.text, token.span, .block (Placement.blockName tag.condition), []⟩).mentions =
        Stack.mentions ⟨top :: outer, root⟩ ++ _ := mentions_push _
  refine ⟨same ▸ List.Subset.refl _, fun before known => tidy_push before ?_, fun _ _ => same⟩
  intro other member parent blocks shape
  cases member
  refine ⟨_, rfl, fun named inside alike => ?_⟩
  have collects : collected ⟨top :: outer, root⟩ = blocks := by simp [collected, shape]
  rw [namesake, block, Option.any_some, collects] at known
  exact absurd known (by simpa using ⟨named, inside, alike⟩)

end Grows

/-! ### Steps -/

/-- What the stack mentions grows by what is noted. -/
def Carries (good : Mention → Prop) (fair clear : Prop) (stack : Stack)
    (reading : TreeReading Stack) : Prop :=
  ∀ g next h, Returns reading g next h → ∃ mentions, g.Notes good fair mentions h ∧
    Grows clear stack mentions next

section Steps

variable {reading : TreeReading Stack}

theorem carries_pure (grows : Grows clear stack [] next) :
    Carries good fair clear stack (pure next) := by
  intro g other h run
  obtain ⟨rfl, rfl⟩ := returns_pure.mp run
  exact ⟨[], .refl _, grows⟩

theorem carries_put (settled : stack.Settled) {placing : TreeReading Placement}
    (noting : Noting good fair [] Placement.mentions placing) :
    Carries good fair clear stack (do return stack.put (← placing)) := by
  intro g next h run
  obtain ⟨placement, i, placed, last⟩ := returns_bind.mp run
  obtain ⟨rfl, rfl⟩ := returns_pure.mp last
  obtain ⟨_, rfl, notes⟩ := noting g placement _ placed
  exact ⟨placement.mentions, notes, .put settled placement⟩

theorem Carries.after (grows : Grows clear stack [] next) {inner : Prop} (always : clear → inner)
    (later : Carries good fair inner next reading) : Carries good fair clear stack reading := by
  intro g last h run
  obtain ⟨mentions, notes, further⟩ := later g last h run
  exact ⟨mentions, notes, grows.trans (further.weaken always)⟩

theorem Carries.behind_report (later : Carries good fair clear stack reading)
    (kind : DiagnosticKind) (message : String) (span : Span) :
    Carries good fair clear stack (report kind message span >>= fun _ => reading) := by
  intro g last h run
  obtain ⟨_, i, reported, rest⟩ := returns_bind.mp run
  obtain rfl := returns_report.mp reported
  obtain ⟨mentions, notes, grows⟩ := later _ last h rest
  exact ⟨mentions, (Gathered.Notes.reported g kind message span).trans notes, grows⟩

theorem opening_of_blockTag {tag : Opening} (block : blockTag? token = some tag) :
    token.keyword = .block ∧ ∃ source, token.content = .opening tag source := by
  unfold blockTag? at block
  split at block
  · rename_i opened source content
    split at block
    · rename_i word
      cases block
      exact ⟨eq_of_beq word, source, content⟩
    · cases block
  · cases block

theorem opening_noting {height : Nat} {tag : Opening} {source : String}
    (content : token.content = .opening tag source) :
    Noting good (token.Fair good limit) [] Placement.mentions
      (Placement.ofOpening limit height token tag) := by
  refine Placement.ofOpening_noting.weaken fun known => ?_
  rwa [Token.Fair, content] at known

/-- The tag of a block without a namesake carries its name, also inside an extension. -/
theorem blockTag_carries {tag : Opening} (block : blockTag? token = some tag) (height : Nat) :
    Carries good (token.Fair good limit) (Stack.namesake ⟨top :: outer, root⟩ token = false)
      ⟨top :: outer, root⟩ (do
        return Stack.put ⟨top :: outer, root⟩ (← Placement.ofOpening limit height token tag)) := by
  intro g next h run
  obtain ⟨word, source, content⟩ := opening_of_blockTag block
  obtain ⟨placement, i, placed, last⟩ := returns_bind.mp run
  obtain ⟨rfl, rfl⟩ := returns_pure.mp last
  obtain ⟨_, same, notes⟩ := opening_noting content g placement _ placed
  obtain rfl := Placement.opened_of_blockTag word placed
  rw [List.nil_append] at same
  subst same
  exact ⟨_, notes, .opened block⟩

theorem condition_noting {room : Nat} (le : room ≤ limit) {tag : Opening} {source : String}
    (content : token.content = .opening tag source) :
    Noting good (token.Fair good limit) [] Expression.mentions
      (Placement.condition limit room token tag) := by
  refine (Placement.condition_noting le).weaken fun known => ?_
  rw [Token.Fair, content] at known
  exact known.1

theorem divide_carries (settled : top.isExtension = false) {tag : Opening} {source : String}
    (content : token.content = .opening tag source) :
    Carries good (token.Fair good limit) clear ⟨top :: outer, root⟩
      (divide limit top outer root token tag) := by
  have stays (takes : top.takesClauses = true) (other : Frame) (around : Frame)
      (fresh : top.Fresh around) : other.Fresh around :=
    Frame.fresh_of_settled (fresh.settled takes)
  unfold divide
  dsimp only
  split
  · rename_i takes
    split
    · have same : Stack.mentions ⟨top.addOtherwise :: outer, root⟩ =
          Stack.mentions ⟨top :: outer, root⟩ ++ [] := by
        rw [mentions_cons, mentions_cons, Frame.mentions_addOtherwise takes, List.append_nil]
      exact carries_pure ⟨same ▸ List.Subset.refl _,
        fun before _ => tidy_cons before (stays takes _), fun _ _ => same⟩
    · intro g next h run
      obtain ⟨condition, i, read, last⟩ := returns_bind.mp run
      obtain ⟨rfl, rfl⟩ := returns_pure.mp last
      obtain ⟨_, rfl, notes⟩ := condition_noting (Nat.sub_le _ _) content g condition _ read
      have same : Stack.mentions ⟨top.addClause token.span condition :: outer, root⟩ =
          Stack.mentions ⟨top :: outer, root⟩ ++ condition.mentions := by
        rw [mentions_cons, mentions_cons, Frame.mentions_addClause takes, List.append_assoc]
      exact ⟨condition.mentions, notes, same ▸ List.Subset.refl _,
        fun before _ => tidy_cons before (stays takes _), fun _ _ => same⟩
  · exact carries_put (settled_cons settled)
      (noting_bind (noting_report _ _ _) fun _ => noting_pure rfl)

theorem namesake_of_none (other : blockTag? token = none) (stack : Stack) :
    stack.namesake token = false := by
  rw [namesake, other, Option.any_none]

/-- At a token the template mentions more by what is noted. -/
theorem feed_carries (finished : Option Node) (frames : List Frame) (root : List Node) :
    Carries good (token.Fair good limit)
      ((Stack.addAll ⟨frames, root⟩ finished).namesake token = false)
      (Stack.addAll ⟨frames, root⟩ finished) (feed limit token finished frames root) := by
  -- Extensions end, and blocks are abandoned, from the innermost block on.
  induction frames generalizing finished root with
  | nil =>
    rw [feed]
    refine carries_put ?_ Placement.ofToken_noting
    cases finished <;> exact fun top member => by cases member
  | cons frame outer ih =>
    rw [addAll_cons, feed]
    generalize finished.elim frame frame.add = top
    have further (other : blockTag? token = none) :
        Carries good (token.Fair good limit) (Stack.namesake ⟨top :: outer, root⟩ token = false)
          ⟨top :: outer, root⟩ (feed limit token (some top.finish) outer root) :=
      (ih (some top.finish) root).after .ended fun _ => namesake_of_none other _
    split
    · split
      · exact carries_pure (.refl _)
      · rename_i tag _ block
        exact blockTag_carries block _
      · rename_i other
        exact further other
    · rename_i plain
      have settled : top.isExtension = false := Bool.eq_false_iff.mpr plain
      split
      · rename_i source content
        have other : blockTag? token = none := by rw [blockTag?, content]
        split
        · exact carries_pure .ended
        · split
          · exact (further other).behind_report _ _ _
          · exact carries_put (settled_cons settled)
              (noting_bind (noting_report _ _ _) fun _ => noting_pure rfl)
      · rename_i tag source content
        split
        · exact divide_carries settled content
        · exact carries_put (settled_cons settled) (opening_noting content)
      · exact carries_put (settled_cons settled) Placement.ofToken_noting

end Steps

/-! ### Runs -/

section Runs

variable {g h : Gathered} {nodes : List Node}

/-- The blocks that are open at the end of the template end with it. -/
theorem unwind_grows {finished : Option Node} {frames : List Frame} {root : List Node}
    (run : Returns (unwind finished frames root) g nodes h) :
    g.Notes good fair [] h ∧
      Grows clear (Stack.addAll ⟨frames, root⟩ finished) [] ⟨[], nodes.reverse⟩ := by
  induction frames generalizing finished root g with
  | nil =>
    obtain ⟨rfl, rfl⟩ := returns_pure.mp run
    refine ⟨.refl _, ?_⟩
    rw [List.reverse_reverse]
    cases finished <;> exact .refl _
  | cons frame outer ih =>
    rw [addAll_cons]
    rw [unwind] at run
    generalize finished.elim frame frame.add = top at run
    dsimp only at run
    split at run
    · obtain ⟨notes, grows⟩ := ih run
      exact ⟨notes, Grows.ended.trans grows⟩
    · obtain ⟨_, i, reported, rest⟩ := returns_bind.mp run
      obtain rfl := returns_report.mp reported
      obtain ⟨notes, grows⟩ := ih rest
      exact ⟨(Gathered.Notes.reported g _ _ _).trans notes, Grows.ended.trans grows⟩

theorem runOut_grows {stop : Option Nat} {finished : Option Node} {frames : List Frame}
    {root : List Node} (run : Returns (runOut stop finished frames root) g nodes h) :
    g.Notes good fair [] h ∧
      Grows clear (Stack.addAll ⟨frames, root⟩ finished) [] ⟨[], nodes.reverse⟩ := by
  induction frames generalizing finished root with
  | nil =>
    obtain ⟨rfl, rfl⟩ := returns_pure.mp run
    refine ⟨.refl _, ?_⟩
    rw [List.reverse_reverse]
    cases finished <;> exact .refl _
  | cons frame outer ih =>
    rw [addAll_cons]
    rw [runOut] at run
    generalize finished.elim frame frame.add = top at run
    split at run
    · obtain ⟨notes, grows⟩ := ih run
      exact ⟨notes, Grows.ended.trans grows⟩
    · exact absurd run returns_throw

theorem clashes_of_feed {next : Stack} {rest : List Token}
    (clear : clashes limit stack g (token :: rest) = false)
    (run : Returns (feed limit token none stack.frames stack.root) g next h) :
    stack.namesake token = false ∧ clashes limit next h rest = false := by
  have fed : (feed limit token none stack.frames stack.root).run g = (.ok next, h) := run
  rw [clashes, fed] at clear
  exact Bool.or_eq_false_iff.mp clear

/-- A whole building mentions what it notes on the way. -/
theorem build_grows {stop : Option Nat} {tokens : List Token}
    (run : Returns (build limit stop stack tokens) g nodes h) :
    ∃ mentions, g.Notes good (∀ token ∈ tokens, token.Fair good limit) mentions h ∧
      Grows (clashes limit stack g tokens = false) stack mentions ⟨[], nodes.reverse⟩ := by
  induction tokens generalizing stack g with
  | nil =>
    obtain ⟨notes, grows⟩ := runOut_grows run
    exact ⟨[], notes, grows⟩
  | cons token rest ih =>
    rw [build] at run
    split at run
    · obtain ⟨notes, grows⟩ := unwind_grows run
      exact ⟨[], notes, grows⟩
    · obtain ⟨next, i, here, there⟩ := returns_bind.mp run
      obtain ⟨first, notes, grows⟩ := feed_carries none stack.frames stack.root g next i here
      obtain ⟨further, more, later⟩ := ih there
      refine ⟨first ++ further, (notes.weaken fun known => ?_).trans (more.weaken fun known => ?_),
        (grows.weaken fun clear => ?_).trans (later.weaken fun clear => ?_)⟩
      · exact known token List.mem_cons_self
      · exact fun other member => known other (List.mem_cons_of_mem _ member)
      · exact (clashes_of_feed clear here).1
      · exact (clashes_of_feed clear here).2

end Runs

end Stack

/-! ### Names -/

theorem foldl_noted (names before : List String) :
    names.foldl noted before.reverse = List.eraseDupsBy.loop (· == ·) names before := by
  induction names generalizing before with
  | nil => rw [List.eraseDupsBy.loop, List.foldl_nil]
  | cons name rest ih =>
    have known : before.reverse.contains name = before.any (name == ·) := by
      rw [List.contains_eq_any_beq, List.any_reverse]
    rw [List.foldl_cons, noted, known, List.eraseDupsBy.loop]
    split
    · rename_i old
      rw [old]
      exact ih before
    · rename_i new
      have later := ih (name :: before)
      rw [List.reverse_cons] at later
      rw [Bool.eq_false_iff.mpr new]
      exact later

/-- Names that are noted one after the other are listed once, at their first occurrence. -/
theorem foldl_noted_nil (names : List String) : names.foldl noted [] = names.eraseDups :=
  foldl_noted names []

namespace Tree

/-- The nodes that mention a name, in the order of a visit of the tree. -/
def mentions (tree : Tree) : List Mention := allMentions tree.nodes

/-- The names of a tree are those of the nodes that a visit meets, each at its first occurrence,
unless a loop could not be read or an extension collects two blocks of one name. -/
theorem names_of_visit (limit : Nat) (tokens : List Token) {tree : Tree}
    {diagnostics : List Diagnostic} (parsed : ofTokens limit tokens = (.ok tree, diagnostics))
    (readable : ∀ d ∈ diagnostics, d.kind ≠ .invalidFor)
    (distinct : Stack.clashes limit ⟨[], []⟩ start tokens = false) :
    Tell tree.mentions (Outline.childEntries (Node.outlines tree.nodes)) ∧
      tree.names = (tree.mentions.filterMap Mention.name?).eraseDups ∧
      tree.functions = (tree.mentions.filterMap Mention.function?).eraseDups ∧
      tree.blocks = (tree.mentions.filterMap Mention.block?).eraseDups := by
  obtain ⟨nodes, names, functions, blocks⟩ := tree
  obtain ⟨g, run, rfl⟩ := returns_of_ofTokens parsed
  cases (ofTokens_of_returns run).symm.trans parsed
  have built : ∃ more, Gathered.Notes (fun _ => True) _ start more g ∧ _ := Stack.build_grows run
  obtain ⟨more, notes, grows⟩ := built
  have whole : allMentions nodes = more := by
    simpa [Stack.mentions, allMentions] using grows.mentions .nil distinct
  refine ⟨Node.tell_all _, ?_, ?_, ?_⟩
  · rw [mentions, whole, ← foldl_noted_nil]
    exact notes.names readable
  · rw [mentions, whole, ← foldl_noted_nil]
    exact notes.functions
  · rw [mentions, whole, ← foldl_noted_nil]
    exact notes.blocks

/-- An extension of two blocks, with a call and a name in them. -/
def siblings : String := "{%extends%}{%block a%}{{f(x)}}{%endblock%}{%block b%}{{x}}"

def siblingTokens : List Token :=
  [⟨"extends", ⟨0, 11, ⟨1, 1⟩⟩, .opening ⟨"", none, []⟩ "{%extends%}"⟩,
    ⟨"block", ⟨11, 22, ⟨1, 12⟩⟩,
      .opening ⟨"a", none, [.name ⟨19, 20, ⟨1, 20⟩⟩ "a"]⟩ "{%block a%}"⟩,
    ⟨"f(x)", ⟨22, 30, ⟨1, 23⟩⟩,
      .output [.call ⟨24, 28, ⟨1, 25⟩⟩ "f(x)" "f" [[.name ⟨26, 27, ⟨1, 27⟩⟩ "x"]]] []
        "{{f(x)}}"⟩,
    ⟨"endblock", ⟨30, 42, ⟨1, 31⟩⟩, .closing "{%endblock%}"⟩,
    ⟨"block", ⟨42, 53, ⟨1, 43⟩⟩,
      .opening ⟨"b", none, [.name ⟨50, 51, ⟨1, 51⟩⟩ "b"]⟩ "{%block b%}"⟩,
    ⟨"x", ⟨53, 58, ⟨1, 54⟩⟩, .output [.name ⟨55, 56, ⟨1, 56⟩⟩ "x"] [] "{{x}}"⟩,
    ⟨"", ⟨58, 58, ⟨1, 59⟩⟩, .done⟩]

set_option maxRecDepth 8000 in
theorem siblings_read : Token.read false siblings.toList = .ok (siblingTokens, []) := by
  cbv

theorem siblings_names_of_visit :
    Token.read false siblings.toList = .ok (siblingTokens, []) ∧
      ∃ tree built, ofTokens 4 siblingTokens = (.ok tree, built) ∧
        (∀ d ∈ built, d.kind ≠ .invalidFor) ∧
        Stack.clashes 4 ⟨[], []⟩ start siblingTokens = false ∧
        tree.names = (tree.mentions.filterMap Mention.name?).eraseDups ∧
        tree.functions = (tree.mentions.filterMap Mention.function?).eraseDups ∧
        tree.blocks = (tree.mentions.filterMap Mention.block?).eraseDups := by
  have whole : (ofTokens 4 siblingTokens).1.isOk = true := by decide +kernel
  have readable : ∀ d ∈ (ofTokens 4 siblingTokens).2, d.kind ≠ .invalidFor := by decide +kernel
  have distinct : Stack.clashes 4 ⟨[], []⟩ start siblingTokens = false := by decide +kernel
  obtain ⟨tree, parsed⟩ := exists_ok (ofTokens 4 siblingTokens).1 whole
  exact ⟨siblings_read, tree, _, Prod.ext parsed rfl, readable, distinct,
    (names_of_visit 4 siblingTokens (Prod.ext parsed rfl) readable distinct).2⟩

end Tree

end Stencil
