import Stencil.Proofs.Calm

/-! What one token does to the open blocks, as a relation with one constructor for each thing that
may happen, and runs over several tokens. Whatever a template's tokens are read to satisfies the
relation, so invariants of the stack are proved by cases on it. -/
namespace Stencil

/-- The end of a block. -/
def Token.isClosing (token : Token) : Bool :=
  match token.content with
  | .closing _ => true
  | _ => false

/-- A word that divides a conditional block. -/
def Token.isClause (token : Token) : Bool :=
  match token.content with
  | .opening .. => token.keyword.isClause
  | _ => false

/-- What was gathered, with one more diagnostic of the tree. -/
def Gathered.reported (g : Gathered) (kind : DiagnosticKind) (message : String) (span : Span) :
    Gathered :=
  { g with
    diagnostics := g.diagnostics ++ [.error .tree kind message span.start (some span.position)] }

@[simp] theorem TreeReading.returns_report {kind : DiagnosticKind} {message : String} {span : Span}
    {g g' : Gathered} {a : PUnit} :
    Returns (TreeReading.report kind message span) g a g' ↔
      g' = g.reported kind message span :=
  returns_modify

namespace Placement

/-- What an opening tag may start, by its word. -/
inductive Tagged (token : Token) : Placement → Prop
  | conditional (word : token.keyword = .cond) (condition : Expression) :
      Tagged token (.opened ⟨token.text, token.span, .first condition, []⟩)
  | loop (word : token.keyword = .for ∨ token.keyword = .each) (binding : LoopBinding)
      (iterable : Expression) :
      Tagged token (.opened ⟨token.text, token.span, .loop binding iterable, []⟩)
  | repetition (word : token.keyword = .while) (condition : Expression) :
      Tagged token (.opened ⟨token.text, token.span, .repetition condition, []⟩)
  | exception (word : token.keyword = .unless) (condition : Expression) :
      Tagged token (.opened ⟨token.text, token.span, .exception condition, []⟩)
  | block (word : token.keyword = .block) (name : String) :
      Tagged token (.opened ⟨token.text, token.span, .block name, []⟩)
  | inclusion (word : token.keyword = .include) (path : Expression) :
      Tagged token (.node (.inclusion token.span path))
  | extension (word : token.keyword = .extends) (parent : Expression) :
      Tagged token (.opened ⟨token.text, token.span, .extension parent [], []⟩)
  | unknown (plain : token.keyword.opensBlock = false) (other : token.keyword ≠ .include) :
      Tagged token .nothing

private theorem loop_returns {limit room : Nat} {token : Token} {tag : Opening} {shape : Shape}
    {g g' : Gathered} (run : Returns (loop limit room token tag) g shape g') :
    ∃ binding iterable, shape = .loop binding iterable := by
  unfold loop at run
  split at run
  · rename_i binding _
    obtain ⟨iterable, _, _, rest⟩ := returns_bind.mp run
    exact ⟨binding, iterable, (returns_pure.mp rest).1⟩
  · obtain ⟨_, _, _, rest⟩ := returns_bind.mp run
    exact ⟨_, _, (returns_pure.mp rest).1⟩

private theorem block_returns {token : Token} {tag : Opening} {shape : Shape} {g g' : Gathered}
    (run : Returns (block token tag) g shape g') : ∃ name, shape = .block name := by
  unfold block at run
  dsimp only at run
  split at run
  · obtain ⟨_, _, _, rest⟩ := returns_bind.mp run
    exact ⟨_, (returns_pure.mp rest).1⟩
  · obtain ⟨_, _, _, rest⟩ := returns_bind.mp run
    exact ⟨_, (returns_pure.mp rest).1⟩

theorem output_returns {limit room : Nat} {token : Token} {expression : List Lexeme}
    {filters : List FilterLexeme} {node : Node} {g g' : Gathered}
    (run : Returns (output limit room token expression filters) g node g') :
    ∃ value uses, node = .output token.span token.text value uses := by
  unfold output at run
  dsimp only at run
  split at run
  · obtain ⟨_, _, _, later⟩ := returns_bind.mp run
    obtain ⟨value, _, _, last⟩ := returns_bind.mp later
    obtain ⟨uses, _, _, made⟩ := returns_bind.mp last
    exact ⟨value, uses, (returns_pure.mp made).1⟩
  · obtain ⟨value, _, _, last⟩ := returns_bind.mp run
    obtain ⟨uses, _, _, made⟩ := returns_bind.mp last
    exact ⟨value, uses, (returns_pure.mp made).1⟩

theorem returns_within {α : Type} {next : PUnit → TreeReading α} {limit height : Nat}
    {span : Span} {a : α} {g g' : Gathered}
    (run : Returns (if limit ≤ height then TreeReading.tooDeep limit span >>= next else next ⟨⟩)
      g a g') : Returns (next ⟨⟩) g a g' := by
  split at run
  · obtain ⟨_, _, deep, _⟩ := returns_bind.mp run
    obtain ⟨_, _, _, thrown⟩ := returns_bind.mp deep
    exact absurd thrown returns_throw
  · exact run

/-- An opening tag starts what its word says. -/
theorem tagged_of_ofOpening {limit height : Nat} {token : Token} {tag : Opening}
    {placement : Placement} {g g' : Gathered}
    (run : Returns (ofOpening limit height token tag) g placement g') :
    Tagged token placement := by
  unfold ofOpening at run
  replace run := returns_within run
  cases word : token.keyword <;> simp only [word] at run <;>
    obtain ⟨read, t, here, rest⟩ := returns_bind.mp run <;>
    obtain ⟨rfl, rfl⟩ := returns_pure.mp rest
  case cond => exact .conditional word read
  case «for» =>
    obtain ⟨binding, iterable, rfl⟩ := loop_returns here
    exact .loop (.inl word) binding iterable
  case each =>
    obtain ⟨binding, iterable, rfl⟩ := loop_returns here
    exact .loop (.inr word) binding iterable
  case «while» => exact .repetition word read
  case «unless» => exact .exception word read
  case block =>
    obtain ⟨name, rfl⟩ := block_returns here
    exact .block word name
  case «include» => exact .inclusion word read
  case «extends» => exact .extension word read
  all_goals exact .unknown (by rw [word]; rfl) (by simp [word])

end Placement

namespace Stack

/-- The message about a block that has no end. -/
def unclosedMessage (frame : Frame) : String := s!"Unclosed '{frame.word}' block"

/-- The message about an end that has no block. -/
def unmatchedMessage (token : Token) : String :=
  s!"Unexpected '{token.text}' without matching block"

/-- The message about a clause in a wrong place. -/
def misplacedMessage (token : Token) (place : String) : String := s!"'{token.text}' {place}"

/-- Where a clause stands that divides nothing. -/
def misplacement (stack : Stack) : String :=
  match stack.frames with
  | [] => Placement.outsideConditional
  | top :: _ => if top.isConditional then "after 'else'" else Placement.outsideConditional

/-- What becomes of the open blocks and of what was gathered at one token. -/
inductive Step (limit : Nat) (token : Token) : Stack → Gathered → Stack → Gathered → Prop
  | placed {stack : Stack} {g g' : Gathered} {placement : Placement}
      (settled : ∀ top ∈ stack.frames.head?, top.isExtension = true → token.keyword = .block)
      (whole : token.isClosing = false) (undivided : token.isClause = false)
      (read : Returns (Placement.ofToken limit stack.height token) g placement g') :
      Step limit token stack g (stack.put placement) g'
  | filler {top : Frame} {outer : List Frame} {root : List Node} {g : Gathered}
      (extension : top.isExtension = true) (blank : isFiller token = true) :
      Step limit token ⟨top :: outer, root⟩ g ⟨top :: outer, root⟩ g
  | passed {top : Frame} {outer : List Frame} {root : List Node} {stack : Stack} {g g' : Gathered}
      (extension : top.isExtension = true) (other : isFiller token = false)
      (later : Step limit token (Stack.add ⟨outer, root⟩ top.finish) g stack g') :
      Step limit token ⟨top :: outer, root⟩ g stack g'
  | closed {top : Frame} {outer : List Frame} {root : List Node} {g : Gathered}
      (settled : top.isExtension = false) (ends : token.isClosing = true)
      (fits : top.closing = token.text) :
      Step limit token ⟨top :: outer, root⟩ g (Stack.add ⟨outer, root⟩ top.finish) g
  | abandoned {top : Frame} {outer : List Frame} {root : List Node} {stack : Stack}
      {g g' : Gathered} (settled : top.isExtension = false) (ends : token.isClosing = true)
      (other : top.closing ≠ token.text) (fits : ∃ frame ∈ outer, frame.closing = token.text)
      (later : Step limit token (Stack.add ⟨outer, root⟩ top.finish)
        (g.reported .unmatchedBlockStart (unclosedMessage top) top.span) stack g') :
      Step limit token ⟨top :: outer, root⟩ g stack g'
  | unmatched {stack : Stack} {g : Gathered}
      (settled : ∀ top ∈ stack.frames.head?, top.isExtension = false)
      (ends : token.isClosing = true) (other : ∀ frame ∈ stack.frames, frame.closing ≠ token.text) :
      Step limit token stack g stack
        (g.reported .unmatchedBlockEnd (unmatchedMessage token) token.span)
  | otherwise {top : Frame} {outer : List Frame} {root : List Node} {g : Gathered}
      (clause : token.isClause = true) (word : token.keyword = .otherwise)
      (takes : top.takesClauses = true) :
      Step limit token ⟨top :: outer, root⟩ g ⟨top.addOtherwise :: outer, root⟩ g
  | further {top : Frame} {outer : List Frame} {root : List Node} {g g' : Gathered} {tag : Opening}
      {source : String} {condition : Expression} (clause : token.isClause = true)
      (content : token.content = .opening tag source) (word : token.keyword = .elseif)
      (takes : top.takesClauses = true)
      (read : Returns (Placement.condition limit (limit - (outer.length + 1)) token tag) g
        condition g') :
      Step limit token ⟨top :: outer, root⟩ g ⟨top.addClause token.span condition :: outer, root⟩ g'
  | misplaced {stack : Stack} {g : Gathered}
      (settled : ∀ top ∈ stack.frames.head?, top.isExtension = false)
      (clause : token.isClause = true)
      (refused : ∀ top ∈ stack.frames.head?, top.takesClauses = false) :
      Step limit token stack g stack
        (g.reported .misplacedClause (misplacedMessage token stack.misplacement) token.span)

variable {limit : Nat} {token : Token} {g g' : Gathered}

/-- The innermost open block is no extension. -/
def Settled (stack : Stack) : Prop := ∀ top ∈ stack.frames.head?, top.isExtension = false

theorem settled_cons {top : Frame} {outer : List Frame} {root : List Node}
    (plain : top.isExtension = false) : Settled ⟨top :: outer, root⟩ := by
  intro other member
  cases member
  exact plain

/-- A finished node goes to the innermost of the blocks that are left. -/
theorem addAll_cons (finished : Option Node) (frame : Frame) (outer : List Frame)
    (root : List Node) :
    Stack.addAll ⟨frame :: outer, root⟩ finished =
      ⟨finished.elim frame frame.add :: outer, root⟩ := by
  cases finished <;> rfl

private theorem step_of_divide {top : Frame} {outer : List Frame} {root : List Node}
    {tag : Opening} {source : String} {stack : Stack} (settled : top.isExtension = false)
    (content : token.content = .opening tag source) (clause : token.keyword.isClause = true)
    (run : Returns (divide limit top outer root token tag) g stack g') :
    Step limit token ⟨top :: outer, root⟩ g stack g' := by
  have divides : token.isClause = true := by rw [Token.isClause, content]; exact clause
  unfold divide at run
  split at run
  · rename_i takes
    split at run
    · rename_i word
      obtain ⟨rfl, rfl⟩ := returns_pure.mp run
      exact .otherwise divides (eq_of_beq word) takes
    · rename_i word
      obtain ⟨condition, t, read, rest⟩ := returns_bind.mp run
      obtain ⟨rfl, rfl⟩ := returns_pure.mp rest
      have further : token.keyword = .elseif := by
        revert clause word
        cases token.keyword <;> simp [Markup.Keyword.isClause]
      exact .further divides content further takes read
  · rename_i refused
    obtain ⟨placement, t, misplace, rest⟩ := returns_bind.mp run
    obtain ⟨_, u, report, nothing⟩ := returns_bind.mp misplace
    obtain ⟨rfl, rfl⟩ := returns_pure.mp nothing
    obtain ⟨rfl, rfl⟩ := returns_pure.mp rest
    rw [TreeReading.returns_report] at report
    subst report
    refine .misplaced (settled_cons settled) divides ?_
    intro other member
    cases member
    simpa using refused

private theorem step_of_ofToken {stack stack' : Stack} (settled : stack.Settled)
    (whole : token.isClosing = false) (undivided : token.isClause = false)
    (run : Returns (do return stack.put (← Placement.ofToken limit stack.height token)) g stack' g') :
    Step limit token stack g stack' g' := by
  obtain ⟨placement, t, read, rest⟩ := returns_bind.mp run
  obtain ⟨rfl, rfl⟩ := returns_pure.mp rest
  refine .placed ?_ whole undivided read
  intro top member extension
  rw [settled top member] at extension
  contradiction

private theorem step_at_root (root : List Node) {stack : Stack}
    (run : Returns (do return Stack.put ⟨[], root⟩ (← Placement.ofToken limit 0 token)) g stack g') :
    Step limit token ⟨[], root⟩ g stack g' := by
  have settled : Settled ⟨[], root⟩ := by
    intro top member
    cases member
  cases ends : token.isClosing with
  | true =>
    obtain ⟨placement, t, read, rest⟩ := returns_bind.mp run
    obtain ⟨rfl, rfl⟩ := returns_pure.mp rest
    unfold Token.isClosing at ends
    split at ends
    case h_2 => contradiction
    case h_1 source content =>
      simp only [Placement.ofToken, content, Placement.unmatched, returns_bind,
        TreeReading.returns_report, returns_pure] at read
      obtain ⟨_, t, rfl, rfl, rfl⟩ := read
      refine .unmatched settled (by simp [Token.isClosing, content]) ?_
      intro frame member
      cases member
  | false =>
    cases clause : token.isClause with
    | false => exact step_of_ofToken settled ends clause run
    | true =>
      obtain ⟨placement, t, read, rest⟩ := returns_bind.mp run
      obtain ⟨rfl, rfl⟩ := returns_pure.mp rest
      have divides := clause
      unfold Token.isClause at divides
      split at divides
      case h_2 => contradiction
      case h_1 tag source content =>
        simp only [Placement.ofToken, content, divides, if_true, Placement.misplaced, returns_bind,
          TreeReading.returns_report, returns_pure] at read
        obtain ⟨_, t, rfl, rfl, rfl⟩ := read
        refine .misplaced settled clause ?_
        intro top member
        cases member

private theorem step_in_extension {top : Frame} {outer : List Frame} {root : List Node}
    {stack : Stack} (extension : top.isExtension = true)
    (inner : ∀ {finished : Option Node} {g g' : Gathered} {stack : Stack},
      Returns (feed limit token finished outer root) g stack g' →
        Step limit token (Stack.addAll ⟨outer, root⟩ finished) g stack g')
    (run : Returns (feed limit token none (top :: outer) root) g stack g') :
    Step limit token ⟨top :: outer, root⟩ g stack g' := by
  simp only [feed, Option.elim_none, extension, if_true] at run
  split at run
  · rename_i blank
    obtain ⟨rfl, rfl⟩ := returns_pure.mp run
    exact .filler extension blank
  · rename_i tag other block
    obtain ⟨placement, t, read, rest⟩ := returns_bind.mp run
    obtain ⟨rfl, rfl⟩ := returns_pure.mp rest
    unfold blockTag? at block
    split at block
    case h_2 => contradiction
    case h_1 opened source content =>
      split at block
      case isFalse => contradiction
      case isTrue word =>
        cases block
        have keyword : token.keyword = .block := eq_of_beq word
        refine .placed (fun _ _ _ => keyword) (by simp [Token.isClosing, content])
          (by simp [Token.isClause, content, keyword, Markup.Keyword.isClause]) ?_
        simpa [Placement.ofToken, content, keyword, Markup.Keyword.isClause] using read
  · rename_i other block
    exact .passed extension other (inner run)

/-- An end closes the innermost block, leaves it open to an outer one that it fits, or fits none. -/
private theorem step_of_closing {top : Frame} {outer : List Frame} {root : List Node}
    {stack : Stack} (settled : top.isExtension = false) (ends : token.isClosing = true)
    (inner : ∀ {finished : Option Node} {g g' : Gathered} {stack : Stack},
      Returns (feed limit token finished outer root) g stack g' →
        Step limit token (Stack.addAll ⟨outer, root⟩ finished) g stack g')
    (run : Returns (if token.text == top.closing then return (Stack.mk outer root).add top.finish
      else if outer.any (·.closing == token.text) then do
        reportUnclosed top
        feed limit token (some top.finish) outer root
      else return (Stack.mk (top :: outer) root).put (← Placement.unmatched token)) g stack g') :
    Step limit token ⟨top :: outer, root⟩ g stack g' := by
  split at run
  · rename_i fits
    obtain ⟨rfl, rfl⟩ := returns_pure.mp run
    exact .closed settled ends (eq_of_beq fits).symm
  · rename_i other
    have differs : top.closing ≠ token.text := fun same => other (by simp [same])
    split at run
    · rename_i fits
      obtain ⟨_, t, report, later⟩ := returns_bind.mp run
      rw [reportUnclosed, TreeReading.returns_report] at report
      subst report
      obtain ⟨frame, member, same⟩ := List.any_eq_true.mp fits
      exact .abandoned settled ends differs ⟨frame, member, eq_of_beq same⟩ (inner later)
    · rename_i unfit
      simp only [Placement.unmatched, returns_bind, TreeReading.returns_report,
        returns_pure] at run
      obtain ⟨_, _, ⟨_, _, rfl, rfl, rfl⟩, rfl, rfl⟩ := run
      refine .unmatched (settled_cons settled) ends ?_
      intro frame member same
      rcases List.mem_cons.mp member with rfl | inside
      · exact differs same
      · exact unfit (List.any_eq_true.mpr ⟨frame, inside, by simp [same]⟩)

private theorem step_in_block {top : Frame} {outer : List Frame} {root : List Node}
    {stack : Stack} (settled : top.isExtension = false)
    (inner : ∀ {finished : Option Node} {g g' : Gathered} {stack : Stack},
      Returns (feed limit token finished outer root) g stack g' →
        Step limit token (Stack.addAll ⟨outer, root⟩ finished) g stack g')
    (run : Returns (feed limit token none (top :: outer) root) g stack g') :
    Step limit token ⟨top :: outer, root⟩ g stack g' := by
  simp only [feed, Option.elim_none, settled, Bool.false_eq_true, if_false] at run
  split at run
  · rename_i source content
    exact step_of_closing settled (by simp [Token.isClosing, content]) inner run
  · rename_i tag source content
    split at run
    · rename_i clause
      exact step_of_divide settled content clause run
    · rename_i plain
      apply step_of_ofToken (settled_cons settled)
      · simp [Token.isClosing, content]
      · simp [Token.isClause, content, plain]
      · simpa only [Placement.ofToken, content, plain, Bool.false_eq_true, if_false] using run
  · rename_i noEnd noTag
    refine step_of_ofToken (settled_cons settled) ?_ ?_ run
    · unfold Token.isClosing
      split
      · rename_i source content
        exact absurd content (noEnd source)
      · rfl
    · unfold Token.isClause
      split
      · rename_i tag source content
        exact absurd content (noTag tag source)
      · rfl

/-- Whatever a token is read to in a stack is one of the steps. -/
theorem step_of_feed {finished : Option Node} {frames : List Frame} {root : List Node}
    {stack : Stack} (run : Returns (feed limit token finished frames root) g stack g') :
    Step limit token (Stack.addAll ⟨frames, root⟩ finished) g stack g' := by
  induction frames generalizing finished root g stack g' with
  | nil =>
    rw [feed] at run
    cases finished with
    | none => exact step_at_root root run
    | some node => exact step_at_root (node :: root) run
  | cons frame outer ih =>
    rw [addAll_cons]
    have within : Returns (feed limit token none (finished.elim frame frame.add :: outer) root)
        g stack g' := by
      cases finished with
      | none => exact run
      | some node => exact run
    cases extension : (finished.elim frame frame.add).isExtension with
    | true => exact step_in_extension extension (fun run => ih run) within
    | false => exact step_in_block extension (fun run => ih run) within

/-! ### Failures -/

private theorem divide_bounded (top : Frame) (outer : List Frame) (root : List Node)
    (tag : Opening) : Bounded (divide limit top outer root token tag) := by
  unfold divide
  split
  · split
    · exact quiet_pure _
    · exact quiet_bind (Placement.condition_calm limit _ token tag).bounded fun _ => quiet_pure _
  · exact quiet_bind (Placement.misplaced_bounded token _) fun _ => quiet_pure _

theorem feed_bounded (finished : Option Node) (frames : List Frame) (root : List Node) :
    Bounded (feed limit token finished frames root) := by
  induction frames generalizing finished root with
  | nil => exact quiet_bind (Placement.ofToken_bounded limit 0 token) fun _ => quiet_pure _
  | cons frame outer ih =>
    unfold feed
    dsimp only
    generalize finished.elim frame frame.add = top
    have opens (tag : Opening) :=
      (Placement.ofOpening_calm limit (Stack.mk (top :: outer) root).height token tag).bounded
    split
    · split
      · exact quiet_pure _
      · exact quiet_bind (opens _) fun _ => quiet_pure _
      · exact ih _ root
    · split
      · split
        · exact quiet_pure _
        · split
          · exact quiet_bind (TreeReading.report_bounded _ _ _) fun _ => ih _ root
          · exact quiet_bind (Placement.unmatched_bounded token) fun _ => quiet_pure _
      · split
        · exact divide_bounded top outer root _
        · exact quiet_bind (opens _) fun _ => quiet_pure _
      · exact quiet_bind (Placement.ofToken_bounded limit _ token) fun _ => quiet_pure _

private theorem unwind_bounded (finished : Option Node) (frames : List Frame) (root : List Node) :
    Bounded (unwind finished frames root) := by
  induction frames generalizing finished root with
  | nil => exact quiet_pure _
  | cons frame outer ih =>
    unfold unwind
    dsimp only
    split
    · exact ih _ root
    · exact quiet_bind (TreeReading.report_bounded _ _ _) fun _ => ih _ root

/-- The building of tokens that are complete fails for depth only. -/
theorem build_bounded (stop : Option Nat) (stack : Stack) (tokens : List Token) {last : Token}
    (done : last.isDone = true) : Bounded (build limit stop stack (tokens ++ [last])) := by
  induction tokens generalizing stack with
  | nil =>
    simp only [List.nil_append, build, done, if_true]
    exact unwind_bounded none _ _
  | cons token rest ih =>
    rw [List.cons_append, build]
    split
    · exact unwind_bounded none _ _
    · exact quiet_bind (feed_bounded none _ _) fun next => ih next

/-! ### Runs -/

/-- What becomes of the open blocks and of what was gathered at tokens, one after the other. -/
inductive Fed (limit : Nat) : Stack → Gathered → List Token → Stack → Gathered → Prop
  | nil {stack : Stack} {g : Gathered} : Fed limit stack g [] stack g
  | cons {token : Token} {rest : List Token} {stack next last : Stack} {g h i : Gathered}
      (step : Step limit token stack g next h) (later : Fed limit next h rest last i) :
      Fed limit stack g (token :: rest) last i

theorem fed_append {first second : List Token} {stack last : Stack} {g h : Gathered} :
    Fed limit stack g (first ++ second) last h ↔
      ∃ next i, Fed limit stack g first next i ∧ Fed limit next i second last h := by
  constructor
  · intro run
    induction first generalizing stack g with
    | nil => exact ⟨stack, g, .nil, run⟩
    | cons token rest ih =>
      cases run with
      | cons step later =>
        obtain ⟨next, i, here, there⟩ := ih later
        exact ⟨next, i, .cons step here, there⟩
  · rintro ⟨next, i, here, there⟩
    induction here with
    | nil => exact there
    | cons step later ih => exact .cons step (ih there)

/-- Up to its last token the building of a template is a run; then the blocks that are open
end. -/
theorem fed_of_build {stop : Option Nat} {tokens : List Token} {last : Token}
    (unfinished : ∀ token ∈ tokens, token.isDone = false) (done : last.isDone = true)
    {stack : Stack} {nodes : List Node}
    (run : Returns (build limit stop stack (tokens ++ [last])) g nodes g') :
    ∃ next h, Fed limit stack g tokens next h ∧
      Returns (unwind none next.frames next.root) h nodes g' := by
  induction tokens generalizing stack g with
  | nil =>
    simp only [List.nil_append, build, done, if_true] at run
    exact ⟨stack, g, .nil, run⟩
  | cons token rest ih =>
    have open_ : token.isDone = false := unfinished token (by simp)
    simp only [List.cons_append, build, open_, Bool.false_eq_true, if_false, returns_bind] at run
    obtain ⟨next, h, here, there⟩ := run
    have step : Step limit token stack g next h := step_of_feed here
    obtain ⟨final, i, later, ends⟩ :=
      ih (fun other member => unfinished other (by simp [member])) there
    exact ⟨final, i, .cons step later, ends⟩

end Stack

/-! ### Trees -/

namespace Tree

variable {limit : Nat} {tokens : List Token}

/-- Nothing is gathered yet. -/
def start : Gathered := ⟨[], [], [], []⟩

/-- The tree of tokens is what their building returns, with what it gathers. -/
theorem ofTokens_of_returns {nodes : List Node} {g : Gathered}
    (run : Returns (Stack.build limit (tokens.getLast?.map (·.span.stop)) ⟨[], []⟩ tokens) start
      nodes g) :
    ofTokens limit tokens = (.ok ⟨nodes, g.names, g.functions, g.blocks⟩, g.diagnostics) := by
  have result : ExceptT.run (Stack.build limit (tokens.getLast?.map (·.span.stop)) ⟨[], []⟩ tokens)
      start = (Except.ok nodes, g) := run
  simp only [start] at result
  simp only [ofTokens, result]
  rfl

theorem ofTokens_of_fails {cause : Cause} {g : Gathered}
    (run : Fails (Stack.build limit (tokens.getLast?.map (·.span.stop)) ⟨[], []⟩ tokens) start
      cause g) : ofTokens limit tokens = (.error cause, g.diagnostics) := by
  have result : ExceptT.run (Stack.build limit (tokens.getLast?.map (·.span.stop)) ⟨[], []⟩ tokens)
      start = (Except.error cause, g) := run
  simp only [start] at result
  simp only [ofTokens, result]
  rfl

/-- A tree comes from a building that returns its nodes. -/
theorem returns_of_ofTokens {tree : Tree} {diagnostics : List Diagnostic}
    (parsed : ofTokens limit tokens = (.ok tree, diagnostics)) :
    ∃ g, Returns (Stack.build limit (tokens.getLast?.map (·.span.stop)) ⟨[], []⟩ tokens) start
      tree.nodes g ∧ diagnostics = g.diagnostics := by
  rcases returns_or_fails (Stack.build limit (tokens.getLast?.map (·.span.stop)) ⟨[], []⟩ tokens)
    start with ⟨nodes, g, run⟩ | ⟨cause, g, run⟩
  · cases (ofTokens_of_returns run).symm.trans parsed
    exact ⟨g, run, rfl⟩
  · cases (ofTokens_of_fails run).symm.trans parsed

end Tree

end Stencil
