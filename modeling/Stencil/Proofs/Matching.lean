import Mathlib.Data.List.TakeWhile
import Stencil.Markup.Check
import Stencil.Proofs.Step

/-! Two matchers of blocks run side by side: the check, with its stack of openers, and the building
of the tree, with its stack of frames. The openers are the frames without the extensions, and both
report the same problems, the check those of nested blocks from the outermost in. -/
namespace Stencil
open Markup (Keyword)

/-- The problem that a diagnostic reports. -/
def Diagnostic.toProblem (d : Diagnostic) : Problem := ⟨d.kind, d.message, d.offset.getD 0⟩

/-- The structural problems that were gathered. -/
def Gathered.problems (g : Gathered) : List Problem := g.structural.map (·.toProblem)

namespace Markup.Keyword

theorem text_ofText (word : String) : (ofText word).text = word := by
  unfold ofText
  cases found : List.find? (fun keyword => keyword.text == word)
      [cond, elseif, otherwise, .for, each, .while, .unless, block, .include, .extends] with
  | none => rfl
  | some keyword => exact eq_of_beq (List.find?_some found :)

end Markup.Keyword

namespace Markup.Check

/-- The blocks that are open after a token, and its problems: what the check says of the construct
that the token was read from. -/
def ofToken (opened : List OpenBlock) (token : Token) : List OpenBlock × List Problem :=
  match token.content with
  | .opening .. => opening opened token.keyword token.span.start
  | .closing _ => closing opened token.text token.span.start
  | _ => (opened, [])

/-- Problems of tokens, inside blocks that are open already. -/
def tokenProblems (opened : List OpenBlock) : List Token → List Problem
  | [] => opened.reverse.map unclosed
  | token :: rest => (ofToken opened token).2 ++ tokenProblems (ofToken opened token).1 rest

end Markup.Check

namespace Frame

/-- The block stands after its `else`. -/
def divided (frame : Frame) : Bool :=
  match frame.shape with
  | .otherwise .. => true
  | _ => false

/-- What the check knows of an open block. -/
def toOpenBlock (frame : Frame) : Markup.Check.OpenBlock :=
  ⟨.ofText frame.word, frame.span.start, frame.divided⟩

/-- The shape of the block is one that its word opens. -/
structure Sound (frame : Frame) : Prop where
  conditional : frame.isConditional = true ↔ Keyword.ofText frame.word = .cond
  extension : frame.isExtension = true ↔ Keyword.ofText frame.word = .extends

section Add

variable (frame : Frame) (node : Node)

/-- A node changes the parts of an open block and nothing else of it. -/
theorem add_eq : (∃ body, frame.add node = { frame with body }) ∨
    ∃ parent blocks others, frame.shape = .extension parent blocks ∧
      frame.add node = { frame with shape := .extension parent others } := by
  unfold add
  split
  · rename_i parent blocks named shape
    exact .inr ⟨parent, blocks, _, shape, rfl⟩
  · exact .inl ⟨_, rfl⟩

@[simp] theorem word_add : (frame.add node).word = frame.word := by
  rcases frame.add_eq node with ⟨_, same⟩ | ⟨_, _, _, _, same⟩ <;> rw [same]

@[simp] theorem span_add : (frame.add node).span = frame.span := by
  rcases frame.add_eq node with ⟨_, same⟩ | ⟨_, _, _, _, same⟩ <;> rw [same]

@[simp] theorem closing_add : (frame.add node).closing = frame.closing := by
  simp [closing]

@[simp] theorem isExtension_add : (frame.add node).isExtension = frame.isExtension := by
  rcases frame.add_eq node with ⟨_, same⟩ | ⟨_, _, _, shape, same⟩ <;> rw [same]
  · rfl
  · simp [isExtension, shape]

@[simp] theorem isConditional_add : (frame.add node).isConditional = frame.isConditional := by
  rcases frame.add_eq node with ⟨_, same⟩ | ⟨_, _, _, shape, same⟩ <;> rw [same]
  · rfl
  · simp [isConditional, shape]

@[simp] theorem divided_add : (frame.add node).divided = frame.divided := by
  rcases frame.add_eq node with ⟨_, same⟩ | ⟨_, _, _, shape, same⟩ <;> rw [same]
  · rfl
  · simp [divided, shape]

@[simp] theorem toOpenBlock_add : (frame.add node).toOpenBlock = frame.toOpenBlock := by
  simp [toOpenBlock]

theorem Sound.add {frame : Frame} (sound : frame.Sound) (node : Node) : (frame.add node).Sound := by
  constructor
  · simpa using sound.conditional
  · simpa using sound.extension

end Add

theorem takesClauses_eq (frame : Frame) :
    frame.takesClauses = (frame.isConditional && !frame.divided) := by
  unfold takesClauses isConditional divided
  cases frame.shape <;> rfl

/-- A clause changes what the block divides into, not what kind of block it is. -/
theorem addOtherwise_eq {frame : Frame} (takes : frame.takesClauses = true) :
    ∃ condition body clauses,
      frame.addOtherwise = { frame with shape := .otherwise condition body clauses, body := [] } := by
  rcases frame with ⟨word, span, shape, nodes⟩
  cases shape <;> simp_all [takesClauses, addOtherwise]

theorem addClause_eq {frame : Frame} (takes : frame.takesClauses = true) (span : Span)
    (clause : Expression) :
    ∃ condition body clauses, frame.addClause span clause =
      { frame with shape := .later condition body clauses span clause, body := [] } := by
  rcases frame with ⟨word, span, shape, nodes⟩
  cases shape <;> simp_all [takesClauses, addClause]

theorem closing_toOpenBlock (frame : Frame) : frame.toOpenBlock.keyword.closing = frame.closing := by
  simp [toOpenBlock, Keyword.closing, closing, Keyword.text_ofText]

end Frame

namespace Stack

/-- The open blocks that the check knows of: it takes the tag of an extension for one that opens
nothing. -/
def openBlocks (stack : Stack) : List Markup.Check.OpenBlock :=
  (stack.frames.filter (!·.isExtension)).map (·.toOpenBlock)

/-- The shape of every open block is one that its word opens. -/
def Sound (stack : Stack) : Prop := ∀ frame ∈ stack.frames, frame.Sound

@[simp] theorem openBlocks_add (stack : Stack) (node : Node) :
    (stack.add node).openBlocks = stack.openBlocks := by
  rcases stack with ⟨_ | ⟨top, outer⟩, root⟩
  · rfl
  · simp only [add, openBlocks, List.filter_cons, Frame.isExtension_add]
    split <;> simp

theorem openBlocks_cons {top : Frame} (settled : top.isExtension = false) (outer : List Frame)
    (root : List Node) :
    openBlocks ⟨top :: outer, root⟩ = top.toOpenBlock :: openBlocks ⟨outer, root⟩ := by
  simp [openBlocks, settled]

theorem openBlocks_extension {top : Frame} (extension : top.isExtension = true)
    (outer : List Frame) (root : List Node) :
    openBlocks ⟨top :: outer, root⟩ = openBlocks ⟨outer, root⟩ := by
  simp [openBlocks, extension]

theorem Sound.add {stack : Stack} (sound : stack.Sound) (node : Node) : (stack.add node).Sound := by
  rcases stack with ⟨_ | ⟨top, outer⟩, root⟩
  · exact sound
  · intro frame member
    rcases List.mem_cons.mp member with rfl | inside
    · exact (sound top (by simp)).add node
    · exact sound frame (by simp [inside])

theorem Sound.outer {top : Frame} {outer : List Frame} {root : List Node}
    (sound : Sound ⟨top :: outer, root⟩) : Sound ⟨outer, root⟩ :=
  fun frame member => sound frame (by simp [member])

end Stack

namespace Gathered

variable (g : Gathered) (kind : DiagnosticKind) (message : String) (span : Span)

theorem problems_reported (structural : kind.isStructural = true) :
    (g.reported kind message span).problems = g.problems ++ [⟨kind, message, span.start⟩] := by
  simp [problems, Gathered.structural, reported, Diagnostic.error, Diagnostic.toProblem, structural]

end Gathered

namespace Placement

private theorem sound_opened {token : Token} {keyword : Keyword} {shape : Shape}
    (word : token.keyword = keyword)
    (conditional : (Frame.mk token.text token.span shape []).isConditional = (keyword == .cond))
    (extension : (Frame.mk token.text token.span shape []).isExtension = (keyword == .extends)) :
    (Frame.mk token.text token.span shape []).Sound := by
  subst word
  constructor
  · rw [conditional]
    exact beq_iff_eq
  · rw [extension]
    exact beq_iff_eq

/-- What stands in an opening tag is placed as the check has it: blocks are open afterwards, other
tags are not. -/
theorem Tagged.openBlocks {token : Token} {placement : Placement} (tagged : Tagged token placement)
    {tag : Opening} {source : String} (content : token.content = .opening tag source)
    (undivided : token.keyword.isClause = false) {stack : Stack} (sound : stack.Sound) :
    (stack.put placement).Sound ∧
      Markup.Check.ofToken stack.openBlocks token = ((stack.put placement).openBlocks, []) := by
  have pushed {frame : Frame} (read : frame.Sound) : (stack.push frame).Sound := by
    intro other member
    rcases List.mem_cons.mp member with rfl | inside
    · exact read
    · exact sound other inside
  have opens {shape : Shape} (word : token.keyword.opensBlock = true)
      (settled : (Frame.mk token.text token.span shape []).isExtension = false)
      (whole : (Frame.mk token.text token.span shape []).divided = false) :
      Markup.Check.ofToken stack.openBlocks token =
        ((stack.push ⟨token.text, token.span, shape, []⟩).openBlocks, []) := by
    rw [Stack.push, Stack.openBlocks_cons settled, Frame.toOpenBlock, whole]
    simp only [Markup.Check.ofToken, content, Markup.Check.opening, undivided, word,
      Bool.false_eq_true, if_false, if_true]
    rfl
  have stands (word : token.keyword.opensBlock = false) :
      Markup.Check.ofToken stack.openBlocks token = (stack.openBlocks, []) := by
    simp [Markup.Check.ofToken, content, Markup.Check.opening, undivided, word]
  cases tagged with
  | conditional word condition =>
    exact ⟨pushed (sound_opened word rfl rfl), opens (by rw [word]; rfl) rfl rfl⟩
  | loop word binding iterable =>
    rcases word with word | word
    · exact ⟨pushed (sound_opened word rfl rfl), opens (by rw [word]; rfl) rfl rfl⟩
    · exact ⟨pushed (sound_opened word rfl rfl), opens (by rw [word]; rfl) rfl rfl⟩
  | repetition word condition =>
    exact ⟨pushed (sound_opened word rfl rfl), opens (by rw [word]; rfl) rfl rfl⟩
  | exception word condition =>
    exact ⟨pushed (sound_opened word rfl rfl), opens (by rw [word]; rfl) rfl rfl⟩
  | block word name =>
    exact ⟨pushed (sound_opened word rfl rfl), opens (by rw [word]; rfl) rfl rfl⟩
  | inclusion word path =>
    refine ⟨sound.add _, ?_⟩
    rw [Stack.put, Stack.openBlocks_add]
    exact stands (by rw [word]; rfl)
  | extension word parent =>
    refine ⟨pushed (sound_opened word rfl rfl), ?_⟩
    rw [Stack.put, Stack.push, Stack.openBlocks_extension rfl]
    exact stands (by rw [word]; rfl)
  | unknown plain other => exact ⟨sound, stands plain⟩

/-- A token that neither ends nor divides a block reports no structural problem. -/
theorem ofToken_calm {limit height : Nat} {token : Token} (whole : token.isClosing = false)
    (undivided : token.isClause = false) : Calm (ofToken limit height token) := by
  unfold ofToken
  split
  · exact quiet_pure _
  · exact quiet_pure _
  · exact quiet_bind (output_calm limit _ token _ _) fun _ => quiet_pure _
  · rename_i content
    have plain : token.keyword.isClause = false := by
      simpa [Token.isClause, content] using undivided
    rw [plain]
    exact ofOpening_calm limit height token _
  · rename_i content
    simp [Token.isClosing, content] at whole
  · exact quiet_bind (TreeReading.report_calm rfl _ _) fun _ => quiet_pure _
  · exact quiet_pure _

/-- A token that neither ends nor divides a block is placed as the check has it. -/
theorem openBlocks_of_ofToken {limit height : Nat} {token : Token} {placement : Placement}
    {g g' : Gathered} (whole : token.isClosing = false) (undivided : token.isClause = false)
    (read : Returns (ofToken limit height token) g placement g') {stack : Stack}
    (sound : stack.Sound) :
    (stack.put placement).Sound ∧
      Markup.Check.ofToken stack.openBlocks token = ((stack.put placement).openBlocks, []) := by
  have nodes (node : Node) : (stack.put (.node node)).Sound ∧
      (stack.openBlocks, ([] : List Problem)) = ((stack.put (.node node)).openBlocks, []) :=
    ⟨sound.add node, by rw [Stack.put, Stack.openBlocks_add]⟩
  cases content : token.content with
  | opening tag source =>
    have plain : token.keyword.isClause = false := by
      simpa [Token.isClause, content] using undivided
    simp only [ofToken, content, plain, Bool.false_eq_true, if_false] at read
    exact (tagged_of_ofOpening read).openBlocks content plain sound
  | closing source => simp [Token.isClosing, content] at whole
  | output expression filters source =>
    simp only [ofToken, content, returns_bind, returns_pure] at read
    obtain ⟨node, _, _, rfl, _⟩ := read
    simp only [Markup.Check.ofToken, content]
    exact nodes _
  | stray kind =>
    simp only [ofToken, content, returns_bind, returns_pure] at read
    obtain ⟨_, _, _, rfl, _⟩ := read
    simp only [Markup.Check.ofToken, content]
    exact ⟨sound, rfl⟩
  | text kind =>
    simp only [ofToken, content, returns_pure] at read
    obtain ⟨rfl, -⟩ := read
    simp only [Markup.Check.ofToken, content]
    exact nodes _
  | comment note =>
    simp only [ofToken, content, returns_pure] at read
    obtain ⟨rfl, -⟩ := read
    simp only [Markup.Check.ofToken, content]
    exact nodes _
  | done =>
    simp only [ofToken, content, returns_pure] at read
    obtain ⟨rfl, -⟩ := read
    simp only [Markup.Check.ofToken, content]
    exact ⟨sound, rfl⟩

end Placement

namespace Markup.Check

variable {opened : List OpenBlock} {block : OpenBlock} {word : String} {start : Nat}

theorem closing_fits (fits : block.keyword.closing = word) :
    closing (block :: opened) word start = (opened, []) := by
  simp [closing, fits]

theorem closing_abandons (other : block.keyword.closing ≠ word)
    (fits : ∃ o ∈ opened, o.keyword.closing = word) :
    closing (block :: opened) word start =
      ((closing opened word start).1, (closing opened word start).2 ++ [unclosed block]) := by
  have skip : (!(block.keyword.closing == word)) = true := by simpa using other
  simp only [closing, List.dropWhile_cons, List.takeWhile_cons, skip, if_true]
  split
  · rename_i none
    obtain ⟨o, member, same⟩ := fits
    have stays := List.dropWhile_eq_nil_iff.mp none o member
    simp [same] at stays
  · simp

theorem closing_unmatched (unfit : ∀ o ∈ opened, o.keyword.closing ≠ word) :
    closing opened word start = (opened,
      [⟨.unmatchedBlockEnd, s!"Unexpected '{word}' without matching block", start⟩]) := by
  have none : opened.dropWhile (fun o => !(o.keyword.closing == word)) = [] := by
    rw [List.dropWhile_eq_nil_iff]
    intro o member
    simpa using unfit o member
  simp [closing, none]

end Markup.Check

namespace Stack
open Markup.Check

variable {limit : Nat} {token : Token} {stack stack' : Stack} {g g' : Gathered}

theorem ofToken_closing (opened : List OpenBlock) (ends : token.isClosing = true) :
    ofToken opened token = closing opened token.text token.span.start := by
  unfold Token.isClosing at ends
  unfold ofToken
  cases content : token.content <;> simp_all

theorem ofToken_clause (opened : List OpenBlock) (divides : token.isClause = true) :
    ofToken opened token = clause opened token.keyword token.span.start := by
  unfold Token.isClause at divides
  unfold ofToken opening
  cases content : token.content <;> simp_all

theorem ofToken_filler (opened : List OpenBlock) (blank : isFiller token = true) :
    ofToken opened token = (opened, []) := by
  unfold isFiller at blank
  unfold ofToken
  cases content : token.content <;> simp_all

/-- A closing tag fits an open block if it fits what the check knows of it. -/
theorem exists_fits (known : token.text ≠ "endextends") (sound : stack.Sound) :
    (∃ o ∈ stack.openBlocks, o.keyword.closing = token.text) ↔
      ∃ frame ∈ stack.frames, frame.closing = token.text := by
  constructor
  · rintro ⟨o, member, fits⟩
    obtain ⟨frame, inside, rfl⟩ := List.mem_map.mp member
    rw [Frame.closing_toOpenBlock] at fits
    exact ⟨frame, (List.mem_filter.mp inside).1, fits⟩
  · rintro ⟨frame, member, fits⟩
    have settled : frame.isExtension = false := by
      cases extension : frame.isExtension with
      | false => rfl
      | true =>
        have word := (sound frame member).extension.mp extension
        have text : frame.word = "extends" := by
          rw [← Keyword.text_ofText frame.word, word]
          rfl
        rw [Frame.closing, text] at fits
        exact absurd fits.symm known
    refine ⟨frame.toOpenBlock, ?_, (Frame.closing_toOpenBlock frame).trans fits⟩
    exact List.mem_map.mpr ⟨frame, List.mem_filter.mpr ⟨member, by simp [settled]⟩, rfl⟩

theorem unclosed_toOpenBlock (frame : Frame) :
    unclosed frame.toOpenBlock =
      ⟨.unmatchedBlockStart, unclosedMessage frame, frame.span.start⟩ := by
  simp [unclosed, unclosedMessage, Frame.toOpenBlock, Keyword.text_ofText]

/-- A closing tag ends a block, never an extension. -/
def EndsBlocks (token : Token) : Prop := token.isClosing = true → token.text ≠ "endextends"

/-- What the check would do at a token, the tree does: the same blocks are open afterwards, and the
same problems are reported. -/
structure Follows (token : Token) (opened : List OpenBlock) (g : Gathered) (stack' : Stack)
    (g' : Gathered) : Prop where
  sound : stack'.Sound
  blocks : stack'.openBlocks = (ofToken opened token).1
  problems : g'.problems.Perm (g.problems ++ (ofToken opened token).2)

/-- A clause that divides a block leaves the same block open, with its `else` seen or not. -/
private theorem follows_clause {top : Frame} (divided : Frame) {outer : List Frame} {root : List Node}
    (divides : token.isClause = true) (takes : top.takesClauses = true)
    (sound : Sound ⟨top :: outer, root⟩) (word : divided.word = top.word)
    (span : divided.span = top.span) (conditional : divided.isConditional = true)
    (settled : divided.isExtension = false)
    (seen : divided.divided = (token.keyword == .otherwise)) :
    Sound ⟨divided :: outer, root⟩ ∧
      ofToken (openBlocks ⟨top :: outer, root⟩) token =
        (openBlocks ⟨divided :: outer, root⟩, []) := by
  rw [Frame.takesClauses_eq, Bool.and_eq_true] at takes
  have here := sound top (by simp)
  have kind := here.conditional.mp takes.1
  have plain : Keyword.ofText top.word ≠ .extends := by simp [kind]
  have free : top.isExtension = false := by simpa using mt here.extension.mp plain
  constructor
  · intro frame member
    rcases List.mem_cons.mp member with rfl | inside
    · exact ⟨iff_of_true conditional (by rw [word, kind]),
        iff_of_false (by simp [settled]) (by rwa [word])⟩
    · exact sound frame (by simp [inside])
  · have whole : top.toOpenBlock.divided = false := by simpa [Frame.toOpenBlock] using takes.2
    have opener : top.toOpenBlock.keyword = .cond := kind
    rw [ofToken_clause _ divides, openBlocks_cons free, openBlocks_cons settled]
    simp only [clause, whole, opener, bne_self_eq_false, Bool.false_eq_true, if_false]
    simp [Frame.toOpenBlock, word, span, seen, kind]

private theorem misplacedMessage_eq (place : String) :
    misplacedMessage token place = "'" ++ token.text ++ ("' " ++ place) := by
  rw [← String.append_assoc]
  rfl

private theorem problems_misplaced (divides : token.isClause = true)
    (settled : ∀ top ∈ stack.frames.head?, top.isExtension = false)
    (refused : ∀ top ∈ stack.frames.head?, top.takesClauses = false) (sound : stack.Sound) :
    ofToken stack.openBlocks token = (stack.openBlocks,
      [⟨.misplacedClause, misplacedMessage token stack.misplacement, token.span.start⟩]) := by
  have text : token.keyword.text = token.text := Keyword.text_ofText token.text
  have outside : misplacedMessage token Placement.outsideConditional =
      s!"'{token.keyword.text}' outside of an if block" := by
    rw [misplacedMessage_eq, text]
    rfl
  have after : misplacedMessage token "after 'else'" = s!"'{token.keyword.text}' after 'else'" := by
    rw [misplacedMessage_eq, text]
    rfl
  rw [ofToken_clause _ divides]
  rcases stack with ⟨_ | ⟨top, outer⟩, root⟩
  · simp [clause, openBlocks, misplacement, outside]
  · have word := (sound top (by simp)).conditional
    have shut := refused top rfl
    rw [Frame.takesClauses_eq] at shut
    have kind : top.toOpenBlock.keyword = Keyword.ofText top.word := rfl
    have divided : top.toOpenBlock.divided = top.divided := rfl
    rw [openBlocks_cons (settled top rfl)]
    cases conditional : top.isConditional with
    | false =>
      have other : Keyword.ofText top.word ≠ .cond := by
        intro same
        rw [word.mpr same] at conditional
        contradiction
      simp [clause, misplacement, outside, kind, other, conditional]
    | true =>
      rw [conditional, Bool.true_and, Bool.not_eq_false'] at shut
      simp [clause, misplacement, after, kind, word.mp conditional, conditional, divided, shut]

private theorem follows_of {opened : List OpenBlock} {problems : List Problem}
    (check : ofToken opened token = (stack'.openBlocks, problems)) (sound : stack'.Sound)
    (reported : g'.problems.Perm (g.problems ++ problems)) : Follows token opened g stack' g' := by
  refine ⟨sound, ?_, ?_⟩
  · rw [check]
  · rw [check]
    exact reported

private theorem follows_quietly {opened : List OpenBlock}
    (check : ofToken opened token = (stack'.openBlocks, [])) (sound : stack'.Sound)
    (same : g'.structural = g.structural) : Follows token opened g stack' g' := by
  refine follows_of check sound ?_
  rw [Gathered.problems, same, List.append_nil]
  exact .refl _

/-- A step of the tree is a step of the check. -/
theorem step_follows (known : EndsBlocks token)
    (sound : stack.Sound) (step : Step limit token stack g stack' g') :
    Follows token stack.openBlocks g stack' g' := by
  induction step with
  | placed settled whole undivided read =>
    obtain ⟨placed, check⟩ := Placement.openBlocks_of_ofToken whole undivided read sound
    exact follows_quietly check placed ((Placement.ofToken_calm whole undivided).view_eq read)
  | filler extension blank => exact follows_quietly (ofToken_filler _ blank) sound rfl
  | passed extension other later ih =>
    rw [openBlocks_extension extension]
    have follows := ih (sound.outer.add _)
    rwa [openBlocks_add] at follows
  | @closed top outer root g settled ends fits =>
    refine follows_quietly ?_ (sound.outer.add _) rfl
    rw [ofToken_closing _ ends, openBlocks_cons settled, openBlocks_add]
    exact closing_fits ((Frame.closing_toOpenBlock top).trans fits)
  | @abandoned top outer root stack g g' settled ends other fits later ih =>
    have follows := ih (sound.outer.add _)
    rw [openBlocks_add] at follows
    have inner := (exists_fits (known ends) sound.outer).mpr fits
    have check : ofToken (openBlocks ⟨top :: outer, root⟩) token =
        ((ofToken (openBlocks ⟨outer, root⟩) token).1,
          (ofToken (openBlocks ⟨outer, root⟩) token).2 ++ [unclosed top.toOpenBlock]) := by
      rw [ofToken_closing _ ends, ofToken_closing _ ends, openBlocks_cons settled]
      refine closing_abandons ?_ inner
      rwa [Frame.closing_toOpenBlock]
    rw [← follows.blocks] at check
    -- The tree reports the abandoned block before those further out, the check behind them.
    refine follows_of check follows.sound (follows.problems.trans ?_)
    rw [Gathered.problems_reported _ _ _ _ rfl, ← unclosed_toOpenBlock, List.append_assoc]
    exact List.perm_append_comm.append_left _
  | @unmatched stack g settled ends other =>
    have unfit : ∀ o ∈ stack.openBlocks, o.keyword.closing ≠ token.text := by
      intro o member fits
      obtain ⟨frame, inside, same⟩ := (exists_fits (known ends) sound).mp ⟨o, member, fits⟩
      exact other frame inside same
    refine follows_of ((ofToken_closing _ ends).trans (closing_unmatched unfit)) sound ?_
    rw [Gathered.problems_reported _ _ _ _ rfl]
    exact .refl _
  | @otherwise top outer root g divides word takes =>
    obtain ⟨condition, body, clauses, same⟩ := Frame.addOtherwise_eq takes
    obtain ⟨kept, check⟩ := follows_clause top.addOtherwise divides takes sound
      (by rw [same]) (by rw [same]) (by rw [same]; rfl) (by rw [same]; rfl)
      (by rw [same, word]; rfl)
    exact follows_quietly check kept rfl
  | @further top outer root g g' tag source condition divides content word takes read =>
    obtain ⟨first, body, clauses, same⟩ := Frame.addClause_eq takes token.span condition
    obtain ⟨kept, check⟩ := follows_clause (top.addClause token.span condition) divides
      takes sound (by rw [same]) (by rw [same]) (by rw [same]; rfl) (by rw [same]; rfl)
      (by rw [same, word]; rfl)
    exact follows_quietly check kept ((Placement.condition_calm limit _ token tag).view_eq read)
  | @misplaced stack g settled divides refused =>
    refine follows_of (problems_misplaced divides settled refused sound) sound ?_
    rw [Gathered.problems_reported _ _ _ _ rfl]

/-! ### Runs -/

/-- At the end the blocks that are open are reported. -/
theorem unwind_problems {finished : Option Node} {frames : List Frame} {root nodes : List Node}
    (run : Returns (unwind finished frames root) g nodes g') :
    g'.problems.Perm (g.problems ++ (openBlocks ⟨frames, root⟩).map unclosed) := by
  induction frames generalizing finished root g with
  | nil =>
    rw [unwind, returns_pure] at run
    rw [run.2]
    simp [openBlocks]
  | cons frame outer ih =>
    rw [unwind] at run
    generalize here : finished.elim frame frame.add = top at run
    have kind : top.isExtension = frame.isExtension := by
      subst here
      cases finished <;> simp
    have same : top.toOpenBlock = frame.toOpenBlock := by
      subst here
      cases finished <;> simp
    cases extension : frame.isExtension with
    | true =>
      rw [openBlocks_extension extension]
      simp only [kind, extension, if_true] at run
      exact ih run
    | false =>
      simp only [kind, extension, Bool.false_eq_true, if_false, reportUnclosed, returns_bind,
        TreeReading.returns_report] at run
      obtain ⟨_, t, rfl, later⟩ := run
      have perm := ih later
      rw [Gathered.problems_reported _ _ _ _ rfl, List.append_assoc] at perm
      rwa [openBlocks_cons extension, List.map_cons, ← same, unclosed_toOpenBlock]

/-- The problems of tokens that are built in a stack are those that the check finds in them. -/
theorem build_problems {stop : Option Nat} {tokens : List Token} {last : Token}
    (unfinished : ∀ token ∈ tokens, token.isDone = false) (done : last.isDone = true)
    (known : ∀ token ∈ tokens, EndsBlocks token) (sound : stack.Sound) {nodes : List Node}
    (run : Returns (build limit stop stack (tokens ++ [last])) g nodes g') :
    g'.problems.Perm (g.problems ++ tokenProblems stack.openBlocks tokens) := by
  obtain ⟨next, h, fed, ends⟩ := fed_of_build unfinished done run
  clear run
  induction fed with
  | nil =>
    refine (unwind_problems ends).trans (.append_left _ ?_)
    rw [tokenProblems, List.map_reverse]
    exact (List.reverse_perm _).symm
  | @cons token rest stack next last g h i step later ih =>
    have follows := step_follows (known token (by simp)) sound step
    have rest := ih (fun other member => unfinished other (by simp [member]))
      (fun other member => known other (by simp [member])) follows.sound ends
    rw [follows.blocks] at rest
    refine rest.trans ?_
    rw [tokenProblems, ← List.append_assoc]
    exact follows.problems.append_right _

end Stack
end Stencil
