import Stencil.Proofs.Heights
import Stencil.Proofs.Matching
import Stencil.Proofs.Merging
import Stencil.Proofs.Readings

/-! Every token, every lexeme inside one and every diagnostic has the line and the column of its
offset, as counting gives them: the table of lines is right at every offset, and the building of
trees reports at the spans of tokens and lexemes. -/
namespace Stencil

/-- The line and the column of the diagnostic are those of its offset. -/
def Diagnostic.PlacedIn (text : List Char) (d : Diagnostic) : Prop :=
  ∃ offset, d.offset = some offset ∧ d.line = some (Text.position text offset).line ∧
    d.column = some (Text.position text offset).column

theorem Diagnostic.placedIn_toDiagnostic (text : List Char) (stage : Stage) (p : Problem) :
    (p.toDiagnostic stage fun offset => some (Text.position text offset)).PlacedIn text :=
  ⟨p.offset, rfl, rfl, rfl⟩

/-- A diagnostic of the tree for a problem that is placed by its offset. -/
def Diagnostic.Placed (place : Nat → Text.Position) (d : Diagnostic) : Prop :=
  d = d.toProblem.toDiagnostic .tree fun offset => some (place offset)

theorem Diagnostic.Placed.placedIn {text : List Char} {d : Diagnostic}
    (placed : d.Placed (Text.position text)) : d.PlacedIn text := by
  rw [placed]
  exact placedIn_toDiagnostic text _ _

/-- Lines and columns of a token, of the lexemes inside it and of its filters are those of their
starts. -/
structure Token.PlacedIn (text : List Char) (token : Token) : Prop where
  span : token.span.Placed text
  lexemes : token.Throughout fun _ lexemes => ∀ lexeme ∈ lexemes, lexeme.span.Placed text
  filters : ∀ filter ∈ token.filters, filter.span.Placed text

theorem Token.Sound.placedIn {text : List Char} {token : Token} (sound : token.Sound text) :
    token.PlacedIn text :=
  ⟨sound.placed, sound.lexemes.imp fun _ _ both => both.2, sound.filtersPlaced⟩

/-! ### Warnings -/

namespace Node

/-- All warnings about the node are placed. -/
def PlacedIn (text : List Char) (node : Node) : Prop := ∀ d ∈ node.warnings, d.PlacedIn text

variable {fine : Diagnostic → Prop}

theorem forall_mem_allWarnings {nodes : List Node} :
    (∀ d ∈ allWarnings nodes, fine d) ↔ ∀ node ∈ nodes, ∀ d ∈ node.warnings, fine d := by
  induction nodes with
  | nil => simp [allWarnings]
  | cons node rest ih => rw [allWarnings, List.forall_mem_append, List.forall_mem_cons, ih]

theorem forall_mem_clauseWarnings {clauses : List Clause} :
    (∀ d ∈ clauseWarnings clauses, fine d) ↔
      ∀ clause ∈ clauses, ∀ d ∈ clauseWarning clause, fine d := by
  induction clauses with
  | nil => simp [clauseWarnings]
  | cons clause rest ih => rw [clauseWarnings, List.forall_mem_append, List.forall_mem_cons, ih]

theorem forall_mem_blockWarnings {blocks : List Block} :
    (∀ d ∈ blockWarnings blocks, fine d) ↔
      ∀ named ∈ blocks, ∀ d ∈ blockWarning named, fine d := by
  induction blocks with
  | nil => simp [blockWarnings]
  | cons named rest ih => rw [blockWarnings, List.forall_mem_append, List.forall_mem_cons, ih]

theorem placedIn_warningIfEmpty {text : List Char} {span : Span} (placed : span.Placed text)
    (word : String) (body : List Node) :
    (∀ d ∈ warningIfEmpty word span body, d.PlacedIn text) ↔ True := by
  rw [iff_true]
  unfold warningIfEmpty
  split
  · intro d member
    rw [List.mem_singleton.mp member]
    exact ⟨span.start, rfl, by rw [placed], by rw [placed]⟩
  · exact List.forall_mem_nil _

end Node

namespace Frame

/-- The block is placed, and so are the warnings about it if it ended now. -/
structure PlacedIn (text : List Char) (frame : Frame) : Prop where
  span : frame.span.Placed text
  warnings : frame.finish.PlacedIn text

variable {text : List Char} {frame : Frame}

theorem PlacedIn.add (placed : frame.PlacedIn text) {node : Node} (within : node.PlacedIn text) :
    (frame.add node).PlacedIn text := by
  refine ⟨by rw [span_add]; exact placed.span, ?_⟩
  have warned := placed.warnings
  have empty := Node.placedIn_warningIfEmpty placed.span
  rcases frame with ⟨word, span, shape, body⟩
  cases shape with
  | extension parent blocks =>
    cases node with
    | block named =>
      simp only [Node.PlacedIn, finish, Frame.add, Node.warnings,
        Node.forall_mem_blockWarnings] at warned within ⊢
      intro other member
      rcases Block.mem_setIn member with rfl | old
      · exact within
      · exact warned other old
    | _ => exact warned
  | first | later | otherwise | loop | repetition | exception | block =>
    simp only [Node.PlacedIn, finish, Frame.add, nodes, List.reverse_cons, Node.warnings,
      Node.blockWarning, Node.clauseWarning, List.forall_mem_append, List.forall_mem_singleton,
      Node.forall_mem_allWarnings, Node.forall_mem_clauseWarnings, empty] at warned ⊢
    tauto

theorem PlacedIn.addOtherwise (placed : frame.PlacedIn text) :
    frame.addOtherwise.PlacedIn text := by
  refine ⟨?_, by rw [finish_addOtherwise]; exact placed.warnings⟩
  rcases frame with ⟨word, span, shape, body⟩
  cases shape <;> exact placed.span

theorem PlacedIn.addClause (placed : frame.PlacedIn text) (span : Span) (clause : Expression) :
    (frame.addClause span clause).PlacedIn text := by
  have warned := placed.warnings
  have empty := Node.placedIn_warningIfEmpty placed.span
  rcases frame with ⟨word, place, shape, body⟩
  cases shape with
  | first | later =>
    refine ⟨placed.span, ?_⟩
    simp only [Node.PlacedIn, finish, Frame.addClause, nodes, Node.warnings, Node.clauseWarning,
      List.forall_mem_append, List.forall_mem_singleton, Node.forall_mem_allWarnings,
      Node.forall_mem_clauseWarnings, empty] at warned ⊢
    simpa using warned
  | _ => exact placed

end Frame

/-! ### Tokens -/

namespace Placement

/-- What a token becomes is placed, with the warnings about it. -/
abbrev PlacedIn (text : List Char) : Nat → Placement → Prop :=
  Meets (fun _ => Node.PlacedIn text) fun _ => Frame.PlacedIn text

variable {text : List Char} {token : Token} {placement : Placement} {limit height : Nat}
  {g g' : Gathered}

theorem placedIn_of_tagged (placed : token.span.Placed text) (tagged : Tagged token placement) :
    placement.PlacedIn text height := by
  cases tagged with
  | inclusion => exact List.forall_mem_nil _
  | unknown => exact trivial
  | extension => exact ⟨placed, List.forall_mem_nil _⟩
  | conditional | loop | repetition | exception | block =>
    refine ⟨placed, ?_⟩
    simp only [Node.PlacedIn, Frame.finish, Frame.nodes, List.reverse_nil, Node.warnings,
      Node.blockWarning, Node.allWarnings, Node.clauseWarnings, List.append_nil,
      Node.placedIn_warningIfEmpty placed]

theorem placedIn_of_ofToken (placed : token.span.Placed text)
    (read : Returns (ofToken limit height token) g placement g') :
    placement.PlacedIn text height := by
  unfold ofToken at read
  split at read
  case h_1 | h_2 =>
    obtain ⟨rfl, -⟩ := returns_pure.mp read
    exact List.forall_mem_nil _
  case h_3 =>
    obtain ⟨node, _, output, rest⟩ := returns_bind.mp read
    obtain ⟨rfl, -⟩ := returns_pure.mp rest
    obtain ⟨value, uses, rfl⟩ := output_returns output
    exact List.forall_mem_nil _
  case h_4 =>
    split at read
    · obtain ⟨_, _, -, rest⟩ := returns_bind.mp read
      obtain ⟨rfl, -⟩ := returns_pure.mp rest
      exact trivial
    · exact placedIn_of_tagged placed (tagged_of_ofOpening read)
  case h_5 | h_6 =>
    obtain ⟨_, _, -, rest⟩ := returns_bind.mp read
    obtain ⟨rfl, -⟩ := returns_pure.mp rest
    exact trivial
  case h_7 =>
    obtain ⟨rfl, -⟩ := returns_pure.mp read
    exact trivial

end Placement

/-- What holds throughout a token holds throughout each list of lexemes in it. -/
theorem Token.throughout_of_mem_parts {good : Span → List Lexeme → Prop} {token : Token}
    (holds : token.Throughout good) {part : List Lexeme} (member : part ∈ token.parts) :
    ∃ outer, Lexeme.Throughout good outer part := by
  unfold Token.Throughout at holds
  unfold Token.parts at member
  split at member
  · rename_i content
    simp only [content] at holds
    rcases List.mem_cons.mp member with rfl | inside
    · exact ⟨_, holds.1⟩
    · obtain ⟨filter, used, argument⟩ := List.mem_flatMap.mp inside
      exact ⟨_, holds.2 filter used part argument⟩
  · rename_i content
    simp only [content] at holds
    rw [List.mem_singleton.mp member]
    exact ⟨_, holds⟩
  · cases member

/-- A lexeme of a list that is sound throughout. -/
def Lexeme.Known (text : List Char) (lexeme : Lexeme) : Prop :=
  ∃ outer lexemes, lexeme ∈ lexemes ∧ Throughout (Sound text) outer lexemes

namespace Gathered

/-- All that was reported is placed. -/
def Placed (text : List Char) (g : Gathered) : Prop :=
  ∀ d ∈ g.diagnostics, d.Placed (Text.position text)

theorem Placed.reported {text : List Char} {span : Span} (placed : span.Placed text) :
    TreeReading.Reportable (Placed text) span := by
  intro g kind message before
  refine List.forall_mem_append.mpr ⟨before, List.forall_mem_singleton.mpr ?_⟩
  simp [Diagnostic.Placed, Diagnostic.toProblem, Problem.toDiagnostic, Diagnostic.error,
    show span.position = _ from placed]

end Gathered

/-- Sound tokens are placed with everything that is reported at them or at lexemes inside them. -/
theorem upkeep_places (text : List Char) (limit : Nat) :
    Upkeep limit (Gathered.Placed text) (Token.Sound text)
      (fun _ => Node.PlacedIn text) fun _ => Frame.PlacedIn text := by
  have spares : TreeReading.Spares (Gathered.Placed text) (Lexeme.Known text) := by
    refine ⟨fun same before => ?_, ?_, ?_⟩
    · rwa [Gathered.Placed, same]
    · rintro lexeme ⟨outer, lexemes, member, ⟨⟨_, placed⟩, _⟩⟩
      exact Gathered.Placed.reported (placed lexeme member)
    · rintro lexeme ⟨outer, lexemes, member, ⟨_, deeper⟩⟩ part inside other found
      exact ⟨_, part, found, deeper lexeme member part inside⟩
  have safe {token : Token} (sound : token.Sound text) :
      token.Safe (Gathered.Placed text) (Lexeme.Known text) := by
    refine ⟨Gathered.Placed.reported sound.placed, fun part member lexeme inside => ?_⟩
    obtain ⟨outer, throughout⟩ := Token.throughout_of_mem_parts sound.lexemes member
    exact ⟨outer, part, inside, throughout⟩
  refine ⟨?finish, ?add, ?otherwise, ?clause, ?placed, ?unclosed, ?reported⟩
  case finish => exact fun placed => placed.warnings
  case add => exact fun placed within => placed.add within
  case otherwise => exact fun placed => placed.addOtherwise
  case clause =>
    intro height frame token tag source placed sound content
    exact (Placement.condition_fits spares (safe sound) limit _ content).weaken
      fun clause _ => placed.addClause _ clause
  case placed =>
    intro height token sound
    refine (Placement.ofToken_fits spares (safe sound) limit height).of_returns ?_
    exact fun g placement g' run => Placement.placedIn_of_ofToken sound.placed run
  case unclosed => exact fun placed => Gathered.Placed.reported placed.span
  case reported => exact fun sound => Gathered.Placed.reported sound.placed

/-! ### Texts -/

section Texts

variable {text : List Char} {separate : Bool} {tokens : List Token} {lexed : List Diagnostic}

theorem Token.lexed_placedIn (tokenized : read separate text = .ok (tokens, lexed)) :
    ∀ d ∈ lexed, d.PlacedIn text := by
  obtain ⟨problems, -, rfl⟩ := Lexing.run_ok.mp tokenized
  intro d member
  obtain ⟨p, -, rfl⟩ := List.mem_map.mp member
  simp only [Option.map_some, Text.Lines.locate_ofText]
  exact Diagnostic.placedIn_toDiagnostic text _ p

/-- The building of a tree places all its diagnostics, also where it fails, and its warnings. -/
theorem Tree.ofTokens_placed {limit : Nat} {result : Except Cause Tree} {built : List Diagnostic}
    (sound : ∀ token ∈ tokens, token.Sound text)
    (parsed : ofTokens limit tokens = (result, built)) :
    (∀ d ∈ built, d.Placed (Text.position text)) ∧
      ∀ tree, result = .ok tree → ∀ d ∈ tree.warnings, d.PlacedIn text := by
  obtain ⟨⟨g, placed, rfl⟩, nodes⟩ :=
    ofTokens_keeps (upkeep_places text limit) (by simp [Gathered.Placed, start]) sound parsed
  exact ⟨placed, fun tree same => Node.forall_mem_allWarnings.mpr (nodes tree same)⟩

theorem Markup.Check.diagnostics_placedIn (text : List Char) :
    ∀ d ∈ diagnostics text, d.PlacedIn text := by
  intro d member
  obtain ⟨p, -, rfl⟩ := List.mem_map.mp member
  exact Diagnostic.placedIn_toDiagnostic text _ p

theorem Analysis.placedIn {options : Options} {source : String} {analysis : Analysis}
    (analysed : ofText options source = .ok analysis) :
    ∀ d ∈ analysis.diagnostics ++ analysis.tree.warnings, d.PlacedIn source.toList := by
  obtain ⟨lexed, built, tokenized, parsed, -, merged⟩ := ofText_stages analysed
  obtain ⟨placed, warned⟩ := Tree.ofTokens_placed (Token.sound_of_read tokenized) parsed
  rw [merged, List.forall_mem_append]
  refine ⟨fun d member => ?_, warned _ rfl⟩
  obtain ⟨group, listed, inside⟩ := Diagnostic.exists_mem_of_mem_merge member
  simp only [List.mem_cons, List.not_mem_nil, or_false] at listed
  rcases listed with rfl | rfl | rfl
  · exact Markup.Check.diagnostics_placedIn _ d inside
  · exact Token.lexed_placedIn tokenized d inside
  · exact (placed d inside).placedIn

end Texts

/-- Lines and columns are those that counting gives: of tokens and everything inside them, of the
diagnostics of all stages, and of offsets that a walk over the lines is asked for in any order. -/
theorem places_agree_with_counting (source : String) :
    (∀ separate tokens lexed, Token.read separate source.toList = .ok (tokens, lexed) →
      (∀ token ∈ tokens, token.PlacedIn source.toList) ∧
        (∀ d ∈ lexed, d.PlacedIn source.toList) ∧
        ∀ limit, ∀ d ∈ (Tree.ofTokens limit tokens).2, d.PlacedIn source.toList) ∧
      (∀ options analysis, Analysis.ofText options source = .ok analysis →
        ∀ d ∈ analysis.diagnostics ++ analysis.tree.warnings, d.PlacedIn source.toList) ∧
      ∀ offsets, (Text.Walk.ofText source.toList).locateAll offsets =
        offsets.map (Text.position source.toList) := by
  refine ⟨fun separate tokens lexed tokenized => ?_, fun _ _ => Analysis.placedIn,
    (Text.Walk.on_ofText _).locateAll⟩
  have sound := Token.sound_of_read tokenized
  refine ⟨fun token member => (sound token member).placedIn, Token.lexed_placedIn tokenized,
    fun limit d member => ?_⟩
  exact ((Tree.ofTokens_placed sound rfl).1 d member).placedIn

/-- A problem for each of the stages, and a block to warn of, on three lines. -/
def scattered : String :=
  "\x7b% if a %\x7d\x7b% endif %\x7d\n\x7b\x7b 1\n^ 2 \x7d\x7d\x7b\x7b \x7d\x7d"

/-- The diagnostics and warnings of an analysis, by stage, line and column. -/
def Analysis.places (analysis : Analysis) : List (Stage × Option Nat × Option Nat) :=
  (analysis.diagnostics ++ analysis.tree.warnings).map fun d => (d.stage, d.line, d.column)

theorem scattered_analysed : (Analysis.ofText .standard scattered).map (·.places) =
    .ok [(.tokens, some 3, some 1), (.tree, some 3, some 3), (.check, some 3, some 7),
      (.tree, some 1, some 1)] := by
  cbv

theorem places_agree_with_counting_over_lines : ∃ tokens lexed analysis,
    Token.read false scattered.toList = .ok (tokens, lexed) ∧
      Analysis.ofText .standard scattered = .ok analysis ∧
      analysis.places = [(.tokens, some 3, some 1), (.tree, some 3, some 3),
        (.check, some 3, some 7), (.tree, some 1, some 1)] ∧
      (∀ token ∈ tokens, token.PlacedIn scattered.toList) ∧
      (∀ d ∈ lexed, d.PlacedIn scattered.toList) ∧
      (∀ limit, ∀ d ∈ (Tree.ofTokens limit tokens).2, d.PlacedIn scattered.toList) ∧
      (∀ d ∈ analysis.diagnostics ++ analysis.tree.warnings, d.PlacedIn scattered.toList) ∧
      (Text.Walk.ofText scattered.toList).locateAll [30, 3, 24] =
        [30, 3, 24].map (Text.position scattered.toList) := by
  have found := scattered_analysed
  rcases analysed : Analysis.ofText .standard scattered with failure | analysis
  · rw [analysed] at found
    cases found
  · rw [analysed] at found
    obtain ⟨lexed, _, tokenized, -⟩ := Analysis.ofText_stages analysed
    obtain ⟨texts, analyses, walks⟩ := places_agree_with_counting scattered
    obtain ⟨placed, noted, built⟩ := texts false analysis.tokens lexed tokenized
    exact ⟨analysis.tokens, lexed, analysis, tokenized, rfl, Except.ok.inj found, placed, noted,
      built, analyses .standard analysis analysed, walks _⟩

end Stencil
