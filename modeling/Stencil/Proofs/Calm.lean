import Stencil.Proofs.Operands
import Stencil.Proofs.Outcome
import Stencil.Tree.Building

/-! Structural problems are those of blocks: one without its end, an end without its block, a
misplaced clause. The reading of expressions, of interpolations and of opening tags is calm: it
reports no structural problem and fails only where nesting is too deep. -/
namespace Stencil

/-- A problem of how blocks are nested. -/
def DiagnosticKind.isStructural : DiagnosticKind → Bool
  | unmatchedBlockStart | unmatchedBlockEnd | misplacedClause => true
  | _ => false

/-- The structural diagnostics that were gathered. -/
def Gathered.structural (g : Gathered) : List Diagnostic :=
  g.diagnostics.filter (·.kind.isStructural)

/-- Nesting went beyond the limit. -/
def Cause.OfDepth (cause : Cause) : Prop :=
  ∃ limit offset position, cause = .tooDeep limit offset position

/-- A reading that reports no structural problem and fails only for depth. -/
abbrev Calm {α : Type} (reading : TreeReading α) : Prop :=
  Quiet Gathered.structural Cause.OfDepth reading

/-- A reading that fails only for depth, whatever it reports. -/
abbrev Bounded {α : Type} (reading : TreeReading α) : Prop :=
  Quiet (fun _ => ()) Cause.OfDepth reading

theorem Calm.bounded {α : Type} {reading : TreeReading α} (calm : Calm reading) :
    Bounded reading := by
  intro s
  exact ⟨fun _ _ _ => rfl, fun e t run => ⟨rfl, ((calm s).2 e t run).2⟩⟩

namespace TreeReading

theorem report_bounded (kind : DiagnosticKind) (message : String) (span : Span) :
    Bounded (report kind message span) :=
  quiet_modify fun _ => rfl

theorem report_calm {kind : DiagnosticKind} (mild : kind.isStructural = false) (message : String)
    (span : Span) : Calm (report kind message span) := by
  apply quiet_modify
  intro g
  simp [Gathered.structural, Diagnostic.error, mild]

theorem noteVariable_calm (name : String) : Calm (noteVariable name) :=
  quiet_modify fun _ => rfl

theorem noteFunction_calm (name : String) : Calm (noteFunction name) :=
  quiet_modify fun _ => rfl

theorem noteBlock_calm (name : String) : Calm (noteBlock name) :=
  quiet_modify fun _ => rfl

theorem tooDeep_calm {α : Type} (limit : Nat) (span : Span) :
    Calm (tooDeep limit span : TreeReading α) :=
  quiet_bind (report_calm rfl _ span) fun _ => quiet_throw ⟨limit, span.start, span.position, rfl⟩

end TreeReading

namespace Expression
open TreeReading

variable {inner : List Lexeme → TreeReading Expression}

theorem ofSteps_calm (calm : ∀ lexemes, Calm (inner lexemes)) (span : Span) (object : Expression)
    (steps : List PathStep) : Calm (ofSteps inner span object steps) := by
  induction steps generalizing object with
  | nil => exact quiet_pure object
  | cons step rest ih =>
    cases step with
    | property key => exact ih _
    | index lexemes => exact quiet_bind (calm lexemes) fun index => ih _

theorem ofArguments_calm (calm : ∀ lexemes, Calm (inner lexemes)) (args : List (List Lexeme)) :
    Calm (ofArguments inner args) :=
  quiet_mapM inner _ fun arg _ => calm arg

theorem reportUnexpected_calm (lexeme : Lexeme) : Calm (reportUnexpected lexeme) :=
  report_calm rfl _ _

theorem ofLexeme_calm (calm : ∀ lexemes, Calm (inner lexemes)) (lexeme : Lexeme) :
    Calm (ofLexeme inner lexeme) := by
  cases lexeme with
  | literal span text value => exact quiet_pure _
  | operator span op => exact quiet_bind (reportUnexpected_calm _) fun _ => quiet_pure _
  | name span word => exact quiet_bind (noteVariable_calm word) fun _ => quiet_pure _
  | path span text base steps =>
    exact quiet_bind (noteVariable_calm base) fun _ => ofSteps_calm calm span _ steps
  | call span text callee args =>
    refine quiet_bind (noteFunction_calm callee) fun _ => ?_
    exact quiet_bind (ofArguments_calm calm args) fun _ => quiet_pure _

theorem ofRun_calm (calm : ∀ lexemes, Calm (inner lexemes)) (first : Lexeme)
    (rest : List Lexeme) : Calm (ofRun inner first rest) :=
  ofRun_cases (fun _ => ofLexeme_calm calm first) fun dropped _ kept _ =>
    quiet_bind (reportUnexpected_calm dropped) fun _ => ofLexeme_calm calm kept

theorem missing_calm (side : String) (split : Split) : Calm (missing side split) :=
  report_calm rfl _ _

theorem joined_calm {after : TreeReading Expression} (behind : Calm after) (split : Split)
    (left : Expression) : Calm (joined split left after) := by
  have last : Calm (do return binary split.span split.op left (← after)) :=
    quiet_bind behind fun _ => quiet_pure _
  exact joined_cases (fun _ => quiet_bind (missing_calm _ _) fun _ => last) fun _ => last

theorem ofSplit_calm {split : Split} {before after : TreeReading Expression} (here : Calm before)
    (behind : Calm after) : Calm (ofSplit split before after) :=
  ofSplit_cases (fun _ => quiet_bind (missing_calm _ _) fun _ => joined_calm behind _ _)
    fun _ => quiet_bind here fun _ => joined_calm behind _ _

theorem read_calm (limit room floor : Nat) (lexemes : List Lexeme) :
    Calm (read limit room floor lexemes) := by
  induction room generalizing floor lexemes with
  | zero =>
    cases lexemes with
    | nil => exact quiet_pure _
    | cons first rest => exact tooDeep_calm limit first.span
  | succ room ih =>
    cases lexemes with
    | nil => exact quiet_pure _
    | cons first rest =>
      apply read_cases
      case lone => exact fun _ => ofLexeme_calm (ih 0) first
      case signed => exact fun _ _ _ => quiet_bind (ih floor rest) fun _ => quiet_pure _
      case run => exact fun _ => ofRun_calm (ih 0) first rest
      case sided => exact fun split _ _ => ofSplit_calm (ih 0 _) (ih _ _)

end Expression

namespace Placement
open TreeReading

theorem condition_calm (limit room : Nat) (token : Token) (tag : Opening) :
    Calm (condition limit room token tag) := by
  unfold condition
  split
  · exact quiet_bind (report_calm rfl _ _) fun _ => quiet_pure _
  · exact Expression.read_calm limit room 0 _

theorem loop_calm (limit room : Nat) (token : Token) (tag : Opening) :
    Calm (loop limit room token tag) := by
  unfold loop
  split
  · exact quiet_bind (Expression.read_calm limit room 0 _) fun _ => quiet_pure _
  · exact quiet_bind (report_calm rfl _ _) fun _ => quiet_pure _

theorem block_calm (token : Token) (tag : Opening) : Calm (block token tag) := by
  unfold block
  dsimp only
  split
  · exact quiet_bind (report_calm rfl _ _) fun _ => quiet_pure _
  · exact quiet_bind (noteBlock_calm _) fun _ => quiet_pure _

private theorem within_calm {α : Type} {next : PUnit → TreeReading α} (calm : ∀ u, Calm (next u))
    (limit height : Nat) (span : Span) :
    Calm (if limit ≤ height then tooDeep limit span >>= next else next ⟨⟩) := by
  split
  · exact quiet_bind (tooDeep_calm limit span) calm
  · exact calm ⟨⟩

theorem ofOpening_calm (limit height : Nat) (token : Token) (tag : Opening) :
    Calm (ofOpening limit height token tag) := by
  have conditions (room : Nat) := condition_calm limit room token tag
  have opens {reading : TreeReading Shape} (calm : Calm reading) :
      Calm (do return opened ⟨token.text, token.span, ← reading, []⟩) :=
    quiet_bind calm fun _ => quiet_pure _
  unfold ofOpening
  refine within_calm (fun _ => ?_) limit height token.span
  cases token.keyword with
  | cond => exact quiet_bind (conditions _) fun _ => quiet_pure _
  | «for» => exact opens (loop_calm limit _ token tag)
  | each => exact opens (loop_calm limit _ token tag)
  | «while» => exact quiet_bind (conditions _) fun _ => quiet_pure _
  | «unless» => exact quiet_bind (conditions _) fun _ => quiet_pure _
  | block => exact opens (block_calm token tag)
  | «include» => exact quiet_bind (conditions _) fun _ => quiet_pure _
  | «extends» => exact quiet_bind (conditions _) fun _ => quiet_pure _
  | elseif => exact quiet_bind (report_calm rfl _ _) fun _ => quiet_pure _
  | otherwise => exact quiet_bind (report_calm rfl _ _) fun _ => quiet_pure _
  | unknown word => exact quiet_bind (report_calm rfl _ _) fun _ => quiet_pure _

theorem output_calm (limit room : Nat) (token : Token) (expression : List Lexeme)
    (filters : List FilterLexeme) : Calm (output limit room token expression filters) := by
  have reads (lexemes : List Lexeme) := Expression.read_calm limit room 0 lexemes
  have uses (filter : FilterLexeme) : Calm (filterUse limit room filter) :=
    quiet_bind (Expression.ofArguments_calm reads _) fun _ => quiet_pure _
  have finishes (value : Option Expression) : Calm (do
      return Node.output token.span token.text value (← filters.mapM (filterUse limit room))) :=
    quiet_bind (quiet_mapM _ _ fun filter _ => uses filter) fun _ => quiet_pure _
  unfold output
  split
  · refine quiet_bind (report_calm rfl _ _) fun _ => ?_
    exact quiet_bind (quiet_pure none) fun value => finishes value
  · exact quiet_bind (quiet_map some (reads expression)) fun value => finishes value

theorem misplaced_bounded (token : Token) (place : String) : Bounded (misplaced token place) :=
  quiet_bind (report_bounded _ _ _) fun _ => quiet_pure _

theorem unmatched_bounded (token : Token) : Bounded (unmatched token) :=
  quiet_bind (report_bounded _ _ _) fun _ => quiet_pure _

theorem ofToken_bounded (limit height : Nat) (token : Token) :
    Bounded (ofToken limit height token) := by
  unfold ofToken
  split
  · exact quiet_pure _
  · exact quiet_pure _
  · exact quiet_bind (output_calm limit _ token _ _).bounded fun _ => quiet_pure _
  · split
    · exact misplaced_bounded token _
    · exact (ofOpening_calm limit height token _).bounded
  · exact unmatched_bounded token
  · exact quiet_bind (report_bounded _ _ _) fun _ => quiet_pure _
  · exact quiet_pure _

end Placement

/-! ### Tokens -/

/-- An integer has more digits than may be read. -/
def Fault.OfDigits (fault : Fault) : Prop := ∃ count, fault = .tooManyDigits count

/-- A reading of tokens that reports no structural problem and fails only for digits. -/
abbrev Mild {α : Type} (reading : Lexing α) : Prop :=
  Quiet (List.filter fun p : Problem => p.kind.isStructural) Fault.OfDigits reading

theorem Lexing.report_mild {kind : DiagnosticKind} (mild : kind.isStructural = false)
    (message : String) (offset : Nat) : Mild (report kind message offset) := by
  apply quiet_modify
  intro problems
  simp [mild]

namespace Lexeme

variable {inner : Markup.Piece → Lexing (List Lexeme)}

theorem reportUnclaimed_mild (piece : Markup.Piece) (found : List Markup.Match) :
    Mild (reportUnclaimed piece found) :=
  quiet_forM _ _ fun _ _ => Lexing.report_mild rfl _ _

theorem readNumber_digits {text : List Char} {fault : Fault}
    (failed : readNumber text = .error fault) : fault.OfDigits := by
  unfold readNumber at failed
  split at failed
  · contradiction
  · split at failed
    · contradiction
    · split at failed
      · contradiction
      · cases failed
        exact ⟨_, rfl⟩

theorem ofElement_mild (mild : ∀ piece, Mild (inner piece)) (span : Span) (m : Markup.Match) :
    Mild (ofElement inner span m) := by
  unfold ofElement
  dsimp only
  split
  · exact quiet_bind (quiet_mapM _ _ fun piece _ => mild piece) fun _ => quiet_pure _
  · refine quiet_bind (quiet_mapM _ _ fun segment _ => ?_) fun _ => quiet_pure _
    cases segment with
    | property piece => exact quiet_pure _
    | index piece => exact quiet_bind (mild piece) fun _ => quiet_pure _
  · split
    · exact quiet_pure _
    · exact quiet_bind (quiet_lift _ fun _ => readNumber_digits) fun _ => quiet_pure _
    · exact quiet_pure _
    · exact quiet_pure _
    · exact quiet_pure _

theorem readWithin_mild (lines : Option Text.Lines) (fuel : Nat) (piece : Markup.Piece) :
    Mild (readWithin lines fuel piece) := by
  induction fuel generalizing piece with
  | zero => exact quiet_pure _
  | succ fuel ih =>
    refine quiet_bind (reportUnclaimed_mild piece _) fun _ => ?_
    exact quiet_bind (quiet_mapM _ _ fun m _ => ofElement_mild ih _ m) fun _ => quiet_pure _

theorem read_mild (lines : Option Text.Lines) (piece : Markup.Piece) : Mild (read lines piece) :=
  readWithin_mild lines _ piece

end Lexeme

namespace Token

variable (lines : Text.Lines)

theorem filterOf_mild (m : Markup.Match) : Mild (filterOf lines m) := by
  unfold filterOf
  dsimp only
  split
  · refine quiet_bind (quiet_mapM _ _ fun piece _ => Lexeme.read_mild _ piece) fun _ => ?_
    split
    · exact quiet_pure _
    · exact quiet_bind (Lexing.report_mild rfl _ _) fun _ => quiet_pure _
  · exact quiet_pure _

theorem outputOf_mild (span : Span) (m : Markup.Match) : Mild (outputOf lines span m) := by
  refine quiet_bind (Lexeme.read_mild _ _) fun _ => ?_
  exact quiet_bind (quiet_mapM _ _ fun filter _ => filterOf_mild lines filter) fun _ => quiet_pure _

theorem openingOf_mild (keyword : Markup.Keyword) (condition : Markup.Piece) :
    Mild (openingOf lines keyword condition) := by
  unfold openingOf
  dsimp only
  split
  · split
    · exact quiet_pure _
    · exact quiet_bind (Lexeme.read_mild _ _) fun _ => quiet_pure _
  · exact quiet_bind (Lexeme.read_mild _ _) fun _ => quiet_pure _

theorem ofConstruct_mild (m : Markup.Match) : Mild (ofConstruct lines m) := by
  unfold ofConstruct
  dsimp only
  split
  · exact outputOf_mild lines _ m
  · exact quiet_bind (openingOf_mild lines _ _) fun _ => quiet_pure _
  all_goals exact quiet_pure _

theorem readFrom_mild (separate : Bool) (offset : Nat) (rest : List Char)
    (constructs : List Markup.Match) : Mild (readFrom lines separate offset rest constructs) := by
  induction constructs generalizing offset rest with
  | nil => exact quiet_pure _
  | cons m more ih =>
    refine quiet_bind (ofConstruct_mild lines m) fun _ => ?_
    exact quiet_bind (ih _ _) fun _ => quiet_pure _

end Token
end Stencil
