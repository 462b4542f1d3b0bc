import Stencil.Proofs.Collecting
import Stencil.Proofs.Merging
import Stencil.Proofs.Separators
import Stencil.Proofs.Silences

/-! Arguments at their places. Where nothing is reported, the arguments of a call or a filter are
what the pieces between its separators are read to, in their order; blank pieces are left out. -/
namespace Stencil
open Markup Lexing

variable {limit : Nat} {text : List Char}

/-! ### Parses -/

/-- By itself the piece of the text is read to the expression, without a problem. -/
def Expression.IsParse (limit : Nat) (text : List Char) (piece : Piece) (e : Expression) : Prop :=
  ∃ lexemes, Yields (Lexeme.read (some (.ofText text)) piece) lexemes ∧ IsReadFrom limit lexemes e

namespace Mention

/-- A call or a filter is written at its span, and its arguments are the parses of the pieces
between its separators. -/
def Given (limit : Nat) (text : List Char) : Mention → Prop
  | .call span callee args => ∃ gap inner,
    span.slice text = callee.toList ++ (gap ++ '(' :: (inner ++ [')'])) ∧
    (∀ c ∈ gap, Text.isBlank c = true) ∧
    List.Forall₂ (Expression.IsParse limit text)
      (arguments ',' inner (span.start + callee.toList.length + gap.length + 1)) args
  | .filter use => ∃ gap, (∀ c ∈ gap, Text.isBlank c = true) ∧
    (use.span.slice text = '|' :: (gap ++ use.name.toList) ∧ use.args = [] ∨
    ∃ colonGap inner,
      use.span.slice text = '|' :: (gap ++ (use.name.toList ++ (colonGap ++ ':' :: inner))) ∧
      (∀ c ∈ colonGap, Text.isBlank c = true) ∧
      List.Forall₂ (Expression.IsParse limit text) (arguments ':' inner
        (use.span.start + 1 + gap.length + use.name.toList.length + colonGap.length + 1)) use.args)
  | _ => True

end Mention
open Mention

/-! ### Lexemes -/

namespace Lexeme

/-- Pieces that are not blank are read to lexemes, and these to parses of the pieces. -/
theorem parses_of_yields {pieces : List Piece} {results : List (List Lexeme)}
    {es : List Expression}
    (visible : ∀ piece ∈ pieces, ∃ c ∈ piece.text, Text.isBlank c = false)
    (given : List.Forall₂ (fun piece lexemes => Yields (read (some (.ofText text)) piece) lexemes)
      pieces results)
    (found : List.Forall₂ (Expression.IsReadFrom limit) (results.filter (!·.isEmpty)) es) :
    List.Forall₂ (Expression.IsParse limit text) pieces es := by
  induction given generalizing es with
  | nil =>
    cases found
    exact .nil
  | @cons piece lexemes pieces results here later ih =>
    obtain ⟨⟨c, member, shows⟩, visible⟩ := List.forall_mem_cons.mp visible
    have some : lexemes ≠ [] := ne_nil_of_yields here member shows
    rw [List.filter_cons_of_pos (by simpa using some)] at found
    cases found with
    | cons first rest => exact .cons ⟨lexemes, here, first⟩ (ih visible rest)

theorem visible_of_mem_arguments {separator : Char} {source : List Char} {base : Nat}
    {piece : Piece} (member : piece ∈ arguments separator source base) :
    ∃ c ∈ piece.text, Text.isBlank c = false := by
  obtain ⟨front, c, ends, shows⟩ := exists_visible_of_mem_arguments member
  exact ⟨c, by rw [ends]; simp, shows⟩

/-- A call among the elements of an expression. -/
theorem writtenCall_of_mem_elements {piece : Piece} {m : Match}
    (found : m ∈ elements piece.text piece.start) {callee inner : List Char}
    {pieces : List Piece} (detail : m.detail = .call callee inner pieces) :
    ∃ gap, m.WrittenCall callee gap inner := by
  rcases Notation.mem_elements_cases found with ⟨category, -, -, -, exclude, found⟩ | found | found
  · obtain ⟨x, y, hit, -, -, -, -, -, rfl⟩ := Notation.exists_hit_of_mem_scan found
    cases detail
  · obtain ⟨head, scanned, built⟩ := Notation.mem_of_mem_outermost found
    obtain ⟨_, gap, _, written⟩ := writtenCall_of_callMatch scanned built
    cases written.detail.symm.trans detail
    exact ⟨gap, written⟩
  · obtain ⟨head, scanned, built⟩ := Notation.mem_of_mem_outermost found
    obtain ⟨segments, stop, -, -, rfl⟩ := Notation.exists_of_pathMatch built
    cases detail

theorem allFair_intro {good : Mention → Prop} {lexemes : List Lexeme}
    (each : ∀ lexeme ∈ lexemes, lexeme.Fair good limit ∧
      ∀ part ∈ lexeme.parts, AllFair good limit part) : AllFair good limit lexemes := by
  have inside {outer other : Span} {part : List Lexeme}
      (fair : Throughout (fun _ row => ∀ lexeme ∈ row, lexeme.Fair good limit) outer part) :
      Throughout (fun _ row => ∀ lexeme ∈ row, lexeme.Fair good limit) other part := by
    cases fair with
    | intro here deeper => exact .intro here deeper
  refine ⟨⟨0, 0, ⟨1, 1⟩⟩, .intro (fun lexeme member => (each lexeme member).1) ?_⟩
  intro lexeme member part among
  obtain ⟨outer, fair⟩ := (each lexeme member).2 part among
  exact inside fair

/-- The lexeme of a call whose pieces are read in silence. -/
theorem call_fair {piece : Piece} {m : Match} (found : m ∈ elements piece.text piece.start)
    (within : m.piece.PartOf ⟨text, 0⟩) {callee inner : List Char} {pieces : List Piece}
    (detail : m.detail = .call callee inner pieces) {args : List (List Lexeme)}
    (each : List.Forall₂ (fun piece lexemes => Yields (read (some (.ofText text)) piece) lexemes)
      pieces args) (shown : String) :
    Fair (Given limit text) limit
      (.call (.locate (some (.ofText text)) m.start m.stop) shown (.ofList callee) args) := by
  obtain ⟨gap, written⟩ := writtenCall_of_mem_elements found detail
  refine fun es read => ⟨gap, inner, ?_, written.blank, ?_⟩
  · rw [Span.slice_of_partOf within, written.text, String.toList_ofList]
  · have same : pieces = arguments ',' inner (m.start + callee.length + gap.length + 1) := by
      simpa using detail.symm.trans written.detail
    rw [String.toList_ofList]
    subst same
    exact parses_of_yields (fun piece => visible_of_mem_arguments) each read

/-- The lexeme of an element that is read in silence. -/
theorem ofElement_fair {piece : Piece} {m : Match} {lexeme : Lexeme}
    (found : m ∈ elements piece.text piece.start) (within : m.piece.PartOf ⟨text, 0⟩)
    (deeper : ∀ part ∈ m.pieces, ∀ lexemes, Yields (read (some (.ofText text)) part) lexemes →
      AllFair (Given limit text) limit lexemes)
    (run : Yields (ofElement (read (some (.ofText text)))
      (.locate (some (.ofText text)) m.start m.stop) m) lexeme) :
    lexeme.Fair (Given limit text) limit ∧
      ∀ part ∈ lexeme.parts, AllFair (Given limit text) limit part := by
  unfold ofElement at run
  dsimp only at run
  split at run
  · rename_i callee inner pieces detail
    obtain ⟨args, given, last⟩ := run.of_bind fun _ => writes_pure _
    obtain rfl := yields_pure.mp last
    have each := given.of_mapM (read_writes _)
    refine ⟨call_fair found within detail each _, fun part member => ?_⟩
    obtain ⟨piece, member, here⟩ := exists_of_forall₂_of_mem each member
    exact deeper piece (by rwa [Match.pieces_of_call detail]) part here
  · rename_i name segments detail
    obtain ⟨steps, given, last⟩ := run.of_bind fun _ => writes_pure _
    obtain rfl := yields_pure.mp last
    have each := given.of_mapM fun segment => by
      cases segment with
      | property name => exact writes_pure _
      | index piece => exact writes_bind (read_writes _ piece) fun _ => writes_pure _
    refine ⟨trivial, fun part member => ?_⟩
    obtain ⟨step, inside, chosen⟩ := List.mem_filterMap.mp member
    obtain ⟨segment, among, here⟩ := exists_of_forall₂_of_mem each inside
    cases segment with
    | property name =>
      rw [yields_pure.mp here] at chosen
      contradiction
    | index piece =>
      obtain ⟨lexemes, reading, last⟩ := here.of_bind fun _ => writes_pure _
      rw [yields_pure.mp last] at chosen
      obtain rfl := Option.some.inj chosen
      exact deeper piece ((Match.mem_pieces_of_path detail).mpr among) lexemes reading
  · have plain {lexeme : Lexeme} (fair : lexeme.Fair (Given limit text) limit)
        (flat : lexeme.parts = []) : lexeme.Fair (Given limit text) limit ∧
          ∀ part ∈ lexeme.parts, AllFair (Given limit text) limit part :=
      ⟨fair, by simp [flat]⟩
    split at run
    · rw [yields_pure.mp run]
      exact plain trivial rfl
    · obtain ⟨number, -, last⟩ := run.of_bind fun _ => writes_pure _
      rw [yields_pure.mp last]
      exact plain trivial rfl
    · rw [yields_pure.mp run]
      exact plain trivial rfl
    · rw [yields_pure.mp run]
      cases Operator.ofSymbol? (String.ofList m.text) <;> exact plain trivial rfl
    · rw [yields_pure.mp run]
      exact plain trivial rfl

/-- The calls among lexemes that are read in silence have the parses of their pieces. -/
theorem read_fair {piece : Piece} {lexemes : List Lexeme} (within : piece.PartOf ⟨text, 0⟩)
    (run : Yields (read (some (.ofText text)) piece) lexemes) :
    AllFair (Given limit text) limit lexemes := by
  -- The expressions inside an element are shorter than the one it stands in.
  induction size : piece.text.length using Nat.strong_induction_on generalizing piece lexemes with
  | _ size ih =>
    obtain ⟨-, items, each, folded⟩ := exists_of_read run
    obtain ⟨-, fits⟩ := selected_spec piece
    refine allFair_intro (folded.forall_mem (fun _ _ _ _ _ _ => ⟨trivial, by simp [parts]⟩) ?_)
    intro lexeme member
    obtain ⟨m, among, here⟩ := exists_of_forall₂_of_mem each member
    have found := mem_elements_of_mem_selected among
    refine ofElement_fair found ((fits m among).within.trans within) ?_ here
    intro part inside lexemes reading
    have part_within := ((fits m among).pieces part inside).trans (fits m among).within
    have shorter := length_lt_of_mem_elements found inside
    exact ih _ (size ▸ shorter) (part_within.trans within) reading rfl

end Lexeme

/-! ### Tokens -/

namespace Token
open Lexeme

variable {m : Match}

/-- What a filter is read to in silence: no text may stand behind its arguments. -/
theorem exists_of_filterOf {lines : Text.Lines} {filter : FilterLexeme} {name garbage : List Char}
    {shown : Option (List Char)} {pieces : List Piece}
    (detail : m.detail = .filter name shown pieces garbage)
    (run : Yields (filterOf lines m) filter) :
    garbage = [] ∧ ∃ args, filter = ⟨.locate (some lines) m.start m.stop, String.ofList m.text,
        String.ofList name, args⟩ ∧
      List.Forall₂ (fun piece lexemes => Yields (Lexeme.read (some lines) piece) lexemes) pieces
        args := by
  unfold filterOf at run
  rw [detail] at run
  dsimp only at run
  obtain ⟨args, given, run⟩ := run.of_bind fun _ => by
    split
    · exact writes_pure _
    · exact writes_bind (report_writes _ _ _) fun _ => writes_pure _
  have each := given.of_mapM (read_writes _)
  split at run
  · rename_i none
    exact ⟨List.isEmpty_iff.mp none, args, yields_pure.mp run, each⟩
  · obtain ⟨_, reported, -⟩ := run.of_bind fun _ => writes_pure _
    exact absurd (returns_modify.mp reported) (by simp)

/-- A filter that is read in silence. -/
theorem filterOf_fair {inner : List Char} {base : Nat} {filter : FilterLexeme}
    (found : m ∈ Markup.filters inner base) (within : m.piece.PartOf ⟨text, 0⟩)
    (run : Yields (filterOf (.ofText text) m) filter) : filter.Fair (Given limit text) limit := by
  obtain ⟨-, fits⟩ := filters_spec inner base
  obtain ⟨gap, name, blank, written⟩ := writtenFilter_of_mem_filters found
  cases written with
  | bare shown detail =>
    obtain ⟨-, args, rfl, each⟩ := exists_of_filterOf detail run
    cases each
    refine ⟨fun es read => ⟨gap, blank, .inl ⟨?_, List.forall₂_nil_left_iff.mp read⟩⟩, by simp⟩
    rw [Span.slice_of_partOf within, shown, String.toList_ofList]
  | @given colonGap source shown clear detail =>
    obtain ⟨_, detail⟩ := detail
    obtain ⟨-, args, rfl, each⟩ := exists_of_filterOf detail run
    refine ⟨fun es read => ⟨gap, blank, .inr ⟨colonGap, source, ?_, clear, ?_⟩⟩,
      fun part member => ?_⟩
    · rw [Span.slice_of_partOf within, shown, String.toList_ofList]
    · rw [String.toList_ofList]
      exact parses_of_yields (fun piece => visible_of_mem_arguments) each read
    · obtain ⟨piece, inside, reading⟩ := exists_of_forall₂_of_mem each member
      have among : piece ∈ m.pieces := by rwa [Match.pieces_of_filter detail]
      exact read_fair (((fits m found).pieces piece among).trans within) reading
  | garbage some detail => exact absurd (exists_of_filterOf detail run).1 some

theorem outputOf_fair {span : Span} {token : Token} (within : m.piece.PartOf ⟨text, 0⟩)
    (inner : Piece.PartOf ⟨m.capture 0, m.start + 2⟩ m.piece)
    (run : Yields (outputOf (.ofText text) span m) token) :
    token.Fair (Given limit text) limit := by
  obtain ⟨-, fits⟩ := filters_spec (m.capture 0) (m.start + 2)
  have head := (partOf_head (m.capture 0) (m.start + 2)
    (Markup.filters (m.capture 0) (m.start + 2))).trans inner
  unfold outputOf at run
  dsimp only at run
  obtain ⟨expression, reading, run⟩ := run.of_bind fun _ =>
    writes_bind (writes_mapM _ fun n _ => filterOf_writes _ n) fun _ => writes_pure _
  obtain ⟨filters, given, last⟩ := run.of_bind fun _ => writes_pure _
  obtain rfl := yields_pure.mp last
  refine ⟨read_fair (head.trans within) reading, fun filter member => ?_⟩
  obtain ⟨n, found, here⟩ :=
    exists_of_forall₂_of_mem (given.of_mapM fun n => filterOf_writes _ n) member
  exact filterOf_fair found ((fits n found).within.trans (inner.trans within)) here

theorem openingOf_fair {condition : Piece} {keyword : Keyword} {tag : Opening}
    (within : condition.PartOf ⟨text, 0⟩)
    (run : Yields (openingOf (.ofText text) keyword condition) tag) :
    AllFair (Given limit text) limit tag.lexemes := by
  unfold openingOf at run
  dsimp only at run
  split at run
  · split at run
    · rw [yields_pure.mp run]
      exact allFair_intro (by simp)
    · rename_i target iterable divided
      obtain ⟨lexemes, reading, last⟩ := run.of_bind fun _ => writes_pure _
      rw [yields_pure.mp last]
      exact read_fair ((partOf_of_splitLoop divided).trans within) reading
  · obtain ⟨lexemes, reading, last⟩ := run.of_bind fun _ => writes_pure _
    rw [yields_pure.mp last]
    exact read_fair within reading

theorem ofConstruct_fair {token : Token} (found : m ∈ constructs text)
    (run : Yields (ofConstruct (.ofText text) m) token) : token.Fair (Given limit text) limit := by
  have within : m.piece.PartOf ⟨text, 0⟩ :=
    (partOf_of_mem_scan (mem_scan_of_mem_constructs found)).1
  unfold ofConstruct at run
  dsimp only at run
  split at run
  · rename_i category
    exact outputOf_fair within (partOf_interpolation found category) run
  · rename_i category
    have condition := partOf_openingCondition found category
    obtain ⟨tag, reading, last⟩ := run.of_bind fun _ => writes_pure _
    rw [yields_pure.mp last]
    exact ⟨openingOf_fair (condition.trans within) reading, trivial⟩
  all_goals
    rw [yields_pure.mp run]
    exact trivial

theorem readFrom_fair {separate : Bool} {offset : Nat} {rest : List Char} {found : List Match}
    (known : ∀ m ∈ found, m ∈ constructs text) {tokens : List Token}
    (run : Yields (readFrom (.ofText text) separate offset rest found) tokens) :
    ∀ token ∈ tokens, token.Fair (Given limit text) limit := by
  have texts {piece : Piece} :
      ∀ token ∈ ofText (.ofText text) separate piece, token.Fair (Given limit text) limit := by
    intro token member
    obtain ⟨⟨kind, content⟩, -⟩ := content_ofText member
    rw [Token.Fair, content]
    trivial
  induction found generalizing offset rest tokens with
  | nil =>
    rw [yields_pure.mp run]
    exact List.forall_mem_append.mpr ⟨texts, List.forall_mem_singleton.mpr trivial⟩
  | cons m more ih =>
    obtain ⟨construct, others⟩ := List.forall_mem_cons.mp known
    obtain ⟨token, here, run⟩ := run.of_bind fun _ =>
      writes_bind (readFrom_writes _ _ _ _ _) fun _ => writes_pure _
    obtain ⟨after, later, last⟩ := run.of_bind fun _ => writes_pure _
    rw [yields_pure.mp last]
    refine List.forall_mem_append.mpr ⟨texts, List.forall_mem_cons.mpr ⟨?_, ih others later⟩⟩
    exact ofConstruct_fair construct here

end Token

/-! ### Trees -/

namespace Analysis

theorem ofText_silent {options : Options} {source : String} {analysis : Analysis}
    (analysed : ofText options source = .ok analysis) (silent : analysis.diagnostics = []) :
    Token.read options.preserveWhitespace.truthy source.toList = .ok (analysis.tokens, []) ∧
      Tree.ofTokens options.maxDepth analysis.tokens = (.ok analysis.tree, []) := by
  obtain ⟨lexed, found, tokenized, parsed, -, merged⟩ := ofText_stages analysed
  have none {group : List Diagnostic}
      (listed : group ∈ [Check.diagnostics source.toList, lexed, found]) : group = [] := by
    refine List.eq_nil_iff_forall_not_mem.mpr fun d member => ?_
    obtain ⟨kept, inside, -⟩ := Diagnostic.exists_mem_merge listed member
    rw [← merged, silent] at inside
    cases inside
  obtain rfl := none (by simp : lexed ∈ _)
  obtain rfl := none (by simp : found ∈ _)
  exact ⟨tokenized, parsed⟩

/-- Where nothing is reported, every call and every filter of the tree is written at its span, and
its arguments are, one by one, the parses of the pieces between its separators that are not
blank. -/
theorem arguments_are_parses {options : Options} {source : String} {analysis : Analysis}
    (analysed : ofText options source = .ok analysis) (silent : analysis.diagnostics = []) :
    Tell analysis.tree.mentions (Outline.childEntries (Node.outlines analysis.tree.nodes)) ∧
      ∀ mention ∈ analysis.tree.mentions, mention.Given options.maxDepth source.toList := by
  obtain ⟨tokenized, parsed⟩ := ofText_silent analysed silent
  obtain ⟨problems, read, none⟩ := Lexing.run_ok.mp tokenized
  obtain rfl := List.map_eq_nil_iff.mp none.symm
  have fair : ∀ token ∈ analysis.tokens,
      token.Fair (Given options.maxDepth source.toList) options.maxDepth :=
    Token.readFrom_fair (fun _ member => member) read
  obtain ⟨g, run, quiet⟩ := Tree.returns_of_ofTokens parsed
  obtain ⟨more, notes, grows⟩ := Stack.build_grows run
  refine ⟨Node.tell_all _, fun mention member => ?_⟩
  have whole : Node.allMentions analysis.tree.nodes ⊆ more := by
    simpa [Stack.mentions, Node.allMentions] using grows.subset
  exact notes.good fair quiet.symm mention (whole member)

/-- A call and a filter, each with a blank piece among those of its arguments. -/
theorem arguments_are_parses_between_gaps : ∃ analysis,
    ofText Options.standard "{{f(x,,1)|g: :2}}" = .ok analysis ∧ analysis.diagnostics = [] ∧
      ∀ mention ∈ analysis.tree.mentions,
        mention.Given Options.standard.maxDepth "{{f(x,,1)|g: :2}}".toList := by
  have valid : (ofText Options.standard "{{f(x,,1)|g: :2}}").toOption.any
      (·.diagnostics.isEmpty) = true := by
    decide +kernel
  cases analysed : ofText Options.standard "{{f(x,,1)|g: :2}}" with
  | error error => simp [analysed, Except.toOption] at valid
  | ok analysis =>
    have silent : analysis.diagnostics = [] := by simpa [analysed, Except.toOption] using valid
    exact ⟨analysis, rfl, silent, (arguments_are_parses analysed silent).2⟩

theorem gap_analysed :
    (ofText Options.standard "{{f(,1)}}").map (fun analysis =>
        (analysis.tree.nodes, analysis.diagnostics)) =
      .ok ([.output ⟨0, 9, ⟨1, 1⟩⟩ "f(,1)" (some (.call ⟨2, 7, ⟨1, 3⟩⟩ "f"
        [.literal (some ⟨5, 6, ⟨1, 6⟩⟩) (.number (.int 1))])) []], []) := by
  cbv

/-- Not every piece between the separators is an argument: a blank one is dropped, and nothing is
reported. -/
theorem blank_piece_is_no_argument :
    ¬ ∀ (options : Options) (source : String) (analysis : Analysis),
      ofText options source = .ok analysis → analysis.diagnostics = [] →
      ∀ span callee args gap inner, .call span callee args ∈ analysis.tree.mentions →
        span.slice source.toList = callee.toList ++ (gap ++ '(' :: (inner ++ [')'])) →
        (∀ c ∈ gap, Text.isBlank c = true) → inner.all Text.isBlank = false →
        args.length = (cut ',' inner).length := by
  intro every
  obtain ⟨analysis, analysed, known⟩ := exists_of_map_ok gap_analysed
  obtain ⟨nodes, silent⟩ := Prod.mk.inj known
  have same := every _ _ analysis analysed silent ⟨2, 7, ⟨1, 3⟩⟩ "f"
    [.literal (some ⟨5, 6, ⟨1, 6⟩⟩) (.number (.int 1))] [] [',', '1']
    (by simp [Tree.mentions, nodes, Node.allMentions, Node.mentions, Expression.mentions])
    (by decide) (by simp) (by decide)
  exact absurd same (by decide)

end Analysis

end Stencil
