import Stencil.Analysis
import Stencil.Proofs.Enclosure
import Stencil.Proofs.Step

/-! A printed interpolation is read back to what it stands for: one node with its expression, its
filters and their arguments, and no diagnostics. Nesting beyond the limit is the only obstacle. -/
namespace Stencil.Notation
open Text Markup

/-! ### Tokens -/

section Tokens

variable {lines : Lines}

/-- The filter of a token stands for the filter. -/
def Filter.IsLexeme (filter : Filter) (lexeme : FilterLexeme) : Prop :=
  lexeme.name = String.ofList filter.name.text ∧ ArgsMean lexeme.args (argTerms filter.args)

theorem understands_read (phrase : Phrase) : Understands (Lexeme.read (some lines)) phrase := by
  intro start
  simpa using gives_read (some lines) 0 0 phrase start

theorem gives_filterOf {filter : Filter} {m : Match} (same : filter.IsMatch m) :
    Gives (Token.filterOf lines m) filter.IsLexeme := by
  obtain ⟨argumentText, arguments, detail, texts⟩ := same
  rw [Token.filterOf, detail]
  refine gives_bind (gives_pieces (fun arg _ => understands_read arg) texts) fun args given => ?_
  have silent : Gives (pure ⟨⟩ : Lexing PUnit) fun _ => True := gives_pure trivial
  exact gives_bind silent fun _ _ => gives_pure ⟨rfl, given⟩

theorem gives_filters {filters : List Filter} {found : List Match}
    (same : List.Forall₂ Filter.IsMatch filters found) :
    Gives (found.mapM (Token.filterOf lines)) (List.Forall₂ Filter.IsLexeme filters) := by
  induction same with
  | nil => exact gives_pure .nil
  | cons first _ ih =>
    rw [List.mapM_cons]
    refine gives_bind (gives_filterOf first) fun lexeme known => ?_
    exact gives_bind ih fun lexemes others => gives_pure (.cons known others)

/-- The token stands for the interpolation. -/
def Interpolation.IsToken (i : Interpolation) (token : Token) : Prop :=
  ∃ expression filters source, token.content = .output expression filters source ∧
    ChainMeans expression i.phrase.group ∧ List.Forall₂ Filter.IsLexeme i.filters filters

theorem gives_outputOf (i : Interpolation) (span : Span) :
    Gives (Token.outputOf lines span i.construct) i.IsToken := by
  have inner : i.construct.capture 0 = i.inner := rfl
  have reads := gives_read (some lines) 1 1 i.phrase (i.construct.start + 2)
  have head := congrArg (fun text => Gives (Lexeme.read (some lines) ⟨text, i.construct.start + 2⟩)
    (ChainMeans · i.phrase.group)) (head_inner i (i.construct.start + 2))
  rw [Token.outputOf, inner]
  refine gives_bind (head.mpr reads) fun expression means => ?_
  refine gives_bind (gives_filters (isMatch_inner i _)) fun filters known => gives_pure ?_
  exact ⟨expression, filters, _, rfl, means, known⟩

theorem gives_tokens (lines : Lines) (i : Interpolation) (separate : Bool) :
    Gives (Token.readFrom lines separate 0 i.source (constructs i.source)) fun tokens =>
      ∃ token span, tokens = [token, ⟨"", span, .done⟩] ∧ i.IsToken token := by
  have stop : i.construct.stop = i.source.length := Nat.zero_add _
  have behind : i.source.drop (i.construct.stop - 0) = [] := by
    rw [Nat.sub_zero, stop, List.drop_length]
  have last : Gives (Token.readFrom lines separate i.construct.stop [] []) fun tokens =>
      ∃ span, tokens = [⟨"", span, .done⟩] := gives_pure ⟨_, rfl⟩
  rw [constructs_source, Token.readFrom, behind]
  refine gives_bind (gives_outputOf i _) fun token known => ?_
  refine gives_bind last ?_
  rintro _ ⟨span, rfl⟩
  exact gives_pure ⟨token, span, rfl, known⟩

end Tokens

/-! ### Tree -/

section Building
open TreeReading

/-- The filters that a node uses, by name and arguments. -/
def useTerms (filters : List FilterUse) : List (String × List Term) :=
  filters.map fun use => (use.name, Expression.terms use.args)

def filterTerms (filters : List Filter) : List (String × List Term) :=
  filters.map fun filter => (String.ofList filter.name.text, argTerms filter.args)

theorem yields_filters {limit room : Nat} {filters : List Filter} {lexemes : List FilterLexeme}
    (known : List.Forall₂ Filter.IsLexeme filters lexemes) :
    Yields (lexemes.mapM (Placement.filterUse limit room))
      (∀ filter ∈ filters, depths (argTerms filter.args) ≤ room)
      fun uses => useTerms uses = filterTerms filters := by
  have inner : Inner room (Expression.read limit room 0) := fun means =>
    yields_read_group limit room means fun _ _ => Nat.zero_le _
  induction known with
  | nil => exact yields_congr (by simp) (yields_pure rfl)
  | @cons filter lexeme filters lexemes first _ ih =>
    obtain ⟨name, given⟩ := first
    rw [List.mapM_cons]
    have use : Yields (Placement.filterUse limit room lexeme) (depths (argTerms filter.args) ≤ room)
        fun use => use.name = lexeme.name ∧ Expression.terms use.args = argTerms filter.args :=
      yields_map (yields_ofArguments inner given) fun args same => ⟨rfl, same⟩
    refine yields_congr List.forall_mem_cons.symm (yields_bind use ?_)
    rintro - use ⟨called, same⟩
    refine yields_map ih fun uses others => ?_
    rw [useTerms, List.map_cons, called, same, name]
    exact congrArg _ others

/-- The node stands for the interpolation. -/
def Interpolation.IsNode (i : Interpolation) (node : Node) : Prop :=
  ∃ span text value filters, node = .output span text (some value) filters ∧
    value.term = i.phrase.term ∧ useTerms filters = filterTerms i.filters

theorem yields_output (i : Interpolation) {limit room : Nat} {token : Token}
    {expression : List Lexeme} {filters : List FilterLexeme}
    (means : ChainMeans expression i.phrase.group)
    (known : List.Forall₂ Filter.IsLexeme i.filters filters) :
    Yields (Placement.output limit room token expression filters) (i.Within room) i.IsNode := by
  have full := nonempty_of_groupMeans (groupMeans_of_chainMeans means)
  have value : Yields (some <$> Expression.read limit room 0 expression)
      (i.phrase.term.depth ≤ room) fun value => ∃ e, value = some e ∧ e.term = i.phrase.term := by
    rw [map_eq_pure_bind]
    exact yields_map (yields_read means) fun e same => ⟨e, rfl, same⟩
  rw [Placement.output, if_neg (by simpa using full)]
  refine yields_bind value ?_
  rintro - _ ⟨e, rfl, same⟩
  exact yields_map (yields_filters known) fun uses others => ⟨_, _, e, uses, rfl, same, others⟩

theorem yields_build (i : Interpolation) {limit : Nat} {stop : Option Nat} {token : Token}
    {span : Span} (known : i.IsToken token) :
    Yields (Stack.build limit stop ⟨[], []⟩ [token, ⟨"", span, .done⟩]) (i.Within limit)
      fun nodes => ∃ node, nodes = [node] ∧ i.IsNode node := by
  obtain ⟨expression, filters, source, content, means, given⟩ := known
  have placed : Yields (Placement.ofToken limit 0 token) (i.Within limit) fun placement =>
      ∃ node, placement = .node node ∧ i.IsNode node := by
    rw [Placement.ofToken, content]
    exact yields_map (yields_output i means given) fun node fits => ⟨node, rfl, fits⟩
  have fed : Yields (Stack.feed limit token none [] []) (i.Within limit) fun stack =>
      ∃ node, stack = ⟨[], [node]⟩ ∧ i.IsNode node := by
    refine yields_map placed ?_
    rintro _ ⟨node, rfl, fits⟩
    exact ⟨node, rfl, fits⟩
  have goesOn : token.isDone = false := by rw [Token.isDone, content]
  rw [Stack.build, goesOn, if_neg Bool.false_ne_true]
  refine yields_congr (and_iff_left trivial) (yields_bind fed ?_)
  rintro - _ ⟨node, rfl, fits⟩
  exact yields_pure ⟨node, rfl, fits⟩

end Building

/-! ### Analysis -/

section Analysis

theorem read_source (i : Interpolation) (separate : Bool) :
    ∃ token span, Token.read separate i.source = .ok ([token, ⟨"", span, .done⟩], []) ∧
      i.IsToken token := by
  obtain ⟨tokens, returns, token, span, rfl, known⟩ :=
    gives_tokens (.ofText i.source) i separate []
  exact ⟨token, span, Lexing.run_ok.mpr ⟨[], returns, rfl⟩, known⟩

theorem ofTokens_cases (i : Interpolation) (limit : Nat) {token : Token} (span : Span)
    (known : i.IsToken token) :
    (i.Within limit ∧ ∃ tree node, Tree.ofTokens limit [token, ⟨"", span, .done⟩] = (.ok tree, []) ∧
      tree.nodes = [node] ∧ i.IsNode node) ∨
    (¬ i.Within limit ∧ ∃ cause built, cause.OfDepth ∧
      Tree.ofTokens limit [token, ⟨"", span, .done⟩] = (.error cause, built)) := by
  rcases yields_build i known Tree.start with
    ⟨fits, nodes, g, returns, silent, node, rfl, same⟩ | ⟨tight, cause, g, fails, deep⟩
  · refine .inl ⟨fits, ⟨[node], g.names, g.functions, g.blocks⟩, node, ?_, rfl, same⟩
    rw [Tree.ofTokens_of_returns returns, silent]
    rfl
  · exact .inr ⟨tight, cause, _, deep, Tree.ofTokens_of_fails fails⟩

theorem ofText_cases (options : Options) (i : Interpolation) :
    (i.Within options.maxDepth ∧ ∃ analysis node,
      Analysis.ofText options (String.ofList i.source) = .ok analysis ∧
        analysis.diagnostics = [] ∧ analysis.tree.nodes = [node] ∧ i.IsNode node) ∨
    (¬ i.Within options.maxDepth ∧ ∃ cause,
      Analysis.ofText options (String.ofList i.source) = .error (.ofCause cause) ∧
        cause.OfDepth) := by
  obtain ⟨token, span, read, known⟩ := read_source i options.preserveWhitespace.truthy
  have text : (String.ofList i.source).toList = i.source := String.toList_ofList
  have silent : Diagnostic.merge [Check.diagnostics i.source, [], []] = [] := by
    rw [diagnostics_source]
    simp [Diagnostic.merge, Diagnostic.firsts]
  rcases ofTokens_cases i options.maxDepth span known with
    ⟨fits, tree, node, built, nodes, same⟩ | ⟨tight, cause, built, deep, fails⟩
  · refine .inl ⟨fits, ⟨String.ofList i.source, [token, ⟨"", span, .done⟩], tree, []⟩, node, ?_, rfl,
      nodes, same⟩
    rw [Analysis.ofText, text, read]
    simp only [liftFault, bind, Except.bind, built, silent]
    rfl
  · refine .inr ⟨tight, cause, ?_, deep⟩
    rw [Analysis.ofText, text, read]
    simp only [liftFault, bind, Except.bind, fails]
    rfl

/-- Printing an interpolation and reading it back is the identity: the template of an interpolation
that nests no deeper than the limit has no diagnostics and one node, with the expression, the names
of the filters and their arguments that the interpolation stands for. -/
theorem printed_interpolation_is_read_back (options : Options) (i : Interpolation)
    (fits : i.Within options.maxDepth) :
    ∃ analysis node, Analysis.ofText options (String.ofList i.source) = .ok analysis ∧
      analysis.diagnostics = [] ∧ analysis.tree.nodes = [node] ∧ i.IsNode node := by
  rcases ofText_cases options i with ⟨-, known⟩ | ⟨tight, -⟩
  · exact known
  · exact absurd fits tight

/-- A call next to a chain, with two filters. -/
def cutOfCall : Interpolation :=
  let name (text : List Char) (valid : isName text = true) : Name := ⟨text, valid⟩
  let x := name ['x'] (by decide)
  { phrase :=
      .more 0 (.call (name ['m', 'a', 'x'] (by decide))
          [.last 0 (.text ['a', '|', '"'] (by decide)), .last 2 (.integer 1 (by decide))]) .or
        (.last 1 (.path x (.property x) [.index (.last 0 (.integer 2 (by decide)))]))
    filters := [⟨name ['t', 'r', 'i', 'm'] (by decide), []⟩,
      ⟨name ['c', 'u', 't'] (by decide), [.last 0 (.integer 3 (by decide)), .last 0 .null]⟩] }

theorem cutOfCall_is_read_back :
    ∃ analysis node, Analysis.ofText .standard
        "\x7b\x7b max(\"a|\\\"\", --1) || -x.x[2] | trim | cut:3:null \x7d\x7d" = .ok analysis ∧
      analysis.diagnostics = [] ∧ analysis.tree.nodes = [node] ∧ cutOfCall.IsNode node := by
  have fits : cutOfCall.Within Options.standard.maxDepth := ⟨by decide, by decide⟩
  exact printed_interpolation_is_read_back .standard cutOfCall fits

/-- An interpolation that nests deeper is not read. -/
theorem deeper_interpolation_is_not_read (options : Options) (i : Interpolation)
    (deep : ¬ i.Within options.maxDepth) :
    ∃ cause, Analysis.ofText options (String.ofList i.source) = .error (.ofCause cause) ∧
      cause.OfDepth := by
  rcases ofText_cases options i with ⟨fits, -⟩ | ⟨-, known⟩
  · exact absurd fits deep
  · exact known

end Analysis

end Stencil.Notation
