import Stencil.Proofs.Calm
import Stencil.Proofs.Chains
import Stencil.Proofs.Dotted

/-! Points and brackets. A property behind a point may be written as its name in quotes between
brackets: on texts, lists and dictionaries, and where there is no value, the chain keeps its value.
The name in the brackets is an expression of its own, so such a chain needs room for two levels. -/
namespace Stencil

/-! ### Names as keys -/

/-- No name is read as an integer. -/
theorem Reading.whole_of_isName {name : List Char} (valid : Text.isName name = true) :
    whole? name = none := by
  obtain ⟨c, rest, rfl, start, word⟩ := Text.exists_cons_of_isName valid
  have tight : Text.IsTight (c :: rest) :=
    Notation.isTight_of_isWord (Text.isWord_of_isName valid) (by simp)
  have other (sign : Char) (apart : Text.isNameStart sign = false) : c ≠ sign := by
    rintro rfl
    rw [start] at apart
    contradiction
  have unsigned : sign (c :: rest) = (false, c :: rest) := by
    rw [sign.eq_3]
    · rintro more ⟨⟩
      exact other '-' rfl rfl
    · rintro more ⟨⟩
      exact other '+' rfl rfl
  have digit : Text.digitValue? c = none := by
    simpa [Text.isDigit] using Text.not_isDigit_of_isNameStart start
  have run : digitRun false (c :: rest) = ([], c :: rest) := by simp [digitRun, digit]
  rw [whole?, Text.trimPlain_of_isTight tight, unsigned]
  simp only [run]

namespace Value

/-- Texts, lists and dictionaries, and the lack of a value. -/
inductive HasParts : Value → Prop
  | undefined : HasParts undefined
  | null : HasParts null
  | text (s : String) : HasParts (text s)
  | safe (s : String) : HasParts (safe s)
  | list (items : List Value) : HasParts (list items)
  | dict (entries : List (String × Value)) : HasParts (dict entries)

/-- What has parts has no methods. -/
theorem HasParts.property_eq {value : Value} (parts : value.HasParts) (standing : Owner → Nat)
    (name : String) : value.property standing name = (value.field? name).getD .undefined := by
  rw [property]
  cases value.field? name with
  | some part => rfl
  | none => cases parts <;> rfl

/-- What has parts has the same part at a name as behind a point. -/
theorem index_name {value : Value} (parts : value.HasParts) (standing : Owner → Nat)
    (name : Notation.Name) :
    value.index (.text (String.ofList name.text)) =
      .ok (value.property standing (String.ofList name.text)) := by
  rw [parts.property_eq]
  have place : placeOf (.text (String.ofList name.text)) =
      if String.ofList name.text == "length" then .size else .nowhere := by
    rw [placeOf, String.toList_ofList, Reading.whole_of_isName name.valid]
  cases parts with
  | undefined => rfl
  | null => rfl
  | text s | safe s =>
    rw [index, place, field?, ← String.length_toList]
    split <;> rfl
  | list items =>
    rw [index, place, field?]
    split <;> rfl
  | dict entries => rfl

end Value

/-! ### Names in brackets -/

namespace Notation
open Text

/-- A name has nothing to escape. -/
theorem quote_name (name : Name) : quote name.text = '"' :: (name.text ++ ['"']) := by
  have plain : ∀ c ∈ name.text, escapeChar c = [c] := by
    intro c member
    have part := isWord_of_isName name.valid c member
    have other (d : Char) (apart : isNamePart d = false) : c ≠ d := by
      rintro rfl
      rw [part] at apart
      contradiction
    simp [escapeChar, other '"' rfl, other '\\' rfl]
  have same : escape name.text = name.text.flatMap fun c => [c] :=
    List.flatMap_congr plain
  rw [quote, same, List.flatMap_singleton']

def Name.quoted (name : Name) : Phrase :=
  .last 0 (.text name.text (by
    rintro ⟨before, after, shape⟩
    have inside : '}' ∈ name.text := by simp [← shape]
    exact Markup.not_mem_of_isName name.valid (by decide) inside))

theorem Name.print_quoted (name : Name) : name.quoted.print = '"' :: (name.text ++ ['"']) := by
  rw [Name.quoted, Phrase.print, Atom.print, quote_name]
  rfl

theorem Name.trim_quoted (name : Name) :
    trim ('"' :: (name.text ++ ['"'])) = '"' :: (name.text ++ ['"']) := by
  have whole := trim_of_isTight [] [] name.quoted.tight (by simp) (by simp)
  rwa [name.print_quoted, List.nil_append, List.append_nil] at whole

/-- Only a literal stands for a text. -/
theorem eq_of_chainMeans_text {row : List Lexeme} {s : String}
    (means : ChainMeans row (.operand (.literal (.text s)))) :
    ∃ span text, row = [.literal span text (.text s)] := by
  generalize shape : Group.operand (.literal (.text s)) = group at means
  cases means with
  | last operand =>
    obtain rfl := Group.operand.inj shape
    cases operand with
    | atom lexeme =>
      cases lexeme with
      | literal => exact ⟨_, _, rfl⟩
      | path walk => exact absurd walk (not_stepsMean_literal (by simp))
  | @more _ _ term _ op group operand later =>
    have member : op ∈ (group.attach term op).operators := Group.mem_attach.mpr (.inl rfl)
    rw [← shape] at member
    contradiction

end Notation

namespace Markup
open Text Notation

/-- The name as a text in brackets. -/
def Link.quoted (name : Name) : Link :=
  .bracket ('"' :: (name.text ++ ['"'])) (by
    rw [← quote_name, closingFrom_opens rfl, closingFrom_quoted, closingFrom_closes rfl]
    simp [Nat.add_comm])

/-- The second step is the first one, or has its name in brackets. -/
inductive Link.Bracketed : Link → Link → Prop
  | same (link : Link) : Bracketed link link
  | quoted (name : Name) : Bracketed (.point name) (.quoted name)

/-- The second chain is the first one with some of its properties in brackets. -/
structure Accessor.Bracketed (chain other : Accessor) : Prop where
  base : other.base = chain.base
  links : List.Forall₂ Link.Bracketed chain.links other.links

end Markup

/-! ### Lexemes -/

/-- The second step is the first one but for spans, or has its name as a text in brackets. -/
inductive PathStep.Bracketed : PathStep → PathStep → Prop
  | same {step other : PathStep} (same : PathStep.Same step other) : Bracketed step other
  | quoted (name : Notation.Name) (span : Span) (text : String) :
      Bracketed (.property (String.ofList name.text))
        (.index [.literal span text (.text (String.ofList name.text))])

/-- Each row is one path, and the second path is the first one with names in brackets. -/
inductive Lexeme.BracketedRow : List Lexeme → List Lexeme → Prop
  | path (span span' : Span) (text text' base : String) {steps others : List PathStep}
      (alike : List.Forall₂ PathStep.Bracketed steps others) :
      BracketedRow [.path span text base steps] [.path span' text' base others]

namespace Lexeme
open Text Markup Notation

theorem read_chain (chain : Accessor) (lines : Option Lines) (start : Nat) {fuel : Nat}
    (enough : chain.text.length ≤ fuel) :
    read lines ⟨chain.text, start⟩ = do
      let steps ← (Link.segments (start + chain.lead.length + chain.base.text.length)
        chain.links).mapM (stepOf (readWithin lines fuel))
      return [.path (.locate lines (chain.element start).start (chain.element start).stop)
        (String.ofList chain.word) (String.ofList chain.base.text) steps] := by
  have silent : reportUnclaimed ⟨chain.text, start⟩ [chain.element start] = pure ⟨⟩ := by
    rw [reportUnclaimed, chain.unclaimed_text start]
    rfl
  have fuels : read lines ⟨chain.text, start⟩ = readWithin lines (fuel + 1) ⟨chain.text, start⟩ :=
    readWithin_fuel lines (Nat.lt_succ_self _) (Nat.lt_succ_of_le enough)
  rw [fuels, readWithin, chain.selected_text start, silent, pure_bind, List.mapM_cons, List.mapM_nil]
  rw [Accessor.element, ofElement_path]
  simp only [bind_assoc, pure_bind]
  rfl

variable {lines lines' : Option Lines}

theorem quoted_returns (name : Name) (lines : Option Lines) (fuel start : Nat)
    (short : ('"' :: (name.text ++ ['"'])).length < fuel) (problems : List Problem) :
    ∃ span text, Returns (readWithin lines fuel ⟨'"' :: (name.text ++ ['"']), start⟩) problems
      [.literal span text (.text (String.ofList name.text))] problems := by
  have gives := gives_read lines 0 0 name.quoted start
  rw [name.print_quoted, List.replicate_zero, List.append_nil, List.nil_append] at gives
  obtain ⟨row, run, means⟩ := gives problems
  obtain ⟨span, text, rfl⟩ := eq_of_chainMeans_text means
  refine ⟨span, text, ?_⟩
  rwa [readWithin_fuel lines short (Nat.lt_succ_self _)]

theorem segments_bracketed {links others : List Link}
    (alike : List.Forall₂ Link.Bracketed links others) {fuel : Nat}
    (short : (Link.allText others).length ≤ fuel) (offset offset' : Nat) :
    List.Forall₂ (fun segment other => Copies PathStep.Bracketed
        (stepOf (readWithin lines fuel) segment) (stepOf (readWithin lines' fuel) other))
      (Link.segments offset links) (Link.segments offset' others) := by
  induction alike generalizing offset offset' with
  | nil => exact .nil
  | @cons link other links others here _ ih =>
    rw [Link.allText_cons, List.length_append] at short
    have later := ih (by omega)
    cases here with
    | same =>
      cases link with
      | point name => exact .cons (mirrors_pure (.same (.property _))) (later _ _)
      | bracket inner closed =>
        refine .cons ?_ (later _ _)
        exact (readWithin_copies fuel _ _ _).bind fun row row' same =>
          mirrors_pure (.same (.index same))
    | quoted name =>
      refine .cons ?_ (later _ _)
      intro problems problems' same
      have inside := name.trim_quoted
      rw [Link.quoted, Link.text, List.length_cons, List.length_append] at short
      obtain ⟨span, text, run⟩ := quoted_returns name lines' fuel _ (by omega) problems'
      rw [← inside] at run
      exact .inl ⟨_, problems, _, problems', rfl, returns_bind.mpr ⟨_, _, run, rfl⟩,
        .quoted name span text, same⟩

theorem read_bracketed {chain other : Accessor} (bracketed : chain.Bracketed other)
    (lines lines' : Option Lines) (start start' : Nat) :
    Copies BracketedRow (read lines ⟨chain.text, start⟩) (read lines' ⟨other.text, start'⟩) := by
  -- Both are read with the fuel of the longer one, since what is inside is compared fuel by fuel.
  have first := read_chain chain lines start (Nat.le_max_left chain.text.length other.text.length)
  have second := read_chain other lines' start' (Nat.le_max_right chain.text.length other.text.length)
  have inside : (Link.allText other.links).length ≤ max chain.text.length other.text.length := by
    refine Nat.le_trans ?_ (Nat.le_max_right _ _)
    simp only [Accessor.text, Accessor.word, List.length_append]
    omega
  rw [first, second, bracketed.base]
  exact (mirrors_mapM_forall₂ (segments_bracketed bracketed.links inside _ _)).bind
    fun steps others alike => mirrors_pure (.path _ _ _ _ _ alike)

end Lexeme

/-! ### Expressions -/

/-- Both readings return, results that are related, or both fail. -/
def TreeReading.Alongside {α β : Type} (results : α → β → Prop) (first : TreeReading α)
    (second : TreeReading β) : Prop :=
  ∀ g g', g.SameReports g' →
    (∃ a h b h', Returns first g a h ∧ Returns second g' b h' ∧ results a b ∧ h.SameReports h') ∨
      (∃ cause h, Fails first g cause h) ∧ ∃ cause h, Fails second g' cause h

section Alongside
open TreeReading

variable {α β γ δ : Type} {results : α → β → Prop} {others : γ → δ → Prop}
  {first : TreeReading α} {second : TreeReading β}

theorem alongside_pure {a : α} {b : β} (same : results a b) :
    Alongside results (pure a) (pure b) :=
  fun g g' reports => .inl ⟨a, g, b, g', rfl, rfl, same, reports⟩

theorem TreeReading.Alongside.bind {next : α → TreeReading γ} {later : β → TreeReading δ}
    (along : Alongside results first second)
    (after : ∀ a b, results a b → Alongside others (next a) (later b)) :
    Alongside others (first >>= next) (second >>= later) := by
  intro g g' reports
  rcases along g g' reports with ⟨a, h, b, h', here, there, same, kept⟩ |
    ⟨⟨cause, h, here⟩, cause', h', there⟩
  · rcases after a b same h h' kept with ⟨c, k, d, k', more, further, fit, held⟩ |
      ⟨⟨cause, k, more⟩, cause', k', further⟩
    · exact .inl ⟨c, k, d, k', returns_bind.mpr ⟨a, h, here, more⟩,
        returns_bind.mpr ⟨b, h', there, further⟩, fit, held⟩
    · exact .inr ⟨⟨cause, k, fails_bind.mpr (.inr ⟨a, h, here, more⟩)⟩,
        cause', k', fails_bind.mpr (.inr ⟨b, h', there, further⟩)⟩
  · exact .inr ⟨⟨cause, h, fails_bind.mpr (.inl here)⟩, cause', h', fails_bind.mpr (.inl there)⟩

/-- Where each reading returns if the other does, they go alongside. -/
theorem alongside_of_follows {first second : TreeReading Expression}
    (forth : Expression.Follows first second) (back : Expression.Follows second first) :
    Alongside (fun e e' => e.term = e'.term) first second := by
  intro g g' reports
  rcases returns_or_fails first g with ⟨e, h, run⟩ | ⟨cause, h, failed⟩
  · obtain ⟨e', h', run', same, kept⟩ := forth.returns reports run
    exact .inl ⟨e, h, e', h', run, run', same, kept⟩
  · rcases returns_or_fails second g' with ⟨e', h', run'⟩ | ⟨cause', h', failed'⟩
    · obtain ⟨e, h', run, -⟩ := back.returns reports.symm run'
      exact absurd run failed.not_returns
    · exact .inr ⟨⟨cause, h, failed⟩, cause', h', failed'⟩

end Alongside

namespace Expression
open TreeReading Lexeme

/-- The second expression is the first one with properties as elements at their names, and has its
spans elsewhere. -/
inductive Bracketed : Expression → Expression → Prop
  | name (span span' : Span) (word : String) : Bracketed (.name span word) (.name span' word)
  | property (span span' : Span) (key : String) {object object' : Expression}
      (objects : Bracketed object object') :
      Bracketed (.property span object key) (.property span' object' key)
  | element (span span' : Span) {object object' index index' : Expression}
      (objects : Bracketed object object') (same : index.term = index'.term) :
      Bracketed (.element span object index) (.element span' object' index')
  | quoted (span span' : Span) (place : Option Span) (key : Notation.Name)
      {object object' : Expression} (objects : Bracketed object object') :
      Bracketed (.property span object (String.ofList key.text))
        (.element span' object' (.literal place (.text (String.ofList key.text))))

theorem ofSteps_bracketed (limit limit' room : Nat) (span span' : Span) {steps others : List PathStep}
    (alike : List.Forall₂ PathStep.Bracketed steps others) {object object' : Expression}
    (objects : Bracketed object object') :
    Alongside Bracketed (ofSteps (read limit (room + 1) 0) span object steps)
      (ofSteps (read limit' (room + 1) 0) span' object' others) := by
  induction alike generalizing object object' with
  | nil => exact alongside_pure objects
  | cons here _ ih =>
    cases here with
    | same same =>
      cases same with
      | property key => exact ih (.property span span' key objects)
      | index same =>
        exact (alongside_of_follows (read_follows limit limit' _ same)
          (read_follows limit' limit _ same.symm)).bind fun e e' equal =>
            ih (.element span span' objects equal)
    | quoted name place text =>
      -- The text is read a level below the chain, where there is room left for it.
      exact ih (.quoted span span' (some place) name objects)

/-- Where there is room for two levels, both rows are read alike. -/
theorem read_bracketed (limit limit' : Nat) {room : Nat} (roomy : 2 ≤ room) {row other : List Lexeme}
    (alike : BracketedRow row other) :
    Alongside Bracketed (read limit room 0 row) (read limit' room 0 other) := by
  obtain ⟨less, rfl⟩ := Nat.exists_eq_add_of_le' roomy
  cases alike with
  | path span span' text text' base alike =>
    have noted : Alongside (fun _ _ => True) (noteVariable base) (noteVariable base) :=
      fun g g' reports => .inl ⟨⟨⟩, _, ⟨⟩, _, rfl, rfl, trivial, reports⟩
    exact noted.bind fun _ _ _ => ofSteps_bracketed limit limit' less span span' alike
      (.name span span' base)

/-! ### Values -/

section Value

variable {σ : Type} {setting : Setting σ} {world : World σ}

/-- Every value that a step of the chain is applied to has parts. -/
def AppliesToParts (setting : Setting σ) (world : World σ) : Expression → Prop
  | .property _ object _ | .element _ object _ =>
    object.AppliesToParts setting world ∧
      ∀ value after, Returns (object.evaluate setting) world value after → value.HasParts
  | _ => True

/-- Both chains start from one name. -/
theorem Bracketed.root?_eq {e e' : Expression} (bracketed : Bracketed e e') : e'.root? = e.root? := by
  induction bracketed with
  | name => rfl
  | property _ _ _ _ ih => exact ih
  | element _ _ _ _ ih => exact ih
  | quoted _ _ _ _ _ ih => exact ih

theorem Bracketed.evaluate_eq {e e' : Expression} (bracketed : Bracketed e e')
    (applies : e.AppliesToParts setting world) :
    (e'.evaluate setting).run.run world = (e.evaluate setting).run.run world := by
  induction bracketed with
  | name => rfl
  | property span span' key objects ih =>
    rw [evaluate, evaluate, run_bind, run_bind, ih applies.1, standing, standing, objects.root?_eq]
  | element span span' objects same ih =>
    rw [evaluate, evaluate, run_bind, run_bind, ih applies.1,
      sameValue_of_term _ _ same]
  | @quoted span span' place key object object' objects ih =>
    rw [evaluate, evaluate, run_bind, run_bind, ih applies.1]
    -- Both steps are applied to one value, in one world.
    rcases returns_or_fails (object.evaluate setting) world with
      ⟨value, after, run⟩ | ⟨e, after, failed⟩
    · have part := Value.index_name (applies.2 value after run) (object.standing setting.memory) key
      rw [show (object.evaluate setting).run.run world = _ from run]
      simp only [evaluate, pure_bind, Literal.value, part]
      rfl
    · rw [show (object.evaluate setting).run.run world = _ from failed]

end Value
end Expression

/-! ### Chains with brackets for points -/

section Interchange
open Markup Notation

/-- A chain and the same chain with names in brackets instead of behind points: where there is room
for two levels, both are read or neither is, with the same reports, and both have the same value in
every scope where the steps are applied to texts, lists, dictionaries or no value. -/
theorem brackets_for_points_keep_the_value {chain other : Accessor} (bracketed : chain.Bracketed other)
    (lines lines' : Option Text.Lines) (start start' limit limit' : Nat) {room : Nat}
    (roomy : 2 ≤ room) (problems : List Problem) (g : Gathered) :
    (∃ fault p p', Fails (Lexeme.read lines ⟨chain.text, start⟩) problems fault p ∧
      Fails (Lexeme.read lines' ⟨other.text, start'⟩) problems fault p') ∨
    ∃ row row' p p', Returns (Lexeme.read lines ⟨chain.text, start⟩) problems row p ∧
      Returns (Lexeme.read lines' ⟨other.text, start'⟩) problems row' p' ∧ SameProblems p p' ∧
      ((∃ cause cause' h h', Fails (Expression.read limit room 0 row) g cause h ∧ cause.OfDepth ∧
          Fails (Expression.read limit' room 0 row') g cause' h' ∧ cause'.OfDepth) ∨
        ∃ e e' h h', Returns (Expression.read limit room 0 row) g e h ∧
          Returns (Expression.read limit' room 0 row') g e' h' ∧ h.SameReports h' ∧
          ∀ (σ : Type) (setting : Setting σ) (world : World σ), e.AppliesToParts setting world →
            (e'.evaluate setting).run.run world = (e.evaluate setting).run.run world) := by
  rcases Lexeme.read_bracketed bracketed lines lines' start start' problems problems rfl with
    ⟨row, p, row', p', lexed, lexed', alike, same⟩ | ⟨fault, p, p', failed, failed', -⟩ |
    ⟨impossible, -⟩
  · refine .inr ⟨row, row', p, p', lexed, lexed', same, ?_⟩
    rcases Expression.read_bracketed limit limit' roomy alike g g rfl with
      ⟨e, h, e', h', read, read', fits, reports⟩ | ⟨⟨cause, h, failed⟩, cause', h', failed'⟩
    · exact .inr ⟨e, e', h, h', read, read', reports, fun σ setting world => fits.evaluate_eq⟩
    · exact .inl ⟨cause, cause', h, h', failed, ((Expression.read_calm _ _ _ _ g).2 _ _ failed).2,
        failed', ((Expression.read_calm _ _ _ _ g).2 _ _ failed').2⟩
  · exact .inl ⟨fault, p, p', failed, failed'⟩
  · exact impossible.elim

/-- `a.b` and `a["b"]`, on a value that has parts. -/
theorem point_and_bracket_have_one_value :
    let a : Name := ⟨['a'], by decide⟩
    let b : Name := ⟨['b'], by decide⟩
    let chain : Accessor := ⟨[], a, [.point b], [], by simp, by simp, by simp⟩
    let other : Accessor := ⟨[], a, [.quoted b], [], by simp, by simp, by simp⟩
    (chain.Bracketed other ∧ 2 ≤ 2) ∧
      ∃ row row' p p', Returns (Lexeme.read none ⟨['a', '.', 'b'], 0⟩) [] row p ∧
        Returns (Lexeme.read none ⟨['a', '[', '"', 'b', '"', ']'], 0⟩) [] row' p' ∧
        ∃ e e' h h', Returns (Expression.read 2 2 0 row) ⟨[], [], [], []⟩ e h ∧
          Returns (Expression.read 2 2 0 row') ⟨[], [], [], []⟩ e' h' ∧
          ∀ (σ : Type) (setting : Setting σ) (world : World σ),
            (world.scope.get (String.ofList ['a'])).HasParts →
            (e'.evaluate setting).run.run world = (e.evaluate setting).run.run world := by
  intro a b chain other
  have bracketed : chain.Bracketed other := ⟨rfl, .cons (.quoted b) .nil⟩
  refine ⟨⟨bracketed, Nat.le_refl 2⟩, ?_⟩
  obtain ⟨lexemes, lexed, means⟩ := gives_read none 0 0 (.last 0 (.path a (.property b) [])) 0 []
  rcases brackets_for_points_keep_the_value bracketed none none 0 0 2 2 (Nat.le_refl 2) []
    ⟨[], [], [], []⟩ with ⟨fault, p, p', failed, -⟩ | ⟨row, row', p, p', run, run', -, later⟩
  · exact absurd lexed failed.not_returns
  · refine ⟨row, row', p, p', run, run', ?_⟩
    obtain ⟨rfl, -⟩ := run.unique lexed
    have yields : Yields (Expression.read 2 2 0 row) _ _ := yields_read means
    rcases yields ⟨[], [], [], []⟩ with ⟨-, tree, h, read, -, term⟩ | ⟨deep, -⟩
    · rcases later with ⟨cause, cause', h, h', failed, -⟩ | ⟨e, e', h, h', read', other, -, same⟩
      · exact absurd read failed.not_returns
      · refine ⟨e, e', h, h', read', other, fun σ setting world parts => same σ setting world ?_⟩
        obtain ⟨rfl, -⟩ := read'.unique read
        cases e with
        | property span object key =>
          obtain ⟨inside, -⟩ := Term.property.inj term
          cases object with
          | name span word =>
            cases inside
            refine ⟨trivial, fun value after run => ?_⟩
            cases run
            exact parts
          | _ => cases inside
        | _ => cases term
    · exact absurd (by decide) deep

/-- Where there is room for one level only, `a.b` is read and `a["b"]` is not. -/
theorem bracket_is_too_deep_for_one_level :
    let a : Name := ⟨['a'], by decide⟩
    let b : Name := ⟨['b'], by decide⟩
    let chain : Accessor := ⟨[], a, [.point b], [], by simp, by simp, by simp⟩
    let other : Accessor := ⟨[], a, [.quoted b], [], by simp, by simp, by simp⟩
    chain.Bracketed other ∧
      ∃ row row', Returns (Lexeme.read none ⟨chain.text, 0⟩) [] row [] ∧
        Returns (Lexeme.read none ⟨other.text, 0⟩) [] row' [] ∧
        (∃ e h, Returns (Expression.read 1 1 0 row) ⟨[], [], [], []⟩ e h ∧
          ∀ (σ : Type) (setting : Setting σ) (world : World σ), Returns (e.evaluate setting) world
            ((world.scope.get (String.ofList ['a'])).property (setting.memory (String.ofList ['a']))
              (String.ofList ['b'])) world) ∧
        ∃ cause h, Fails (Expression.read 1 1 0 row') ⟨[], [], [], []⟩ cause h ∧ cause.OfDepth := by
  intro a b chain other
  refine ⟨⟨rfl, .cons (.quoted b) .nil⟩, ?_⟩
  obtain ⟨row, lexed, means⟩ := gives_read none 0 0 (.last 0 (.path a (.property b) [])) 0 []
  obtain ⟨row', lexed', means'⟩ := gives_read none 0 0 (.last 0 (.path a (.index b.quoted) [])) 0 []
  refine ⟨row, row', lexed, lexed', ?_, ?_⟩
  · have yields : Yields (Expression.read 1 1 0 row) _ _ := yields_read means
    rcases yields ⟨[], [], [], []⟩ with ⟨-, e, h, read, -, term⟩ | ⟨deep, -⟩
    · have same : e.term =
          [String.ofList b.text].foldl .property (.name (String.ofList a.text)) := term
      exact ⟨e, h, read, fun σ setting world => (returns_of_term setting world same).2⟩
    · exact absurd (by decide) deep
  · have yields : Yields (Expression.read 1 1 0 row') _ _ := yields_read means'
    rcases yields ⟨[], [], [], []⟩ with ⟨fits, -⟩ | ⟨-, failed⟩
    · exact absurd fits (by decide)
    · exact failed

end Interchange

end Stencil
