import Stencil.Proofs.Merging
import Stencil.Proofs.Readings
import Stencil.Proofs.Tiling

/-! What is gathered while a tree is read is all that its nodes use: every name that they look up
and every function that they call was noted on the way, unless the head of a loop could not be
read. -/
namespace Stencil

variable {l : Likeness} {α β : Type}

/-- Everything that is gathered here is gathered there too, and further diagnostics come last. -/
structure Gathered.Within (g h : Gathered) : Prop where
  names : g.names ⊆ h.names
  functions : g.functions ⊆ h.functions
  diagnostics : g.diagnostics <+: h.diagnostics

theorem Gathered.Within.refl (g : Gathered) : g.Within g :=
  ⟨List.Subset.refl _, List.Subset.refl _, List.prefix_refl _⟩

theorem Gathered.Within.trans {g h i : Gathered} (first : g.Within h) (second : h.Within i) :
    g.Within i :=
  ⟨List.Subset.trans first.names second.names, List.Subset.trans first.functions second.functions,
    first.diagnostics.trans second.diagnostics⟩

/-- What was reported stays reported. -/
theorem Gathered.Within.ne_of_reported {g h : Gathered} {kind : DiagnosticKind} {message : String}
    {span : Span} (within : (g.reported kind message span).Within h) :
    h.diagnostics ≠ g.diagnostics := by
  intro same
  have longer := within.diagnostics.length_le
  rw [same, reported, List.length_append] at longer
  exact Nat.not_succ_le_self _ longer

theorem Gathered.Within.same {g h i : Gathered} (first : g.Within h) (later : h.Within i)
    (same : i.diagnostics = g.diagnostics) :
    h.diagnostics = g.diagnostics ∧ i.diagnostics = h.diagnostics := by
  have whole : h.diagnostics = g.diagnostics :=
    (first.diagnostics.eq_of_length_le (same ▸ later.diagnostics.length_le)).symm
  exact ⟨whole, same.trans whole.symm⟩

/-- What was gathered may be used, and any method. After a loop that could not be read any name may
be. -/
structure Gathered.Known (l : Likeness) (g : Gathered) : Prop where
  names {name : String} (noted : name ∈ g.names) : l.names name
  functions {name : String} (noted : name ∈ g.functions) : l.functions name
  objects (name : String) : l.objects name
  loops {d : Diagnostic} (reported : d ∈ g.diagnostics) (kind : d.kind = .invalidFor)
    (name : String) : l.names name

theorem Gathered.Known.earlier {g h : Gathered} (known : h.Known l) (within : g.Within h) :
    g.Known l where
  names noted := known.names (within.names noted)
  functions noted := known.functions (within.functions noted)
  objects := known.objects
  loops reported := known.loops (within.diagnostics.subset reported)

/-- Nothing that was gathered gets lost, and what is returned is fit for use where everything
gathered may be used. -/
def Tells (l : Likeness) (fit : α → Prop) (reading : TreeReading α) : Prop :=
  ∀ g a g', Returns reading g a g' → g.Within g' ∧ (g'.Known l → fit a)

section Tells

variable {fit : α → Prop} {others : β → Prop} {reading : TreeReading α}
  {next : α → TreeReading β}

theorem tells_pure {a : α} (ready : fit a) : Tells l fit (pure a) := by
  intro g b g' run
  obtain ⟨rfl, rfl⟩ := returns_pure.mp run
  exact ⟨.refl _, fun _ => ready⟩

theorem tells_bind (first : Tells l fit reading)
    (after : ∀ a, Tells l (fun b => fit a → others b) (next a)) :
    Tells l others (reading >>= next) := by
  intro g b g' run
  obtain ⟨a, h, here, there⟩ := returns_bind.mp run
  obtain ⟨grown, ready⟩ := first g a h here
  obtain ⟨more, later⟩ := after a h b g' there
  exact ⟨grown.trans more, fun known => later known (ready (known.earlier more))⟩

theorem Tells.weaken {wider : α → Prop} (tells : Tells l fit reading)
    (weaker : ∀ a, fit a → wider a) : Tells l wider reading :=
  fun g a g' run => ⟨(tells g a g' run).1, fun known => weaker a ((tells g a g' run).2 known)⟩

/-- Where everything gathered may be used, so may any method. -/
theorem Tells.weaken_objects {wider : α → Prop} (tells : Tells l fit reading)
    (weaker : (∀ name, l.objects name) → ∀ a, fit a → wider a) : Tells l wider reading :=
  fun g a g' run => ⟨(tells g a g' run).1,
    fun known => weaker known.objects a ((tells g a g' run).2 known)⟩

theorem tells_seq (first : Tells l fit reading) (after : ∀ a, Tells l others (next a)) :
    Tells l others (reading >>= next) :=
  tells_bind first fun a => (after a).weaken fun _ ready _ => ready

theorem tells_of_fails (fails : ∀ g, ∃ e g', Fails reading g e g') : Tells l fit reading := by
  intro g a g' run
  obtain ⟨e, h, failed⟩ := fails g
  exact absurd run failed.not_returns

theorem tells_mapM {f : β → TreeReading α} (items : List β)
    (each : ∀ item ∈ items, Tells l fit (f item)) :
    Tells l (fun results => ∀ a ∈ results, fit a) (items.mapM f) := by
  induction items with
  | nil => exact tells_pure fun _ member => by cases member
  | cons item rest ih =>
    rw [List.mapM_cons]
    refine tells_bind (each item List.mem_cons_self) fun first => ?_
    refine tells_bind (ih fun other member => each other (List.mem_cons_of_mem _ member)) fun others => ?_
    exact tells_pure fun later ready => List.forall_mem_cons.mpr ⟨ready, later⟩

end Tells

namespace TreeReading

theorem subset_noted (names : List String) (name : String) :
    names ⊆ noted names name ∧ name ∈ noted names name := by
  unfold noted
  split
  · rename_i before
    exact ⟨List.Subset.refl _, by simpa using before⟩
  · exact ⟨List.subset_append_left _ _, by simp⟩

theorem within_reported (g : Gathered) (kind : DiagnosticKind) (message : String) (span : Span) :
    g.Within (g.reported kind message span) :=
  ⟨List.Subset.refl _, List.Subset.refl _, List.prefix_append _ _⟩

theorem report_tells (kind : DiagnosticKind) (message : String) (span : Span) :
    Tells l (fun _ => kind = .invalidFor → ∀ name, l.names name) (report kind message span) := by
  intro g a g' run
  obtain rfl := returns_report.mp run
  refine ⟨within_reported g kind message span, fun known loop => ?_⟩
  exact known.loops (List.mem_append_right _ List.mem_cons_self) loop

theorem noteVariable_tells (name : String) :
    Tells l (fun _ => l.names name) (noteVariable name) := by
  intro g a g' run
  obtain rfl := returns_modify.mp run
  obtain ⟨kept, noted⟩ := subset_noted g.names name
  exact ⟨⟨kept, List.Subset.refl _, List.prefix_refl _⟩, fun known => known.names noted⟩

theorem noteFunction_tells (name : String) :
    Tells l (fun _ => l.functions name) (noteFunction name) := by
  intro g a g' run
  obtain rfl := returns_modify.mp run
  obtain ⟨kept, noted⟩ := subset_noted g.functions name
  exact ⟨⟨List.Subset.refl _, kept, List.prefix_refl _⟩, fun known => known.functions noted⟩

theorem noteBlock_tells (name : String) : Tells l (fun _ => True) (noteBlock name) := by
  intro g a g' run
  obtain rfl := returns_modify.mp run
  exact ⟨⟨List.Subset.refl _, List.Subset.refl _, List.prefix_refl _⟩, fun _ => trivial⟩

theorem tooDeep_tells (limit : Nat) (span : Span) {fit : α → Prop} :
    Tells l fit (tooDeep limit span : TreeReading α) :=
  tells_of_fails fun g => tooDeep_fails limit span g

theorem guarded_tells {fit : α → Prop} (limit height : Nat) (span : Span)
    {next : PUnit → TreeReading α} (later : Tells l fit (next ⟨⟩)) :
    Tells l fit (if limit ≤ height then tooDeep limit span >>= next else next ⟨⟩) := by
  split
  · refine tells_of_fails fun g => ?_
    obtain ⟨e, h, failed⟩ := tooDeep_fails limit span g
    exact ⟨e, h, fails_bind.mpr (.inl failed)⟩
  · exact later

end TreeReading

open TreeReading

/-! ### Expressions -/

namespace Expression

theorem allUse_iff {expressions : List Expression} :
    AllUse l expressions ↔ ∀ expression ∈ expressions, expression.Uses l := by
  induction expressions with
  | nil => simp [AllUse]
  | cons first rest ih => rw [AllUse, ih, List.forall_mem_cons]

section Parts

variable {inner : List Lexeme → TreeReading Expression}
  (each : ∀ lexemes, Tells l (Uses l) (inner lexemes))
include each

theorem ofSteps_tells (span : Span) (object : Expression) (steps : List PathStep) :
    Tells l (fun expression => object.Uses l → expression.Uses l) (ofSteps inner span object steps) := by
  induction steps generalizing object with
  | nil => exact tells_pure id
  | cons step rest ih =>
    cases step with
    | property key =>
      exact (ih (.property span object key)).weaken_objects fun objects _ ready known =>
        ready ⟨known, fun _ root _ => objects root⟩
    | index lexemes =>
      refine tells_bind (each lexemes) fun index => ?_
      exact (ih (.element span object index)).weaken fun _ ready inside known => ready ⟨known, inside⟩

theorem ofArguments_tells (args : List (List Lexeme)) :
    Tells l (AllUse l) (ofArguments inner args) :=
  (tells_mapM _ fun arg _ => each arg).weaken fun _ => allUse_iff.mpr

theorem ofLexeme_tells (lexeme : Lexeme) : Tells l (Uses l) (ofLexeme inner lexeme) := by
  cases lexeme with
  | literal span text value => exact tells_pure trivial
  | operator span op => exact tells_seq (report_tells _ _ _) fun _ => tells_pure trivial
  | name span word => exact tells_bind (noteVariable_tells word) fun _ => tells_pure id
  | path span text base steps =>
    exact tells_bind (noteVariable_tells base) fun _ => ofSteps_tells each span _ steps
  | call span text callee args =>
    refine tells_bind (noteFunction_tells callee) fun _ => ?_
    refine tells_bind (ofArguments_tells each args) fun _ => ?_
    exact tells_pure fun given known => ⟨known, given⟩

theorem ofRun_tells (first : Lexeme) (rest : List Lexeme) :
    Tells l (Uses l) (ofRun inner first rest) :=
  ofRun_cases (fun _ => ofLexeme_tells each first) fun _ _ kept _ =>
    tells_seq (report_tells _ _ _) fun _ => ofLexeme_tells each kept

end Parts

theorem joined_tells {after : TreeReading Expression} (behind : Tells l (Uses l) after)
    (split : Split) (left : Expression) :
    Tells l (fun expression => left.Uses l → expression.Uses l) (joined split left after) := by
  have last : Tells l (fun expression => left.Uses l → expression.Uses l) (do
      return binary split.span split.op left (← after)) :=
    tells_bind behind fun _ => tells_pure fun right left => ⟨left, right⟩
  exact joined_cases (fun _ => tells_seq (report_tells _ _ _) fun _ => last) fun _ => last

theorem ofSplit_tells {split : Split} {before after : TreeReading Expression}
    (here : Tells l (Uses l) before) (behind : Tells l (Uses l) after) :
    Tells l (Uses l) (ofSplit split before after) := by
  have null : Tells l (Uses l) (pure (literal (some split.span) .null)) := tells_pure trivial
  exact ofSplit_cases
    (fun _ => tells_seq (report_tells _ _ _) fun _ =>
      tells_bind null fun left => joined_tells behind split left)
    fun _ => tells_bind here fun left => joined_tells behind split left

theorem read_tells (limit room floor : Nat) (lexemes : List Lexeme) :
    Tells l (Uses l) (read limit room floor lexemes) := by
  -- The shape of the recursion is that of the reading; what is inside is read with less room.
  induction room generalizing floor lexemes with
  | zero =>
    cases lexemes with
    | nil => exact tells_pure trivial
    | cons first rest => exact tooDeep_tells limit first.span
  | succ room ih =>
    cases lexemes with
    | nil => exact tells_pure trivial
    | cons first rest =>
      apply read_cases
      case lone => exact fun _ => ofLexeme_tells (ih 0) first
      case signed =>
        exact fun _ _ _ => tells_bind (ih floor rest) fun _ => tells_pure fun right =>
          ⟨trivial, right⟩
      case run => exact fun _ => ofRun_tells (ih 0) first rest
      case sided => exact fun split _ _ => ofSplit_tells (ih 0 _) (ih _ _)

end Expression

/-! ### Tags -/

namespace Placement

variable (limit height room : Nat) (token : Token)

theorem condition_tells (tag : Opening) :
    Tells l (Expression.Uses l) (condition limit room token tag) := by
  unfold condition
  split
  · exact tells_seq (report_tells _ _ _) fun _ => tells_pure trivial
  · exact Expression.read_tells limit room 0 _

/-- The frame of a loop that cannot be read looks up a name that nothing has noted. -/
theorem loop_tells (tag : Opening) :
    Tells l (fun shape => Shape.Alike l shape shape) (loop limit room token tag) := by
  unfold loop
  split
  · refine tells_bind (Expression.read_tells limit room 0 _) fun iterable => ?_
    exact tells_pure fun used => .loop _ used
  · refine tells_bind (report_tells _ _ _) fun _ => tells_pure fun any => ?_
    exact .loop _ (any rfl "items")

theorem block_tells (tag : Opening) :
    Tells l (fun shape => Shape.Alike l shape shape) (block token tag) := by
  unfold block
  dsimp only
  split
  · exact tells_seq (report_tells _ _ _) fun _ => tells_pure (.block _)
  · exact tells_seq (noteBlock_tells _) fun _ => tells_pure (.block _)

theorem opened_alike {shape : Shape} (alike : Shape.Alike l shape shape) :
    Placement.Alike l (.opened ⟨token.text, token.span, shape, []⟩)
      (.opened ⟨token.text, token.span, shape, []⟩) :=
  .opened ⟨rfl, rfl, alike, .nil⟩

theorem ofOpening_tells (entered : l.templates) (tag : Opening) :
    Tells l (fun placement => Placement.Alike l placement placement)
      (ofOpening limit height token tag) := by
  have condition := condition_tells limit (limit - (height + 1)) token tag (l := l)
  have loop := loop_tells limit (limit - (height + 1)) token tag (l := l)
  unfold ofOpening
  refine guarded_tells limit height token.span ?_
  dsimp only
  cases token.keyword
  case cond =>
    exact tells_bind condition fun _ => tells_pure fun used => opened_alike token (.first used)
  case «while» =>
    exact tells_bind condition fun _ => tells_pure fun used => opened_alike token (.repetition used)
  case «unless» =>
    exact tells_bind condition fun _ => tells_pure fun used => opened_alike token (.exception used)
  case «include» =>
    exact tells_bind condition fun _ => tells_pure fun used => .node (.inclusion _ entered used)
  case «extends» =>
    exact tells_bind condition fun _ => tells_pure fun used =>
      opened_alike token (.extension entered used .nil)
  case «for» | each => exact tells_bind loop fun _ => tells_pure (opened_alike token)
  case block => exact tells_bind (block_tells token tag) fun _ => tells_pure (opened_alike token)
  all_goals exact tells_seq (report_tells _ _ _) fun _ => tells_pure .nothing

theorem output_tells (expression : List Lexeme) (filters : List FilterLexeme) :
    Tells l (fun node => Node.Alike l node node) (output limit room token expression filters) := by
  have uses : Tells l (fun uses : List FilterUse => ∀ use ∈ uses, Expression.AllUse l use.args)
      (filters.mapM (filterUse limit room)) :=
    tells_mapM filters fun filter _ =>
      tells_bind (Expression.ofArguments_tells (Expression.read_tells limit room 0) _) fun _ =>
        tells_pure id
  have last (value : Option Expression) :
      Tells l (fun node => (∀ e ∈ value, e.Uses l) → Node.Alike l node node)
        (do return Node.output token.span token.text value (← filters.mapM (filterUse limit room))) :=
    tells_bind uses fun _ => tells_pure fun given used => .output _ _ used given
  unfold output
  dsimp only
  split
  · have none : Tells l (fun value : Option Expression => ∀ e ∈ value, e.Uses l) (pure none) :=
      tells_pure fun _ member => by cases member
    exact tells_seq (report_tells _ _ _) fun _ => tells_bind none last
  · refine tells_bind ?_ last
    rw [map_eq_pure_bind]
    refine tells_bind (Expression.read_tells limit room 0 expression) fun value => ?_
    exact tells_pure fun used e member => by cases member; exact used

theorem ofToken_tells (entered : l.templates) :
    Tells l (fun placement => Placement.Alike l placement placement)
      (ofToken limit height token) := by
  unfold ofToken
  split
  · exact tells_pure (.node (.text _ _))
  · exact tells_pure (.node (.comment _ _))
  · exact tells_bind (output_tells limit _ token _ _) fun _ => tells_pure .node
  · split
    · exact tells_seq (report_tells _ _ _) fun _ => tells_pure .nothing
    · exact ofOpening_tells limit height token entered _
  · exact tells_seq (report_tells _ _ _) fun _ => tells_pure .nothing
  · exact tells_seq (report_tells _ _ _) fun _ => tells_pure .nothing
  · exact tells_pure .nothing

end Placement

/-! ### Open blocks -/

namespace Stack

variable {limit : Nat} {token : Token} {stack next : Stack} {g g' : Gathered}

theorem Alike.ended {top : Frame} {outer : List Frame} {root : List Node}
    (alike : Alike l ⟨top :: outer, root⟩ ⟨top :: outer, root⟩) :
    Alike l (Stack.add ⟨outer, root⟩ top.finish) (Stack.add ⟨outer, root⟩ top.finish) := by
  obtain ⟨_ | ⟨head, tail⟩, inside⟩ := alike
  have below : Alike l ⟨outer, root⟩ ⟨outer, root⟩ := ⟨tail, inside⟩
  exact below.add head.finish

/-- Open blocks that use what is known do so after one more token. -/
theorem Step.tells (entered : l.templates) (step : Step limit token stack g next g') :
    g.Within g' ∧ (g'.Known l → Alike l stack stack → Alike l next next) := by
  induction step with
  | placed _ _ _ read =>
    obtain ⟨grown, ready⟩ := Placement.ofToken_tells _ _ _ entered _ _ _ read
    exact ⟨grown, fun known alike => alike.put (ready known)⟩
  | filler => exact ⟨.refl _, fun _ alike => alike⟩
  | passed _ _ _ ih => exact ⟨ih.1, fun known alike => ih.2 known alike.ended⟩
  | closed => exact ⟨.refl _, fun _ alike => alike.ended⟩
  | abandoned _ _ _ _ _ ih =>
    exact ⟨(within_reported _ _ _ _).trans ih.1, fun known alike => ih.2 known alike.ended⟩
  | unmatched | misplaced => exact ⟨within_reported _ _ _ _, fun _ alike => alike⟩
  | otherwise =>
    refine ⟨.refl _, fun _ alike => ?_⟩
    obtain ⟨_ | ⟨head, tail⟩, inside⟩ := alike
    exact ⟨.cons head.addOtherwise tail, inside⟩
  | further _ _ _ _ read =>
    obtain ⟨grown, ready⟩ := Placement.condition_tells _ _ _ _ _ _ _ read
    refine ⟨grown, fun known alike => ?_⟩
    obtain ⟨_ | ⟨head, tail⟩, inside⟩ := alike
    exact ⟨.cons (head.addClause (ready known)) tail, inside⟩

/-- The same after several tokens. -/
theorem Fed.tells (entered : l.templates) {tokens : List Token}
    (fed : Fed limit stack g tokens next g') :
    g.Within g' ∧ (g'.Known l → Alike l stack stack → Alike l next next) := by
  induction fed with
  | nil => exact ⟨.refl _, fun _ alike => alike⟩
  | cons step _ ih =>
    obtain ⟨grown, here⟩ := step.tells entered
    exact ⟨grown.trans ih.1, fun known alike => ih.2 known (here (known.earlier ih.1) alike)⟩

theorem unwind_tells (finished : Option Node) (frames : List Frame) (root : List Node) :
    Tells l (fun nodes => Alike l ⟨frames, root⟩ ⟨frames, root⟩ →
        Option.Rel (Node.Alike l) finished finished → Node.AllAlike l nodes nodes)
      (unwind finished frames root) := by
  induction frames generalizing finished with
  | nil => exact tells_pure fun alike ended => (alike.addAll ended).root
  | cons frame outer ih =>
    have later : Tells l (fun nodes => Alike l ⟨frame :: outer, root⟩ ⟨frame :: outer, root⟩ →
        Option.Rel (Node.Alike l) finished finished → Node.AllAlike l nodes nodes)
        (unwind (some (finished.elim frame frame.add).finish) outer root) := by
      refine (ih _).weaken fun nodes ready alike ended => ?_
      obtain ⟨_ | ⟨head, tail⟩, inside⟩ := alike
      exact ready ⟨tail, inside⟩ (.some (top_alike head ended).finish)
    rw [unwind]
    dsimp only
    split
    · exact later
    · exact tells_seq (report_tells _ _ _) fun _ => later

end Stack

/-! ### Trees -/

/-- The names and functions of a tree. -/
def Tree.told (tree : Tree) : Likeness where
  names name := name ∈ tree.names
  functions name := name ∈ tree.functions
  objects _ := True
  templates := True
  cuts := False

/-- The nodes of a tree use only what the tree tells of. -/
theorem Tree.uses_told {limit : Nat} {tokens : List Token} {last : Token} {tree : Tree}
    {diagnostics : List Diagnostic} (running : ∀ token ∈ tokens, token.isDone = false)
    (done : last.isDone = true) (built : ofTokens limit (tokens ++ [last]) = (.ok tree, diagnostics))
    (readable : ∀ d ∈ diagnostics, d.kind ≠ .invalidFor) :
    Node.AllAlike tree.told tree.nodes tree.nodes := by
  obtain ⟨g, run, rfl⟩ := returns_of_ofTokens built
  have same := ofTokens_of_returns run
  rw [built] at same
  obtain ⟨nodes, names, functions, blocks⟩ := tree
  cases same
  obtain ⟨next, h, fed, unwound⟩ := Stack.fed_of_build running done run
  have known : g.Known (told ⟨nodes, g.names, g.functions, g.blocks⟩) :=
    ⟨id, id, fun _ => trivial, fun reported kind => absurd kind (readable _ reported)⟩
  obtain ⟨grown, ends⟩ := Stack.unwind_tells none next.frames next.root _ _ _ unwound
  -- Whatever is gathered on the way is still known at the end, so every step keeps to it.
  refine ends known ((fed.tells ?_).2 (known.earlier grown) ⟨.nil, .nil⟩) .none
  exact trivial

/-- Where every loop can be read the nodes of a template use only the names and functions that
its analysis lists. -/
theorem Analysis.uses_told {options : Options} {source : String} {analysis : Analysis}
    (analysed : ofText options source = .ok analysis)
    (readable : ∀ d ∈ analysis.diagnostics, d.kind ≠ .invalidFor) :
    Node.AllAlike analysis.tree.told analysis.tree.nodes analysis.tree.nodes := by
  obtain ⟨lexed, found, read, built, -, merged⟩ := ofText_stages analysed
  obtain ⟨parts, last, split, done, -, -, running, -⟩ := Token.tokens_tile_text read
  rw [split] at built
  refine Tree.uses_told running done built fun d member kind => ?_
  have listed : found ∈ [Markup.Check.diagnostics source.toList, lexed, found] := by simp
  obtain ⟨kept, inside, key⟩ := Diagnostic.exists_mem_merge listed member
  exact readable kept (merged ▸ inside) ((congrArg Prod.fst key).trans kind)

end Stencil
