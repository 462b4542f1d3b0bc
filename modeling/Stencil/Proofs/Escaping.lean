import Mathlib
import Stencil.Proofs.Marks
import Stencil.Proofs.Sources

/-! Escaping. Where it is switched on, and no filter marks a text as it stands, every interpolation
renders to text that is inert in markup: a value on its way through filters holds no marked text, or
it is a marked text that was escaped. -/
namespace Stencil

/-! ### Inert text -/

/-- What the characters that mean something in markup are written as. -/
def entities : List String := ["&amp;", "&lt;", "&gt;", "&quot;", "&#x27;"]

/-- Characters that neither open nor close anything in markup; every ampersand begins an entity. -/
structure Inert (chars : List Char) : Prop where
  quiet (c : Char) (member : c ∈ chars) : c ∉ ['<', '>', '"', '\'']
  entity (rest : List Char) (suffix : '&' :: rest <:+ chars) :
    ∃ entity ∈ entities, entity.toList <+: '&' :: rest

theorem inert_nil : Inert [] where
  quiet c member := by cases member
  entity rest suffix := by cases List.suffix_nil.mp suffix

theorem Inert.cons {c : Char} {chars : List Char} (inert : Inert chars)
    (plain : c ∉ ['&', '<', '>', '"', '\'']) : Inert (c :: chars) where
  quiet other member := by
    rcases List.mem_cons.mp member with rfl | later
    · exact fun special => plain (List.mem_cons_of_mem _ special)
    · exact inert.quiet other later
  entity rest suffix := by
    rcases List.suffix_cons_iff.mp suffix with same | later
    · cases same
      exact absurd List.mem_cons_self plain
    · exact inert.entity rest later

/-- Every entity begins with its only ampersand. -/
theorem entity_cases {entity : String} (member : entity ∈ entities) :
    ∃ tail, entity.toList = '&' :: tail ∧ ∀ c ∈ tail, c ∉ ['&', '<', '>', '"', '\''] := by
  simp only [entities, List.mem_cons, List.not_mem_nil, or_false] at member
  rcases member with rfl | rfl | rfl | rfl | rfl
  · exact ⟨['a', 'm', 'p', ';'], rfl, by simp⟩
  · exact ⟨['l', 't', ';'], rfl, by simp⟩
  · exact ⟨['g', 't', ';'], rfl, by simp⟩
  · exact ⟨['q', 'u', 'o', 't', ';'], rfl, by simp⟩
  · exact ⟨['#', 'x', '2', '7', ';'], rfl, by simp⟩

theorem Inert.entity_append {entity : String} (member : entity ∈ entities) {chars : List Char}
    (inert : Inert chars) : Inert (entity.toList ++ chars) := by
  obtain ⟨tail, same, plain⟩ := entity_cases member
  -- Behind its ampersand an entity only puts plain characters in front.
  have behind : Inert (tail ++ chars) := by
    clear same
    induction tail with
    | nil => exact inert
    | cons c rest ih =>
      exact (ih fun other later => plain other (List.mem_cons_of_mem _ later)).cons
        (plain c List.mem_cons_self)
  rw [same]
  constructor
  · intro c member
    rcases List.mem_cons.mp member with rfl | later
    · decide
    · exact behind.quiet c later
  · intro rest suffix
    rcases List.suffix_cons_iff.mp suffix with whole | later
    · refine ⟨entity, member, ?_⟩
      rw [whole, same]
      exact List.prefix_append ('&' :: tail) chars
    · exact behind.entity rest later

namespace Filters

open Value

theorem escapeChar_cases (c : Char) :
    (escapeChar c = [c] ∧ c ∉ ['&', '<', '>', '"', '\'']) ∨
      ∃ entity ∈ entities, escapeChar c = entity.toList := by
  unfold escapeChar
  split
  · exact .inr ⟨"&amp;", by decide, by decide⟩
  · exact .inr ⟨"&lt;", by decide, by decide⟩
  · exact .inr ⟨"&gt;", by decide, by decide⟩
  · exact .inr ⟨"&quot;", by decide, by decide⟩
  · exact .inr ⟨"&#x27;", by decide, by decide⟩
  · rename_i ampersand less greater quote apostrophe
    refine .inl ⟨rfl, fun special => ?_⟩
    simp only [List.mem_cons, List.not_mem_nil, or_false] at special
    rcases special with same | same | same | same | same
    · exact ampersand same
    · exact less same
    · exact greater same
    · exact quote same
    · exact apostrophe same

theorem escapeText_inert (s : String) : Inert (escapeText s).toList := by
  rw [escapeText, String.toList_ofList]
  induction s.toList with
  | nil => exact inert_nil
  | cons c rest ih =>
    rw [List.flatMap_cons]
    rcases escapeChar_cases c with ⟨same, plain⟩ | ⟨entity, member, same⟩
    · rw [same]
      exact ih.cons plain
    · rw [same]
      exact ih.entity_append member

end Filters

/-! ### Filters -/

/-- A value that holds no marked text, or is a marked text that is inert. -/
def Value.Harmless (value : Value) : Prop :=
  value.Unmarked ∨ ∃ s, value = .safe s ∧ Inert s.toList

namespace Filters

open Value

variable {value : Value}

theorem harmless_list {items : List Value} :
    (list items).Harmless ↔ ∀ item ∈ items, item.Unmarked := by
  rw [← unmarked_list]
  constructor
  · rintro (unmarked | ⟨s, impossible, -⟩)
    · exact unmarked
    · contradiction
  · exact .inl

theorem onText_harmless (change : List Char → List Char) (value : Value) :
    Grants Harmless (onText change value) :=
  grants_bind fun _ _ => grants_ok (.inl rfl)

theorem capitalize_harmless (value : Value) : Grants Harmless (capitalize value) := by
  unfold capitalize
  exact onText_harmless _ _

theorem asItself_harmless (harmless : value.Harmless) : Grants Harmless (asItself value) := by
  unfold asItself
  split
  · exact grants_ok harmless
  · exact grants_bind fun _ _ => grants_ok (.inl rfl)

theorem reverse_harmless (harmless : value.Harmless) : Grants Harmless (reverse value) := by
  unfold reverse
  split
  · exact grants_ok (harmless_list.mpr fun item member =>
      harmless_list.mp harmless item (List.mem_reverse.mp member))
  · exact onText_harmless _ _

theorem sort_harmless (harmless : value.Harmless) : Grants Harmless (sort value) := by
  unfold sort
  split
  · exact grants_bind fun items sorted =>
      grants_ok (harmless_list.mpr (sort_of (harmless_list.mp harmless) items sorted))
  · exact grants_ok harmless

theorem join_harmless (harmless : value.Harmless) (separator : Value) :
    Grants Harmless (join value separator) := by
  unfold join
  split
  · exact grants_bind fun _ _ => grants_bind fun _ _ => grants_ok (.inl rfl)
  · exact asItself_harmless harmless

theorem split_harmless (value separator : Value) : Grants Harmless (split value separator) :=
  grants_bind fun _ _ => grants_bind fun _ _ =>
    grants_ok (.inl (map_unmarked ofChars (fun _ => rfl) _))

theorem sliced_harmless {items : List Value} (harmless : (list items).Harmless) (first : Int)
    (last : Option Int) : (list (Text.slice items first last)).Harmless :=
  harmless_list.mpr fun item member =>
    harmless_list.mp harmless item (List.mem_of_mem_drop (List.mem_of_mem_take member))

theorem slice_harmless (harmless : value.Harmless) (start stop : Value) :
    Grants Harmless (slice value start stop) := by
  refine grants_bind fun first _ => ?_
  dsimp only
  split
  all_goals
    refine grants_bind fun last _ => ?_
    split
    · exact grants_ok (sliced_harmless harmless first last)
    · exact onText_harmless _ _

theorem first_harmless (harmless : value.Harmless) : Grants Harmless (first value) := by
  unfold first
  split
  · rename_i items
    cases items with
    | nil => exact grants_ok (.inl rfl)
    | cons item rest => exact grants_ok (.inl (harmless_list.mp harmless item List.mem_cons_self))
  · exact onText_harmless _ _

theorem last_harmless (harmless : value.Harmless) : Grants Harmless (last value) := by
  unfold last
  split
  · rename_i items
    rw [List.getLastD_eq_getLast?]
    cases found : items.getLast? with
    | none => exact grants_ok (.inl rfl)
    | some item =>
      exact grants_ok (.inl (harmless_list.mp harmless item (List.mem_of_getLast? found)))
  · exact onText_harmless _ _

theorem escape_inert (value : Value) :
    Grants (fun result => ∃ s, result = .safe s ∧ Inert s.toList) (escape value) :=
  grants_bind fun s _ => grants_ok ⟨_, rfl, escapeText_inert s⟩

theorem formatted_harmless (harmless : value.Harmless) (format : Value) :
    Grants Harmless (formatted value format) := by
  unfold formatted
  split
  · exact asItself_harmless harmless
  · exact onText_harmless _ _

theorem truncate_harmless (harmless : value.Harmless) (length suffix : Value) :
    Grants Harmless (truncate value length suffix) := by
  refine grants_bind fun shown same => grants_bind fun s _ => grants_bind fun limit _ => ?_
  split
  · exact grants_bind fun _ _ => grants_ok (.inl rfl)
  · exact grants_ok (asItself_harmless harmless shown same)

theorem pluralize_harmless {singular plural : Value} (one : singular.Unmarked)
    (many : plural.Unmarked) (count : Value) : Grants Harmless (pluralize count singular plural) := by
  unfold pluralize
  split
  · exact asItself_harmless (.inl one)
  · split
    · exact grants_bind fun _ _ => grants_ok (.inl rfl)
    · exact asItself_harmless (.inl many)

theorem currency_harmless (harmless : value.Harmless) (symbol : Value) :
    Grants Harmless (currency value symbol) := by
  unfold currency
  split
  · exact grants_ok harmless
  · split
    · exact grants_ok harmless
    · exact grants_bind fun _ _ => grants_bind fun _ _ => grants_ok (.inl rfl)

theorem json_harmless (value : Value) : Grants Harmless (json value) := by
  unfold json
  split
  · exact grants_ok (.inl rfl)
  · exact grants_bind fun _ _ => grants_ok (.inl rfl)

theorem orDefault_harmless (harmless : value.Harmless) {fallback : Value}
    (unmarked : fallback.Unmarked) : (Functions.orDefault value fallback).Harmless := by
  unfold Functions.orDefault
  split
  · exact .inl unmarked
  · exact harmless

/-- A filter keeps values harmless, unless it marks texts as they stand. -/
theorem all_harmless {builtin : Builtin} (member : builtin ∈ all) (other : builtin.name ≠ "safe")
    (harmless : value.Harmless) {args : List Value} (unmarked : ∀ arg ∈ args, arg.Unmarked) :
    Grants Harmless (builtin.body (value :: args)) := by
  have arg (i : Nat) {default : Value} (own : default.Unmarked) :=
    Functions.arg_unmarked unmarked i own
  simp only [all, List.mem_cons, List.not_mem_nil, or_false] at member
  rcases member with rfl | rfl | rfl | rfl | rfl | rfl | rfl | rfl | rfl | rfl | rfl | rfl | rfl |
    rfl | rfl | rfl | rfl | rfl | rfl
  · exact onText_harmless _ _
  · exact onText_harmless _ _
  · exact capitalize_harmless _
  · exact onText_harmless _ _
  · exact reverse_harmless harmless
  · exact sort_harmless harmless
  · exact join_harmless harmless _
  · exact split_harmless _ _
  · exact slice_harmless harmless _ _
  · exact first_harmless harmless
  · exact last_harmless harmless
  · exact fun result done => .inr (escape_inert _ result done)
  · exact absurd rfl other
  · exact formatted_harmless harmless _
  · exact truncate_harmless harmless _ _
  · exact pluralize_harmless (arg 0 rfl) (arg 1 rfl) _
  · exact currency_harmless harmless _
  · exact json_harmless _
  · exact grants_ok (orDefault_harmless harmless (arg 0 rfl))

theorem escape_named {builtin : Builtin} (member : builtin ∈ all)
    (named : builtin.name = "escape") : builtin.body = fun args => escape (subject args) := by
  have known : ∀ builtin ∈ all, builtin.name = "escape" →
      builtin.body = fun args => escape (subject args) := by
    simp [all]
  exact known builtin member named

end Filters

/-! ### Routines -/

variable {σ : Type}

theorem Builtin.routine_grants {builtin : Builtin} {known : Value → Prop} {args : List Value}
    (body : Grants known (builtin.body args)) (state : σ) :
    Grants known (builtin.routine args state).1 := by
  refine grants_liftFault ?_
  unfold run
  split
  · exact grants_error _
  · exact body

namespace Library

theorem guarded_grants {known : Value → Prop} {wrap : String → Trouble} {routine : Routine σ}
    {args : List Value} {state : σ} (grants : Grants known (routine args state).1) :
    Grants known (guarded wrap routine args state).1 := by
  rw [guarded]
  generalize routine args state = outcome at grants ⊢
  obtain ⟨failure | value, next⟩ := outcome
  · exact grants_error _
  · exact grants

variable (surroundings : Surroundings) {args : List Value}

theorem standard_call_unmarked (name : String) (unmarked : ∀ arg ∈ args, arg.Unmarked) (state : σ) :
    Grants Value.Unmarked ((standard surroundings).call name args state).1 := by
  unfold call
  cases found : (standard surroundings : Library σ).functions.get? name with
  | none => exact grants_error _
  | some routine =>
    obtain ⟨builtin, member, -, rfl⟩ := exists_builtin found
    exact guarded_grants
      (Builtin.routine_grants (Functions.all_unmarked surroundings member unmarked) state)

theorem standard_filter_grants {known : Value → Prop} {name : String} {value : Value}
    (each : ∀ builtin ∈ Filters.all, builtin.name = name →
      Grants known (builtin.body (value :: args)))
    (state : σ) :
    Grants known ((standard surroundings).applyFilter name (value :: args) state).1 := by
  unfold applyFilter
  cases found : (standard surroundings : Library σ).filters.get? name with
  | none => exact grants_error _
  | some routine =>
    obtain ⟨builtin, member, same, rfl⟩ := exists_builtin found
    exact guarded_grants (Builtin.routine_grants (each builtin member same) state)

end Library

/-! ### Evaluation -/

section Delivers

variable {α β : Type} {known : α → Prop} {fine : β → Prop}

/-- Where no name stands for a marked text the step leaves it so, and what it returns is known. -/
def Delivers (known : α → Prop) (step : Rendering σ α) : Prop :=
  ∀ world a after, world.scope.Unmarked → Returns step world a after →
    after.scope.Unmarked ∧ known a

theorem delivers_pure {a : α} (one : known a) : Delivers known (pure a : Rendering σ α) := by
  intro world b after unmarked done
  obtain ⟨rfl, rfl⟩ := returns_pure.mp done
  exact ⟨unmarked, one⟩

theorem delivers_bind {step : Rendering σ α} {next : α → Rendering σ β}
    (first : Delivers known step) (later : ∀ a, known a → Delivers fine (next a)) : Delivers fine (step >>= next) := by
  intro world b after unmarked done
  obtain ⟨a, middle, here, done⟩ := returns_bind.mp done
  obtain ⟨unmarked, one⟩ := first world a middle unmarked here
  exact later a one middle b after unmarked done

theorem delivers_ofResult {result : Except Failure α} (grants : Grants known result) :
    Delivers known (Rendering.ofResult result : Rendering σ α) := by
  intro world a after unmarked done
  cases done
  exact ⟨unmarked, grants a rfl⟩

theorem delivers_ofFault {result : Except Fault α} (grants : Grants known result) :
    Delivers known (Rendering.ofFault result : Rendering σ α) :=
  delivers_ofResult (grants_liftFault grants)

theorem delivers_call {known : Value → Prop} {routine : Routine σ} {args : List Value}
    (grants : ∀ state, Grants known (routine args state).1) :
    Delivers known (Rendering.call routine args) := by
  intro world value after unmarked done
  have same : (routine args world.routines).1 = .ok value := congrArg Prod.fst done
  have left : world.scope = after.scope := congrArg (fun outcome => outcome.2.scope) done
  exact ⟨left ▸ unmarked, grants _ value same⟩

end Delivers

variable {setting : Setting σ} {surroundings : Surroundings}

theorem Operator.evaluate_unmarked (op : Operator) {left : Value} (here : left.Unmarked)
    {right : Rendering σ Value} (there : Delivers Value.Unmarked right) :
    Delivers Value.Unmarked (op.evaluate setting left right) := by
  unfold evaluate
  split
  · rename_i cut
    exact delivers_pure (shortCut?_unmarked here cut)
  · exact delivers_bind there fun _ unmarked => delivers_ofResult (apply_unmarked _ op here unmarked)

namespace Expression

mutual
theorem evaluate_unmarked (standard : setting.library = .standard surroundings) :
    (expression : Expression) → Delivers Value.Unmarked (expression.evaluate setting)
  | literal _ value => delivers_pure value.value_unmarked
  | name _ word => by
    intro world value after unmarked done
    cases done
    exact ⟨unmarked, unmarked.get word⟩
  | property _ object key =>
    delivers_bind (evaluate_unmarked standard object) fun _ unmarked =>
      delivers_pure (Value.property_unmarked _ unmarked key)
  | element _ array index =>
    delivers_bind (evaluate_unmarked standard array) fun _ unmarked =>
      delivers_bind (evaluate_unmarked standard index) fun key _ =>
        delivers_ofFault (Value.index_unmarked unmarked key)
  | binary _ op left right =>
    delivers_bind (evaluate_unmarked standard left) fun _ unmarked =>
      op.evaluate_unmarked unmarked (evaluate_unmarked standard right)
  | call _ callee args =>
    delivers_bind (evaluateAll_unmarked standard args) fun _ unmarked =>
      delivers_call fun state =>
        standard ▸ Library.standard_call_unmarked surroundings callee unmarked state
theorem evaluateAll_unmarked (standard : setting.library = .standard surroundings) :
    (expressions : List Expression) →
      Delivers (∀ value ∈ ·, value.Unmarked) (evaluateAll setting expressions)
  | [] => delivers_pure fun _ member => by cases member
  | expression :: rest =>
    delivers_bind (evaluate_unmarked standard expression) fun _ unmarked =>
      delivers_bind (evaluateAll_unmarked standard rest) fun _ others =>
        delivers_pure (List.forall_mem_cons.mpr ⟨unmarked, others⟩)
end

end Expression

section Interpolations

variable (standard : setting.library = .standard surroundings)
include standard

theorem FilterUse.applyAll_harmless {value : Value} (harmless : value.Harmless)
    (filters : List FilterUse) (never : ∀ filter ∈ filters, filter.name ≠ "safe") :
    Delivers Value.Harmless (applyAll setting value filters) := by
  induction filters generalizing value with
  | nil => exact delivers_pure harmless
  | cons filter rest ih =>
    have other := never filter List.mem_cons_self
    have arguments := Expression.evaluateAll_unmarked standard filter.args
    refine delivers_bind arguments fun args unmarked => ?_
    have filtered : Delivers Value.Harmless
        (Rendering.call (setting.library.applyFilter filter.name) (value :: args)) := by
      rw [standard]
      exact delivers_call (Library.standard_filter_grants surroundings fun builtin member same =>
        Filters.all_harmless member (same ▸ other) harmless unmarked)
    exact delivers_bind filtered fun _ harmless =>
      ih harmless fun filter member => never filter (List.mem_cons_of_mem _ member)

namespace Node

theorem display_inert (escaping : setting.options.autoEscape.truthy = true) {value : Value}
    (harmless : value.Harmless) :
    Delivers (fun text => Inert text.toList) (display setting value) := by
  have escaped : Delivers (fun result => ∃ s, result = Value.safe s ∧ Inert s.toList)
      (Rendering.call (setting.library.applyFilter "escape") [value]) := by
    rw [standard]
    refine delivers_call (Library.standard_filter_grants surroundings fun builtin member same => ?_)
    rw [Filters.escape_named member same]
    exact Filters.escape_inert value
  unfold display
  rw [escaping, Bool.true_and]
  split
  · split
    · refine delivers_bind escaped ?_
      rintro _ ⟨s, rfl, inert⟩
      exact delivers_ofFault (grants_ok inert)
    · exact delivers_bind (delivers_ofFault fun _ _ => trivial) fun s _ =>
        delivers_pure (Filters.escapeText_inert s)
  · rename_i passed
    -- Only a marked text is put out as it is, and it was escaped when it was marked.
    rcases harmless with unmarked | ⟨s, rfl, inert⟩
    · cases value <;> contradiction
    · exact delivers_ofFault (grants_ok inert)

theorem renderOutput_inert (escaping : setting.options.autoEscape.truthy = true)
    (expression : Option Expression) (filters : List FilterUse)
    (never : ∀ filter ∈ filters, filter.name ≠ "safe") :
    Delivers (fun text => Inert text.toList) (renderOutput setting expression filters) := by
  have shown (value : Value) (unmarked : value.Unmarked) : Delivers (fun text => Inert text.toList)
      (FilterUse.applyAll setting value filters >>= display setting) :=
    delivers_bind (FilterUse.applyAll_harmless standard (.inl unmarked) filters never)
      fun _ harmless => display_inert standard escaping harmless
  cases expression with
  | none => exact shown .undefined rfl
  | some e => exact delivers_bind (e.evaluate_unmarked standard) shown

end Node
end Interpolations

/-! ### Renderings -/

theorem Node.loopBindings_unmarked (binding : LoopBinding) {item : Value} (unmarked : item.Unmarked)
    (index length : Nat) : Value.AllUnmarked (loopBindings binding item index length) := by
  intro entry member
  rcases List.mem_append.mp (Dict.mem_of_mem_ofList member) with member | member
  · simp only [List.mem_cons, List.not_mem_nil, or_false] at member
    rcases member with rfl | rfl
    · exact unmarked
    · rfl
  · obtain ⟨name, -, rfl⟩ := Option.map_eq_some_iff.mp (Option.mem_toList.mp member)
    rfl

/-- No name comes to stand for a marked text in the course of a rendering. -/
theorem Moment.unmarked_lasting (standard : setting.library = .standard surroundings) :
    Lasting setting fun world => world.scope.Unmarked where
  held {world after} same now := by
    have layers : after.scope.layers = world.scope.layers := congrArg Held.layers same
    have globals : after.scope.globals = world.scope.globals := congrArg Held.globals same
    unfold Scope.Unmarked Scope.frames
    rw [layers, globals]
    exact now
  framed {iterable world after turn items item} now found member later binding index := by
    have all := ((iterable.evaluate_unmarked standard) world _ after now found).2
    have settled : (Value.list (Value.settledItems after.scope.fresh [] 0 items)).Unmarked :=
      Value.settledItems_unmarked _ _ _ _ all
    exact later.push
      (Node.loopBindings_unmarked binding (Value.unmarked_list.mp settled item member) _ _)

/-- What a node puts into a page: its own text as it stands, or an interpolation, which is inert
unless it uses the filter that marks texts as they stand. -/
inductive Node.Shows : Node → String → Prop
  | text (span : Span) (content : String) : Shows (text span content) content
  | output (span : Span) (source : String) (expression : Option Expression)
      (filters : List FilterUse) {shown : String}
      (inert : (∀ filter ∈ filters, filter.name ≠ "safe") → Inert shown.toList) :
      Shows (output span source expression filters) shown

/-- Where escaping is switched on, on a context and a scope without marked texts: every
interpolation that rendering comes to and that does not use the filter `safe` renders to inert text
if it renders at all, whatever its expression and its other filters are; and a page that is
rendered is put together from the texts of templates and from interpolations. -/
theorem Template.interpolations_inert (standard : setting.library = .standard surroundings)
    (escaping : setting.options.autoEscape.truthy = true) (root : Template) (context : Dict Value)
    (bound : Value.AllUnmarked context) (world : World σ) (unmarked : world.scope.Unmarked) :
    let limit := Node.nestingLimit
    let start := Moment.start setting limit root context world
    (∀ reached span source expression filters rest shown after,
      start.Visits setting limit reached →
      reached.nodes = .output span source expression filters :: rest →
      (∀ filter ∈ filters, filter.name ≠ "safe") →
      Returns (reached.content setting limit (.output span source expression filters))
        reached.world shown after → Inert shown.toList) ∧
    ∀ page after, Returns (root.render setting context) world page after →
      Pieced (fun reached piece => start.Visits setting limit reached ∧
        ∃ node rest, reached.nodes = node :: rest ∧ node.Shows piece) page := by
  intro limit start
  have begins : start.world.scope.Unmarked := unmarked.push bound
  -- A filter marks a value only within its own interpolation, so at every moment the names stand
  -- for unmarked values, and a chain of filters begins with one.
  have inert {reached : Moment σ} (visits : start.Visits setting limit reached)
      {expression : Option Expression} {filters : List FilterUse} {shown : String} {after : World σ}
      (others : ∀ filter ∈ filters, filter.name ≠ "safe")
      (done : Returns (Node.renderOutput setting expression filters) reached.world shown after) :
      Inert shown.toList :=
    (Node.renderOutput_inert standard escaping expression filters others reached.world shown after
      ((Moment.unmarked_lasting standard).visits visits begins) done).2
  constructor
  · intro reached span source expression filters rest shown after visits nodes others done
    exact inert visits others done
  · intro page after done
    rw [root.render_eq] at done
    refine (Moment.yields_of_leaves start page (Template.yields_of_returns done)).mono ?_
    rintro reached piece ⟨visits, node, rest, nodes, leaf, last, done⟩
    refine ⟨visits, node, rest, nodes, ?_⟩
    cases node with
    | text span content =>
      rw [(returns_pure.mp done).1]
      exact .text span content
    | output span source expression filters =>
      exact .output span source expression filters fun others => inert visits others done
    | _ => contradiction

/-! ### A page with a text from outside -/

namespace OneBlock

/-- An interpolation of a name that is escaped and then put in capitals. -/
def shouted : Node :=
  .output ⟨3, 27, ⟨1, 4⟩⟩ "x" (some (.name ⟨6, 7, ⟨1, 7⟩⟩ "x"))
    [⟨⟨8, 16, ⟨1, 9⟩⟩, "escape", []⟩, ⟨⟨17, 24, ⟨1, 18⟩⟩, "upper", []⟩]

def page : Template :=
  ⟨1, none, "<p>\x7b\x7b x | escape | upper \x7d\x7d</p>",
    [.text ⟨0, 3, ⟨1, 1⟩⟩ "<p>", shouted, .text ⟨27, 31, ⟨1, 28⟩⟩ "</p>"], []⟩

def markup : Dict Value := [("x", .text "<b>")]

def opening : Moment Unit := .start baseOnly Node.nestingLimit page markup emptyWorld

/-- The moment at which the interpolation comes first. -/
def behindText : Moment Unit := opening.inside page.nodes.tail opening.world

/-- A text that is escaped and changed afterwards is no longer marked, and is escaped again. -/
theorem page_escapes_twice :
    baseOnly.library = .standard .still ∧ baseOnly.options.autoEscape.truthy = true ∧
    Value.AllUnmarked markup ∧ emptyWorld.scope.Unmarked ∧ Inert "&amp;LT;B&amp;GT;".toList ∧
    (∃ after, Returns (page.render baseOnly markup) emptyWorld "<p>&amp;LT;B&amp;GT;</p>" after) ∧
    Pieced (fun reached piece => opening.Visits baseOnly Node.nestingLimit reached ∧
      ∃ node rest, reached.nodes = node :: rest ∧ node.Shows piece) "<p>&amp;LT;B&amp;GT;</p>" := by
  have bound : Value.AllUnmarked markup := by decide
  have unmarked : emptyWorld.scope.Unmarked := by decide
  have standard : baseOnly.library = .standard .still := rfl
  have inert := Template.interpolations_inert standard rfl page markup bound emptyWorld unmarked
  have visits : opening.Visits baseOnly Node.nestingLimit behindText := .single (.next rfl rfl)
  have shown : (behindText.content baseOnly Node.nestingLimit shouted behindText.world).1 =
      .ok "&amp;LT;B&amp;GT;" := by
    cbv
  have whole : (page.render baseOnly markup emptyWorld).1 = .ok "<p>&amp;LT;B&amp;GT;</p>" := by
    cbv
  have done : Returns (page.render baseOnly markup) emptyWorld _ _ := Prod.ext whole rfl
  exact ⟨standard, rfl, bound, unmarked,
    inert.1 _ _ _ _ _ _ _ _ visits rfl (by decide) (Prod.ext shown rfl), ⟨_, done⟩,
    inert.2 _ _ done⟩

end OneBlock
end Stencil
