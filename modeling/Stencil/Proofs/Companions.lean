import Stencil.Proofs.Pairing
import Stencil.Proofs.Traces

/-! Renderings side by side. Nodes that are alike, rendered in settings that are alike on worlds
that agree on the known names, give the same output or the same failure. In lenient comparison the
second rendering has weaker limits and may go on where the first fails. -/
namespace Stencil

variable {σ α β : Type}

/-- How two renderings are compared. -/
structure Pairing extends Likeness where
  /-- The second may go on where the first fails. -/
  lenient : Prop

/-- Templates that stand for each other. -/
abbrev Pairing.Kin (p : Pairing) : Template → Template → Prop := Template.Alike p.toLikeness

structure World.Alike (p : Pairing) (world other : World σ) : Prop where
  scope : Scope.Agree p.toLikeness world.scope other.scope
  store (entered : p.templates) : Store.Alike p.Kin world.store other.store
  routines : world.routines = other.routines

/-- Libraries with the same filters, and the same known functions. -/
structure Library.Alike (l : Likeness) (library other : Library σ) : Prop where
  call {name : String} (known : l.functions name) : library.call name = other.call name
  applyFilter (name : String) : library.applyFilter name = other.applyFilter name
  escape : Dict.has library.filters "escape" = Dict.has other.filters "escape"

/-- Options that are set alike for rendering, where the second may have weaker limits in lenient
comparison. -/
structure Options.Similar (lenient : Prop) (options other : Options) : Prop where
  autoEscape : options.autoEscape.truthy = other.autoEscape.truthy
  strict : options.strictArithmetic.truthy = other.strictArithmetic.truthy ∨
    lenient ∧ other.strictArithmetic.truthy = false
  depth : Reaches lenient options.maxDepth other.maxDepth
  turns : Reaches lenient options.maxLoopIterations other.maxLoopIterations

/-- Options that are set alike for compiling too. -/
structure Options.Alike (lenient : Prop) (options other : Options) : Prop
    extends Options.Similar lenient options other where
  strictMode : options.strictMode.truthy = other.strictMode.truthy
  cacheTemplates : options.cacheTemplates.truthy = other.cacheTemplates.truthy

structure Setting.Alike (p : Pairing) (setting other : Setting σ) : Prop where
  library : Library.Alike p.toLikeness setting.library other.library
  options : Options.Similar p.lenient setting.options other.options
  catalogue (entered : p.templates) :
    Option.Rel (Dict.Related p.Kin) setting.catalogue other.catalogue
  memory {name : String} (known : p.objects name) : setting.memory name = other.memory name

/-- The second step gives what the first one gives, on worlds that are alike. -/
abbrev Pairing.Follows (p : Pairing) (first second : Rendering σ α) : Prop :=
  Mirrors p.lenient (World.Alike p) Eq first second

variable {p : Pairing}

namespace Rendering

theorem ofResult_follows {result other : Except Failure α} (accord : Accord p.lenient Eq result other) :
    p.Follows (ofResult result : Rendering σ α) (ofResult other) := by
  intro world world' alike
  rcases accord with ⟨a, b, rfl, rfl, same⟩ | ⟨e, rfl, rfl⟩ | ⟨mild, e, rfl⟩
  · exact .inl ⟨a, world, b, world', rfl, rfl, same, alike⟩
  · exact .inr (.inl ⟨e, world, world', rfl, rfl, alike⟩)
  · exact .inr (.inr ⟨mild, e, world, rfl⟩)

theorem ofFault_follows (result : Except Fault α) :
    p.Follows (ofFault result : Rendering σ α) (ofFault result) :=
  ofResult_follows (.refl _)

theorem fail_follows (mild : p.lenient) (trouble : Trouble) {second : Rendering σ α} :
    p.Follows (fail trouble) second :=
  fun world _ _ => .inr (.inr ⟨mild, .ofTrouble trouble, world, rfl⟩)

theorem call_follows {routine other : Routine σ} (same : routine = other) (args : List Value) :
    p.Follows (Rendering.call routine args) (Rendering.call other args) := by
  subst same
  intro world world' alike
  obtain ⟨scope, store, routines⟩ := world
  obtain ⟨scope', store', routines'⟩ := world'
  obtain ⟨agree, stored, rfl⟩ := alike
  rcases run : routine args routines with ⟨result, after⟩
  have here : (Rendering.call routine args : Rendering σ Value) ⟨scope, store, routines⟩ =
      (result, ⟨scope, store, after⟩) := by simp only [Rendering.call, run]
  have there : (Rendering.call routine args : Rendering σ Value) ⟨scope', store', routines⟩ =
      (result, ⟨scope', store', after⟩) := by simp only [Rendering.call, run]
  cases result with
  | error e => exact .inr (.inl ⟨e, _, _, here, there, agree, stored, rfl⟩)
  | ok value => exact .inl ⟨value, _, value, _, here, there, rfl, agree, stored, rfl⟩

theorem mirrors_annotated {lenient : Prop} {states : World σ → World σ → Prop}
    {results : α → β → Prop} {first : Rendering σ α} {second : Rendering σ β}
    (annotate : TemplateError → TemplateError) (mirrors : Mirrors lenient states results first second) :
    Mirrors lenient states results (annotated annotate first) (annotated annotate second) := by
  intro world world' related
  rcases mirrors world world' related with ⟨a, after, b, after', here, there, same, kept⟩ |
    ⟨e, after, after', here, there, kept⟩ | ⟨mild, e, after, here⟩
  · exact .inl ⟨a, after, b, after', returns_annotated.mpr here, returns_annotated.mpr there,
      same, kept⟩
  · exact .inr (.inl ⟨e.annotate annotate, after, after', fails_annotated.mpr ⟨e, here, rfl⟩,
      fails_annotated.mpr ⟨e, there, rfl⟩, kept⟩)
  · exact .inr (.inr ⟨mild, e.annotate annotate, after, fails_annotated.mpr ⟨e, here, rfl⟩⟩)

/-- A failure that is annotated in the same way on both sides. -/
theorem annotated_follows {annotate other : TemplateError → TemplateError} (same : annotate = other)
    {first second : Rendering σ α} (follows : p.Follows first second) :
    p.Follows (annotated annotate first) (annotated other second) :=
  same ▸ mirrors_annotated annotate follows

section Frames

variable {bindings : Dict Value} {body : Rendering σ α} {world after : World σ}

theorem withFrame_of_returns {a : α} (run : Returns body (world.framed bindings) a after) :
    withFrame bindings body world =
      (if after.scope.isTop world.scope.fresh then .ok a else .error (.fault .framesOutOfOrder),
        { after with scope := after.scope.unwind world.scope.fresh }) := by
  have inner : body ⟨world.scope.push bindings, world.store, world.routines⟩ = (.ok a, after) := run
  simp only [withFrame, Scope.within, inner, Scope.leave]
  cases after.scope.isTop world.scope.fresh <;> rfl

theorem withFrame_of_fails {e : Failure} (run : Fails body (world.framed bindings) e after) :
    withFrame bindings body world =
      (.error e, { after with scope := after.scope.unwind world.scope.fresh }) := by
  have inner : body ⟨world.scope.push bindings, world.store, world.routines⟩ = (.error e, after) := run
  simp only [withFrame, Scope.within, inner, Scope.leave]

end Frames

theorem withFrame_follows {bindings bindings' : Dict Value}
    (binds : p.toLikeness.Binds bindings bindings') {first second : Rendering σ α}
    (follows : p.Follows first second) :
    p.Follows (withFrame bindings first) (withFrame bindings' second) := by
  intro world world' alike
  have framed : World.Alike p (world.framed bindings) (world'.framed bindings') :=
    ⟨alike.scope.push binds, alike.store, alike.routines⟩
  have left {after after' : World σ} (kept : World.Alike p after after') (number : Nat) :
      World.Alike p { after with scope := after.scope.unwind number }
        { after' with scope := after'.scope.unwind number } :=
    ⟨kept.scope.unwind number, kept.store, kept.routines⟩
  rcases follows _ _ framed with ⟨a, after, b, after', here, there, rfl, kept⟩ |
    ⟨e, after, after', here, there, kept⟩ | ⟨mild, e, after, here⟩
  · have run := withFrame_of_returns here
    have run' := withFrame_of_returns there
    rw [← alike.scope.fresh, ← kept.scope.isTop] at run'
    split at run
    · rename_i top
      rw [if_pos top] at run'
      exact .inl ⟨a, _, a, _, run, run', rfl, left kept _⟩
    · rename_i top
      rw [if_neg top] at run'
      exact .inr (.inl ⟨_, _, _, run, run', left kept _⟩)
  · have run' := withFrame_of_fails there
    rw [← alike.scope.fresh] at run'
    exact .inr (.inl ⟨e, _, _, withFrame_of_fails here, run', left kept _⟩)
  · exact .inr (.inr ⟨mild, e, _, withFrame_of_fails here⟩)

theorem resolve_follows {setting other : Setting σ} (settings : Setting.Alike p setting other)
    (entered : p.templates) (name : String) :
    Mirrors p.lenient (World.Alike p) p.Kin (resolve setting name) (resolve other name) := by
  intro world world' alike
  have catalogue := settings.catalogue entered
  unfold MirrorsAt Returns Fails
  change (∃ a s b t, resolve setting name world = _ ∧ resolve other name world' = _ ∧ _ ∧ _) ∨
    (∃ e s t, resolve setting name world = _ ∧ resolve other name world' = _ ∧ _) ∨
    p.lenient ∧ ∃ e s, resolve setting name world = _
  unfold resolve
  generalize setting.catalogue = listed at catalogue ⊢
  generalize other.catalogue = listed' at catalogue ⊢
  cases catalogue with
  | none => exact .inr (.inl ⟨_, world, world', rfl, rfl, alike⟩)
  | some related =>
    rename_i dict dict'
    have here := related.get? name
    dsimp only
    generalize Dict.get? dict name = entry at here ⊢
    generalize Dict.get? dict' name = entry' at here ⊢
    cases here with
    | some same => exact .inl ⟨_, world, _, world', rfl, rfl, same, alike⟩
    | none =>
      obtain ⟨found, store⟩ := (alike.store entered).get name
      dsimp only
      generalize world.store.get name = looked at found store ⊢
      generalize world'.store.get name = looked' at found store ⊢
      obtain ⟨kept, left⟩ := looked
      obtain ⟨kept', left'⟩ := looked'
      have after : World.Alike p { world with store := left } { world' with store := left' } :=
        ⟨alike.scope, fun _ => store, alike.routines⟩
      cases found with
      | none => exact .inr (.inl ⟨_, _, _, rfl, rfl, after⟩)
      | some same => exact .inl ⟨_, _, _, _, rfl, rfl, same, after⟩

end Rendering

/-! ### Evaluation -/

open Rendering

variable {setting other : Setting σ}

namespace Operator

variable {left right value : Value} {symbol : String}

/-- What only raises an error, once its message is at hand, gives no value. -/
theorem bind_throw_ne_ok {first second : Except Failure String} {error : String → String → Failure} :
    (do throw (error (← first) (← second)) : Except Failure Value) ≠ .ok value := by
  intro run
  cases first with
  | error e => cases run
  | ok a =>
    cases second with
    | error e => cases run
    | ok b => cases run

theorem sum_relaxed (run : sum true left right = .ok value) : sum false left right = .ok value := by
  have missing (run : sum.missing true left right = .ok value) :
      sum.missing false left right = .ok value := by
    unfold sum.missing at run ⊢
    split at run
    · exact absurd run bind_throw_ne_ok
    · exact run
  unfold sum at run ⊢
  split at run
  · rename_i texts
    rw [if_pos texts]
    exact run
  · rename_i others
    rw [if_neg others]
    split at run
    · split at run
      · rename_i absent
        rw [if_pos absent]
        exact missing run
      · rename_i present
        rw [if_neg present]
        exact run
    · exact missing run

theorem divide_relaxed {compute : Number → Number → Except Fault Number} {a b : Number}
    (run : divide true symbol compute a b = .ok value) :
    divide false symbol compute a b = .ok value := by
  unfold divide at run ⊢
  split at run
  · cases run
  · rename_i nonzero
    rw [if_neg nonzero]
    exact run

theorem computeBy_relaxed (run : computeBy true symbol left right = .ok value) :
    computeBy false symbol left right = .ok value := by
  unfold computeBy at run ⊢
  split at run
  · exact sum_relaxed run
  · split at run
    · split at run
      · exact run
      · exact run
      · exact divide_relaxed run
      · exact divide_relaxed run
      · cases run
    · cases run

/-- What an operator gives under strict arithmetic it gives without. -/
theorem apply_relaxed {op : Operator} (run : op.apply true left right = .ok value) :
    op.apply false left right = .ok value := by
  unfold apply at run ⊢
  generalize op.family = family at run ⊢
  cases family with
  | logical => exact run
  | comparison => exact run
  | _ => exact computeBy_relaxed run

end Operator

theorem Setting.Alike.apply (settings : Setting.Alike p setting other) (op : Operator)
    (left right : Value) :
    Accord p.lenient Eq (op.apply setting.options.strictArithmetic.truthy left right)
      (op.apply other.options.strictArithmetic.truthy left right) := by
  rcases settings.options.strict with same | ⟨mild, relaxed⟩
  · rw [same]
    exact .refl _
  · rw [relaxed]
    cases strict : setting.options.strictArithmetic.truthy with
    | false => exact .refl _
    | true =>
      cases run : op.apply true left right with
      | error e => exact .inr (.inr ⟨mild, e, rfl⟩)
      | ok value => exact .inl ⟨value, value, rfl, op.apply_relaxed run, rfl⟩

theorem Operator.evaluate_follows (settings : Setting.Alike p setting other) (op : Operator)
    (left : Value) {right right' : Rendering σ Value} (follows : p.Follows right right') :
    p.Follows (op.evaluate setting left right) (op.evaluate other left right') := by
  unfold evaluate
  split
  · exact mirrors_pure rfl
  · exact follows.bind_eq fun value => ofResult_follows (settings.apply op left value)

namespace Expression

/-- Only a path to a method tells where objects stand. -/
theorem property_follows (settings : Setting.Alike p setting other) (object : Expression)
    {key : String} (known : Kind.AnyMethod key → ∀ root, object.root? = some root → p.objects root)
    (value : Value) :
    value.property (object.standing setting.memory) key =
      value.property (object.standing other.memory) key := by
  by_cases method : Kind.AnyMethod key
  · have same : object.standing setting.memory = object.standing other.memory := by
      unfold standing
      cases start : object.root? with
      | none => rfl
      | some root => exact settings.memory (known method root start)
    rw [same]
  · have none (standing : Owner → Nat) : value.method? standing key = none :=
      Value.method?_eq_none standing value method
    rw [Value.property, Value.property, none, none]

mutual
theorem evaluate_follows (settings : Setting.Alike p setting other) :
    (expression : Expression) → expression.Uses p.toLikeness →
      p.Follows (expression.evaluate setting) (expression.evaluate other)
  | literal .., _ => mirrors_pure rfl
  | name _ _, known => mirrors_get.bind fun _ _ alike => mirrors_pure (alike.scope.get known)
  | property _ object _, known =>
    (evaluate_follows settings object known.1).bind_eq fun value =>
      mirrors_pure (property_follows settings object known.2 value)
  | element _ array index, known =>
    (evaluate_follows settings array known.1).bind_eq fun _ =>
      (evaluate_follows settings index known.2).bind_eq fun _ => ofFault_follows _
  | binary _ op left right, known =>
    (evaluate_follows settings left known.1).bind_eq fun value =>
      op.evaluate_follows settings value (evaluate_follows settings right known.2)
  | call _ _ args, known =>
    (evaluateAll_follows settings args known.2).bind_eq fun values =>
      call_follows (settings.library.call known.1) values
theorem evaluateAll_follows (settings : Setting.Alike p setting other) :
    (expressions : List Expression) → AllUse p.toLikeness expressions →
      p.Follows (evaluateAll setting expressions) (evaluateAll other expressions)
  | [], _ => mirrors_pure rfl
  | expression :: rest, known =>
    (evaluate_follows settings expression known.1).bind_eq fun _ =>
      (evaluateAll_follows settings rest known.2).bind_eq fun _ => mirrors_pure rfl
end

end Expression

theorem FilterUse.applyAll_follows (settings : Setting.Alike p setting other) (value : Value)
    {filters : List FilterUse}
    (known : ∀ filter ∈ filters, Expression.AllUse p.toLikeness filter.args) :
    p.Follows (applyAll setting value filters) (applyAll other value filters) := by
  induction filters generalizing value with
  | nil => exact mirrors_pure rfl
  | cons filter rest ih =>
    have args := Expression.evaluateAll_follows settings filter.args (known _ List.mem_cons_self)
    refine args.bind_eq fun values => ?_
    refine (call_follows (settings.library.applyFilter filter.name) _).bind_eq fun next => ?_
    exact ih next fun other member => known other (List.mem_cons_of_mem _ member)

namespace Node

/-! ### Output and loops -/

theorem display_follows (settings : Setting.Alike p setting other) (value : Value) :
    p.Follows (display setting value) (display other value) := by
  unfold display
  rw [settings.options.autoEscape, settings.library.escape]
  split
  · split
    · exact (call_follows (settings.library.applyFilter _) _).bind_eq fun _ => ofFault_follows _
    · exact (ofFault_follows _).bind_eq fun _ => mirrors_pure rfl
  · exact ofFault_follows _

theorem renderOutput_follows (settings : Setting.Alike p setting other)
    {expression : Option Expression} {filters : List FilterUse}
    (used : ∀ e ∈ expression, e.Uses p.toLikeness)
    (given : ∀ filter ∈ filters, Expression.AllUse p.toLikeness filter.args) :
    p.Follows (renderOutput setting expression filters) (renderOutput other expression filters) := by
  have shown (value : Value) : p.Follows
      (FilterUse.applyAll setting value filters >>= display setting)
      (FilterUse.applyAll other value filters >>= display other) :=
    (FilterUse.applyAll_follows settings value given).bind_eq (display_follows settings)
  cases expression with
  | none => exact (mirrors_pure rfl).bind_eq shown
  | some e => exact (e.evaluate_follows settings (used e rfl)).bind_eq shown

theorem renderItems_follows {body body' : Rendering σ String} (follows : p.Follows body body')
    (binding : LoopBinding) (length index : Nat) (items : List Value) :
    p.Follows (renderItems body binding length index items)
      (renderItems body' binding length index items) := by
  induction items generalizing index with
  | nil => exact mirrors_pure rfl
  | cons item rest ih =>
    exact (withFrame_follows (fun _ _ => rfl) follows).bind_eq fun _ =>
      (ih (index + 1)).bind_eq fun _ => mirrors_pure rfl

theorem renderWhile_follows (settings : Setting.Alike p setting other)
    {condition condition' : Rendering σ Value} {body body' : Rendering σ String}
    (asks : p.Follows condition condition') (follows : p.Follows body body') {turns more : Nat}
    (reaches : Reaches p.lenient turns more) :
    p.Follows (renderWhile setting condition body turns)
      (renderWhile other condition' body' more) := by
  -- On the turns that the first loop has left; the second has as many or, leniently, more.
  induction turns generalizing more with
  | zero =>
    cases more with
    | zero =>
      refine asks.bind_eq fun value => ?_
      split
      · rcases settings.options.turns with same | ⟨mild, -⟩
        · rw [same]
          exact ofResult_follows (.refl _)
        · exact fail_follows mild _
      · exact mirrors_pure rfl
    | succ more =>
      obtain ⟨mild, -⟩ := reaches.resolve_left (by omega)
      refine asks.bind_eq fun value => ?_
      split
      · exact fail_follows mild _
      · exact mirrors_pure rfl
  | succ turns ih =>
    obtain ⟨less, rfl, further⟩ := reaches.of_succ
    refine asks.bind_eq fun value => ?_
    split
    · exact follows.bind_eq fun _ => (ih further).bind_eq fun _ => mirrors_pure rfl
    · exact mirrors_pure rfl

/-! ### Nodes -/

end Node

structure Place.Alike (p : Pairing) (place other : Place) : Prop where
  template : place.template = other.template
  replacements : Dict.Related (Node.AllAlike p.toLikeness) place.replacements other.replacements

/-- Doors that lead into nodes that are alike. -/
structure Door.Alike (p : Pairing) (door other : Door σ) : Prop where
  enter {place place' : Place} {nodes nodes' : List Node} (places : Place.Alike p place place')
    (alike : Node.AllAlike p.toLikeness nodes nodes') :
    p.Follows (door.enter place nodes) (other.enter place' nodes')
  replace {place place' : Place} {nodes nodes' : List Node} (places : Place.Alike p place place')
    (alike : Node.AllAlike p.toLikeness nodes nodes') :
    p.Follows (door.replace place nodes) (other.replace place' nodes')

namespace Node

theorem annotate_eq {place place' : Place} (same : place.template = place'.template)
    {l : Likeness} {node node' : Node} (alike : Alike l node node') :
    annotate place node = annotate place' node' := by
  funext error
  cases alike <;> simp only [annotate, same, describe, span, Block.name, Block.span]

theorem related_bodies {l : Likeness} {blocks others : List Block}
    (alike : Block.AllAlike l blocks others) :
    Dict.Related (AllAlike l) (blocks.map fun named => (named.name, named.body))
      (others.map fun named => (named.name, named.body)) := by
  induction blocks generalizing others with
  | nil =>
    cases alike
    exact .nil
  | cons named rest ih =>
    cases alike with
    | cons span name kept later => exact .cons ⟨rfl, kept⟩ (ih later)

theorem renderAll_text (setting : Setting σ) (door : Door σ) (place : Place) (span : Span)
    (content : String) (rest : List Node) :
    renderAll setting door place (.text span content :: rest) =
      (content ++ ·) <$> renderAll setting door place rest := by
  rw [renderAll, render, pure_bind, map_eq_pure_bind]

/-- A piece that is cut off a text is put out before the rest of it. -/
theorem renderAll_cut (setting : Setting σ) (door : Door σ) (place : Place) (span : Span)
    (piece content : String) (rest : List Node) :
    renderAll setting door place (.text span (piece ++ content) :: rest) =
      (piece ++ ·) <$> renderAll setting door place (.text span content :: rest) := by
  rw [renderAll_text, renderAll_text, Functor.map_map]
  simp only [String.append_assoc]

end Node

open Node

variable {door door' : Door σ} {place place' : Place}

theorem Node.renderBlock_follows (doors : Door.Alike p door door')
    (places : Place.Alike p place place') (span : Span) (name : String) {body body' : List Node}
    (kept : p.Follows (renderAll setting door place body) (renderAll other door' place' body')) :
    p.Follows (renderBlock setting door place (.mk span name body))
      (renderBlock other door' place' (.mk span name body')) := by
  have replaced := places.replacements.get? name
  rw [renderBlock, renderBlock]
  generalize Dict.get? place.replacements name = given at replaced ⊢
  generalize Dict.get? place'.replacements name = given' at replaced ⊢
  cases replaced with
  | none => exact kept
  | some alike => exact doors.replace places alike

theorem Node.renderOther_follows (settings : Setting.Alike p setting other)
    (doors : Door.Alike p door door') (entered : p.templates) (name : Value)
    {replacements replacements' : Dict (List Node)}
    (related : Dict.Related (AllAlike p.toLikeness) replacements replacements') :
    p.Follows (renderOther setting door name replacements)
      (renderOther other door' name replacements') := by
  refine (ofFault_follows _).bind_eq fun text => ?_
  refine (resolve_follows settings entered text).bind fun template template' kin => ?_
  exact doors.enter ⟨kin.name, related⟩ kin.nodes

/-- Two renderings stand at places that are alike. -/
structure Abreast (p : Pairing) (setting other : Setting σ) (door door' : Door σ)
    (place place' : Place) : Prop where
  settings : Setting.Alike p setting other
  doors : Door.Alike p door door'
  places : Place.Alike p place place'

mutual
theorem Node.Alike.follows (abreast : Abreast p setting other door door' place place')
    {node node' : Node} : Alike p.toLikeness node node' →
    p.Follows (node.render setting door place) (node'.render other door' place')
  | .text .. | .comment .. => mirrors_pure rfl
  | .output span source used given =>
    annotated_follows (annotate_eq abreast.places.template (.output span source used given))
      (renderOutput_follows abreast.settings used given)
  | .conditional span used first later last => by
    refine annotated_follows
      (annotate_eq abreast.places.template (.conditional span used first later last)) ?_
    refine (Expression.evaluate_follows abreast.settings _ used).bind_eq fun value => ?_
    split
    · exact first.follows abreast
    · exact later.follows abreast (last.follows abreast)
  | .loop span binding used kept => by
    refine annotated_follows (annotate_eq abreast.places.template (.loop span binding used kept)) ?_
    refine (Expression.evaluate_follows abreast.settings _ used).bind_eq fun value => ?_
    split
    · refine mirrors_get.bind fun world world' alike => ?_
      dsimp only
      rw [alike.scope.fresh]
      exact renderItems_follows (kept.follows abreast) binding _ _ _
    · exact mirrors_pure rfl
  | .repetition span used kept =>
    annotated_follows (annotate_eq abreast.places.template (.repetition span used kept))
      (renderWhile_follows abreast.settings (Expression.evaluate_follows abreast.settings _ used)
        (kept.follows abreast) abreast.settings.options.turns)
  | .exception span used kept => by
    refine annotated_follows (annotate_eq abreast.places.template (.exception span used kept)) ?_
    refine (Expression.evaluate_follows abreast.settings _ used).bind_eq fun value => ?_
    split
    · exact mirrors_pure rfl
    · exact kept.follows abreast
  | .block span name kept =>
    annotated_follows (annotate_eq abreast.places.template (.block span name kept))
      (renderBlock_follows abreast.doors abreast.places span name (kept.follows abreast))
  | .inclusion span entered used =>
    annotated_follows (annotate_eq abreast.places.template (.inclusion span entered used))
      ((Expression.evaluate_follows abreast.settings _ used).bind_eq fun value =>
        renderOther_follows abreast.settings abreast.doors entered value .nil)
  | .extension span entered used given =>
    annotated_follows (annotate_eq abreast.places.template (.extension span entered used given))
      ((Expression.evaluate_follows abreast.settings _ used).bind_eq fun value =>
        renderOther_follows abreast.settings abreast.doors entered value
          ((related_bodies given).ofList.update abreast.places.replacements))
theorem Node.AllAlike.follows (abreast : Abreast p setting other door door' place place')
    {nodes nodes' : List Node} : AllAlike p.toLikeness nodes nodes' →
    p.Follows (renderAll setting door place nodes) (renderAll other door' place' nodes')
  | .nil => mirrors_pure rfl
  | .cons first later =>
    (first.follows abreast).bind_eq fun _ => (later.follows abreast).bind_eq fun _ => mirrors_pure rfl
  -- Both sides put the piece out first, so the rest of its text is compared with what is left.
  | .cut _ span span' piece content later => by
    rw [renderAll_cut, renderAll_text]
    exact (later.follows abreast).map fun _ _ same => congrArg (piece ++ ·) same
  | .spent _ span later => by
    rw [renderAll_text]
    simp only [String.empty_append, id_map']
    exact later.follows abreast
theorem Clause.AllAlike.follows (abreast : Abreast p setting other door door' place place')
    {clauses clauses' : List Clause} {last last' : Rendering σ String}
    (otherwise : p.Follows last last') : Clause.AllAlike p.toLikeness clauses clauses' →
    p.Follows (renderClauses setting door place last clauses)
      (renderClauses other door' place' last' clauses')
  | .nil => otherwise
  | .cons _ used kept later => by
    refine (Expression.evaluate_follows abreast.settings _ used).bind_eq fun value => ?_
    split
    · exact kept.follows abreast
    · exact later.follows abreast otherwise
end

/-! ### Templates -/

namespace Node

variable {nodes nodes' : List Node}

theorem renderWithin_follows (settings : Setting.Alike p setting other)
    {enter enter' : Place → List Node → Rendering σ String}
    (entered : ∀ {place place' : Place} {nodes nodes' : List Node}, Place.Alike p place place' →
      AllAlike p.toLikeness nodes nodes' → p.Follows (enter place nodes) (enter' place' nodes'))
    (replacements : Nat) (places : Place.Alike p place place')
    (alike : AllAlike p.toLikeness nodes nodes') :
    p.Follows (renderWithin setting enter replacements place nodes)
      (renderWithin other enter' replacements place' nodes') := by
  induction replacements generalizing place place' nodes nodes' with
  | zero => exact ofFault_follows _
  | succ replacements ih => exact alike.follows ⟨settings, ⟨entered, ih⟩, places⟩

theorem renderEntered_follows (settings : Setting.Alike p setting other) {levels more : Nat}
    (reaches : Reaches p.lenient levels more) (places : Place.Alike p place place')
    (alike : AllAlike p.toLikeness nodes nodes') :
    p.Follows (renderEntered setting levels place nodes)
      (renderEntered other more place' nodes') := by
  -- On the levels below which the first may enter no other template.
  induction levels generalizing more place place' nodes nodes' with
  | zero =>
    rcases reaches with rfl | ⟨mild, -⟩
    · rcases settings.options.depth with same | ⟨mild, -⟩
      · rw [renderEntered, renderEntered, same]
        exact ofResult_follows (.refl _)
      · exact fail_follows mild _
    · exact fail_follows mild _
  | succ levels ih =>
    obtain ⟨less, rfl, further⟩ := reaches.of_succ
    exact renderWithin_follows settings (ih further) replacementLimit places alike

end Node

/-- Templates that are alike, rendered in contexts that bind the known names alike. -/
theorem Template.render_follows (settings : Setting.Alike p setting other)
    {template template' : Template} (named : template.name = template'.name)
    (alike : AllAlike p.toLikeness template.nodes template'.nodes) {context context' : Dict Value}
    (binds : p.toLikeness.Binds context context') :
    p.Follows (template.render setting context) (template'.render other context') := by
  refine withFrame_follows binds (annotated_follows (by rw [named]) ?_)
  rw [named]
  exact renderWithin_follows settings (renderEntered_follows settings settings.options.depth) _
    ⟨rfl, .nil⟩ alike

end Stencil
