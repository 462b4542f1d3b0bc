import Stencil.Proofs.Companions
import Stencil.Proofs.Engines
import Stencil.Proofs.Readings

/-! Engines side by side. Engines that keep templates which are alike compile a source into
templates that are alike again, and render these to the same output or the same failure. -/
namespace Stencil

variable {σ : Type}

/-- What an engine is given: its functions and filters, and what it reads from outside. -/
abbrev Engine.Givens (σ : Type) := Library σ × Surroundings

def Engine.given (engine : Engine σ) : Givens σ := (engine.library, engine.surroundings)

/-- Engines that keep templates alike, are given related things and read the known sources alike. -/
structure Engine.Alike (p : Pairing) (givens : Givens σ → Givens σ → Prop)
    (known : String → Prop) (engine other : Engine σ) : Prop where
  options : Options.Alike p.lenient engine.options other.options
  given : givens engine.given other.given
  reads {source : String} (listed : known source) :
    Accord p.lenient (Analysis.Alike p.toLikeness) (Analysis.ofText engine.options source)
      (Analysis.ofText other.options source)
  store : Store.Alike p.Kin engine.store other.store
  catalogue : Dict.Related p.Kin engine.catalogue other.catalogue
  compilations : engine.compilations = other.compilations
  renders : engine.renders = other.renders

namespace Engine

variable {p : Pairing} {givens : Givens σ → Givens σ → Prop} {known : String → Prop}

/-- Sessions of engines that are alike, with the same state of routines. -/
structure Abreast (p : Pairing) (givens : Givens σ → Givens σ → Prop) (known : String → Prop)
    (session other : Engine σ × σ) : Prop where
  engine : Engine.Alike p givens known session.1 other.1
  routines : session.2 = other.2

/-- The second work does what the first one does, on sessions that are abreast. -/
abbrev Matches {α β : Type} (p : Pairing) (givens : Givens σ → Givens σ → Prop)
    (known : String → Prop) (results : α → β → Prop) (first : Work σ α) (second : Work σ β) : Prop :=
  Mirrors p.lenient (Abreast p givens known) results first second

theorem engine_matches : Matches p givens known (Alike p givens known) (Work.engine : Work σ _)
    Work.engine :=
  mirrors_get.bind fun _ _ abreast => mirrors_pure abreast.engine

theorem change_matches {f g : Engine σ → Engine σ}
    (kept : ∀ engine other, Alike p givens known engine other →
      Alike p givens known (f engine) (g other)) :
    Matches p givens known Eq (Work.change f) (Work.change g) :=
  mirrors_modify fun _ _ abreast => ⟨kept _ _ abreast.engine, abreast.routines⟩

theorem ofResult_matches {α β : Type} {results : α → β → Prop} {result : Except Failure α}
    {other : Except Failure β} (accord : Accord p.lenient results result other) :
    Matches p givens known results (Work.ofResult result : Work σ α) (Work.ofResult other) :=
  mirrors_lift accord

/-! ### Compiling -/

theorem stored_matches (name : String) :
    Matches p givens known (Option.Rel p.Kin) (stored name : Work σ _) (stored name) := by
  refine engine_matches.bind fun engine other alike => ?_
  obtain ⟨same, kept⟩ := alike.store.get name
  refine Mirrors.bind_eq ?_ fun _ => mirrors_pure same
  exact change_matches fun _ _ now => { now with store := kept }

theorem filter_kin {found other : Option Template} (same : Option.Rel p.Kin found other)
    (source : String) :
    Option.Rel p.Kin (found.filter (·.source == source)) (other.filter (·.source == source)) := by
  cases same with
  | none => exact .none
  | some kin =>
    simp only [Option.filter_some, kin.source]
    split
    · exact .some kin
    · exact .none

theorem reusable_matches (name : Option String) (source : String) :
    Matches p givens known (Option.Rel p.Kin) (reusable name source : Work σ _)
      (reusable name source) := by
  cases name with
  | none => exact mirrors_pure .none
  | some name =>
    refine engine_matches.bind fun engine other alike => ?_
    rw [alike.options.cacheTemplates]
    split
    · exact (stored_matches name).bind fun _ _ same => mirrors_pure (filter_kin same source)
    · exact mirrors_pure .none

/-- What is built of an analysis. -/
theorem build_of_analysis {engine : Engine σ} {source : String} {analysis : Analysis}
    (read : Analysis.ofText engine.options source = .ok analysis) (name : Option String) :
    build engine source name =
      if !analysis.valid && engine.options.strictMode.truthy then
        .error (.template ((TemplateError.ofCause (.refused analysis.diagnostics)).inTemplate name))
      else .ok ⟨engine.compilations, name, source, analysis.tree.nodes, analysis.diagnostics⟩ := by
  rw [build, read]
  by_cases refused : (!analysis.valid && engine.options.strictMode.truthy) = true
  · simp only [bind, Except.bind, if_pos refused]
    rfl
  · simp only [bind, Except.bind, if_neg refused]
    rfl

theorem build_accord {engine other : Engine σ} (alike : Alike p givens known engine other)
    {source : String} (listed : known source) (name : Option String) :
    Accord p.lenient p.Kin (build engine source name) (build other source name) := by
  rcases alike.reads listed with ⟨analysis, analysis', here, there, same⟩ | ⟨e, here, there⟩ |
    ⟨mild, e, here⟩
  · rw [build_of_analysis here, build_of_analysis there, Analysis.valid, Analysis.valid,
      same.diagnostics, alike.options.strictMode]
    split
    · exact .inr (.inl ⟨_, rfl, rfl⟩)
    · exact .inl ⟨_, _, rfl, rfl, alike.compilations, rfl, rfl, same.tree.nodes, rfl⟩
  · rw [build, build, here, there]
    exact .inr (.inl ⟨e, rfl, rfl⟩)
  · rw [build, here]
    exact .inr (.inr ⟨mild, e, rfl⟩)

variable {source : String}

theorem compile_matches (listed : known source) (name : Option String) :
    Matches p givens known p.Kin (compile source name : Work σ _) (compile source name) := by
  refine (reusable_matches name source).bind fun found found' same => ?_
  cases same with
  | some kin => exact mirrors_pure kin
  | none =>
    refine engine_matches.bind fun engine other alike => ?_
    refine (ofResult_matches (build_accord alike listed name)).bind fun template template' kin => ?_
    refine Mirrors.bind_eq ?_ fun _ => mirrors_pure kin
    refine change_matches fun _ _ now => { now with
      compilations := congrArg (· + 1) now.compilations
      store := ?_ }
    cases name with
    | none => exact now.store
    | some name => exact now.store.put name kin

theorem precompile_matches (listed : known source) (name : String) :
    Matches p givens known p.Kin (precompile name source : Work σ _) (precompile name source) := by
  refine (compile_matches listed (some name)).bind fun template template' kin => ?_
  refine Mirrors.bind_eq ?_ fun _ => mirrors_pure kin
  exact change_matches fun _ _ now => { now with catalogue := now.catalogue.set name kin }

theorem precompileAll_matches {sources : List (String × String)}
    (listed : ∀ entry ∈ sources, known entry.2) :
    Matches p givens known Eq (precompileAll sources : Work σ _) (precompileAll sources) := by
  induction sources with
  | nil => exact mirrors_pure rfl
  | cons first rest ih =>
    rw [precompileAll]
    refine (precompile_matches (listed first List.mem_cons_self) first.1).bind fun _ _ _ => ?_
    exact ih fun entry member => listed entry (List.mem_cons_of_mem _ member)

/-! ### Rendering -/

theorem call_run (template : Template) (context : Dict Value) (session : Engine σ × σ)
    {result : Except Failure String} {world : World σ}
    (run : (template.render (session.1.setting session.1.library) context).run.run
      ⟨.empty, session.1.store, session.2⟩ = (result, world)) :
    (call template context).run.run session =
      (result, { session.1 with store := world.store }, world.routines) := by
  change call template context session = _
  have inner : (template.render (session.1.setting session.1.library) context).run
      ⟨.empty, session.1.store, session.2⟩ = (result, world) := run
  simp only [call, renderOn, inner]

/-- What a rendering leaves: sessions that differ from those before it in the counts of their stores
and in the state of routines. -/
structure Restored (p : Pairing) (session other after after' : Engine σ × σ) : Prop where
  here : after.1 = { session.1 with store := after.1.store }
  there : after'.1 = { other.1 with store := after'.1.store }
  stores (entered : p.templates) : Store.Alike p.Kin after.1.store after'.1.store
  routines : after.2 = after'.2

section Kin

variable {template template' : Template} {context context' : Dict Value}
  (binds : p.toLikeness.Binds context context')
include binds

/-- Templates with nodes that are alike, rendered in sessions that are alike. -/
theorem call_mirrors {session other : Engine σ × σ}
    (settings : Setting.Alike p (session.1.setting session.1.library)
      (other.1.setting other.1.library))
    (stores : p.templates → Store.Alike p.Kin session.1.store other.1.store)
    (routines : session.2 = other.2) (named : template.name = template'.name)
    (alike : Node.AllAlike p.toLikeness template.nodes template'.nodes) :
    MirrorsAt p.lenient (Restored p session other) Eq (call template context)
      (call template' context') session other := by
  have worlds : World.Alike p ⟨.empty, session.1.store, session.2⟩
      ⟨.empty, other.1.store, other.2⟩ :=
    ⟨⟨.nil, fun _ _ => rfl, rfl⟩, stores, routines⟩
  rcases Template.render_follows settings named alike binds _ _ worlds with
    ⟨text, world, _, world', here, there, rfl, kept⟩ | ⟨e, world, world', here, there, kept⟩ |
    ⟨mild, e, world, here⟩
  · exact .inl ⟨text, _, text, _, call_run _ _ _ here, call_run _ _ _ there, rfl,
      ⟨rfl, rfl, kept.store, kept.routines⟩⟩
  · exact .inr (.inl ⟨e, _, _, call_run _ _ _ here, call_run _ _ _ there,
      ⟨rfl, rfl, kept.store, kept.routines⟩⟩)
  · exact .inr (.inr ⟨mild, e, _, call_run _ _ _ here⟩)

variable (similar : ∀ {given other : Givens σ}, givens given other →
    Library.Alike p.toLikeness given.1 other.1 ∧
      ∀ {name}, p.objects name → given.2.memory name = other.2.memory name)
  (entered : p.templates)
include similar entered

theorem call_matches (kin : p.Kin template template') :
    Matches p givens known Eq (call template context : Work σ _) (call template' context') := by
  intro session other abreast
  have settings : Setting.Alike p (session.1.setting session.1.library)
      (other.1.setting other.1.library) :=
    ⟨(similar abreast.engine.given).1, abreast.engine.options.toSimilar, fun _ =>
      .some abreast.engine.catalogue, (similar abreast.engine.given).2⟩
  refine (call_mirrors binds settings (fun _ => abreast.engine.store) abreast.routines kin.name
    kin.nodes).weaken fun after after' left => ⟨?_, left.routines⟩
  rw [left.here, left.there]
  exact { abreast.engine with store := left.stores entered }

theorem counted_matches (kin : p.Kin template template') :
    Matches p givens known Eq (counted template context : Work σ _)
      (counted template' context') := by
  refine (call_matches binds similar entered kin).bind_eq fun output => ?_
  refine Mirrors.bind_eq ?_ fun _ => mirrors_pure rfl
  exact change_matches fun _ _ now => { now with renders := congrArg (· + 1) now.renders }

theorem render_matches (listed : known source) (name : Option String) :
    Matches p givens known Eq (render source context name : Work σ _)
      (render source context' name) :=
  (compile_matches listed name).bind fun _ _ kin => counted_matches binds similar entered kin

end Kin

/-- Templates are compiled into the catalogue, then a source is rendered. -/
def renderAmong (templates : List (String × String)) (source : String) (context : Dict Value)
    (name : Option String) : Work σ String := do
  precompileAll templates
  render source context name

end Engine
end Stencil
