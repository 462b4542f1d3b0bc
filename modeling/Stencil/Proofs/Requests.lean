import Stencil.Proofs.Balance

/-! Requests to an engine. Whatever an engine is asked for, what it keeps changes in few ways: a
template that is compiled may enter the store, one that is precompiled enters the catalogue, and
both can be cleared. A property that each of these changes upholds lasts over any history of
requests, those that fail included. -/
namespace Stencil

variable {σ α β : Type}

theorem Store.get_eq (store : Store α) (name : String) :
    ∃ hits misses, store.get name = (store.find? name, { store with hits, misses }) := by
  unfold get
  cases store.find? name with
  | none => exact ⟨_, _, rfl⟩
  | some entry => exact ⟨_, _, rfl⟩

theorem quiet_of_left {ε σ γ : Type} {view : σ → γ} {reading : ExceptT ε (StateM σ) α}
    (same : ∀ s, view (reading.run.run s).2 = view s) : Quiet view (fun _ => True) reading := by
  intro s
  constructor
  · intro a t run
    rw [← same s, show reading.run.run s = _ from run]
  · intro e t run
    rw [← same s, show reading.run.run s = _ from run]
    exact ⟨rfl, trivial⟩

theorem Quiet.left {ε σ γ : Type} {view : σ → γ} {expected : ε → Prop}
    {reading : ExceptT ε (StateM σ) α} (quiet : Quiet view expected reading) (s : σ) :
    view (reading.run.run s).2 = view s := by
  rcases returns_or_fails reading s with ⟨a, t, run⟩ | ⟨e, t, run⟩
  · rw [show reading.run.run s = _ from run]
    exact quiet.view_eq run
  · rw [show reading.run.run s = _ from run]
    exact ((quiet s).2 e t run).1

theorem left_map {ε σ : Type} (reading : ExceptT ε (StateM σ) α) (f : α → β) (s : σ) :
    ((reading >>= fun a => pure (f a)).run.run s).2 = (reading.run.run s).2 := by
  rw [run_bind]
  rcases reading.run.run s with ⟨result, t⟩
  cases result <;> rfl

namespace Engine

/-! ### Counts -/

/-- An engine without its counts of look-ups and of renderings. -/
def uncounted (engine : Engine σ) : Engine σ :=
  { engine with store := engine.store.uncounted, renders := 0 }

/-- Work that changes nothing in an engine but these counts. -/
abbrev Counting (work : Work σ α) : Prop :=
  Quiet (fun session => session.1.uncounted) (fun _ => True) work

theorem stored_counting (name : String) : Counting (stored name : Work σ (Option Template)) :=
  quiet_of_left fun session =>
    congrArg (fun store => ({ session.1 with store, renders := 0 } : Engine σ))
      (Store.get_uncounted session.1.store name)

theorem find_counting (name : String) : Counting (find name : Work σ Template) := by
  refine quiet_bind (quiet_bind quiet_get fun _ => quiet_pure _) fun engine => ?_
  split
  · exact quiet_pure _
  · refine quiet_bind (stored_counting name) fun found => ?_
    cases found with
    | none => exact quiet_throw trivial
    | some template => exact quiet_pure _

theorem call_counting (template : Template) (context : Dict Value) :
    Counting (call template context : Work σ String) := by
  refine quiet_of_left fun session => ?_
  have tidy := Template.render_tidy (session.1.setting session.1.library) template context
  obtain ⟨held, -⟩ := steady_iff.mp tidy ⟨.empty, session.1.store, session.2⟩
  exact congrArg (fun store => ({ session.1 with store, renders := 0 } : Engine σ))
    (congrArg Held.stored held)

theorem counted_counting (template : Template) (context : Dict Value) :
    Counting (counted template context : Work σ String) := by
  refine quiet_bind (call_counting template context) fun output => ?_
  exact quiet_bind (quiet_modify fun _ => rfl) fun _ => quiet_pure _

theorem renderTemplate_counting (name : String) (context : Dict Value) :
    Counting (renderTemplate name context : Work σ String) :=
  quiet_bind (find_counting name) fun template => counted_counting template context

/-! ### Compilations -/

def looked (engine : Engine σ) (hits misses : Nat) : Engine σ :=
  { engine with store := { engine.store with hits, misses } }

/-- An engine that has built a template; it stores the template if that has a name. -/
def keeping (engine : Engine σ) (name : Option String) (template : Template) : Engine σ :=
  { engine with
    compilations := engine.compilations + 1
    store := name.elim engine.store fun key => engine.store.put key (some template) }

def cataloguing (engine : Engine σ) (name : String) (template : Template) : Engine σ :=
  { engine with catalogue := Dict.set engine.catalogue name template }

/-- How a template is had for a source: it is stored with that source, or it is built. -/
inductive Obtains (engine : Engine σ) (source : String) :
    Option String → Template → Engine σ → Prop
  | stored {key : String} {template : Template} (hits misses : Nat)
      (enabled : engine.options.cacheTemplates.truthy = true)
      (kept : engine.store.find? key = some template) (same : template.source = source) :
      Obtains engine source (some key) template (engine.looked hits misses)
  | built {name : Option String} {template : Template} (hits misses : Nat)
      (built : build engine source name = .ok template) :
      Obtains engine source name template ((engine.looked hits misses).keeping name template)

variable {engine other : Engine σ} {session : Engine σ × σ} {source : String}
  {name : Option String} {template : Template}

theorem stored_returns (key : String) (session : Engine σ × σ) :
    ∃ hits misses, Returns (stored key) session (session.1.store.find? key)
      (session.1.looked hits misses, session.2) := by
  obtain ⟨hits, misses, got⟩ := session.1.store.get_eq key
  refine ⟨hits, misses, returns_stored.mpr ?_⟩
  rw [got]
  exact ⟨rfl, rfl⟩

theorem reusable_returns (name : Option String) (source : String) (session : Engine σ × σ) :
    ∃ found hits misses, Returns (reusable name source) session found
      (session.1.looked hits misses, session.2) ∧
      ∀ template, found = some template → Obtains session.1 source name template
        (session.1.looked hits misses) := by
  cases name with
  | none =>
    exact ⟨none, session.1.store.hits, session.1.store.misses, returns_pure.mpr ⟨rfl, rfl⟩,
      fun _ impossible => by cases impossible⟩
  | some key =>
    obtain ⟨hits, misses, looked⟩ := stored_returns key session
    have asked := returns_engine.mpr ⟨(rfl : session.1 = session.1), (rfl : session = session)⟩
    by_cases enabled : session.1.options.cacheTemplates.truthy = true
    · refine ⟨(session.1.store.find? key).filter (·.source == source), hits, misses,
        returns_bind.mpr ⟨_, _, asked, ?_⟩, fun template same => ?_⟩
      · rw [if_pos enabled]
        exact returns_bind.mpr ⟨_, _, looked, returns_pure.mpr ⟨rfl, rfl⟩⟩
      · obtain ⟨kept, equal⟩ := Option.filter_eq_some_iff.mp same
        exact .stored hits misses enabled kept (eq_of_beq equal)
    · refine ⟨none, session.1.store.hits, session.1.store.misses,
        returns_bind.mpr ⟨_, _, asked, ?_⟩, fun _ impossible => by cases impossible⟩
      rw [if_neg enabled]
      exact returns_pure.mpr ⟨rfl, rfl⟩

/-- A compilation obtains a template, or it fails and only look-ups have been counted. -/
theorem compile_cases (source : String) (name : Option String) (session : Engine σ × σ) :
    (∃ template after, Returns (compile source name) session template (after, session.2) ∧
      Obtains session.1 source name template after) ∨
    ∃ e hits misses, build session.1 source name = .error e ∧
      Fails (compile source name) session e (session.1.looked hits misses, session.2) := by
  obtain ⟨found, hits, misses, reused, known⟩ := reusable_returns name source session
  cases found with
  | some template =>
    refine .inl ⟨template, _, ?_, known template rfl⟩
    exact returns_bind.mpr ⟨_, _, reused, returns_pure.mpr ⟨rfl, rfl⟩⟩
  | none =>
    have same : build (session.1.looked hits misses) source name = build session.1 source name := rfl
    cases built : build session.1 source name with
    | error e =>
      refine .inr ⟨e, hits, misses, rfl, fails_bind.mpr (.inr ⟨_, _, reused, ?_⟩)⟩
      refine fails_bind.mpr (.inr ⟨_, _, returns_engine.mpr ⟨rfl, rfl⟩, fails_bind.mpr (.inl ?_)⟩)
      rw [same, built]
      rfl
    | ok template =>
      refine .inl ⟨template, _, returns_bind.mpr ⟨_, _, reused, ?_⟩, .built hits misses built⟩
      refine returns_bind.mpr ⟨_, _, returns_engine.mpr ⟨rfl, rfl⟩, ?_⟩
      refine returns_bind.mpr ⟨template, _, returns_ofResult.mpr ⟨same.trans built, rfl⟩, ?_⟩
      exact returns_bind.mpr ⟨(), _, returns_change.mpr rfl, returns_pure.mpr ⟨rfl, rfl⟩⟩

theorem precompile_cases (name source : String) (session : Engine σ × σ) :
    (∃ template after,
      Returns (precompile name source) session template (after.cataloguing name template, session.2) ∧
      Obtains session.1 source (some name) template after) ∨
    ∃ e hits misses, build session.1 source (some name) = .error e ∧
      Fails (precompile name source) session e (session.1.looked hits misses, session.2) := by
  rcases compile_cases source (some name) session with
    ⟨template, after, run, obtains⟩ | ⟨e, hits, misses, failed, run⟩
  · refine .inl ⟨template, after, returns_bind.mpr ⟨template, _, run, ?_⟩, obtains⟩
    exact returns_bind.mpr ⟨(), _, returns_change.mpr rfl, returns_pure.mpr ⟨rfl, rfl⟩⟩
  · exact .inr ⟨e, hits, misses, failed, fails_bind.mpr (.inl run)⟩

theorem Obtains.source_eq (obtains : engine.Obtains source name template other) :
    template.source = source := by
  cases obtains with
  | stored hits misses enabled kept same => exact same
  | built hits misses built => exact (build_spec built).2.1

theorem attempt_left (work : Work σ String) (session : Engine σ × σ) :
    ((attempt work).run session).2 = (work.run session).2 := by
  change (attempt work session).2 = _
  unfold attempt
  split <;> rename_i run <;> rw [run]

/-! ### Requests -/

/-- A new engine with functions and filters of its own. -/
def opened (surroundings : Surroundings) (options : Options) (library : Library σ)
    (routines : σ) : Engine σ × σ :=
  ({ (create surroundings options : Engine σ) with library }, routines)

inductive Request
  | compile (source : String) (name : Option String)
  | render (source : String) (context : Dict Value) (name : Option String)
  | precompile (name source : String)
  | renderTemplate (name : String) (context : Dict Value)
  | renderBatch (items : List BatchItem)
  | clearCache

/-- What a history tells: which templates were compiled, with their sources, which were
precompiled, and when all was cleared. -/
inductive Event
  | compiled (name : Option String) (source : String) (template : Template)
  | listed (name : String) (template : Template)
  | cleared

/-- The session after a request, whether that was met or failed. -/
def Request.after (session : Engine σ × σ) : Request → Engine σ × σ
  | compile source name => ((Engine.compile source name).run session).2
  | render source context name => ((Engine.render source context name).run session).2
  | precompile name source => ((Engine.precompile name source).run session).2
  | renderTemplate name context => ((Engine.renderTemplate name context).run session).2
  | renderBatch items => ((Engine.renderBatch items).run session).2
  | clearCache => (Engine.clearCache.run session).2

def compileEvents (session : Engine σ × σ) (source : String) (name : Option String) : List Event :=
  match ((compile source name).run session).1 with
  | .ok template => [.compiled name source template]
  | .error _ => []

def BatchItem.events (session : Engine σ × σ) (item : BatchItem) : List Event :=
  item.source.elim [] fun source => compileEvents session source item.name

/-- The events of a batch, which a fault brings to its end. -/
def batchEvents (session : Engine σ × σ) : List BatchItem → List Event
  | [] => []
  | item :: rest =>
    match (attempt (renderItem item)).run session with
    | (.ok _, after) => batchEvents after rest ++ item.events session
    | (.error _, _) => item.events session

/-- The events of a request, the last one first. -/
def Request.events (session : Engine σ × σ) : Request → List Event
  | compile source name => compileEvents session source name
  | render source _ name => compileEvents session source name
  | precompile name source =>
    match ((Engine.precompile name source).run session).1 with
    | .ok template => [.listed name template]
    | .error _ => []
  | renderTemplate _ _ => []
  | renderBatch items => batchEvents session items
  | clearCache => [.cleared]

def afterAll (session : Engine σ × σ) (requests : List Request) : Engine σ × σ :=
  requests.foldl Request.after session

/-- The events of requests, one after the other, the last one first. -/
def eventsOf (session : Engine σ × σ) : List Request → List Event
  | [] => []
  | request :: rest => eventsOf (request.after session) rest ++ request.events session

/-! ### What lasts -/

/-- What holds of past events and an engine is upheld by all that requests do. -/
structure Upheld (property : List Event → Engine σ → Prop) : Prop where
  counted {past : List Event} {engine other : Engine σ} (now : property past engine)
    (same : other.uncounted = engine.uncounted) : property past other
  compiled {past : List Event} {engine other : Engine σ} {source : String} {name : Option String}
    {template : Template} (now : property past engine)
    (obtains : engine.Obtains source name template other) :
    property (.compiled name source template :: past) other
  listed {past : List Event} {engine other : Engine σ} {source name : String} {template : Template}
    (now : property past engine) (obtains : engine.Obtains source (some name) template other) :
    property (.listed name template :: past) (other.cataloguing name template)
  cleared {past : List Event} {engine : Engine σ} (now : property past engine) :
    property (.cleared :: past) { engine with store := engine.store.clear, catalogue := [] }

namespace Upheld

variable {property : List Event → Engine σ → Prop} (upheld : Upheld property) {past : List Event}
include upheld

theorem looked (now : property past engine) (hits misses : Nat) :
    property past (engine.looked hits misses) :=
  upheld.counted now rfl

theorem counting (now : property past session.1) {work : Work σ β} (counting : Counting work) :
    property past (work.run session).2.1 :=
  upheld.counted now (counting.left session)

theorem compile (now : property past session.1) (source : String) (name : Option String) :
    property (compileEvents session source name ++ past)
      ((Engine.compile source name).run session).2.1 := by
  rw [compileEvents]
  rcases compile_cases source name session with
    ⟨template, after, run, obtains⟩ | ⟨e, hits, misses, -, run⟩
  · rw [show (Engine.compile source name).run session = _ from run]
    exact upheld.compiled now obtains
  · rw [show (Engine.compile source name).run session = _ from run]
    exact upheld.looked now hits misses

theorem render (now : property past session.1) (source : String) (context : Dict Value)
    (name : Option String) :
    property (compileEvents session source name ++ past)
      ((Engine.render source context name).run session).2.1 := by
  have compiled := upheld.compile now source name
  have run := run_bind (Engine.compile source name) (Engine.counted · context) session
  rcases returns_or_fails (Engine.compile source name) session with
    ⟨template, after, here⟩ | ⟨e, after, here⟩
  · rw [show (Engine.compile source name).run.run session = _ from here] at run
    rw [show (Engine.compile source name).run session = _ from here] at compiled
    rw [show (Engine.render source context name).run session = _ from run]
    exact upheld.counting compiled (Engine.counted_counting template context)
  · rw [show (Engine.compile source name).run.run session = _ from here] at run
    rw [show (Engine.compile source name).run session = _ from here] at compiled
    rw [show (Engine.render source context name).run session = _ from run]
    exact compiled

theorem precompile (now : property past session.1) (name source : String) :
    property (Request.events session (.precompile name source) ++ past)
      ((Engine.precompile name source).run session).2.1 := by
  rw [Request.events]
  rcases precompile_cases name source session with
    ⟨template, after, run, obtains⟩ | ⟨e, hits, misses, -, run⟩
  · rw [show (Engine.precompile name source).run session = _ from run]
    exact upheld.listed now obtains
  · rw [show (Engine.precompile name source).run session = _ from run]
    exact upheld.looked now hits misses

theorem renderItem (now : property past session.1) (item : BatchItem) :
    property (item.events session ++ past) ((Engine.renderItem item).run session).2.1 := by
  rw [Engine.renderItem, BatchItem.events]
  cases item.source with
  | none => exact now
  | some source => exact upheld.render now source item.context item.name

theorem renderBatch (now : property past session.1) (items : List BatchItem) :
    property (batchEvents session items ++ past)
      ((Engine.renderBatch items).run session).2.1 := by
  induction items generalizing session past with
  | nil => exact now
  | cons item rest ih =>
    have own := upheld.renderItem now item
    rw [← attempt_left] at own
    have run := run_bind (attempt (Engine.renderItem item)) (fun outcome => do
      return ⟨outcome, item.name⟩ :: (← Engine.renderBatch rest)) session
    rw [batchEvents]
    rcases attempted : (attempt (Engine.renderItem item)).run session with ⟨result, after⟩
    rw [show (attempt (Engine.renderItem item)).run.run session = _ from attempted] at run
    rw [attempted] at own
    rw [show (Engine.renderBatch (item :: rest)).run session = _ from run]
    cases result with
    | error e => exact own
    | ok outcome =>
      have others := ih own
      rw [← List.append_assoc] at others
      exact (left_map (Engine.renderBatch rest) _ after).symm ▸ others

theorem request (now : property past session.1) (request : Request) :
    property (request.events session ++ past) (request.after session).1 := by
  cases request with
  | compile source name => exact upheld.compile now source name
  | render source context name => exact upheld.render now source context name
  | precompile name source => exact upheld.precompile now name source
  | renderTemplate name context =>
    exact upheld.counting now (Engine.renderTemplate_counting name context)
  | renderBatch items => exact upheld.renderBatch now items
  | clearCache => exact upheld.cleared now

theorem history (now : property past session.1) (requests : List Request) :
    property (eventsOf session requests ++ past) (afterAll session requests).1 := by
  induction requests generalizing session past with
  | nil => exact now
  | cons first rest ih =>
    have later := ih (upheld.request now first)
    rw [← List.append_assoc] at later
    exact later

theorem fromStart (start : property [] session.1) (requests : List Request) :
    property (eventsOf session requests) (afterAll session requests).1 := by
  have now := upheld.history start requests
  rwa [List.append_nil] at now

end Upheld

end Engine
end Stencil
