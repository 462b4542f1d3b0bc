import Stencil.Engine
import Stencil.Proofs.Sources

/-! What engines keep. A template enters the store or the catalogue of an engine only when it is
compiled, under its own name, with the nodes that are read from its source. -/
namespace Stencil

variable {σ : Type}

/-- The nodes of a template are those that are read from its source. -/
def Template.Reads (options : Options) (template : Template) : Prop :=
  ∃ analysis, Analysis.ofText options template.source = .ok analysis ∧
    template.nodes = analysis.tree.nodes

namespace Engine

/-- A new engine with the standard options, whose routines keep no state. -/
def fresh : Engine Unit × Unit := (create .still .standard, ())

/-- Every template that is kept has a property together with the name it is kept under. -/
structure Keeps (property : String → Template → Prop) (engine : Engine σ) : Prop where
  listed {name : String} {template : Template} (member : (name, template) ∈ engine.catalogue) :
    property name template
  stored {name : String} {template : Template}
    (member : (name, some template) ∈ engine.store.entries) : property name template

variable {property : String → Template → Prop} {engine : Engine σ} {session after : Engine σ × σ}
  {name source : String} {template other : Template}

theorem create_keeps (surroundings : Surroundings) (options : Options) :
    (create surroundings options : Engine σ).Keeps property where
  listed member := absurd member List.not_mem_nil
  stored member := absurd member List.not_mem_nil

theorem Keeps.resolves {library : Library σ} {stored : Dict (Option Template)}
    (same : stored = engine.store.entries) (keeps : engine.Keeps property)
    (resolves : Resolves (engine.setting library) stored name template) : property name template := by
  subst same
  cases resolves with
  | listed present found =>
    cases present
    exact keeps.listed (Dict.mem_of_get? found)
  | kept present missing found => exact keeps.stored (Dict.mem_of_get? found)

/-- A look-up in the store changes nothing but its counts. -/
theorem returns_stored {found : Option Template} :
    Returns (stored name) session found after ↔ found = (session.1.store.get name).1 ∧
      after = ({ session.1 with store := (session.1.store.get name).2 }, session.2) :=
  Returns.iff rfl

/-- An engine with the same options, functions and filters, in the same surroundings. -/
structure Like (engine other : Engine σ) : Prop where
  options : other.options = engine.options
  library : other.library = engine.library
  surroundings : other.surroundings = engine.surroundings

theorem Like.trans {middle other : Engine σ} (first : engine.Like middle)
    (second : middle.Like other) : engine.Like other :=
  ⟨second.options.trans first.options, second.library.trans first.library,
    second.surroundings.trans first.surroundings⟩

/-- An engine that differs in the counts of its store only. -/
structure Recounts (engine other : Engine σ) : Prop extends Like engine other where
  catalogue : other.catalogue = engine.catalogue
  entries : other.store.entries = engine.store.entries

theorem Recounts.refl (engine : Engine σ) : engine.Recounts engine := ⟨⟨rfl, rfl, rfl⟩, rfl, rfl⟩

theorem Recounts.setting {other : Engine σ} (recounts : engine.Recounts other) :
    other.setting other.library = engine.setting engine.library := by
  rw [Engine.setting, Engine.setting, recounts.options, recounts.library, recounts.catalogue,
    recounts.surroundings]

theorem Recounts.keeps {other : Engine σ} (recounts : engine.Recounts other)
    (keeps : engine.Keeps property) : other.Keeps property where
  listed member := keeps.listed (recounts.catalogue ▸ member)
  stored member := keeps.stored (recounts.entries ▸ member)

theorem stored_recounts {found : Option Template} (run : Returns (stored name) session found after) :
    session.1.Recounts after.1 := by
  obtain ⟨-, rfl⟩ := returns_stored.mp run
  exact ⟨⟨rfl, rfl, rfl⟩, rfl, Store.get_entries _ _⟩

theorem returns_engine {found : Engine σ} :
    Returns Work.engine session found after ↔ found = session.1 ∧ after = session :=
  Returns.iff rfl

theorem returns_change {f : Engine σ → Engine σ} {result : Unit} :
    Returns (Work.change f) session result after ↔ after = (f session.1, session.2) :=
  (Returns.iff rfl).trans (and_iff_right rfl)

theorem returns_ofResult {α : Type} {result : Except Failure α} {a : α} :
    Returns (Work.ofResult result) session a after ↔ result = .ok a ∧ after = session := by
  constructor
  · intro run
    cases run
    exact ⟨rfl, rfl⟩
  · rintro ⟨rfl, rfl⟩
    rfl

/-- A template that is compiled already is one that is kept under the name. -/
theorem reusable_spec {found : Option Template}
    (run : Returns (reusable (some name) source) session found after) :
    session.1.Recounts after.1 ∧ ∀ template, found = some template →
      (name, some template) ∈ session.1.store.entries ∧ template.source = source := by
  obtain ⟨engine, middle, here, run⟩ := returns_bind.mp run
  obtain ⟨rfl, rfl⟩ := returns_engine.mp here
  split at run
  · obtain ⟨kept, last, looked, run⟩ := returns_bind.mp run
    obtain ⟨rfl, rfl⟩ := returns_pure.mp run
    refine ⟨stored_recounts looked, fun template same => ?_⟩
    obtain ⟨present, equal⟩ := Option.filter_eq_some_iff.mp same
    have present := present.symm.trans (returns_stored.mp looked).1
    exact ⟨Dict.mem_of_get? (Store.get?_of_get present.symm), eq_of_beq equal⟩
  · obtain ⟨rfl, rfl⟩ := returns_pure.mp run
    exact ⟨.refl _, fun template same => by cases same⟩

theorem build_spec {name : Option String} (built : build engine source name = .ok template) :
    template.name = name ∧ template.source = source ∧ template.Reads engine.options := by
  unfold build at built
  cases analysed : Analysis.ofText engine.options source with
  | error e =>
    rw [analysed] at built
    cases built
  | ok analysis =>
    rw [analysed] at built
    cases refused : (!analysis.valid && engine.options.strictMode.truthy) with
    | true =>
      simp only [bind, Except.bind, refused, if_true, throw, throwThe, MonadExceptOf.throw] at built
      contradiction
    | false =>
      simp only [bind, Except.bind, refused] at built
      cases built
      exact ⟨rfl, rfl, analysis, analysed, rfl⟩

theorem mem_of_mem_put {store : Store Template} {key : String}
    (member : (name, some template) ∈ (store.put key (some other)).entries) :
    (name, some template) ∈ store.entries ∨ (name, template) = (key, other) := by
  unfold Store.put at member
  split at member
  · refine (Dict.mem_of_mem_set (List.mem_of_mem_drop member)).imp_right fun same => ?_
    cases same
    rfl
  · exact .inl member

/-- A template that is compiled was found in the store, or it is built and kept under its name. -/
theorem reused_or_built {name : Option String}
    (run : Returns (compile source name) session template after) :
    ∃ found middle, Returns (reusable name source) session found middle ∧
      (found = some template ∧ after = middle ∨
        found = none ∧ build middle.1 source name = .ok template ∧
          after = ({ middle.1 with
            compilations := middle.1.compilations + 1
            store := name.elim middle.1.store fun key =>
              middle.1.store.put key (some template) }, middle.2)) := by
  obtain ⟨found, middle, reused, run⟩ := returns_bind.mp run
  refine ⟨found, middle, reused, ?_⟩
  cases found with
  | some kept =>
    obtain ⟨rfl, rfl⟩ := returns_pure.mp run
    exact .inl ⟨rfl, rfl⟩
  | none =>
    obtain ⟨engine, _, here, building⟩ := returns_bind.mp run
    obtain ⟨rfl, rfl⟩ := returns_engine.mp here
    obtain ⟨built, _, there, keeping⟩ := returns_bind.mp building
    obtain ⟨done, rfl⟩ := returns_ofResult.mp there
    obtain ⟨_, _, changed, last⟩ := returns_bind.mp keeping
    obtain rfl := returns_change.mp changed
    obtain ⟨rfl, rfl⟩ := returns_pure.mp last
    exact .inr ⟨rfl, done, rfl⟩

/-- What has no name is compiled anew and not kept. -/
theorem compile_unnamed (built : build engine source none = .ok template) (routines : σ) :
    Returns (compile source none) (engine, routines) template
      ({ engine with compilations := engine.compilations + 1 }, routines) := by
  refine returns_bind.mpr ⟨none, (engine, routines), rfl, ?_⟩
  refine returns_bind.mpr ⟨_, _, returns_engine.mpr ⟨rfl, rfl⟩, ?_⟩
  exact returns_bind.mpr ⟨template, _, returns_ofResult.mpr ⟨built, rfl⟩, rfl⟩

theorem render_unnamed (built : build engine source none = .ok template) (context : Dict Value)
    (routines : σ) :
    render source context none (engine, routines) = counted template context
      ({ engine with compilations := engine.compilations + 1 }, routines) := by
  have run : (compile source none >>= fun compiled => counted compiled context) (engine, routines) = _ :=
    run_bind (compile source none) _ (engine, routines)
  rw [show (compile source none).run.run (engine, routines) = _ from compile_unnamed built routines]
    at run
  exact run

/-- What is asked of a template that is kept under a name holds of those that are read anew from
its source. -/
theorem compile_keeps (keeps : session.1.Keeps property)
    (fresh : ∀ template : Template, template.name = some name → template.source = source →
      template.Reads session.1.options → property name template)
    (run : Returns (compile source (some name)) session template after) :
    after.1.Keeps property ∧ property name template ∧ session.1.Like after.1 := by
  obtain ⟨found, middle, reused, ⟨rfl, rfl⟩ | ⟨-, built, rfl⟩⟩ := reused_or_built run
  · obtain ⟨recounts, known⟩ := reusable_spec reused
    exact ⟨recounts.keeps keeps, keeps.stored (known _ rfl).1, recounts.toLike⟩
  · obtain ⟨recounts, -⟩ := reusable_spec reused
    obtain ⟨is_named, is_source, reads⟩ := build_spec built
    have new := fresh template is_named is_source (recounts.options ▸ reads)
    have old := recounts.keeps keeps
    refine ⟨⟨old.listed, fun member => ?_⟩, new,
      ⟨recounts.options, recounts.library, recounts.surroundings⟩⟩
    rcases mem_of_mem_put member with member | same
    · exact old.stored member
    · cases same
      exact new

theorem precompile_keeps (keeps : session.1.Keeps property)
    (fresh : ∀ template : Template, template.name = some name → template.source = source →
      template.Reads session.1.options → property name template)
    (run : Returns (precompile name source) session template after) :
    after.1.Keeps property ∧ session.1.Like after.1 := by
  obtain ⟨compiled, middle, here, keeping⟩ := returns_bind.mp run
  obtain ⟨old, new, like⟩ := compile_keeps keeps fresh here
  obtain ⟨_, _, changed, last⟩ := returns_bind.mp keeping
  obtain rfl := returns_change.mp changed
  obtain ⟨rfl, rfl⟩ := returns_pure.mp last
  refine ⟨⟨fun member => ?_, old.stored⟩,
    ⟨like.options, like.library, like.surroundings⟩⟩
  rcases Dict.mem_of_mem_set member with member | same
  · exact old.listed member
  · cases same
    exact new

/-- Templates by name and source are compiled into the catalogue, one after the other. -/
def precompileAll : List (String × String) → Work σ Unit
  | [] => return ()
  | (name, source) :: rest => do
    let _ ← precompile name source
    precompileAll rest

theorem precompileAll_keeps {sources : List (String × String)} {result : Unit}
    (keeps : session.1.Keeps property)
    (fresh : ∀ name source, (name, source) ∈ sources → ∀ template : Template,
      template.name = some name → template.source = source →
      template.Reads session.1.options → property name template)
    (run : Returns (precompileAll sources) session result after) :
    after.1.Keeps property ∧ session.1.Like after.1 := by
  induction sources generalizing session with
  | nil =>
    obtain ⟨-, rfl⟩ := returns_pure.mp run
    exact ⟨keeps, rfl, rfl, rfl⟩
  | cons first rest ih =>
    obtain ⟨name, source⟩ := first
    obtain ⟨template, middle, here, run⟩ := returns_bind.mp run
    obtain ⟨now, like⟩ := precompile_keeps keeps (fresh name source List.mem_cons_self) here
    obtain ⟨last, same⟩ := ih now (fun name source member template named sourced reads =>
      fresh name source (List.mem_cons_of_mem _ member) template named sourced
        (like.options ▸ reads)) run
    exact ⟨last, like.trans same⟩

/-! ### Renderings by name -/

theorem find_spec {root : Template} (run : Returns (find name) session root after) :
    session.1.Recounts after.1 ∧ after.2 = session.2 ∧
      Resolves (session.1.setting session.1.library) session.1.store.entries name root := by
  obtain ⟨engine, _, here, run⟩ := returns_bind.mp run
  obtain ⟨rfl, rfl⟩ := returns_engine.mp here
  split at run
  · rename_i found
    obtain ⟨rfl, rfl⟩ := returns_pure.mp run
    exact ⟨.refl _, rfl, .listed rfl found⟩
  · rename_i missing
    obtain ⟨kept, middle, looked, last⟩ := returns_bind.mp run
    cases kept with
    | none => exact absurd last returns_throw
    | some kept =>
      obtain ⟨rfl, rfl⟩ := returns_pure.mp last
      have recounts := stored_recounts looked
      obtain ⟨present, rfl⟩ := returns_stored.mp looked
      exact ⟨recounts, rfl, .kept rfl missing (Store.get?_of_get present.symm)⟩

theorem find_fails {e : Failure} (run : Fails (find name) session e after) :
    e = .ofCause (.notFound name) := by
  rcases fails_bind.mp run with failed | ⟨engine, _, here, failed⟩
  · cases failed
  · obtain ⟨rfl, rfl⟩ := returns_engine.mp here
    split at failed
    · cases failed
    · rcases fails_bind.mp failed with impossible | ⟨kept, middle, looked, failed⟩
      · cases impossible
      · cases kept with
        | none =>
          cases failed
          rfl
        | some kept => cases failed

theorem call_fails {context : Dict Value} {e : Failure}
    (failed : Fails (call template context) session e after) :
    ∃ world, Fails (template.render (session.1.setting session.1.library) context)
      ⟨.empty, session.1.store, session.2⟩ e world := by
  change call template context session = _ at failed
  rcases run : (template.render (session.1.setting session.1.library) context).run
    ⟨.empty, session.1.store, session.2⟩ with ⟨result, world⟩
  simp only [call, renderOn, run] at failed
  cases failed
  exact ⟨world, run⟩

/-- A rendering by name fails as the rendering of the template that the name stands for. -/
theorem renderTemplate_fails {context : Dict Value} {e : Failure}
    (failed : Fails (renderTemplate name context) session e after) :
    e = .ofCause (.notFound name) ∨ ∃ root store world,
      Resolves (session.1.setting session.1.library) session.1.store.entries name root ∧
      store.entries = session.1.store.entries ∧
      Fails (root.render (session.1.setting session.1.library) context)
        ⟨.empty, store, session.2⟩ e world := by
  rcases fails_bind.mp failed with missing | ⟨root, middle, found, failed⟩
  · exact .inl (find_fails missing)
  · obtain ⟨recounts, routines, resolves⟩ := find_spec found
    rcases fails_bind.mp failed with failed | ⟨output, last, _, impossible⟩
    · obtain ⟨world, failed⟩ := call_fails failed
      rw [recounts.setting, routines] at failed
      exact .inr ⟨root, _, world, resolves, recounts.entries, failed⟩
    · rcases fails_bind.mp impossible with impossible | ⟨_, _, _, impossible⟩
      · cases impossible
      · cases impossible

end Engine
end Stencil
