import Mathlib
import Stencil.Proofs.Dependence
import Stencil.Proofs.Requests

/-! The store is not seen. Every template that is stored under a name was built under that name, from
the source that it carries. So a source that enters no other template renders as on a new engine
which stores nothing, whatever was asked of the engine before. -/
namespace Stencil

variable {σ : Type}

def Options.storeless (options : Options) : Options :=
  { options with cacheTemplates := .bool false }

theorem Options.similar_storeless (options : Options) :
    Options.Similar False options options.storeless :=
  ⟨rfl, .inl rfl, .refl _, .refl _⟩

theorem Library.Alike.refl (l : Likeness) (library : Library σ) : Library.Alike l library library :=
  ⟨fun _ => rfl, fun _ => rfl, rfl⟩

/-- Everything but other templates may be used. -/
def Likeness.lone : Likeness := { Likeness.exact with templates := False }

theorem Node.AllAlike.lone {nodes : List Node}
    (closed : ∀ node, Node.Within Node.parts node nodes → node.entersOther = false) :
    Node.AllAlike .lone nodes nodes := by
  have less : Likeness.exact.Less .lone := ⟨id, id, id⟩
  refine Node.AllAlike.mono less (fun node within => ⟨fun enters => ?_, fun _ _ => trivial⟩)
    (.refl Likeness.exact_full nodes)
  rw [closed node within] at enters
  cases enters

namespace Engine

variable {engine other : Engine σ} {options : Options} {source : String} {name : Option String}
  {template : Template}

/-- Engines that differ in their stores build templates that differ in their numbers. -/
theorem build_storeless (engine other : Engine σ)
    (same : other.options = engine.options.storeless) (source : String) (name : Option String) :
    build other source name =
      (build engine source name).map fun t => { t with number := other.compilations } := by
  have texts : Analysis.ofText other.options source = Analysis.ofText engine.options source := by
    rw [same]
    rfl
  have strict : other.options.strictMode = engine.options.strictMode := by
    rw [same]
    rfl
  cases read : Analysis.ofText engine.options source with
  | error e =>
    rw [build, build, texts, read]
    rfl
  | ok analysis =>
    rw [build_of_analysis read, build_of_analysis (texts.trans read), strict]
    split <;> rfl

/-! ### What is stored -/

/-- An engine of some options that is given something, in whose store everything was built under its
name from its own source. -/
structure Faithful (options : Options) (givens : Givens σ) (engine : Engine σ) : Prop where
  chosen : engine.options = options
  given : engine.given = givens
  stored {name : String} {template : Template}
    (member : (name, some template) ∈ engine.store.entries) :
    ∃ builder : Engine σ, builder.options = options ∧
      build builder template.source (some name) = .ok template

theorem Obtains.builder {givens : Givens σ} (obtains : engine.Obtains source name template other)
    (faithful : Faithful options givens engine) :
    ∃ builder : Engine σ, builder.options = options ∧ build builder source name = .ok template := by
  cases obtains with
  | stored hits misses enabled kept same =>
    have present := Dict.mem_of_get? (Option.join_eq_some_iff.mp kept)
    exact same ▸ faithful.stored present
  | built hits misses built => exact ⟨engine, faithful.chosen, built⟩

theorem Obtains.faithful {givens : Givens σ} (obtains : engine.Obtains source name template other)
    (faithful : Faithful options givens engine) : Faithful options givens other := by
  cases obtains with
  | stored => exact ⟨faithful.chosen, faithful.given, faithful.stored⟩
  | built hits misses built =>
    cases name with
    | none => exact ⟨faithful.chosen, faithful.given, faithful.stored⟩
    | some key =>
      refine ⟨faithful.chosen, faithful.given, fun member => ?_⟩
      rcases mem_of_mem_put member with before | same
      · exact faithful.stored before
      · cases same
        refine ⟨engine, faithful.chosen, ?_⟩
        rw [(build_spec built).2.1]
        exact built

theorem faithful_upheld (options : Options) (givens : Givens σ) :
    Upheld fun _ => Faithful options givens where
  counted {past engine other} now same := by
    have options : other.options = engine.options := congrArg (·.options) same
    have given : other.given = engine.given := congrArg (·.given) same
    have entries : other.store.entries = engine.store.entries := congrArg (·.store.entries) same
    exact ⟨options.trans now.chosen, given.trans now.given,
      fun member => now.stored (entries ▸ member)⟩
  compiled now obtains := obtains.faithful now
  listed now obtains :=
    have kept := obtains.faithful now
    ⟨kept.chosen, kept.given, kept.stored⟩
  cleared now := ⟨now.chosen, now.given, fun member => absurd member List.not_mem_nil⟩

theorem faithful_after (surroundings : Surroundings) (options : Options) (library : Library σ)
    (routines : σ) (requests : List Request) :
    Faithful options (library, surroundings)
      (afterAll (opened surroundings options library routines) requests).1 := by
  have start : Faithful options (library, surroundings)
      (opened surroundings options library routines).1 :=
    ⟨rfl, rfl, fun member => absurd member List.not_mem_nil⟩
  exact (faithful_upheld options _).fromStart start requests

/-! ### Rendering without a store -/

/-- An engine that stores nothing builds what it compiles. -/
theorem compile_storeless {session : Engine σ × σ}
    (off : session.1.options.cacheTemplates.truthy = false) (source : String)
    (name : Option String) :
    ∃ after, after.options = session.1.options ∧ after.given = session.1.given ∧
      (compile source name).run.run session = (build session.1 source name, (after, session.2)) := by
  rcases compile_cases source name session with
    ⟨template, after, run, obtains⟩ | ⟨e, hits, misses, failed, run⟩
  · cases obtains with
    | stored hits misses enabled => simp [off] at enabled
    | built hits misses built =>
      rw [built]
      exact ⟨(session.1.looked hits misses).keeping name template, rfl, rfl, run⟩
  · rw [failed]
    exact ⟨session.1.looked hits misses, rfl, rfl, run⟩

theorem render_result (source : String) (context : Dict Value) (name : Option String)
    (session : Engine σ × σ) :
    (render source context name session).1 = match (compile source name).run.run session with
      | (.ok template, after) => (counted template context after).1
      | (.error e, _) => .error e := by
  have run := run_bind (compile source name) (counted · context) session
  rw [show render source context name session = _ from run]
  rcases (compile source name).run.run session with ⟨result, after⟩
  cases result <;> rfl

/-- What an engine gives for a source that enters no other template is what a new engine with the
same options and library gives, which stores nothing. -/
theorem store_is_not_seen (surroundings : Surroundings) (options : Options) (library : Library σ)
    (routines : σ) (requests : List Request) {source : String}
    (closed : ∀ analysis, Analysis.ofText options source = .ok analysis →
      ∀ node, Node.Within Node.parts node analysis.tree.nodes → node.entersOther = false)
    (context : Dict Value) (name : Option String) :
    let session := afterAll (opened surroundings options library routines) requests
    (render source context name session).1 =
      (render source context name
        (opened surroundings options.storeless library session.2)).1 := by
  intro session
  let plain := opened surroundings options.storeless library session.2
  have faithful : Faithful options (library, surroundings) session.1 :=
    faithful_after surroundings options library routines requests
  have off : plain.1.options.cacheTemplates.truthy = false := rfl
  obtain ⟨after', options', given', there⟩ := compile_storeless off source name
  rw [render_result, render_result, there]
  rcases compile_cases source name session with
    ⟨template, after, here, obtains⟩ | ⟨e, hits, misses, failed, here⟩
  · obtain ⟨builder, chosen, built⟩ := obtains.builder faithful
    have kept := obtains.faithful faithful
    have anew := build_storeless builder plain.1 (by rw [chosen]; rfl) source name
    rw [built] at anew
    rw [show (compile source name).run.run session = _ from here, anew]
    -- The stored template and the new one have the nodes of one analysis.
    obtain ⟨-, rfl, analysis, read, nodes⟩ := build_spec built
    have alike : Node.AllAlike .lone template.nodes template.nodes := by
      rw [nodes]
      exact .lone (closed analysis (chosen ▸ read))
    have similar : Options.Similar False after.options after'.options := by
      rw [kept.chosen, options']
      exact options.similar_storeless
    obtain ⟨libraries, surroundings⟩ := Prod.mk.inj (kept.given.trans given'.symm)
    have library : Library.Alike .lone after.library after'.library := by
      rw [libraries]
      exact .refl .lone _
    have memory {word : String} (_ : Likeness.lone.objects word) :
        after.surroundings.memory word = after'.surroundings.memory word := by
      rw [surroundings]
    have follows := @counted_follows σ .lone not_false template
      { template with number := plain.1.compilations } rfl alike (after, session.2)
      (after', session.2) similar library memory rfl context context fun _ _ => rfl
    exact follows.accord.eq
  · have anew := build_storeless session.1 plain.1 (by rw [faithful.chosen]; rfl) source name
    rw [failed] at anew
    rw [show (compile source name).run.run session = _ from here, anew]
    rfl

/-- An engine that has rendered a loop before, under a name. -/
def acquainted : Engine Unit × Unit :=
  afterAll (opened .still .standard (.standard .still) ()) [.render listing there (some "page")]

set_option maxRecDepth 8000 in
theorem acquainted_stores_listing :
    (acquainted.1.store.find? "page").map (·.source) = some listing := by
  cbv

/-- The loop renders from the store as it does without one. -/
theorem stored_listing_renders_anew :
    (acquainted.1.store.find? "page").map (·.source) = some listing ∧
    (∀ analysis, Analysis.ofText .standard listing = .ok analysis →
      ∀ node, Node.Within Node.parts node analysis.tree.nodes → node.entersOther = false) ∧
    (render listing here (some "page") acquainted).1 =
      (render listing here (some "page")
        (opened .still Options.standard.storeless (.standard .still) ())).1 := by
  have closed : ∀ analysis, Analysis.ofText .standard listing = .ok analysis →
      ∀ node, Node.Within Node.parts node analysis.tree.nodes → node.entersOther = false := by
    intro analysis read
    have analysed := listing_analysed
    rw [read] at analysed
    have nodes : analysis.tree.nodes = listingNodes := congrArg Prod.fst (Except.ok.inj analysed)
    rw [nodes]
    exact listing_closed
  refine ⟨acquainted_stores_listing, closed, ?_⟩
  exact store_is_not_seen .still .standard (.standard .still) ()
    [.render listing there (some "page")] closed here (some "page")

end Engine
end Stencil
