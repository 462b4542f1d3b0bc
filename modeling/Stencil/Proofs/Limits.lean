import Mathlib
import Stencil.Proofs.Sessions

/-! Limits only cut off. What is compiled and rendered under some options has the same trees,
diagnostics and output under options with wider limits and a milder arithmetic. -/
namespace Stencil

variable {σ : Type} {options other : Options}

/-- The other options are these, save for limits that are no lower and for arithmetic, which may be
strict no more. -/
structure Options.Looser (options other : Options) : Prop where
  depth : options.maxDepth ≤ other.maxDepth
  turns : options.maxLoopIterations ≤ other.maxLoopIterations
  strict : other.strictArithmetic = options.strictArithmetic ∨
    other.strictArithmetic.truthy = false
  rest : other = { options with
    maxDepth := other.maxDepth
    maxLoopIterations := other.maxLoopIterations
    strictArithmetic := other.strictArithmetic }

/-- Equal nodes, of which the second rendering may go on where the first fails. -/
def Pairing.loosened : Pairing := ⟨.exact, True⟩

theorem Options.Looser.alike (looser : options.Looser other) : Options.Alike True options other where
  autoEscape := by rw [looser.rest]
  strictMode := by rw [looser.rest]
  cacheTemplates := by rw [looser.rest]
  strict := looser.strict.imp (fun same => by rw [same]) fun mild => ⟨trivial, mild⟩
  depth := .inr ⟨trivial, looser.depth⟩
  turns := .inr ⟨trivial, looser.turns⟩

/-- Every text that can be analysed has the same analysis. -/
theorem Options.Looser.analysis (looser : options.Looser other) {source : String}
    {analysis : Analysis} (analysed : Analysis.ofText options source = .ok analysis) :
    Analysis.ofText other source = .ok analysis := by
  have same : options.preserveWhitespace = other.preserveWhitespace := by rw [looser.rest]
  have accord : Accord True (Analysis.Alike .exact) (Analysis.ofText options source)
      (Analysis.ofText other source) :=
    Analysis.ofText_repeats Likeness.exact_full (congrArg Value.truthy same)
      (.inr ⟨trivial, looser.depth⟩) source
  rcases accord with ⟨first, second, here, there, alike⟩ | ⟨e, here, -⟩ | ⟨-, e, here⟩
  · obtain rfl : analysis = first := Except.ok.inj (analysed.symm.trans here)
    obtain ⟨_, _, read, -, source_eq, -⟩ := Analysis.ofText_stages here
    obtain ⟨_, _, read', -, source_eq', -⟩ := Analysis.ofText_stages there
    rw [same] at read
    have tokens := congrArg Prod.fst (Except.ok.inj (read.symm.trans read'))
    rw [there, alike.eq not_false (source_eq.trans source_eq'.symm) tokens]
  · cases analysed.symm.trans here
  · cases analysed.symm.trans here

namespace Engine

variable {engine : Engine σ}

/-- Templates are compiled into the catalogue, then one more is compiled and rendered. -/
def compileAndRender (templates : List (String × String)) (source : String) (context : Dict Value)
    (name : Option String) : Work σ (Template × String) := do
  precompileAll templates
  let template ← compile source name
  return (template, ← counted template context)

/-- What succeeds under some options succeeds under looser ones, with the same trees, diagnostics
and output. -/
theorem looser_options_keep_results (looser : engine.options.Looser options) :
    (∀ source analysis, Analysis.ofText engine.options source = .ok analysis →
      Analysis.ofText options source = .ok analysis) ∧
    ∀ templates source context name routines result after,
      Returns (compileAndRender templates source context name) (engine, routines) result after →
      ∃ after', Returns (compileAndRender templates source context name)
          ({ engine with options }, routines) result after' ∧
        after'.1.catalogue = after.1.catalogue ∧ after'.1.store = after.1.store ∧
        after'.2 = after.2 := by
  refine ⟨fun source analysis => looser.analysis, ?_⟩
  intro templates source context name routines result after run
  have matched : Matches .loosened Eq (fun _ => True) Eq
      (compileAndRender templates source context name : Work σ _)
      (compileAndRender templates source context name) := by
    refine (precompileAll_matches fun _ _ => trivial).bind_eq fun _ => ?_
    refine (compile_matches trivial name).bind fun template template' kin => ?_
    obtain rfl := kin.eq not_false
    refine (counted_matches (fun _ _ => rfl) ?_ trivial kin).bind_eq fun _ => mirrors_pure rfl
    rintro given _ rfl
    exact ⟨⟨fun _ => rfl, fun _ => rfl, rfl⟩, fun _ => rfl⟩
  have abreast : Abreast .loosened Eq (fun _ => True) (engine, routines)
      ({ engine with options }, routines) := by
    refine ⟨⟨looser.alike, rfl, fun _ => ?_, ?_, ?_, rfl, rfl⟩, rfl⟩
    · exact Analysis.ofText_repeats Likeness.exact_full (by rw [looser.rest])
        (.inr ⟨trivial, looser.depth⟩) _
    · exact Store.Alike.refl (.refl Likeness.exact_full) engine.store
    · exact Dict.Related.refl (.refl Likeness.exact_full) engine.catalogue
  obtain ⟨_, after', run', rfl, kept⟩ := matched.returns abreast run
  have store := kept.engine.store
  have catalogue := kept.engine.catalogue
  rw [Pairing.Kin, show Pairing.loosened.toLikeness = .exact from rfl, Template.alike_exact]
    at store catalogue
  exact ⟨after', run', (Dict.related_eq catalogue).symm, (Store.eq_of_alike store).symm,
    kept.routines.symm⟩

/-- Few levels, few turns and strict arithmetic. -/
def tight : Options :=
  { Options.standard with maxDepth := 4, maxLoopIterations := 2, strictArithmetic := .bool true }

theorem tight_looser : tight.Looser .standard where
  depth := by decide
  turns := by decide
  strict := .inr rfl
  rest := rfl

set_option maxRecDepth 8000 in
theorem tight_renders :
    (compileAndRender [("a", "A")] "\x7b% include 'a' %\x7d\x7b\x7b 1 + 2 \x7d\x7d" [] none
      ((create .still tight : Engine Unit), ())).1.map Prod.snd = .ok "A3" := by
  cbv

/-- What is rendered under tight options is rendered under the standard ones. -/
theorem tight_rendering_is_kept : tight.Looser .standard ∧
    ∃ template after, Returns (compileAndRender [("a", "A")]
        "\x7b% include 'a' %\x7d\x7b\x7b 1 + 2 \x7d\x7d" [] none)
      ((create .still .standard : Engine Unit), ()) (template, "A3") after := by
  refine ⟨tight_looser, ?_⟩
  have rendered := tight_renders
  rcases run : compileAndRender [("a", "A")]
    "\x7b% include 'a' %\x7d\x7b\x7b 1 + 2 \x7d\x7d" [] none
    ((create .still tight : Engine Unit), ()) with ⟨result, after⟩
  rw [run] at rendered
  cases result with
  | error e => cases rendered
  | ok found =>
    obtain ⟨template, output⟩ := found
    cases rendered
    obtain ⟨after', run', -⟩ :=
      (looser_options_keep_results tight_looser).2 _ _ _ _ _ _ _ run
    exact ⟨template, after', run'⟩

end Engine
end Stencil
