import Stencil.Proofs.Indifference

/-! Loops with a condition. Rendering a body leaves the frames and the global bindings as they were,
so a condition that the built-in library evaluates has the same value at every turn: once it held it
holds until the turns are used up or something fails. -/
namespace Stencil

open Rendering

variable {σ : Type}

/-- All names, and the functions that do not look at the time or draw a number. -/
def Likeness.timeless : Likeness :=
  ⟨fun _ => True, fun name => name ≠ "now" ∧ name ≠ "random", fun _ => True, True, False⟩

/-- What two functions read from outside is left open. -/
theorem Library.Alike.natural {l : Likeness} {library : Library σ} {s : Surroundings}
    (alike : Library.Alike l library (.standard s))
    (apart : ∀ name, l.functions name → name ≠ "now" ∧ name ≠ "random") (r : Renaming) :
    library.Natural r l.functions where
  call known := by
    rw [alike.call known]
    exact (standard_natural r s).call (apart _ known)
  applyFilter name := by
    rw [alike.applyFilter]
    exact (standard_natural r s).applyFilter name

/-- Scopes in which every name stands for the same. -/
def World.Rhymes (world other : World σ) : Prop :=
  ∀ name, other.scope.get name = world.scope.get name

theorem World.rhymes_of_held {world after : World σ} (held : after.held = world.held) :
    world.Rhymes after := by
  intro name
  have layers : after.scope.layers = world.scope.layers := congrArg Held.layers held
  have globals : after.scope.globals = world.scope.globals := congrArg Held.globals held
  simp only [Scope.get, Scope.find?, Scope.frames, layers, globals]

/-- Evaluation changes nothing, and has one outcome wherever the names stand for the same. -/
theorem Expression.evaluate_repeats {setting : Setting σ} {l : Likeness}
    (library : setting.library.Natural .none l.functions) {expression : Expression}
    (known : expression.Uses l) {world other : World σ} (rhymes : world.Rhymes other) :
    (∃ value, Returns (expression.evaluate setting) world value world ∧
        Returns (expression.evaluate setting) other value other) ∨
      ∃ failure, Fails (expression.evaluate setting) world failure world ∧
        Fails (expression.evaluate setting) other failure other := by
  have serves : Renaming.none.Serves l (fun w w' => w = world ∧ w' = other) setting := by
    refine ⟨?_, library⟩
    rintro _ _ ⟨rfl, rfl⟩ name -
    rw [rhymes, Value.renamed_none]
  have keeps : Renaming.none.Keeps expression.literals := fun literal _ => literal.value.renamed_none
  rcases evaluate_renamed serves expression known keeps world other ⟨rfl, rfl⟩ with
    ⟨value, _, again, _, here, there, same, rfl, rfl⟩ | ⟨failure, _, _, here, there, rfl, rfl⟩ |
    ⟨impossible, -⟩
  · rw [same, Value.renamed_none] at there
    exact .inl ⟨value, here, there⟩
  · exact .inr ⟨failure, here, there⟩
  · exact impossible.elim

namespace Node

theorem renderWhile_returns {setting : Setting σ} {condition : Rendering σ Value} {value : Value}
    {world after : World σ} (asked : Returns condition world value after)
    (falsy : value.truthy = false) (body : Rendering σ String) (remaining : Nat) :
    Returns (renderWhile setting condition body remaining) world "" after := by
  have skipped {other : Rendering σ String} :
      Returns (if value.truthy then other else return "") after "" after := by
    rw [if_neg (by simp [falsy])]
    exact returns_pure.mpr ⟨rfl, rfl⟩
  cases remaining <;> exact returns_bind.mpr ⟨value, after, asked, skipped⟩

theorem renderWhile_fails_of_condition {setting : Setting σ} {condition : Rendering σ Value}
    {failure : Failure} {world after : World σ} (failed : Fails condition world failure after)
    (body : Rendering σ String) (remaining : Nat) :
    Fails (renderWhile setting condition body remaining) world failure after := by
  cases remaining <;> exact fails_bind.mpr (.inl failed)

/-- A condition that holds in every world like the present one holds until the loop fails. -/
theorem renderWhile_fails {setting : Setting σ} {condition : Rendering σ Value}
    {body : Rendering σ String} (tidy : Tidy body) {held : Held} {value : Value}
    (holds : value.truthy = true)
    (asked : ∀ world : World σ, world.held = held → Returns condition world value world)
    (remaining : Nat) {world : World σ} (here : world.held = held) :
    ∃ failure after, Fails (renderWhile setting condition body remaining) world failure after := by
  -- On the turns that remain; each body leaves what the condition reads.
  induction remaining generalizing world with
  | zero =>
    refine ⟨.ofTrouble (.loopIterations setting.options.maxLoopIterations), world,
      fails_bind.mpr (.inr ⟨value, world, asked world here, ?_⟩)⟩
    rw [if_pos holds]
    rfl
  | succ remaining ih =>
    have enough {failure : Failure} {after : World σ}
        (failed : Fails (do
          let first ← body
          return first ++ (← renderWhile setting condition body remaining)) world failure after) :
        Fails (renderWhile setting condition body (remaining + 1)) world failure after := by
      refine fails_bind.mpr (.inr ⟨value, world, asked world here, ?_⟩)
      rw [if_pos holds]
      exact failed
    rcases returns_or_fails body world with ⟨text, after, done⟩ | ⟨failure, after, failed⟩
    · obtain ⟨failure, last, later⟩ := ih ((tidy.view_eq done).trans here)
      exact ⟨failure, last, enough (fails_bind.mpr (.inr ⟨text, after, done,
        fails_bind.mpr (.inl later)⟩))⟩
    · exact ⟨failure, after, enough (fails_bind.mpr (.inl failed))⟩

end Node

/-- The engine's library and options, without templates. -/
def plainSetting : Setting Unit := ⟨.standard .still, .standard, none, .apart⟩

/-- Where a name stands for three. -/
def countdown : Moment Unit :=
  ⟨20, Node.nestingLimit, ⟨none, []⟩, false, [], ⟨.ofGlobals [("n", .int 3)], .empty true 100, ()⟩⟩

end Stencil
