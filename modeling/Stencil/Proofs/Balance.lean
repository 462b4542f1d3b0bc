import Stencil.Proofs.Batches

/-! Frames under a rendering. A template may be rendered on any stack of frames. Those frames lie
under all that the rendering pushes, at each of its moments, and when it ends, by returning or by
failing, they are what is left. -/
namespace Stencil

variable {σ : Type} {setting : Setting σ} {limit : Nat} {world after : World σ}

/-- A failure that tells of frames taken away out of order, or of the global frame taken away. -/
def Failure.OfScope : Failure → Prop
  | template _ => False
  | fault f => f.kind = .scope

theorem Fault.kind_of_ofNumbers {fault : Fault} (numbers : fault.OfNumbers) :
    fault.kind ≠ .scope := by
  intro frames
  cases fault <;> contradiction

theorem Failure.not_ofScope_of_bearable {failure : Failure} (known : failure.Bearable) :
    ¬ failure.OfScope := by
  intro frames
  cases failure with
  | template error => exact frames
  | fault f =>
    rcases known with numbers | rfl | rfl
    · exact Fault.kind_of_ofNumbers numbers frames
    · cases frames
    · cases frames

/-! ### During a rendering -/

/-- The stack of a world ends with some layers, over some global bindings. -/
structure World.Over (layers : List Layer) (globals : Dict Value) (world : World σ) : Prop where
  layers : layers <:+ world.scope.layers
  globals : world.scope.globals = globals

theorem World.Over.framed {layers : List Layer} {globals : Dict Value}
    (above : world.Over layers globals) (bindings : Dict Value) :
    (world.framed bindings).Over layers globals where
  layers := above.layers.trans (List.suffix_cons _ _)
  globals := above.globals

theorem World.over_lasting (setting : Setting σ) (layers : List Layer) (globals : Dict Value) :
    Moment.Lasting setting (World.Over layers globals) where
  held {_ after} same now := by
    have inner : after.scope.layers = _ := congrArg Held.layers same
    have outer : after.scope.globals = _ := congrArg Held.globals same
    exact ⟨inner ▸ now.layers, outer.trans now.globals⟩
  framed _ _ _ later binding index := later.framed _

/-- Whatever loops, inclusions, parents and replaced blocks lead to a moment, it has under its own
frames that of the context and those the template was called on. -/
theorem Moment.visits_over {template : Template} {context : Dict Value} {reached : Moment σ}
    (visits : Visits setting limit (start setting limit template context world) reached) :
    reached.world.Over (⟨world.scope.fresh, context⟩ :: world.scope.layers) world.scope.globals :=
  (World.over_lasting setting _ _).visits visits ⟨List.suffix_refl _, rfl⟩

/-! ### After a rendering -/

theorem Template.render_tidy (setting : Setting σ) (template : Template) (context : Dict Value) :
    Node.Tidy (template.render setting context) := by
  rw [Template.render_eq]
  have entered := Node.renderEnteredUpTo_tidy setting Node.nestingLimit setting.options.maxDepth
  exact Rendering.withFrame_steady
    (Rendering.annotated_steady (fun _ _ => trivial) (Node.renderWithin_tidy entered _ _ _)) context

theorem Template.render_raises (setting : Setting σ) (template : Template) (context : Dict Value)
    (world : World σ) : Raises Failure.Bearable (template.render setting context world).1 := by
  intro failure failed
  have fails : Fails (template.render setting context) world failure _ := Prod.ext failed rfl
  exact Template.render_bearable fails

theorem Scope.frames_of_held (same : after.held = world.held) :
    after.scope.frames = world.scope.frames ∧ after.scope.depth = world.scope.depth := by
  have layers : after.scope.layers = world.scope.layers := congrArg Held.layers same
  have globals : after.scope.globals = world.scope.globals := congrArg Held.globals same
  rw [Scope.frames, Scope.depth, layers, globals]
  exact ⟨rfl, rfl⟩

/-- A rendering on any stack of frames ends with that stack, whatever it returns or fails with,
and it never fails because of its frames. -/
theorem Template.render_restores_frames (setting : Setting σ) (template : Template)
    (context : Dict Value) (world : World σ) :
    (template.render setting context world).2.scope.frames = world.scope.frames ∧
      (template.render setting context world).2.scope.depth = world.scope.depth ∧
      Raises (fun failure => ¬ failure.OfScope) (template.render setting context world).1 := by
  obtain ⟨held, -⟩ := steady_iff.mp (Template.render_tidy setting template context) world
  obtain ⟨frames, depth⟩ := Scope.frames_of_held held
  refine ⟨frames, depth, ?_⟩
  exact (Template.render_raises setting template context world).mono fun failure known =>
    Failure.not_ofScope_of_bearable known

end Stencil
