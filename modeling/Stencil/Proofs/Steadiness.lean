import Stencil.Proofs.Faults
import Stencil.Proofs.Nodes
import Stencil.Proofs.Outcome

/-! Rendering is steady: whether it returns or fails, it leaves the frames, the global bindings and
the stored templates as it found them. A frame that is pushed for a body is therefore on top when
the body ends, and frames are never popped out of order. -/
namespace Stencil

variable {σ α β : Type}

/-- A store without its counts of look-ups. -/
def Store.uncounted (store : Store α) : Store α := { store with hits := 0, misses := 0 }

theorem Store.get_uncounted (store : Store α) (name : String) :
    (store.get name).2.uncounted = store.uncounted := by
  unfold get
  split <;> rfl

/-- What rendering must leave alone. -/
@[ext]
structure Held where
  layers : List Layer
  globals : Dict Value
  stored : Store Template

namespace World

def held (world : World σ) : Held :=
  ⟨world.scope.layers, world.scope.globals, world.store.uncounted⟩

/-- The world with a frame on top. -/
def framed (world : World σ) (bindings : Dict Value) : World σ :=
  { world with scope := world.scope.push bindings }

/-- The world with other frames. -/
def withLayers (world : World σ) (layers : List Layer) : World σ :=
  { world with scope := { world.scope with layers } }

end World

/-- A step of rendering that leaves alone what it must, and fails only as expected. -/
abbrev Steady (expected : Failure → Prop) (step : Rendering σ α) : Prop :=
  Quiet World.held expected step

theorem steady_iff {expected : Failure → Prop} {step : Rendering σ α} :
    Steady expected step ↔
      ∀ world, (step world).2.held = world.held ∧ Raises expected (step world).1 := by
  have outcome (world : World σ) (result : Except Failure α) (after : World σ)
      (run : step world = (result, after)) :
      ((∀ a t, Returns step world a t → t.held = world.held) ∧
        ∀ e t, Fails step world e t → t.held = world.held ∧ expected e) ↔
      after.held = world.held ∧ Raises expected result := by
    have returns (a : α) (t : World σ) : Returns step world a t ↔ (result, after) = (.ok a, t) := by
      rw [← run]
      rfl
    have fails (e : Failure) (t : World σ) :
        Fails step world e t ↔ (result, after) = (.error e, t) := by
      rw [← run]
      rfl
    simp only [returns, fails]
    cases result <;> simp
  exact forall_congr' fun world => outcome world _ _ rfl

/-! ### Steps -/

/-- Expected are all failures of evaluation and of the routines of a library. -/
structure Tolerates (setting : Setting σ) (expected : Failure → Prop) : Prop
    extends Tolerant expected where
  call (name : String) (args : List Value) (state : σ) :
    Raises expected (setting.library.call name args state).1
  applyFilter (name : String) (args : List Value) (state : σ) :
    Raises expected (setting.library.applyFilter name args state).1

theorem tolerates_any (setting : Setting σ) : Tolerates setting fun _ => True where
  cause _ := trivial
  numbers _ _ := trivial
  call _ _ _ _ _ := trivial
  applyFilter _ _ _ _ _ := trivial

/-- An error, or no end at all. -/
def Failure.OfRoutine : Failure → Prop
  | template _ => True
  | fault f => f = .endless

/-- Routines of a library that end fail with errors: their faults become troubles. -/
theorem Library.guarded_raises (wrap : String → Trouble) (routine : Routine σ)
    (args : List Value) (state : σ) :
    Raises Failure.OfRoutine (guarded wrap routine args state).1 := by
  rw [guarded]
  rcases routine args state with ⟨failure | value, next⟩
  · refine raises_error.mpr ?_
    unfold wrapped
    split
    · trivial
    · exact rfl
    · trivial
  · exact raises_ok value

theorem Library.call_raises (library : Library σ) (name : String) (args : List Value) (state : σ) :
    Raises Failure.OfRoutine (library.call name args state).1 := by
  unfold call
  cases library.functions.get? name with
  | none => exact raises_error.mpr trivial
  | some routine => exact guarded_raises _ routine args state

theorem Library.applyFilter_raises (library : Library σ) (name : String) (args : List Value)
    (state : σ) : Raises Failure.OfRoutine (library.applyFilter name args state).1 := by
  unfold applyFilter
  cases library.filters.get? name with
  | none => exact raises_error.mpr trivial
  | some routine => exact guarded_raises _ routine args state

theorem Library.exists_builtin {builtins : List Builtin} {name : String} {routine : Routine σ}
    (found : Dict.get? (entries builtins) name = some routine) :
    ∃ builtin ∈ builtins, builtin.name = name ∧ routine = builtin.routine := by
  obtain ⟨builtin, member, same⟩ := List.mem_map.mp (Dict.mem_of_get? found)
  cases same
  exact ⟨builtin, member, rfl, rfl⟩

theorem Store.get_entries (store : Store α) (name : String) :
    (store.get name).2.entries = store.entries := by
  unfold get
  split <;> rfl

/-- The scope after a body whose own frame is on top. -/
theorem Scope.leave_top {scope : Scope} {number : Nat} {bindings : Dict Value}
    {outer : List Layer} (top : scope.layers = ⟨number, bindings⟩ :: outer) :
    scope.leave number = ({ scope with layers := outer }, none) := by
  simp [Scope.leave, Scope.unwind, Scope.isTop, top]

namespace Rendering

variable {expected : Failure → Prop}

theorem ofResult_steady {result : Except Failure α} (raises : Raises expected result) :
    Steady expected (ofResult result : Rendering σ α) :=
  steady_iff.mpr fun _ => ⟨rfl, raises⟩

theorem ofFault_steady (tolerant : Tolerant expected) {result : Except Fault α}
    (raises : RaisesOfNumbers result) : Steady expected (ofFault result : Rendering σ α) :=
  ofResult_steady (tolerant.lift raises)

theorem fail_steady (tolerant : Tolerant expected) (trouble : Trouble) :
    Steady expected (fail trouble : Rendering σ α) :=
  ofResult_steady (raises_error.mpr (tolerant.cause _))

theorem call_steady {routine : Routine σ} {args : List Value}
    (raises : ∀ state, Raises expected (routine args state).1) :
    Steady expected (Rendering.call routine args) :=
  steady_iff.mpr fun world => ⟨rfl, raises world.routines⟩

theorem resolve_steady (tolerant : Tolerant expected) (setting : Setting σ) (name : String) :
    Steady expected (resolve setting name) := by
  refine steady_iff.mpr fun world => ?_
  have missing : Raises expected (.error (.ofCause (.notFound name)) : Except Failure Template) :=
    raises_error.mpr (tolerant.cause _)
  unfold resolve
  split
  · exact ⟨rfl, missing⟩
  · split
    · exact ⟨rfl, raises_ok _⟩
    · have stored := Store.get_uncounted world.store name
      rcases got : world.store.get name with ⟨found, store⟩
      rw [got] at stored
      refine ⟨congrArg (Held.mk _ _) stored, ?_⟩
      cases found with
      | none => exact missing
      | some template => exact raises_ok _

/-- A failure that takes an annotation must still be expected. -/
theorem annotated_steady {annotate : TemplateError → TemplateError} {body : Rendering σ α}
    (closed : ∀ error, expected (.template error) → expected (.template (annotate error)))
    (steady : Steady expected body) : Steady expected (annotated annotate body) := by
  refine steady_iff.mpr fun world => ?_
  obtain ⟨held, raises⟩ := steady_iff.mp steady world
  unfold annotated
  split
  · rename_i failed
    rw [failed] at held raises
    exact ⟨held, raises_error.mpr (closed _ (raises_error.mp raises))⟩
  · exact ⟨held, raises⟩

variable {body : Rendering σ α}

/-- A steady body under a frame of its own runs in the framed world, and the frame goes. -/
theorem withFrame_run (steady : Steady expected body) (bindings : Dict Value) (world : World σ) :
    withFrame bindings body world =
      ((body (world.framed bindings)).1,
        (body (world.framed bindings)).2.withLayers world.scope.layers) := by
  have held := (steady_iff.mp steady (world.framed bindings)).1
  rcases run : body (world.framed bindings) with ⟨result, after⟩
  rw [run] at held
  have top : after.scope.layers = ⟨world.scope.fresh, bindings⟩ :: world.scope.layers :=
    congrArg Held.layers held
  have inner : body ⟨world.scope.push bindings, world.store, world.routines⟩ = (result, after) := run
  simp only [withFrame, Scope.within, inner, Scope.leave_top top]
  cases result <;> rfl

theorem withFrame_steady (steady : Steady expected body) (bindings : Dict Value) :
    Steady expected (withFrame bindings body) := by
  refine steady_iff.mpr fun world => ?_
  obtain ⟨held, raises⟩ := steady_iff.mp steady (world.framed bindings)
  rw [withFrame_run steady]
  have globals := congrArg Held.globals held
  have stored := congrArg Held.stored held
  exact ⟨Held.ext rfl globals stored, raises⟩

end Rendering

/-! ### Evaluation -/

open Rendering

variable {setting : Setting σ} {expected : Failure → Prop}

theorem Operator.evaluate_steady (tolerates : Tolerates setting expected) (op : Operator)
    (left : Value) {right : Rendering σ Value} (steady : Steady expected right) :
    Steady expected (op.evaluate setting left right) := by
  unfold evaluate
  split
  · exact quiet_pure _
  · exact quiet_bind steady fun _ => ofResult_steady (apply_raises tolerates.toTolerant _ op left _)

namespace Expression

mutual
theorem evaluate_steady (tolerates : Tolerates setting expected) :
    (expression : Expression) → Steady expected (expression.evaluate setting)
  | literal .. => quiet_pure _
  | name .. => quiet_bind quiet_get fun _ => quiet_pure _
  | property _ object _ => quiet_bind (evaluate_steady tolerates object) fun _ => quiet_pure _
  | element _ array index =>
    quiet_bind (evaluate_steady tolerates array) fun _ =>
      quiet_bind (evaluate_steady tolerates index) fun _ =>
        ofFault_steady tolerates.toTolerant (Value.index_raises _ _)
  | binary _ op left right =>
    quiet_bind (evaluate_steady tolerates left) fun _ =>
      op.evaluate_steady tolerates _ (evaluate_steady tolerates right)
  | call _ callee args =>
    quiet_bind (evaluateAll_steady tolerates args) fun values =>
      call_steady (tolerates.call callee values)
theorem evaluateAll_steady (tolerates : Tolerates setting expected) :
    (expressions : List Expression) → Steady expected (evaluateAll setting expressions)
  | [] => quiet_pure _
  | expression :: rest =>
    quiet_bind (evaluate_steady tolerates expression) fun _ =>
      quiet_bind (evaluateAll_steady tolerates rest) fun _ => quiet_pure _
end

end Expression

theorem FilterUse.applyAll_steady (tolerates : Tolerates setting expected) (value : Value)
    (filters : List FilterUse) : Steady expected (applyAll setting value filters) := by
  induction filters generalizing value with
  | nil => exact quiet_pure value
  | cons filter rest ih =>
    refine quiet_bind (Expression.evaluateAll_steady tolerates filter.args) fun args => ?_
    exact quiet_bind (call_steady (tolerates.applyFilter filter.name (value :: args))) fun _ => ih _

/-! ### Nodes -/

namespace Node

theorem display_steady (tolerates : Tolerates setting expected) (value : Value) :
    Steady expected (display setting value) := by
  have text (v : Value) : Steady expected (ofFault v.toText : Rendering σ String) :=
    ofFault_steady tolerates.toTolerant (Value.toText_raises v)
  unfold display
  split
  · split
    · exact quiet_bind (call_steady (tolerates.applyFilter _ _)) text
    · exact quiet_bind (text value) fun _ => quiet_pure _
  · exact text value

theorem renderOutput_steady (tolerates : Tolerates setting expected)
    (expression : Option Expression) (filters : List FilterUse) :
    Steady expected (renderOutput setting expression filters) := by
  have shown (value : Value) : Steady expected
      (FilterUse.applyAll setting value filters >>= display setting) :=
    quiet_bind (FilterUse.applyAll_steady tolerates value filters) (display_steady tolerates)
  cases expression with
  | none => exact quiet_bind (quiet_pure _) shown
  | some e => exact quiet_bind (e.evaluate_steady tolerates) shown

theorem renderItems_steady {body : Rendering σ String} (steady : Steady expected body)
    (binding : LoopBinding) (length index : Nat) (items : List Value) :
    Steady expected (renderItems body binding length index items) := by
  induction items generalizing index with
  | nil => exact quiet_pure _
  | cons item rest ih =>
    exact quiet_bind (withFrame_steady steady _) fun _ => quiet_bind (ih _) fun _ => quiet_pure _

theorem renderWhile_steady (tolerant : Tolerant expected) {condition : Rendering σ Value}
    (asks : Steady expected condition) {body : Rendering σ String} (steady : Steady expected body)
    (remaining : Nat) : Steady expected (renderWhile setting condition body remaining) := by
  induction remaining with
  | zero =>
    refine quiet_bind asks fun _ => ?_
    split
    · exact fail_steady tolerant _
    · exact quiet_pure _
  | succ remaining ih =>
    refine quiet_bind asks fun _ => ?_
    split
    · exact quiet_bind steady fun _ => quiet_bind ih fun _ => quiet_pure _
    · exact quiet_pure _

/-- A step that leaves alone what it must, however it fails. -/
abbrev Tidy (step : Rendering σ α) : Prop := Steady (fun _ => True) step

variable {door : Door σ} {place : Place}

theorem named_steady (tolerates : Tolerates setting expected) (path : Expression) :
    Steady expected (named setting path) :=
  quiet_bind (path.evaluate_steady tolerates) fun _ =>
    quiet_bind (ofFault_steady tolerates.toTolerant (Value.toText_raises _)) fun _ =>
      resolve_steady tolerates.toTolerant setting _

theorem renderClauses_tidy {otherwise : Rendering σ String} (last : Tidy otherwise)
    (clauses : List Clause)
    (bodies : ∀ clause ∈ clauses, Tidy (renderAll setting door place clause.body)) :
    Tidy (renderClauses setting door place otherwise clauses) := by
  induction clauses with
  | nil => exact last
  | cons clause rest ih =>
    obtain ⟨span, condition, body⟩ := clause
    refine quiet_bind (condition.evaluate_steady (tolerates_any setting)) fun _ => ?_
    split
    · exact bodies (.mk span condition body) List.mem_cons_self
    · exact ih fun clause member => bodies clause (List.mem_cons_of_mem _ member)

theorem content_tidy (enter : ∀ place nodes, Tidy (door.enter place nodes))
    (replace : ∀ place nodes, Tidy (door.replace place nodes)) (node : Node)
    (bodies : ∀ body ∈ node.inner, Tidy (renderAll setting door place body)) :
    Tidy (node.content setting door place) := by
  have any := tolerates_any setting
  cases node with
  | text | comment => exact quiet_pure _
  | output span source expression filters => exact renderOutput_steady any expression filters
  | conditional span condition body clauses otherwise =>
    refine renderClauses_tidy (bodies _ (by simp [inner])) _ fun clause member => bodies _ ?_
    rcases List.mem_cons.mp member with rfl | member
    · simp [inner, Clause.body]
    · exact List.mem_cons_of_mem _ (List.mem_cons_of_mem _ (List.mem_map_of_mem member))
  | loop span binding iterable body =>
    refine quiet_bind (iterable.evaluate_steady any) fun value => ?_
    split
    · exact quiet_bind quiet_get fun _ =>
        renderItems_steady (bodies _ List.mem_cons_self) binding _ _ _
    · exact quiet_pure _
  | repetition span condition body =>
    exact renderWhile_steady any.toTolerant (condition.evaluate_steady any)
      (bodies _ List.mem_cons_self) _
  | exception span condition body =>
    refine quiet_bind (condition.evaluate_steady any) fun value => ?_
    split
    · exact quiet_pure _
    · exact bodies _ List.mem_cons_self
  | block named =>
    rw [content]
    cases replaced : Dict.get? place.replacements named.name with
    | none =>
      rw [renderBlock_kept setting door place replaced]
      exact bodies _ List.mem_cons_self
    | some other =>
      rw [renderBlock_replaced setting door place replaced]
      exact replace place other
  | inclusion span path => exact quiet_bind (named_steady any path) fun _ => enter _ _
  | extension span parent blocks => exact quiet_bind (named_steady any parent) fun _ => enter _ _

theorem renderAll_tidy (enter : ∀ place nodes, Tidy (door.enter place nodes))
    (replace : ∀ place nodes, Tidy (door.replace place nodes)) (nodes : List Node) :
    Tidy (renderAll setting door place nodes) := by
  induction nodes using list_induction with
  | nil => exact quiet_pure _
  | cons node rest parts later =>
    rw [renderAll_cons]
    have bodies := content_tidy enter replace node fun body part =>
      parts body (inner_subset_parts part)
    exact quiet_bind (annotated_steady (fun _ _ => trivial) bodies) fun _ =>
      quiet_bind later fun _ => quiet_pure _

theorem renderWithin_tidy {enter : Place → List Node → Rendering σ String}
    (tidy : ∀ place nodes, Tidy (enter place nodes)) (replacements : Nat) (place : Place)
    (nodes : List Node) : Tidy (renderWithin setting enter replacements place nodes) := by
  induction replacements generalizing place nodes with
  | zero => exact ofResult_steady fun _ _ => trivial
  | succ replacements ih => exact renderAll_tidy tidy ih nodes

end Node
end Stencil
