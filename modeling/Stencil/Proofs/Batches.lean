import Mathlib
import Stencil.Proofs.Calm
import Stencil.Proofs.Engines

/-! Batches. An item that fails with an error of a template does not stop those after it, and every
item has one result. What stops a batch is a fault of the item's own: a number out of range, an
infinity divided with a remainder, a stack that is exhausted, or a loop without an end. -/
namespace Stencil

variable {σ : Type}

/-- What keeps a batch from its results: a number out of range, an exhausted stack, or that a loop
never ends. -/
def Fault.Escapes (fault : Fault) : Prop :=
  fault.OfNumbers ∨ fault = .stackExhausted ∨ fault = .endless

/-- An error of a template, or a fault that can escape. -/
def Failure.Bearable : Failure → Prop
  | template _ => True
  | fault f => f.Escapes

theorem Failure.OfRoutine.bearable {failure : Failure} (known : failure.OfRoutine) :
    failure.Bearable := by
  cases failure with
  | template error => trivial
  | fault f => exact .inr (.inr known)

theorem tolerates_bearable (setting : Setting σ) : Tolerates setting Failure.Bearable where
  cause _ := trivial
  numbers _ known := .inl known
  call name args state := (setting.library.call_raises name args state).mono fun _ => Failure.OfRoutine.bearable
  applyFilter name args state :=
    (setting.library.applyFilter_raises name args state).mono fun _ => Failure.OfRoutine.bearable

theorem Template.render_bearable {setting : Setting σ} {template : Template}
    {context : Dict Value} {world after : World σ} {failure : Failure}
    (failed : Fails (template.render setting context) world failure after) : failure.Bearable := by
  cases failure with
  | template error => trivial
  | fault f =>
    rw [template.render_eq] at failed
    obtain ⟨reached, node, rest, -, -, originates⟩ :=
      Template.fault_of_node (tolerates_bearable setting) failed
    rcases originates.raised with known | ⟨-, exhausted⟩
    · exact known
    · cases exhausted
      exact .inr (.inl rfl)

/-! ### Compiling -/

theorem Token.read_digits {separate : Bool} {text : List Char} {fault : Fault}
    (failed : Token.read separate text = .error fault) : fault.OfDigits := by
  obtain ⟨problems, failed⟩ := Lexing.run_error failed
  exact ((readFrom_mild _ separate 0 text _ []).2 fault problems failed).2

theorem Analysis.ofText_bearable {options : Options} {source : String} :
    Raises Failure.Bearable (Analysis.ofText options source) := by
  refine raises_bind (raises_liftFault fun fault failed => ?_) fun ⟨tokens, lexed⟩ _ => ?_
  · obtain ⟨count, rfl⟩ := Token.read_digits failed
    exact .inl trivial
  · dsimp only
    split
    · exact raises_error.mpr trivial
    · exact raises_ok _

namespace Engine

theorem build_bearable (engine : Engine σ) (source : String) (name : Option String) :
    Raises Failure.Bearable (build engine source name) := by
  refine raises_bind Analysis.ofText_bearable fun analysis _ => ?_
  dsimp only
  split
  · exact raises_error.mpr trivial
  · exact raises_ok _

/-- Work that fails only with an error of a template or with a fault that can escape. -/
abbrev Bearable {α : Type} (work : Work σ α) : Prop := Quiet (fun _ => ()) Failure.Bearable work

variable {source : String} {session after : Engine σ × σ}

theorem engine_bearable : Bearable (Work.engine : Work σ (Engine σ)) :=
  quiet_bind quiet_get fun _ => quiet_pure _

theorem change_bearable (f : Engine σ → Engine σ) : Bearable (Work.change f) :=
  quiet_modify fun _ => rfl

theorem ofResult_bearable {α : Type} {result : Except Failure α}
    (raises : Raises Failure.Bearable result) : Bearable (Work.ofResult result : Work σ α) :=
  quiet_lift result raises

theorem stored_bearable (name : String) : Bearable (stored name : Work σ (Option Template)) :=
  quiet_bind engine_bearable fun _ => quiet_bind (change_bearable _) fun _ => quiet_pure _

theorem reusable_bearable (name : Option String) (source : String) :
    Bearable (reusable name source : Work σ (Option Template)) := by
  cases name with
  | none => exact quiet_pure _
  | some name =>
    refine quiet_bind engine_bearable fun engine => ?_
    split
    · exact quiet_bind (stored_bearable name) fun _ => quiet_pure _
    · exact quiet_pure _

theorem compile_bearable (source : String) (name : Option String) :
    Bearable (compile source name : Work σ Template) := by
  refine quiet_bind (reusable_bearable name source) fun found => ?_
  cases found with
  | some template => exact quiet_pure _
  | none =>
    refine quiet_bind engine_bearable fun engine => ?_
    refine quiet_bind (ofResult_bearable (build_bearable engine source name)) fun template => ?_
    exact quiet_bind (change_bearable _) fun _ => quiet_pure _

theorem call_bearable (template : Template) (context : Dict Value) :
    Bearable (call template context : Work σ String) := by
  intro session
  refine ⟨fun _ _ _ => rfl, fun e after failed => ⟨rfl, ?_⟩⟩
  obtain ⟨world, failed⟩ := call_fails failed
  exact Template.render_bearable failed

theorem render_bearable (source : String) (context : Dict Value) (name : Option String) :
    Bearable (render source context name : Work σ String) :=
  quiet_bind (compile_bearable source name) fun template =>
    quiet_bind (call_bearable template context) fun _ =>
      quiet_bind (change_bearable _) fun _ => quiet_pure _

/-! ### Items -/

theorem renderItem_bearable {item : BatchItem} (filled : item.source.isSome) :
    Bearable (renderItem item : Work σ String) := by
  obtain ⟨source, same⟩ := Option.isSome_iff_exists.mp filled
  rw [renderItem, same]
  exact render_bearable source item.context item.name

/-- What is attempted is stopped by a fault only. -/
theorem attempt_cases (work : Work σ String) (session : Engine σ × σ) :
    (∃ outcome after, Returns (attempt work) session outcome after) ∨
      ∃ fault after, Fails work session (.fault fault) after ∧
        Fails (attempt work) session (.fault fault) after := by
  rcases run : work.run session with ⟨result, after⟩
  cases result with
  | ok output =>
    refine .inl ⟨.ok output, after, ?_⟩
    change attempt work session = _
    rw [attempt, run]
  | error e =>
    cases e with
    | template error =>
      refine .inl ⟨.error error.describe, after, ?_⟩
      change attempt work session = _
      rw [attempt, run]
    | fault f =>
      refine .inr ⟨f, after, run, ?_⟩
      change attempt work session = _
      rw [attempt, run]

/-- Items are rendered on a stack that may be exhausted at any point of them. A routine in which this
happens fails with an error, everything else with a fault. -/
def RunsOnStack (run : BatchItem → Work σ String) : Prop :=
  ∀ item session, run item session = renderItem item session ∨
    (∃ error after, Fails (run item) session (.template error) after) ∨
    ∃ after, Fails (run item) session (.fault .stackExhausted) after

theorem renderItem_runsOnStack : RunsOnStack (renderItem : BatchItem → Work σ String) :=
  fun _ _ => .inl rfl

/-- A fault of an item that is run is that of its rendering, or the stack is exhausted. -/
theorem RunsOnStack.escapes {run : BatchItem → Work σ String} (runs : RunsOnStack run)
    {item : BatchItem} (filled : item.source.isSome) {fault : Fault}
    (failed : Fails (run item) session (.fault fault) after) :
    fault.Escapes ∧ (fault ≠ .stackExhausted → Fails (renderItem item) session (.fault fault) after) := by
  rcases runs item session with same | ⟨error, other, ended⟩ | ⟨other, ended⟩
  · have own : Fails (renderItem item) session (.fault fault) after := same.symm.trans failed
    exact ⟨((renderItem_bearable filled session).2 _ after own).2, fun _ => own⟩
  · cases ended.symm.trans failed
  · cases ended.symm.trans failed
    exact ⟨.inr (.inl rfl), fun other => absurd rfl other⟩

/-- An item that calls a function which is missing. -/
def missingCall : BatchItem := ⟨some "\x7b\x7bf()\x7d\x7d", [], none⟩

def plainText : BatchItem := ⟨some "b", [], some "second"⟩

theorem missingCall_fails :
    (renderItem missingCall fresh).1 = .error (.template
      ⟨.unknownFunction "f", none, some ⟨"\x7b\x7b f() \x7d\x7d", some ⟨1, 1⟩⟩⟩) := by
  decide +kernel

theorem plainText_renders_afterwards :
    (renderBatch [plainText] (renderItem missingCall fresh).2).1.isOk = true := by
  decide +kernel

theorem returns_attempt_of_error {work : Work σ String} {error : TemplateError}
    (failed : Fails work session (.template error) after) :
    Returns (attempt work) session (.error error.describe) after := by
  change attempt work session = _
  rw [attempt, show work.run session = _ from failed]

theorem fails_attempt_of_fault {work : Work σ String} {fault : Fault}
    (failed : Fails work session (.fault fault) after) :
    Fails (attempt work) session (.fault fault) after := by
  change attempt work session = _
  rw [attempt, show work.run session = _ from failed]

/-- An item that divides an infinity with a remainder. -/
def infiniteRemainder : BatchItem := ⟨some "\x7b\x7b \"inf\" % 2 \x7d\x7d", [], none⟩

def remainderTemplate : Template :=
  ⟨0, none, "\x7b\x7b \"inf\" % 2 \x7d\x7d",
    [.output ⟨0, 15, ⟨1, 1⟩⟩ "\"inf\" % 2" (some (.binary ⟨9, 10, ⟨1, 10⟩⟩ .mod
      (.literal (some ⟨3, 8, ⟨1, 4⟩⟩) (.text "inf"))
      (.literal (some ⟨11, 12, ⟨1, 12⟩⟩) (.number (.int 2))))) []], []⟩

theorem build_remainder :
    build fresh.1 "\x7b\x7b \"inf\" % 2 \x7d\x7d" none = .ok remainderTemplate := by
  cbv

end Engine
end Stencil
