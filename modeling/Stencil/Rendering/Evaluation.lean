import Stencil.Rendering

/-! Values of expressions. Operands and arguments are evaluated from left to right; the right
operand of a logical operator only if it is needed. -/
namespace Stencil
open Rendering
variable {σ : Type}

/-- An operator on the value of its left operand and the evaluation of its right one. -/
def Operator.evaluate (setting : Setting σ) (op : Operator) (left : Value)
    (right : Rendering σ Value) : Rendering σ Value := do
  match op.shortCut? left with
  | some value => return value
  | none => ofResult (op.apply setting.options.strictArithmetic.truthy left (← right))

namespace Expression

/-- The name that a path starts from. -/
def root? : Expression → Option String
  | name _ word => some word
  | property _ object _ => object.root?
  | element _ array _ => array.root?
  | literal .. | binary .. | call .. => none
termination_by structural expression => expression

/-- Where the objects stand that a path leads to. -/
def standing (memory : Memory) (expression : Expression) : Owner → Nat :=
  match expression.root? with
  | some word => memory word
  | none => fun _ => 0

mutual
def evaluate (setting : Setting σ) : Expression → Rendering σ Value
  | literal _ value => return value.value
  | name _ word => return (← get).scope.get word
  | property _ object key => do
    return (← object.evaluate setting).property (object.standing setting.memory) key
  | element _ array index => do
    let value ← array.evaluate setting
    ofFault (value.index (← index.evaluate setting))
  | binary _ op left right => do
    op.evaluate setting (← left.evaluate setting) (right.evaluate setting)
  | call _ callee args => do
    Rendering.call (setting.library.call callee) (← evaluateAll setting args)
termination_by structural expression => expression
def evaluateAll (setting : Setting σ) : List Expression → Rendering σ (List Value)
  | [] => return []
  | expression :: rest => do
    let value ← expression.evaluate setting
    return value :: (← evaluateAll setting rest)
termination_by structural expressions => expressions
end

end Expression

/-- A value through a chain of filters. -/
def FilterUse.applyAll (setting : Setting σ) (value : Value) :
    List FilterUse → Rendering σ Value
  | [] => return value
  | filter :: rest => do
    let args ← Expression.evaluateAll setting filter.args
    applyAll setting (← Rendering.call (setting.library.applyFilter filter.name) (value :: args))
      rest

end Stencil
