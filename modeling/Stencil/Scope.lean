import Stencil.Fault
import Stencil.Text.Words
import Stencil.Value.Access

/-! Scopes: what names stand for. Frames of bindings lie on top of each other over the global
frame; below it are the literals that every scope has. -/
namespace Stencil

/-- Bindings that were pushed together. No two frames that a scope has had share a number. -/
structure Layer where
  number : Nat
  bindings : Dict Value

/-- Frames, the innermost first, over the global bindings. -/
structure Scope where
  layers : List Layer
  globals : Dict Value
  /-- The number of the frame that is pushed next. -/
  fresh : Nat

namespace Scope

/-- Names that stand for a value in every scope unless they are bound. -/
def literals : Dict Value :=
  [("true", .bool true), ("false", .bool false), ("null", .null), ("undefined", .undefined)]

def ofGlobals (globals : Dict Value) : Scope := ⟨[], globals, 0⟩

def empty : Scope := ofGlobals []

/-! ### Frames -/

/-- The frames, the innermost first and the global one last. -/
def frames (scope : Scope) : List (Dict Value) := scope.layers.map (·.bindings) ++ [scope.globals]

def depth (scope : Scope) : Nat := scope.layers.length + 1

def current (scope : Scope) : Dict Value :=
  match scope.layers with
  | [] => scope.globals
  | top :: _ => top.bindings

def push (scope : Scope) (bindings : Dict Value) : Scope :=
  { scope with layers := ⟨scope.fresh, bindings⟩ :: scope.layers, fresh := scope.fresh + 1 }

/-- The innermost frame and the scope without it. The global frame stays. -/
def pop (scope : Scope) : Except Fault (Dict Value × Scope) :=
  match scope.layers with
  | [] => .error .globalFrame
  | top :: outer => .ok (top.bindings, { scope with layers := outer })

/-- Only the global frame is left. -/
def clear (scope : Scope) : Scope := { scope with layers := [] }

/-- The frame of a number is the innermost one. -/
def isTop (scope : Scope) (number : Nat) : Bool := scope.layers.head?.any (·.number == number)

/-- A frame and those above it are taken away; if it is not there any more nothing is. -/
def unwind (scope : Scope) (number : Nat) : Scope :=
  match scope.layers.dropWhile (·.number != number) with
  | [] => scope
  | _ :: outer => { scope with layers := outer }

/-- The scope after a body that ran under the frame of a number, with the fault that the frames
were popped out of order. -/
def leave (scope : Scope) (number : Nat) : Scope × Option Fault :=
  (scope.unwind number, if scope.isTop number then none else some .framesOutOfOrder)

/-- A body under a frame of its own, which is gone afterwards however the body ends. The body
may change a state besides the scope. -/
def within {τ ε α : Type} (wrap : Fault → ε) (bindings : Dict Value)
    (body : Scope → τ → Except ε α × Scope × τ) (scope : Scope) (state : τ) :
    Except ε α × Scope × τ :=
  let (result, left, after) := body (scope.push bindings) state
  let (restored, fault) := left.leave scope.fresh
  match result, fault with
  | .ok _, some fault => (.error (wrap fault), restored, after)
  | result, _ => (result, restored, after)

/-! ### Names -/

/-- The value of a name in the innermost frame that binds it. -/
def find? (scope : Scope) (name : String) : Option Value :=
  scope.frames.findSome? fun frame => Dict.get? frame name

/-- A name that is bound nowhere stands for its literal, or else is undefined. -/
def get (scope : Scope) (name : String) : Value :=
  (scope.find? name).getD ((Dict.get? literals name).getD .undefined)

def has (scope : Scope) (name : String) : Bool :=
  Dict.has literals name || scope.frames.any fun frame => Dict.has frame name

def set (scope : Scope) (name : String) (value : Value) : Scope :=
  match scope.layers with
  | [] => { scope with globals := Dict.set scope.globals name value }
  | top :: outer =>
    { scope with layers := { top with bindings := Dict.set top.bindings name value } :: outer }

def setGlobal (scope : Scope) (name : String) (value : Value) : Scope :=
  { scope with globals := Dict.set scope.globals name value }

/-- All names with their values: literals first, then outer frames under inner ones. -/
def all (scope : Scope) : Dict Value := scope.frames.reverse.foldl Dict.update literals

/-- The value of a dotted path. -/
def path (scope : Scope) (memory : Memory) (dotted : String) : Value :=
  match Text.pieces ['.'] dotted.toList with
  | [] => .undefined
  | head :: rest =>
    let start := String.ofList head
    rest.foldl (fun value key => value.property (memory start) (String.ofList key)) (scope.get start)

/-- A scope of its own with the same frames, and one more if there are bindings. -/
def child (scope : Scope) (bindings : Dict Value) : Scope :=
  if bindings.isEmpty then scope else scope.push bindings

end Scope
end Stencil
