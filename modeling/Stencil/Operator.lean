import Stencil.Failure
import Stencil.Value.Equality
import Stencil.Value.Written

/-! Binary operators on values. The logical ones give one of their operands and look at the
right one only when they need it. -/
namespace Stencil

inductive Operator
  | or
  | and
  | eq
  | ne
  | lt
  | gt
  | le
  | ge
  | add
  | sub
  | mul
  | div
  | mod
deriving DecidableEq, Repr

namespace Operator

def all : List Operator := [or, and, eq, ne, lt, gt, le, ge, add, sub, mul, div, mod]

def symbol : Operator → String
  | or => "||"
  | and => "&&"
  | eq => "=="
  | ne => "!="
  | lt => "<"
  | gt => ">"
  | le => "<="
  | ge => ">="
  | add => "+"
  | sub => "-"
  | mul => "*"
  | div => "/"
  | mod => "%"

def ofSymbol? (symbol : String) : Option Operator := all.find? (·.symbol == symbol)

/-- Operators of greater precedence bind tighter. -/
def precedence : Operator → Nat
  | or => 1
  | and => 2
  | eq | ne => 3
  | lt | gt | le | ge => 4
  | add | sub => 5
  | mul | div | mod => 6

def family : Operator → OperatorFamily
  | or | and => .logical
  | eq | ne | lt | gt | le | ge => .comparison
  | add | sub | mul | div | mod => .arithmetic

/-! ### Comparison -/

/-- Missing values are equal to each other only; two texts by their characters; if one side is
a number or a truth value, by number where the other side stands for one. -/
def looseEqual (left right : Value) : Bool :=
  if left.isMissing || right.isMissing then left.isMissing && right.isMissing
  else match left.asText?, right.asText? with
    | some a, some b => a == b
    | _, _ =>
      if left.numeric?.isSome || right.numeric?.isSome then
        match left.toNumber, right.toNumber with
        | some a, some b => a.eq b
        | _, _ => left.same right
      else left.same right

/-- Two values that are in order: both texts, or both standing for numbers and not missing. -/
inductive Comparable
  | texts (left right : List Char)
  | numbers (left right : Number)

def comparable? (left right : Value) : Option Comparable :=
  match left.asText?, right.asText? with
  | some a, some b => some (.texts a.toList b.toList)
  | _, _ =>
    if left.isMissing || right.isMissing then none
    else match left.toNumber, right.toNumber with
      | some a, some b => some (.numbers a b)
      | _, _ => none

def Comparable.lt : Comparable → Bool
  | texts a b => a < b
  | numbers a b => a.lt b

def Comparable.gt : Comparable → Bool
  | texts a b => b < a
  | numbers a b => b.lt a

def Comparable.le : Comparable → Bool
  | texts a b => !decide (b < a)
  | numbers a b => a.le b

def Comparable.ge : Comparable → Bool
  | texts a b => !decide (a < b)
  | numbers a b => b.le a

/-- The verdict of an operator on values that are in order. -/
def ordered? (op : Operator) (pair : Comparable) : Option Bool :=
  match op with
  | lt => some pair.lt
  | gt => some pair.gt
  | le => some pair.le
  | ge => some pair.ge
  | _ => none

/-- Comparison by symbol. Values that are not in order compare false under every symbol but
those of equality, known or not. -/
def compareBy (symbol : String) (left right : Value) : Except Fault Bool :=
  match ofSymbol? symbol with
  | some eq => .ok (looseEqual left right)
  | some ne => .ok !(looseEqual left right)
  | op =>
    match comparable? left right with
    | none => .ok false
    | some pair =>
      match op.bind (ordered? · pair) with
      | some verdict => .ok verdict
      | none => .error (.unknownOperator .comparison symbol)

/-! ### Logic -/

/-- The operand that a logical operator gives without looking at the right one. -/
def shortCut? (op : Operator) (left : Value) : Option Value :=
  match op with
  | and => if left.truthy then none else some left
  | or => if left.truthy then some left else none
  | _ => none

/-- Logic by symbol, the right operand already at hand. -/
def chooseBy (symbol : String) (left right : Value) : Except Fault Value :=
  match ofSymbol? symbol with
  | some and => .ok ((shortCut? and left).getD right)
  | some or => .ok ((shortCut? or left).getD right)
  | _ => .error (.unknownOperator .logical symbol)

/-! ### Arithmetic -/

def joined (left right : Value) : Except Fault Value := do
  return .text ((← left.toText) ++ (← right.toText))

def isList : Value → Bool
  | .list _ => true
  | _ => false

/-- The sum of two numbers; what is not a number is joined as text. Where arithmetic is strict
only texts and lists are joined. -/
def sum (strict : Bool) (left right : Value) : Except Failure Value :=
  if left.asText?.isSome || right.asText?.isSome then liftFault (joined left right)
  else match left.toNumber, right.toNumber with
    | some a, some b =>
      if left.isMissing || right.isMissing then missing else liftFault do
        return .ofNumber (← a.add b)
    | _, _ => missing
where
  missing : Except Failure Value :=
    if strict && !(isList left || isList right) then do
      let shown (v : Value) : Except Failure String := liftFault do
        return Value.quotedText (← v.toText)
      throw (.ofTrouble (.cannotAdd (← shown left) (← shown right)))
    else liftFault (joined left right)

/-- A quotient or remainder; by zero it is zero, or an error where arithmetic is strict. -/
def divide (strict : Bool) (symbol : String) (compute : Number → Number → Except Fault Number)
    (a b : Number) : Except Failure Value :=
  if b.isZero then
    if strict then .error (.ofTrouble (.divisionByZero symbol)) else .ok (.int 0)
  else liftFault do return .ofNumber (← compute a b)

/-- Arithmetic by symbol. An operand that stands for no number gives what is no number, or an
error where arithmetic is strict. -/
def computeBy (strict : Bool) (symbol : String) (left right : Value) : Except Failure Value :=
  match ofSymbol? symbol with
  | some add => sum strict left right
  | op =>
    match left.toNumber, right.toNumber with
    | some a, some b =>
      match op with
      | some sub => liftFault do return .ofNumber (← a.sub b)
      | some mul => liftFault do return .ofNumber (← a.mul b)
      | some div => divide strict symbol Number.div a b
      | some mod => divide strict symbol Number.mod a b
      | _ => .error (.fault (.unknownOperator .arithmetic symbol))
    | _, _ =>
      if strict then .error (.ofTrouble (.nonNumeric symbol)) else .ok (.float (.nan .arithmetic))

/-- An operator on two values. -/
def apply (strict : Bool) (op : Operator) (left right : Value) : Except Failure Value :=
  match op.family with
  | .logical => liftFault (chooseBy op.symbol left right)
  | .comparison => liftFault do return .bool (← compareBy op.symbol left right)
  | _ => computeBy strict op.symbol left right

end Operator
end Stencil
