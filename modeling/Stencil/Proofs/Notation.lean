import Stencil.Tree
import Stencil.Fault

/-! The canonical notation of interpolations: its syntax, how it is printed, and the expression it
stands for. Operators of greater precedence bind tighter, and chains of one precedence group to the
right. -/
namespace Stencil.Notation
open Text

/-- A name of the template language. -/
structure Name where
  text : List Char
  valid : isName text = true

def reserved : List (List Char) := [['t', 'r', 'u', 'e'], ['f', 'a', 'l', 's', 'e'], ['n', 'u', 'l', 'l']]

mutual
/-- What has no operator around it. -/
inductive Atom
  | integer (n : Nat) (short : (Nat.toDigits 10 n).length ≤ Fault.digitLimit)
  | bool (b : Bool)
  | null
  | text (content : List Char) (unclosed : ¬ ['}', '}'] <:+: content)
  | name (name : Name) (free : name.text ∉ reserved)
  | path (base : Name) (first : Step) (rest : List Step)
  | call (callee : Name) (args : List Phrase)
/-- A step of an accessor chain. -/
inductive Step
  | property (name : Name)
  | index (inner : Phrase)
/-- Operands, each an atom with signs before it, with operators between them. -/
inductive Phrase
  | last (signs : Nat) (atom : Atom)
  | more (signs : Nat) (atom : Atom) (op : Operator) (rest : Phrase)
end

/-- A filter with its arguments. -/
structure Filter where
  name : Name
  args : List Phrase

/-- An interpolation: an expression and the filters it runs through. -/
structure Interpolation where
  phrase : Phrase
  filters : List Filter

/-! ### Print -/

/-- A character of a text as it stands between double quotes. -/
def escapeChar (c : Char) : List Char := if c == '"' || c == '\\' then ['\\', c] else [c]

def escape (content : List Char) : List Char := content.flatMap escapeChar

def quote (content : List Char) : List Char := '"' :: (escape content ++ ['"'])

def boolWord (b : Bool) : List Char := if b then ['t', 'r', 'u', 'e'] else ['f', 'a', 'l', 's', 'e']

mutual
def Atom.print : Atom → List Char
  | .integer n _ => Nat.toDigits 10 n
  | .bool b => boolWord b
  | .null => ['n', 'u', 'l', 'l']
  | .text content _ => quote content
  | .name name _ => name.text
  | .path base first rest => base.text ++ (first.print ++ printSteps rest)
  | .call callee args => callee.text ++ '(' :: (printArgs args ++ [')'])
def Step.print : Step → List Char
  | .property name => '.' :: name.text
  | .index inner => '[' :: (inner.print ++ [']'])
def printSteps : List Step → List Char
  | [] => []
  | step :: rest => step.print ++ printSteps rest
/-- Arguments with commas between them. -/
def printArgs : List Phrase → List Char
  | [] => []
  | [arg] => arg.print
  | arg :: rest => arg.print ++ ',' :: ' ' :: printArgs rest
def Phrase.print : Phrase → List Char
  | .last signs atom => List.replicate signs '-' ++ atom.print
  | .more signs atom op rest =>
    List.replicate signs '-' ++ (atom.print ++ (' ' :: op.symbol.toList ++ ' ' :: rest.print))
end

def Filter.print (filter : Filter) : List Char :=
  [' ', '|', ' '] ++ (filter.name.text ++ filter.args.flatMap fun arg => ':' :: arg.print)

def Interpolation.print (i : Interpolation) : List Char :=
  i.phrase.print ++ i.filters.flatMap (·.print)

/-! ### Meaning -/

/-- An expression without the places it was read at. -/
inductive Term
  | literal (value : Literal)
  | name (name : String)
  | property (object : Term) (name : String)
  | element (array index : Term)
  | binary (op : Operator) (left right : Term)
  | call (name : String) (args : List Term)

namespace Term

/-- Signs before an operand take it from zero. -/
def negated : Nat → Term → Term
  | 0, term => term
  | signs + 1, term => .binary .sub (.literal (.number (.int 0))) (negated signs term)

/-- The sign directly before a number belongs to it. -/
def signed : Nat → Term → Term
  | signs + 1, .literal (.number n) => negated signs (.literal (.number n.neg))
  | signs, term => negated signs term

end Term

mutual
/-- How deeply operators, calls and indexes nest; properties add nothing. -/
def Term.depth : Term → Nat
  | .literal _ | .name _ => 1
  | .property object _ => object.depth
  | .element array index => max array.depth (index.depth + 1)
  | .binary _ left right => max left.depth right.depth + 1
  | .call _ args => depths args + 1
def depths : List Term → Nat
  | [] => 0
  | arg :: rest => max arg.depth (depths rest)
end

/-- Operands grouped by their operators. -/
inductive Group
  | operand (term : Term)
  | binary (op : Operator) (left right : Group)

namespace Group

/-- One more operand in front: it goes under the operators that bind less tightly than its own. -/
def attach (term : Term) (op : Operator) : Group → Group
  | .operand last => .binary op (.operand term) (.operand last)
  | .binary next left right =>
    if next.precedence < op.precedence then .binary next (attach term op left) right
    else .binary op (.operand term) (.binary next left right)

def term : Group → Term
  | .operand term => term
  | .binary op left right => .binary op left.term right.term

end Group

mutual
def Atom.term : Atom → Term
  | .integer n _ => .literal (.number (.int n))
  | .bool b => .literal (.bool b)
  | .null => .literal .null
  | .text content _ => .literal (.text (String.ofList content))
  | .name name _ => .name (String.ofList name.text)
  | .path base first rest =>
    stepsTerm (first.term (.name (String.ofList base.text))) rest
  | .call callee args => .call (String.ofList callee.text) (argTerms args)
def Step.term (object : Term) : Step → Term
  | .property name => .property object (String.ofList name.text)
  | .index inner => .element object inner.group.term
def stepsTerm (object : Term) : List Step → Term
  | [] => object
  | step :: rest => stepsTerm (step.term object) rest
def argTerms : List Phrase → List Term
  | [] => []
  | arg :: rest => arg.group.term :: argTerms rest
def Phrase.group : Phrase → Group
  | .last signs atom => .operand (atom.term.signed signs)
  | .more signs atom op rest => rest.group.attach (atom.term.signed signs) op
end

def Phrase.term (phrase : Phrase) : Term := phrase.group.term

/-- No expression of the interpolation nests more deeply. -/
def Interpolation.Within (room : Nat) (i : Interpolation) : Prop :=
  i.phrase.term.depth ≤ room ∧ ∀ filter ∈ i.filters, depths (argTerms filter.args) ≤ room

end Stencil.Notation
