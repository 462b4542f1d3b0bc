import Stencil.Proofs.Meaning
import Stencil.Proofs.Nesting
import Stencil.Proofs.Upkeep
import Stencil.Tree.Outline

/-! How high expressions are. The room for nesting bounds every entry of an outline except the steps
of accessor chains, which are read one after the other; so the height of an outline is measured in
two parts. What a reading of lexemes keeps true of the things gathered is proved on the way. -/
namespace Stencil

namespace Outline

mutual
/-- The most entries of counted types on one way down. -/
def reach (counted : String → Bool) : Outline → Nat
  | entry type _ children => (if counted type then 1 else 0) + childReach counted children
termination_by structural outline => outline
def childReach (counted : String → Bool) : List Outline → Nat
  | [] => 0
  | child :: rest => max (child.reach counted) (childReach counted rest)
termination_by structural children => children
end

theorem childReach_le {counted : String → Bool} {children : List Outline} {bound : Nat} :
    childReach counted children ≤ bound ↔ ∀ child ∈ children, child.reach counted ≤ bound := by
  induction children with
  | nil => simp [childReach]
  | cons child rest ih => rw [childReach, Nat.max_le, ih, List.forall_mem_cons]

mutual
/-- On the longest way down every entry is of a counted type or of another one. -/
theorem height_le (counted : String → Bool) (outline : Outline) :
    outline.height ≤ outline.reach counted + outline.reach (!counted ·) := by
  obtain ⟨type, label, children⟩ := outline
  have below := childHeight_le counted children
  cases kind : counted type <;> simp [height, reach, kind] <;> omega
termination_by structural outline
theorem childHeight_le (counted : String → Bool) (children : List Outline) :
    childHeight children ≤ childReach counted children + childReach (!counted ·) children := by
  cases children with
  | nil => exact Nat.zero_le _
  | cons child rest =>
    have here := height_le counted child
    have later := childHeight_le counted rest
    simp only [childHeight, childReach]
    omega
termination_by structural children
end

/-- The type of a step of an accessor chain. -/
def isAccess (type : String) : Bool := type == "PropertyAccess" || type == "ArrayAccess"

/-- The most entries on one way down, steps of accessor chains not counted. -/
def extent (outline : Outline) : Nat := outline.reach (!isAccess ·)

end Outline

namespace Expression

def extent (expression : Expression) : Nat := expression.outline.extent

theorem outlines_eq_map (expressions : List Expression) :
    outlines expressions = expressions.map (·.outline) := by
  induction expressions with
  | nil => rfl
  | cons expression rest ih => rw [outlines, ih, List.map_cons]

variable {span : Span} {bound : Nat}

@[simp] theorem extent_literal (place : Option Span) (value : Literal) :
    (literal place value).extent = 1 := rfl

@[simp] theorem extent_name (word : String) : (name span word).extent = 1 := rfl

@[simp] theorem extent_property (object : Expression) (key : String) :
    (property span object key).extent = object.extent := by
  simp [extent, outline, Outline.extent, Outline.reach, Outline.childReach, Outline.isAccess]

@[simp] theorem extent_element (array index : Expression) :
    (element span array index).extent = max array.extent index.extent := by
  simp [extent, outline, Outline.extent, Outline.reach, Outline.childReach, Outline.isAccess]

@[simp] theorem extent_binary (op : Operator) (left right : Expression) :
    (binary span op left right).extent = max left.extent right.extent + 1 := by
  simp [extent, outline, Outline.extent, Outline.reach, Outline.childReach, Outline.isAccess]
  omega

theorem extent_call_le {callee : String} {args : List Expression} :
    (call span callee args).extent ≤ bound + 1 ↔ ∀ arg ∈ args, arg.extent ≤ bound := by
  simp [extent, outline, Outline.extent, Outline.reach, Outline.isAccess, outlines_eq_map,
    Nat.add_comm 1, Outline.childReach_le]

theorem extent_pos : (expression : Expression) → 0 < expression.extent
  | .literal .. => by simp
  | .name .. => by simp
  | .property _ object _ => by simpa using extent_pos object
  | .element _ array _ => by simpa using .inl (extent_pos array)
  | .binary .. => by simp
  | .call .. => Nat.lt_of_lt_of_le Nat.one_pos (Nat.le_add_right 1 _)

end Expression

/-! ### Reports -/

namespace TreeReading

variable {fit : Gathered → Prop} {known : Lexeme → Prop}

/-- Notes of names and reports at known lexemes spare what is fit, and what stands inside a known
lexeme is known. -/
structure Spares (fit : Gathered → Prop) (known : Lexeme → Prop) : Prop where
  noted {g g' : Gathered} (same : g'.diagnostics = g.diagnostics) (before : fit g) : fit g'
  reported {lexeme : Lexeme} (here : known lexeme) : Reportable fit lexeme.span
  inner {lexeme : Lexeme} (here : known lexeme) :
    ∀ part ∈ lexeme.parts, ∀ other ∈ part, known other

theorem Spares.note (spares : Spares fit known) {f : Gathered → Gathered}
    (same : ∀ g, (f g).diagnostics = g.diagnostics) :
    Ensures (ε := Cause) fit (fun _ => True) (modify f) :=
  ensures_modify fun g before => spares.noted (same g) before

theorem tooDeep_keeps {α : Type} {good : α → Prop} {span : Span} (here : Reportable fit span)
    (limit : Nat) : Ensures fit good (tooDeep limit span) :=
  ensures_bind (report_keeps here _ _) fun _ _ => ensures_throw _

end TreeReading

/-! ### Reading of expressions -/

namespace Expression
open TreeReading

/-- The expression fits in the room; the one of no lexemes needs none. -/
def FitsIn (room : Nat) (lexemes : List Lexeme) (expression : Expression) : Prop :=
  expression.extent ≤ room ∨ lexemes = [] ∧ expression.extent ≤ 1

theorem FitsIn.le {room : Nat} {lexemes : List Lexeme} {expression : Expression}
    (fits : FitsIn room lexemes expression) : expression.extent ≤ max room 1 := by
  rcases fits with within | ⟨-, single⟩ <;> omega

/-- At least one of the operands of an operator between several lexemes is there. -/
theorem FitsIn.join {room : Nat} {lexemes : List Lexeme} {split : Split} {left right : Expression}
    (fits : FitsIn room split.left left) (fits' : FitsIn room split.right right)
    (whole : lexemes = split.left ++ .operator split.span split.op :: split.right)
    (several : lexemes.length ≠ 1) :
    (Expression.binary split.span split.op left right).extent ≤ room + 1 := by
  have positive := left.extent_pos
  have positive' := right.extent_pos
  rw [extent_binary]
  rcases fits with small | ⟨bare, single⟩ <;> rcases fits' with small' | ⟨bare', single'⟩
  · omega
  · omega
  · omega
  · exact absurd (by simp [whole, bare, bare']) several

section Parts

variable {fit : Gathered → Prop} {known : Lexeme → Prop} (spares : Spares fit known)
  {room : Nat} {inner : List Lexeme → TreeReading Expression}
  (each : ∀ lexemes, (∀ lexeme ∈ lexemes, known lexeme) →
    Ensures fit (FitsIn room lexemes) (inner lexemes))
include each

theorem ofSteps_fits (span : Span) {object : Expression} (small : object.extent ≤ room + 1)
    (steps : List PathStep) (inside : ∀ part, .index part ∈ steps → ∀ lexeme ∈ part, known lexeme) :
    Ensures fit (fun e => e.extent ≤ room + 1) (ofSteps inner span object steps) := by
  induction steps generalizing object with
  | nil => exact ensures_pure small
  | cons step rest ih =>
    have later : ∀ part, .index part ∈ rest → ∀ lexeme ∈ part, known lexeme :=
      fun part member => inside part (List.mem_cons_of_mem _ member)
    cases step with
    | property key => exact ih (by simpa using small) later
    | index lexemes =>
      refine ensures_bind (each lexemes (inside lexemes List.mem_cons_self)) fun index fits => ?_
      refine ih ?_ later
      have short := fits.le
      rw [extent_element]
      omega

theorem ofArguments_fits (args : List (List Lexeme))
    (inside : ∀ arg ∈ args, ∀ lexeme ∈ arg, known lexeme) :
    Ensures fit (fun expressions => ∀ e ∈ expressions, e.extent ≤ room)
      (ofArguments inner args) := by
  refine ensures_mapM_all _ _ fun arg member => ?_
  obtain ⟨member, full⟩ := List.mem_filter.mp member
  refine (each arg (inside arg member)).weaken fun e fits => ?_
  rcases fits with within | ⟨rfl, -⟩
  · exact within
  · contradiction

include spares

theorem ofLexeme_fits {lexeme : Lexeme} (here : known lexeme) :
    Ensures fit (fun e => e.extent ≤ room + 1) (ofLexeme inner lexeme) := by
  have inside := spares.inner here
  cases lexeme with
  | literal span text value => exact ensures_pure (by simp)
  | operator span op =>
    exact ensures_bind (report_keeps (spares.reported here) _ _) fun _ _ =>
      ensures_pure (by simp)
  | name span word =>
    exact ensures_bind (spares.note fun _ => rfl) fun _ _ => ensures_pure (by simp)
  | path span text base steps =>
    refine ensures_bind (spares.note fun _ => rfl) fun _ _ => ?_
    refine ofSteps_fits each span (by simp) steps fun part member => inside part ?_
    exact List.mem_filterMap.mpr ⟨_, member, rfl⟩
  | call span text callee args =>
    refine ensures_bind (spares.note fun _ => rfl) fun _ _ => ?_
    exact ensures_bind (ofArguments_fits each args inside) fun given small =>
      ensures_pure (extent_call_le.mpr small)

theorem ofRun_fits {first : Lexeme} {rest : List Lexeme} (here : known first)
    (later : ∀ lexeme ∈ rest, known lexeme) :
    Ensures fit (fun e => e.extent ≤ room + 1) (ofRun inner first rest) := by
  have all := List.forall_mem_cons.mpr ⟨here, later⟩
  exact ofRun_cases (fun _ => ofLexeme_fits spares each here) fun dropped among kept member =>
    ensures_bind (report_keeps (spares.reported (all dropped among)) _ _) fun _ _ =>
      ofLexeme_fits spares each (all kept member)

omit each in
/-- The operands of an operator between several lexemes, of which one may be missing. -/
theorem ofSplit_fits {lexemes : List Lexeme} {split : Split}
    (whole : lexemes = split.left ++ .operator split.span split.op :: split.right)
    (several : lexemes.length ≠ 1) (inside : ∀ lexeme ∈ lexemes, known lexeme)
    {left right : TreeReading Expression}
    (left_fits : (∀ lexeme ∈ split.left, known lexeme) → Ensures fit (FitsIn room split.left) left)
    (right_fits : (∀ lexeme ∈ split.right, known lexeme) →
      Ensures fit (FitsIn room split.right) right) :
    Ensures fit (fun e => e.extent ≤ room + 1) (ofSplit split left right) := by
  subst whole
  simp only [List.forall_mem_append, List.forall_mem_cons] at inside
  obtain ⟨known_left, known_op, known_right⟩ := inside
  have missing_fits (side : String) : Ensures fit (fun _ => True) (missing side split) :=
    report_keeps (spares.reported known_op) _ _
  have finished {left : Expression} (small : FitsIn room split.left left) :
      Ensures fit (fun e => e.extent ≤ room + 1) (joined split left right) := by
    have last : Ensures fit (fun e => e.extent ≤ room + 1) (do
        return .binary split.span split.op left (← right) : TreeReading Expression) :=
      ensures_bind (right_fits known_right) fun right small' => ensures_pure
        (small.join small' rfl several)
    exact joined_cases (fun _ => ensures_bind (missing_fits _) fun _ _ => last) fun _ => last
  exact ofSplit_cases
    (fun none => ensures_bind (missing_fits _) fun _ _ => finished (.inr ⟨none, by simp⟩))
    fun _ => ensures_bind (left_fits known_left) fun left small => finished small

end Parts

/-- Steps of accessor chains apart, an expression is not higher than the room it is read in. -/
theorem read_fits {fit : Gathered → Prop} {known : Lexeme → Prop} (spares : Spares fit known)
    (limit room floor : Nat) {lexemes : List Lexeme} (each : ∀ lexeme ∈ lexemes, known lexeme) :
    Ensures fit (FitsIn room lexemes) (read limit room floor lexemes) := by
  induction room generalizing floor lexemes with
  | zero =>
    cases lexemes with
    | nil => exact ensures_pure (.inr ⟨rfl, by simp⟩)
    | cons first rest =>
      exact tooDeep_keeps (spares.reported (each first List.mem_cons_self)) limit
  | succ room ih =>
    cases lexemes with
    | nil => exact ensures_pure (.inr ⟨rfl, by simp⟩)
    | cons first rest =>
      obtain ⟨here, later⟩ := List.forall_mem_cons.mp each
      have inner (lexemes : List Lexeme) (each : ∀ lexeme ∈ lexemes, known lexeme) :
          Ensures fit (FitsIn room lexemes) (read limit room 0 lexemes) := ih 0 each
      have single {reading : TreeReading Expression}
          (fits : Ensures fit (fun e => e.extent ≤ room + 1) reading) :
          Ensures fit (FitsIn (room + 1) (first :: rest)) reading :=
        fits.weaken fun _ small => .inl small
      apply read_cases
      case lone => exact fun _ => single (ofLexeme_fits spares inner here)
      case signed =>
        intro span several _
        refine ensures_bind (ih floor later) fun right fits => ensures_pure (.inl ?_)
        have positive := right.extent_pos
        rcases fits with within | ⟨none, -⟩
        · simp only [extent_binary, extent_literal]
          omega
        · exact absurd none several
      case run => exact fun _ => single (ofRun_fits spares inner here later)
      case sided =>
        exact fun split several found => single (ofSplit_fits spares (append_of_splitAt found)
          (by simpa using several) each (ih 0) (ih split.op.precedence))

end Expression
end Stencil
