import Stencil.Tree.Reading

/-! How lexemes are read, case by case: one of them, a sign in front of others, several without an
operator between operands, and the two sides of an operator. -/
namespace Stencil.Expression
open TreeReading

variable {limit room floor : Nat} {first : Lexeme} {rest : List Lexeme}

/-! ### The sides of an operator -/

section Sides
variable (split : Split) (left : Expression) (before after : TreeReading Expression)

/-- An operand and what is read behind its operator, after a report if nothing stands there. -/
def joined : TreeReading Expression := do
  if split.right.isEmpty then missing "right" split
  return .binary split.span split.op left (← after)

/-- The sides of an operator; null stands for a left one that is missing. -/
def ofSplit : TreeReading Expression := do
  let left ← if split.left.isEmpty then do
      missing "left" split
      pure (.literal (some split.span) .null)
    else before
  joined split left after

end Sides

variable {motive : TreeReading Expression → Prop} {split : Split} {left : Expression}
  {before after : TreeReading Expression}

theorem joined_cases
    (missing : split.right = [] → motive (do
      missing "right" split
      return .binary split.span split.op left (← after)))
    (present : split.right ≠ [] → motive (do
      return .binary split.span split.op left (← after))) : motive (joined split left after) := by
  unfold joined
  cases shape : split.right with
  | nil => exact missing shape
  | cons => exact present (by simp [shape])

theorem ofSplit_cases
    (missing : split.left = [] → motive (do
      missing "left" split
      joined split (.literal (some split.span) .null) after))
    (present : split.left ≠ [] → motive (do joined split (← before) after)) :
    motive (ofSplit split before after) := by
  unfold ofSplit
  cases shape : split.left with
  | nil => exact missing shape
  | cons => exact present (by simp [shape])

/-! ### Lexemes without an operator -/

/-- One of the lexemes is kept; if there are others, one of them is reported first. -/
theorem ofRun_cases {inner : List Lexeme → TreeReading Expression}
    (alone : rest = [] → motive (ofLexeme inner first))
    (several : ∀ dropped ∈ first :: rest, ∀ kept ∈ first :: rest, motive (do
      reportUnexpected dropped
      ofLexeme inner kept)) : motive (ofRun inner first rest) := by
  cases rest with
  | nil => cases first <;> exact alone rfl
  | cons second rest =>
    have second_kept := several second (by simp) first (by simp)
    unfold ofRun
    split
    · exact second_kept
    · split
      · rename_i callee found
        have among := List.mem_cons_of_mem first (List.mem_of_find?_eq_some found)
        exact several first (by simp) callee among
      · exact second_kept

/-- Lexemes that are not split at an operator: a sign and what stands behind it, or a run. -/
def ofUnsplit (inner : List Lexeme → TreeReading Expression) (behind : TreeReading Expression)
    (rest : List Lexeme) : Lexeme → TreeReading Expression
  | .operator span .sub => do
    return .binary span .sub (.literal (some span) (.number (.int 0))) (← behind)
  | first => ofRun inner first rest

/-! ### Readings -/

theorem read_cons : read limit (room + 1) floor (first :: rest) =
    if rest.isEmpty then ofLexeme (read limit room 0) first
    else match splitAt? floor (first :: rest) with
      | none => ofUnsplit (read limit room 0) (read limit room floor rest) rest first
      | some split => ofSplit split (read limit room 0 split.left)
          (read limit room split.op.precedence split.right) := by
  conv => lhs; unfold read
  split
  · rfl
  · cases splitAt? floor (first :: rest) with
    | some split => rfl
    | none =>
      cases first with
      | operator span op => cases op <;> rfl
      | _ => rfl

theorem read_cases
    (lone : rest = [] → motive (ofLexeme (read limit room 0) first))
    (signed : ∀ span, rest ≠ [] → first = .operator span .sub → motive (do
      return .binary span .sub (.literal (some span) (.number (.int 0)))
        (← read limit room floor rest)))
    (run : rest ≠ [] → motive (ofRun (read limit room 0) first rest))
    (sided : ∀ split, rest ≠ [] → splitAt? floor (first :: rest) = some split →
      motive (ofSplit split (read limit room 0 split.left)
        (read limit room split.op.precedence split.right))) :
    motive (read limit (room + 1) floor (first :: rest)) := by
  rw [read_cons]
  split
  · rename_i single
    exact lone (List.isEmpty_iff.mp single)
  · rename_i several
    have several : rest ≠ [] := by simpa using several
    split
    · unfold ofUnsplit
      split
      · exact signed _ several rfl
      · exact run several
    · rename_i split found
      exact sided split several found

end Stencil.Expression
