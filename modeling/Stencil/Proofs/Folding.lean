import Stencil.Proofs.Grouping
import Stencil.Proofs.Lexemes
import Stencil.Proofs.Readings
import Stencil.Rendering.Evaluation

/-! A minus taken into the number behind it. The folded lexemes have the grouping of the others with
its operands folded, and what they are read to has the same value: an integer taken from zero is
the integer with its sign changed. -/
namespace Stencil

/-! ### Folded groupings -/

namespace Operand
open Lexeme

/-- The operand is a number without a sign. -/
def IsNumber (operand : Operand) : Prop :=
  ∃ span text n plain, operand = atom (literal span text (.number n)) plain

/-- The sign right before a number becomes part of it. -/
def fold : Operand → Operand
  | sign minus (atom (literal span text (.number n)) _) =>
    atom (literal ⟨minus.start, span.stop, minus.position⟩ ("-" ++ text) (.number n.neg)) rfl
  | sign span operand => sign span operand.fold
  | atom lexeme plain => atom lexeme plain

theorem fold_sign (span : Span) {operand : Operand} (other : ¬ operand.IsNumber) :
    (sign span operand).fold = sign span operand.fold := by
  refine fold.eq_2 span operand fun place text n plain same => other ?_
  exact ⟨place, text, n, plain, same⟩

theorem foldNegatives_lexemes (operand : Operand) (rest : List Lexeme) :
    foldNegatives false (operand.lexemes ++ rest) = operand.fold.lexemes ++ foldNegatives true rest := by
  induction operand with
  | atom lexeme plain =>
    cases lexeme with
    | operator span op => contradiction
    | _ => rfl
  | sign span operand ih =>
    by_cases number : operand.IsNumber
    · obtain ⟨place, text, n, plain, rfl⟩ := number
      rfl
    · have apart : ∀ place text n more, operand.lexemes ++ rest ≠
          .literal place text (.number n) :: more := by
        intro place text n more same
        cases operand with
        | atom lexeme plain =>
          cases same
          exact number ⟨place, text, n, plain, rfl⟩
        | sign span operand => cases same
      rw [fold_sign span number, lexemes, List.cons_append,
        Notation.foldNegatives_operator (.inr apart), ih]
      rfl

end Operand

namespace Grouping

def fold : Grouping → Grouping
  | operand only => operand only.fold
  | binary span op left right => binary span op left.fold right.fold

theorem operators_fold (grouping : Grouping) : grouping.fold.operators = grouping.operators := by
  induction grouping with
  | operand only => rfl
  | binary span op left right leftIH rightIH => rw [fold, operators, operators, leftIH, rightIH]

theorem Ordered.fold {grouping : Grouping} (ordered : grouping.Ordered) : grouping.fold.Ordered := by
  induction grouping with
  | operand only => trivial
  | binary span op left right leftIH rightIH =>
    obtain ⟨⟨leftOrdered, tighter⟩, rightOrdered, looser⟩ := ordered
    refine ⟨⟨leftIH leftOrdered, ?_⟩, rightIH rightOrdered, ?_⟩
    · rwa [left.operators_fold]
    · rwa [right.operators_fold]

theorem foldNegatives_append (grouping : Grouping) (rest : List Lexeme) :
    Lexeme.foldNegatives false (grouping.lexemes ++ rest) =
      grouping.fold.lexemes ++ Lexeme.foldNegatives true rest := by
  induction grouping generalizing rest with
  | operand only => exact only.foldNegatives_lexemes rest
  | binary span op left right leftIH rightIH =>
    rw [lexemes, List.append_assoc, leftIH, List.cons_append,
      Notation.foldNegatives_operator (.inl rfl), rightIH, fold, lexemes, List.append_assoc,
      List.cons_append]

theorem foldNegatives_lexemes (grouping : Grouping) :
    Lexeme.foldNegatives false grouping.lexemes = grouping.fold.lexemes := by
  have whole := grouping.foldNegatives_append []
  rwa [List.append_nil, Lexeme.foldNegatives, List.append_nil] at whole

end Grouping

/-! ### Values -/

namespace Expression

/-- The expressions have the same value or the same failure, and do the same on the way. -/
def SameValue (first second : Expression) : Prop :=
  ∀ (σ : Type) (setting : Setting σ), first.evaluate setting = second.evaluate setting

theorem SameValue.binary {left left' right right' : Expression} (span : Span) (op : Operator)
    (first : SameValue left left') (second : SameValue right right') :
    SameValue (.binary span op left right) (.binary span op left' right') := by
  intro σ setting
  rw [evaluate, evaluate, first, second]

/-- An integer taken from zero. -/
theorem sameValue_negative (span : Span) (zero place whole : Option Span) (n : Int) :
    SameValue (.binary span .sub (.literal zero (.number (.int 0))) (.literal place (.number (.int n))))
      (.literal whole (.number (Number.int n).neg)) := by
  intro σ setting
  have difference (strict : Bool) :
      Operator.sub.apply strict (.int 0) (.int n) = .ok (.int (-n)) := by
    rw [← Int.zero_sub]
    rfl
  simp only [evaluate, pure_bind, Operator.evaluate, Operator.shortCut?]
  change Rendering.ofResult (Operator.sub.apply _ (.int 0) (.int n)) = _
  rw [difference]
  rfl

/-! ### Readings -/

section Read
open TreeReading

theorem read_fold (limit room : Nat) {floor : Nat} {grouping : Grouping}
    (ordered : grouping.Ordered) (above : ∀ op ∈ grouping.operators, floor ≤ op.precedence)
    (whole : ∀ span text n, Lexeme.literal span text (.number n) ∈ grouping.lexemes →
      ∃ i : Int, n = .int i) :
    Mirrors True Eq SameValue (read limit room floor grouping.lexemes)
      (read limit room floor grouping.fold.lexemes) := by
  -- On the room. A number that lost its sign needs a level less, so the second reading may return
  -- where the first one fails.
  induction room generalizing floor grouping with
  | zero =>
    obtain ⟨first, rest, shape⟩ := List.exists_cons_of_ne_nil grouping.lexemes_ne_nil
    rw [shape]
    exact mirrors_of_fails trivial (tooDeep_fails limit first.span)
  | succ room ih =>
    cases grouping with
    | operand operand =>
      cases operand with
      | atom lexeme plain => exact mirrors_of_refl _ fun _ _ _ => rfl
      | sign span operand =>
        rw [Grouping.lexemes, Grouping.read_sign, Grouping.fold]
        by_cases number : operand.IsNumber
        · obtain ⟨place, text, n, plain, rfl⟩ := number
          obtain ⟨i, rfl⟩ := whole place text n (by simp [Grouping.lexemes, Operand.lexemes])
          cases room with
          | zero =>
            refine mirrors_of_fails trivial fun g => ?_
            obtain ⟨cause, h, failed⟩ := tooDeep_fails limit place g
            exact ⟨cause, h, fails_bind.mpr (.inl failed)⟩
          | succ room => exact mirrors_pure (sameValue_negative span _ _ _ i)
        · rw [Operand.fold_sign span number, Grouping.lexemes, Grouping.read_sign]
          have rest : Mirrors True Eq SameValue
              (read limit room floor (Grouping.operand operand).lexemes)
              (read limit room floor (Grouping.operand operand).fold.lexemes) :=
            ih trivial (by simp [Grouping.operators]) fun place text n member =>
              whole place text n (List.mem_cons_of_mem _ member)
          exact rest.bind fun e f same =>
            mirrors_pure (SameValue.binary span .sub (fun _ _ => rfl) same)
    | binary span op left right =>
      have bound : floor ≤ op.precedence := above op (by simp [Grouping.operators])
      rw [Grouping.read_binary limit room ordered bound, Grouping.fold,
        Grouping.read_binary limit room ordered.fold bound]
      obtain ⟨⟨leftOrdered, -⟩, rightOrdered, looser⟩ := ordered
      have lowest : ∀ op ∈ left.operators, 0 ≤ op.precedence := fun _ _ => Nat.zero_le _
      have first := ih leftOrdered lowest fun place text n member =>
        whole place text n (List.mem_append_left _ member)
      have second := ih rightOrdered looser fun place text n member =>
        whole place text n (List.mem_append_right _ (List.mem_cons_of_mem _ member))
      exact first.bind fun e f same =>
        second.bind fun e' f' same' => mirrors_pure (SameValue.binary span op same same')

end Read

/-- Where the lexemes are read the folded ones are read too, to an expression of the same value. -/
theorem foldNegatives_keeps_value {lexemes : List Lexeme} (alternates : Alternates lexemes)
    (whole : ∀ span text n, Lexeme.literal span text (.number n) ∈ lexemes →
      ∃ i : Int, n = .int i)
    {limit room : Nat} {g g' : Gathered} {e : Expression}
    (run : Returns (read limit room 0 lexemes) g e g') :
    ∃ f, Returns (read limit room 0 (Lexeme.foldNegatives false lexemes)) g f g' ∧
      ∀ (σ : Type) (setting : Setting σ), e.evaluate setting = f.evaluate setting := by
  obtain ⟨grouping, rfl, ordered⟩ := alternates.exists_grouping
  rw [grouping.foldNegatives_lexemes]
  have lowest : ∀ op ∈ grouping.operators, 0 ≤ op.precedence := fun _ _ => Nat.zero_le _
  have mirrors := read_fold limit room ordered lowest whole
  obtain ⟨f, h, folded, same, rfl⟩ := mirrors.returns rfl run
  exact ⟨f, folded, same⟩

/-- The lexemes of `- -1 * a`: the sign next to the number goes into it. -/
theorem foldNegatives_keeps_value_of_product :
    let span : Span := ⟨0, 0, ⟨1, 1⟩⟩
    let one (text : String) (n : Int) : Lexeme := .literal span text (.number (.int n))
    let rest : List Lexeme := [.operator span .mul, .name span "a"]
    (Alternates (.operator span .sub :: .operator span .sub :: one "1" 1 :: rest) ∧
      ∀ place text n, Lexeme.literal place text (.number n) ∈
        Lexeme.operator span .sub :: .operator span .sub :: one "1" 1 :: rest → ∃ i : Int, n = .int i) ∧
    ∃ e f g', Returns (read 4 4 0 (.operator span .sub :: .operator span .sub :: one "1" 1 :: rest))
        ⟨[], [], [], []⟩ e g' ∧
      Returns (read 4 4 0 (.operator span .sub :: one "-1" (-1) :: rest)) ⟨[], [], [], []⟩ f g' ∧
      ∀ (σ : Type) (setting : Setting σ), e.evaluate setting = f.evaluate setting := by
  intro span one rest
  have alternates : Alternates (.operator span .sub :: .operator span .sub :: one "1" 1 :: rest) :=
    .more (.sign span (.sign span (.atom (one "1" 1) rfl))) span .mul
      (.last (.atom (.name span "a") rfl))
  have whole : ∀ place text n, Lexeme.literal place text (.number n) ∈
      Lexeme.operator span .sub :: .operator span .sub :: one "1" 1 :: rest →
        ∃ i : Int, n = .int i := by
    simp only [one, rest, List.mem_cons, reduceCtorEq, Lexeme.literal.injEq,
      Literal.number.injEq, false_or, List.not_mem_nil, or_false, and_imp]
    exact fun place text n _ _ same => ⟨1, same⟩
  obtain ⟨e, g', run⟩ : ∃ e g', Returns (read 4 4 0
      (.operator span .sub :: .operator span .sub :: one "1" 1 :: rest)) ⟨[], [], [], []⟩ e g' :=
    ⟨_, _, rfl⟩
  obtain ⟨f, folded, same⟩ := foldNegatives_keeps_value alternates whole run
  exact ⟨⟨alternates, whole⟩, e, f, g', run, folded, same⟩

end Expression

end Stencil
