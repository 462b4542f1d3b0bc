import Stencil.Operator
import Stencil.Proofs.Rounding
import Stencil.Value.Access

/-! The faults of values: text, keys and arithmetic fail only where a number is too large to be
written, read or rounded, or where an infinity is divided with a remainder. -/
namespace Stencil

/-- A fault of numbers that are out of range. -/
def Fault.OfNumbers : Fault → Prop
  | integerTooLarge | quotientTooLarge | domain | tooManyDigits _ => True
  | _ => False

/-- If the computation fails, then with an expected failure. -/
def Raises {ε α : Type} (expected : ε → Prop) (result : Except ε α) : Prop :=
  ∀ e, result = .error e → expected e

section Raises

variable {ε α β : Type} {expected : ε → Prop}

@[simp] theorem raises_ok (a : α) : Raises expected (.ok a) := by
  intro e failed
  contradiction

@[simp] theorem raises_error {e : ε} :
    Raises expected (.error e : Except ε α) ↔ expected e := by
  constructor
  · intro raises
    exact raises e rfl
  · rintro known f ⟨rfl⟩
    exact known

theorem raises_bind {result : Except ε α} {next : α → Except ε β}
    (first : Raises expected result) (later : ∀ a, result = .ok a → Raises expected (next a)) :
    Raises expected (result >>= next) := by
  cases result with
  | error e => simpa [bind, Except.bind] using first
  | ok a => exact later a rfl

theorem Raises.mono {more : ε → Prop} {result : Except ε α} (raises : Raises expected result)
    (weaker : ∀ e, expected e → more e) : Raises more result :=
  fun e failed => weaker e (raises e failed)

theorem raises_liftFault {expected : Failure → Prop} {result : Except Fault α}
    (raises : Raises (fun fault => expected (.fault fault)) result) :
    Raises expected (liftFault result) := by
  cases result with
  | error fault => simpa [liftFault] using raises
  | ok a => exact raises_ok a

end Raises

abbrev RaisesOfNumbers {α : Type} (result : Except Fault α) : Prop := Raises Fault.OfNumbers result

/-! ### Written forms -/

namespace Value

theorem intText_raises (n : Int) : RaisesOfNumbers (intText n) := by
  unfold intText
  split
  · exact raises_error.mpr trivial
  · exact raises_ok _

theorem renderedDouble_raises (x : Double) : RaisesOfNumbers (renderedDouble x) := by
  unfold renderedDouble
  split
  · exact raises_ok _
  · exact raises_ok _
  · split
    · exact intText_raises _
    · exact raises_ok _

mutual
theorem toJson_raises (layout : Layout) : (v : Value) → RaisesOfNumbers (v.toJson layout)
  | undefined | null | bool _ | float _ | text _ | safe _ | date _ | datetime _ | duration _
  | method _ => raises_ok _
  | int n => intText_raises n
  | list items => raises_bind (jsonItems_raises layout.inner items) fun _ _ => raises_ok _
  | dict entries => raises_bind (jsonEntries_raises layout.inner entries) fun _ _ => raises_ok _
theorem jsonItems_raises (layout : Layout) :
    (items : List Value) → RaisesOfNumbers (jsonItems layout items)
  | [] => raises_ok _
  | item :: rest =>
    raises_bind (toJson_raises layout item) fun _ _ =>
      raises_bind (jsonItems_raises layout rest) fun _ _ => raises_ok _
theorem jsonEntries_raises (layout : Layout) :
    (entries : List (String × Value)) → RaisesOfNumbers (jsonEntries layout entries)
  | [] => raises_ok _
  | (_, item) :: rest =>
    raises_bind (toJson_raises layout item) fun _ _ =>
      raises_bind (jsonEntries_raises layout rest) fun _ _ => raises_ok _
end

mutual
theorem toText_raises : (v : Value) → RaisesOfNumbers v.toText
  | undefined | null | bool _ | text _ | safe _ | date _ | datetime _ | duration _ | method _ =>
    raises_ok _
  | int n => intText_raises n
  | float x => renderedDouble_raises x
  | list items => raises_bind (itemTexts_raises items) fun _ _ => raises_ok _
  | dict entries => toJson_raises .line (dict entries)
theorem itemTexts_raises : (items : List Value) → RaisesOfNumbers (itemTexts items)
  | [] => raises_ok _
  | item :: rest =>
    raises_bind (toText_raises item) fun _ _ =>
      raises_bind (itemTexts_raises rest) fun _ _ => raises_ok _
end

mutual
theorem printed_raises : (v : Value) → RaisesOfNumbers v.printed
  | undefined | null | bool _ | float _ | text _ | safe _ | date _ | datetime _ | duration _
  | method _ => raises_ok _
  | int n => intText_raises n
  | list items => raises_bind (printedItems_raises items) fun _ _ => raises_ok _
  | dict entries => raises_bind (printedEntries_raises entries) fun _ _ => raises_ok _
theorem printedItems_raises : (items : List Value) → RaisesOfNumbers (printedItems items)
  | [] => raises_ok _
  | item :: rest =>
    raises_bind (printed_raises item) fun _ _ =>
      raises_bind (printedItems_raises rest) fun _ _ => raises_ok _
theorem printedEntries_raises :
    (entries : List (String × Value)) → RaisesOfNumbers (printedEntries entries)
  | [] => raises_ok _
  | (_, item) :: rest =>
    raises_bind (printed_raises item) fun _ _ =>
      raises_bind (printedEntries_raises rest) fun _ _ => raises_ok _
end

theorem keyText_raises (v : Value) : RaisesOfNumbers v.keyText := by
  unfold keyText
  split
  all_goals first | exact raises_ok _ | exact printed_raises _

theorem index_raises (value key : Value) : RaisesOfNumbers (value.index key) := by
  unfold index
  split
  · exact raises_ok _
  · exact raises_ok _
  · exact raises_ok _
  · split
    · exact raises_ok _
    · exact raises_ok _
    · exact raises_bind (keyText_raises key) fun _ _ => raises_ok _
  · exact raises_ok _

end Value

/-! ### Arithmetic -/

namespace Double

/-- An integer is rounded to a finite double or to an infinity, and only zero to zero. -/
theorem ofInt_cases (n : Int) :
    (∃ negative units, ofInt n = finite negative units ∧ (n ≠ 0 → 0 < units)) ∨
      ∃ negative, ofInt n = infinity negative := by
  rw [ofInt_eq]
  split
  · refine .inl ⟨_, _, rfl, fun some => ?_⟩
    exact Nat.mul_pos (rounded_pos (Int.natAbs_pos.mpr some)) one_pos
  · exact .inr ⟨_, rfl⟩

end Double

namespace Number

theorem inRange_raises (fault : Fault) (known : fault.OfNumbers) (x : Double) :
    RaisesOfNumbers (inRange fault x) := by
  cases x with
  | infinity negative => exact raises_error.mpr known
  | nan source => exact raises_ok _
  | finite negative units => exact raises_ok _

theorem toDouble_raises (a : Number) : RaisesOfNumbers a.toDouble := by
  cases a with
  | int n =>
    rw [toDouble]
    exact inRange_raises .integerTooLarge trivial _
  | real x => exact raises_ok x

theorem combine_raises (whole : Int → Int → Int) (broken : Double → Double → Double)
    (a b : Number) : RaisesOfNumbers (combine whole broken a b) := by
  unfold combine
  split
  · exact raises_ok _
  · exact raises_bind (toDouble_raises a) fun _ _ =>
      raises_bind (toDouble_raises b) fun _ _ => raises_ok _

theorem div_raises (a b : Number) : RaisesOfNumbers (a.div b) := by
  unfold div
  split
  · exact raises_bind (inRange_raises .quotientTooLarge trivial _) fun _ _ => raises_ok _
  · exact raises_bind (toDouble_raises a) fun _ _ =>
      raises_bind (toDouble_raises b) fun _ _ => raises_ok _

theorem exists_finite_of_toDouble {n : Int} {x : Double} (inRange : (int n).toDouble = .ok x) :
    ∃ negative units, x = .finite negative units ∧ (n ≠ 0 → 0 < units) := by
  rw [toDouble] at inRange
  rcases Double.ofInt_cases n with ⟨negative, units, rounded, positive⟩ | ⟨negative, rounded⟩
  · rw [rounded] at inRange
    exact ⟨negative, units, (Except.ok.inj inRange).symm, positive⟩
  · rw [rounded] at inRange
    contradiction

/-- A remainder is out of range only if an operand is: that of two integers is an integer, as the
divisor is not rounded to zero. -/
theorem mod_raises {a b : Number} (some : b.isZero = false) : RaisesOfNumbers (a.mod b) := by
  refine raises_bind (toDouble_raises a) fun x left => ?_
  refine raises_bind (toDouble_raises b) fun y right => ?_
  cases remainder : x.remainder? y with
  | none => exact raises_error.mpr trivial
  | some r =>
    cases a with
    | real x => exact raises_ok _
    | int m =>
      cases b with
      | real y => exact raises_ok _
      | int n =>
        obtain ⟨negative, units, rfl, -⟩ := exists_finite_of_toDouble left
        obtain ⟨other, divisor, rfl, positive⟩ := exists_finite_of_toDouble right
        have whole : (divisor == 0) = false := by
          have := positive (by simpa [isZero] using some)
          simpa using Nat.ne_of_gt this
        rw [Double.remainder?, whole] at remainder
        injection remainder with same
        rw [← same]
        exact raises_ok _

end Number

/-! ### Operators -/

/-- Failures are expected among which are all errors of templates and all faults of numbers. -/
structure Tolerant (expected : Failure → Prop) : Prop where
  cause (cause : Cause) : expected (.ofCause cause)
  numbers (fault : Fault) (known : fault.OfNumbers) : expected (.fault fault)

theorem Tolerant.lift {expected : Failure → Prop} (tolerant : Tolerant expected) {α : Type}
    {result : Except Fault α} (raises : RaisesOfNumbers result) :
    Raises expected (liftFault result) :=
  raises_liftFault (raises.mono tolerant.numbers)

namespace Operator

theorem ofSymbol?_symbol (op : Operator) : ofSymbol? op.symbol = some op := by
  cases op <;> decide

/-- Comparison knows the operators that compare. -/
theorem compareBy_raises {op : Operator} (compares : op.family = .comparison)
    (left right : Value) : RaisesOfNumbers (compareBy op.symbol left right) := by
  rw [compareBy, ofSymbol?_symbol]
  cases op with
  | eq | ne => exact raises_ok _
  | lt | gt | le | ge =>
    cases comparable? left right with
    | none => exact raises_ok _
    | some pair => exact raises_ok _
  | or | and | add | sub | mul | div | mod => contradiction

theorem chooseBy_raises {op : Operator} (chooses : op.family = .logical) (left right : Value) :
    RaisesOfNumbers (chooseBy op.symbol left right) := by
  rw [chooseBy, ofSymbol?_symbol]
  cases op with
  | or | and => exact raises_ok _
  | eq | ne | lt | gt | le | ge | add | sub | mul | div | mod => contradiction

theorem joined_raises (left right : Value) : RaisesOfNumbers (joined left right) :=
  raises_bind (Value.toText_raises left) fun _ _ =>
    raises_bind (Value.toText_raises right) fun _ _ => raises_ok _

variable {expected : Failure → Prop} (tolerant : Tolerant expected)
include tolerant

theorem sum_raises (strict : Bool) (left right : Value) :
    Raises expected (sum strict left right) := by
  have missing : Raises expected (sum.missing strict left right) := by
    have shown (v : Value) : Raises expected (liftFault do return Value.quotedText (← v.toText)) :=
      tolerant.lift (raises_bind (Value.toText_raises v) fun _ _ => raises_ok _)
    unfold sum.missing
    split
    · exact raises_bind (shown left) fun _ _ => raises_bind (shown right) fun _ _ =>
        raises_error.mpr (tolerant.cause _)
    · exact tolerant.lift (joined_raises left right)
  unfold sum
  split
  · exact tolerant.lift (joined_raises left right)
  · split
    · split
      · exact missing
      · exact tolerant.lift (raises_bind (Number.combine_raises _ _ _ _) fun _ _ => raises_ok _)
    · exact missing

theorem divide_raises (strict : Bool) (symbol : String)
    {compute : Number → Number → Except Fault Number} (a b : Number)
    (computes : b.isZero = false → RaisesOfNumbers (compute a b)) :
    Raises expected (divide strict symbol compute a b) := by
  unfold divide
  split
  · split
    · exact raises_error.mpr (tolerant.cause _)
    · exact raises_ok _
  · rename_i some
    have computes := computes (by simpa using some)
    exact tolerant.lift (raises_bind computes fun _ _ => raises_ok _)

theorem computeBy_raises (strict : Bool) {op : Operator} (computes : op.family = .arithmetic)
    (left right : Value) : Raises expected (computeBy strict op.symbol left right) := by
  have number {result : Except Fault Number} (raises : RaisesOfNumbers result) :
      Raises expected (liftFault do return Value.ofNumber (← result)) :=
    tolerant.lift (raises_bind raises fun _ _ => raises_ok _)
  have refused (symbol : String) : Raises expected
      (if strict then .error (.ofTrouble (.nonNumeric symbol))
        else .ok (Value.float (.nan .arithmetic))) := by
    split
    · exact raises_error.mpr (tolerant.cause _)
    · exact raises_ok _
  rw [computeBy, ofSymbol?_symbol]
  cases op with
  | or | and | eq | ne | lt | gt | le | ge => contradiction
  | add => exact sum_raises tolerant strict left right
  | sub | mul | div | mod =>
    cases left.toNumber with
    | none => exact refused _
    | some a =>
      cases right.toNumber with
      | none => exact refused _
      | some b =>
        first
        | exact number (Number.combine_raises _ _ a b)
        | exact divide_raises tolerant strict _ a b fun _ => Number.div_raises a b
        | exact divide_raises tolerant strict _ a b Number.mod_raises

/-- An operator on two values fails only for numbers out of range, or with an error where
arithmetic is strict. -/
theorem apply_raises (strict : Bool) (op : Operator) (left right : Value) :
    Raises expected (op.apply strict left right) := by
  unfold apply
  cases family : op.family with
  | logical => exact tolerant.lift (chooseBy_raises family left right)
  | comparison =>
    exact tolerant.lift (raises_bind (compareBy_raises family left right) fun _ _ => raises_ok _)
  | arithmetic => exact computeBy_raises tolerant strict family left right
  | any => cases op <;> contradiction

end Operator
end Stencil
