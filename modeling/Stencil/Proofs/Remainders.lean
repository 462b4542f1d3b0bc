import Stencil.Operator
import Stencil.Proofs.Rounding

/-! Remainders of integers. They are taken of the doubles that the integers become, exactly: so the
remainder is that of the integers themselves where they are doubles, that of the nearest doubles
otherwise, and there is none where an integer is out of range. -/
namespace Stencil

/-- What is left of an integer when multiples of another are taken away, with its sign. -/
structure IsRemainder (a b r : Int) : Prop where
  small : r.natAbs < b.natAbs
  divides : b ∣ a - r
  sign : r = 0 ∨ r.sign = a.sign

theorem isRemainder_tmod (a : Int) {b : Int} (nonzero : b ≠ 0) : IsRemainder a b (a.tmod b) where
  small := by
    rw [Int.natAbs_tmod]
    exact Nat.mod_lt _ (Int.natAbs_pos.mpr nonzero)
  divides := ⟨a.tdiv b, by rw [Int.tmod_def]; omega⟩
  sign := by
    rcases Classical.em (b ∣ a) with divides | rest
    · exact .inl (Int.tmod_eq_zero_of_dvd divides)
    · rw [Int.sign_tmod, if_neg rest]
      exact .inr rfl

namespace Number
open Double

variable {a b n : Int}

theorem toDouble_of_isTooLarge (tooLarge : IsTooLarge n) :
    toDouble (int n) = .error .integerTooLarge := by
  rw [toDouble, ofInt_of_isTooLarge tooLarge]
  rfl

theorem toDouble_of_inRange (inRange : ¬ IsTooLarge n) :
    toDouble (int n) = .ok (.finite (n < 0) (rounded n.natAbs * one)) := by
  rw [toDouble, ofInt_of_inRange inRange]
  rfl

theorem tmod_signed (negative other : Bool) (m n : Nat) :
    (signed negative m).tmod (signed other n) = signed negative (m % n) := by
  cases negative <;> cases other <;>
    simp [signed, Int.neg_tmod, Int.tmod_neg, ← Int.ofNat_tmod]

theorem mod_of_toDouble {negative other : Bool} {m k : Nat}
    (first : toDouble (int a) = .ok (.finite negative m))
    (second : toDouble (int b) = .ok (.finite other k)) (nonzero : k ≠ 0) :
    mod (int a) (int b) = .ok (int (signed negative (m % k / one))) := by
  have rest : remainder? (.finite negative m) (.finite other k) = some (.finite negative (m % k)) := by
    rw [remainder?, if_neg (by simpa using nonzero)]
  rw [mod, first, second]
  simp only [bind, Except.bind, rest]
  rfl

/-- The remainder of the integers that two integers become as doubles. -/
theorem mod_of_inRange (inRange : ¬ IsTooLarge a) (inRange' : ¬ IsTooLarge b) (nonzero : b ≠ 0) :
    mod (int a) (int b) = .ok (int ((whole a).tmod (whole b))) := by
  have positive : 0 < rounded b.natAbs := rounded_pos (Int.natAbs_pos.mpr nonzero)
  have divisor : rounded b.natAbs * one ≠ 0 :=
    Nat.mul_ne_zero (Nat.ne_of_gt positive) (Nat.ne_of_gt Double.one_pos)
  rw [mod_of_toDouble (toDouble_of_inRange inRange) (toDouble_of_inRange inRange') divisor,
    Nat.mul_mod_mul_right, Nat.mul_div_cancel _ Double.one_pos, whole, whole, tmod_signed]

end Number

namespace Operator
open Double Value

variable {a b : Int}

theorem computeBy_mod (strict : Bool) (nonzero : b ≠ 0) :
    computeBy strict "%" (.int a) (.int b) =
      liftFault (do return .ofNumber (← Number.mod (.int a) (.int b))) := by
  have divisor : Number.isZero (.int b) = false := beq_eq_false_iff_ne.mpr nonzero
  have symbol : ofSymbol? "%" = some mod := by decide
  rw [computeBy, symbol]
  simp only [toNumber, divide, divisor]
  rfl

theorem computeBy_mod_of_inRange (strict : Bool) (inRange : ¬ IsTooLarge a)
    (inRange' : ¬ IsTooLarge b) (nonzero : b ≠ 0) :
    computeBy strict "%" (.int a) (.int b) = .ok (.int ((whole a).tmod (whole b))) := by
  rw [computeBy_mod strict nonzero, Number.mod_of_inRange inRange inRange' nonzero]
  rfl

theorem computeBy_mod_of_isTooLarge (strict : Bool) (tooLarge : IsTooLarge a ∨ IsTooLarge b)
    (nonzero : b ≠ 0) :
    computeBy strict "%" (.int a) (.int b) = .error (.fault .integerTooLarge) := by
  have stops : Number.mod (.int a) (.int b) = .error .integerTooLarge := by
    rw [Number.mod]
    by_cases first : IsTooLarge a
    · rw [Number.toDouble_of_isTooLarge first]
      rfl
    · rw [Number.toDouble_of_inRange first,
        Number.toDouble_of_isTooLarge (tooLarge.resolve_left first)]
      rfl
  rw [computeBy_mod strict nonzero, stops]
  rfl

/-- The remainder of two integers is exact where both are doubles. Otherwise it is that of doubles
nearest to them, and one that is too large is a fault. -/
theorem remainder_of_nearest_doubles (strict : Bool) (a : Int) (nonzero : b ≠ 0) :
    (IsExact a → IsExact b → ∃ r,
      computeBy strict "%" (.int a) (.int b) = .ok (.int r) ∧ IsRemainder a b r) ∧
    (¬ IsTooLarge a → ¬ IsTooLarge b → ∃ x y r, IsNearest a x ∧ IsNearest b y ∧
      computeBy strict "%" (.int a) (.int b) = .ok (.int r) ∧ IsRemainder x y r) ∧
    (IsTooLarge a ∨ IsTooLarge b →
      computeBy strict "%" (.int a) (.int b) = .error (.fault .integerTooLarge)) := by
  have rounds (inRange : ¬ IsTooLarge a) (inRange' : ¬ IsTooLarge b) :
      computeBy strict "%" (.int a) (.int b) = .ok (.int ((whole a).tmod (whole b))) ∧
        IsRemainder (whole a) (whole b) ((whole a).tmod (whole b)) :=
    ⟨computeBy_mod_of_inRange strict inRange inRange' nonzero,
      isRemainder_tmod (whole a) (whole_ne_zero nonzero)⟩
  refine ⟨fun exact exact' => ?_, fun inRange inRange' => ?_, fun tooLarge => ?_⟩
  · obtain ⟨computed, remains⟩ := rounds exact.not_isTooLarge exact'.not_isTooLarge
    rw [whole_of_isExact exact, whole_of_isExact exact'] at computed remains
    exact ⟨a.tmod b, computed, remains⟩
  · obtain ⟨computed, remains⟩ := rounds inRange inRange'
    exact ⟨whole a, whole b, _, isNearest_whole inRange, isNearest_whole inRange', computed, remains⟩
  · exact computeBy_mod_of_isTooLarge strict tooLarge nonzero

/-- A dividend of many digits but few significant bits. -/
theorem remainder_of_power_is_exact :
    (3 : Int) ≠ 0 ∧ IsExact (-2 ^ 100) ∧ IsExact 3 ∧ ∃ r,
      computeBy true "%" (.int (-2 ^ 100)) (.int 3) = .ok (.int r) ∧ IsRemainder (-2 ^ 100) 3 r := by
  have exact : IsExact (-2 ^ 100) := ⟨⟨1, 100, by decide, by decide⟩, by decide +kernel⟩
  have exact' : IsExact 3 := ⟨⟨3, 0, by decide, by decide⟩, by decide +kernel⟩
  exact ⟨by decide, exact, exact',
    (remainder_of_nearest_doubles true (-2 ^ 100) (by decide)).1 exact exact'⟩

/-- The least odd number of more bits than a double has becomes an even one. -/
theorem remainder_of_odd_number_is_zero :
    ¬ ∀ a b : Int, b ≠ 0 → ∃ r,
      computeBy false "%" (.int a) (.int b) = .ok (.int r) ∧ IsRemainder a b r := by
  intro exact
  obtain ⟨r, computed, remains⟩ := exact (2 ^ 53 + 1) 2 (by decide)
  have inRange : ¬ IsTooLarge (2 ^ 53 + 1) := by unfold IsTooLarge; decide +kernel
  have inRange' : ¬ IsTooLarge 2 := by unfold IsTooLarge; decide +kernel
  rw [computeBy_mod_of_inRange false inRange inRange' (by decide)] at computed
  have even : (whole (2 ^ 53 + 1)).tmod (whole 2) = 0 := by decide +kernel
  rw [even] at computed
  cases computed
  exact absurd remains.divides (by decide)

end Operator
end Stencil
