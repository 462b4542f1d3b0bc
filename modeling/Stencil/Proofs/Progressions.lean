import Mathlib.Data.Rat.Floor
import Stencil.Library

/-! Ranges of integers. From the first bound on the multiples of the step are counted that lie before
the other bound: their number is the distance of the bounds divided by the step, rounded up. -/
namespace Stencil.Functions
open Value

/-- The number of integers from `start` on by `step` that come before `stop`. -/
def count (start stop step : Int) : Nat := ⌈((stop - start : Int) : ℚ) / step⌉.toNat

/-- So many integers from `start` on by `step`. -/
def progression (start step : Int) (length : Nat) : List Int :=
  (List.range length).map fun i : Nat => start + i * step

theorem progression_succ (start step : Int) (length : Nat) :
    progression start step (length + 1) = start :: progression (start + step) step length := by
  simp only [progression, List.range_succ_eq_map, List.map_cons, List.map_map, Nat.cast_zero, zero_mul,
    add_zero, Function.comp_def, Nat.cast_succ, add_mul, one_mul, add_assoc, add_comm step]

section Count

variable {start stop step : Int}

theorem count_pos_iff (start stop step : Int) :
    0 < count start stop step ↔ 0 < step ∧ start < stop ∨ step < 0 ∧ stop < start := by
  rw [count, Int.lt_toNat, Nat.cast_zero, Int.ceil_pos, div_pos_iff]
  simp only [Int.cast_pos, Int.cast_lt_zero, sub_pos, sub_neg, and_comm]

theorem count_add (start stop : Int) (nonzero : step ≠ 0) :
    count (start + step) stop step = count start stop step - 1 := by
  have shift : ((stop - (start + step) : Int) : ℚ) / step = ((stop - start : Int) : ℚ) / step - 1 := by
    have : (step : ℚ) ≠ 0 := Int.cast_ne_zero.mpr nonzero
    field_simp
    push_cast
    ring
  rw [count, shift, Int.ceil_sub_one, count]
  omega

/-- With every number that is counted one fewer is left. -/
theorem count_eq_succ (more : 0 < count start stop step) :
    count start stop step = count (start + step) stop step + 1 := by
  have moves : step ≠ 0 := by
    rcases (count_pos_iff start stop step).mp more with ⟨up, -⟩ | ⟨down, -⟩ <;> omega
  have next := count_add start stop moves
  omega

/-- There are no more of them than integers between the bounds. -/
theorem count_le (start stop step : Int) : count start stop step ≤ (stop - start).natAbs := by
  rw [count, Int.toNat_le, Int.ceil_le, Nat.cast_natAbs]
  by_cases nonzero : step = 0
  · simp [nonzero]
  · have whole : (1 : ℚ) ≤ |(step : ℚ)| := by exact_mod_cast Int.one_le_abs nonzero
    calc ((stop - start : Int) : ℚ) / step
      _ ≤ |((stop - start : Int) : ℚ) / step| := le_abs_self _
      _ = |((stop - start : Int) : ℚ)| / |(step : ℚ)| := abs_div ..
      _ ≤ |((stop - start : Int) : ℚ)| := div_le_self (abs_nonneg _) whole
      _ = ((|stop - start| : Int) : ℚ) := Int.cast_abs.symm

end Count

/-- The loop adds to the earlier integers those that are left. -/
theorem intsFrom_eq {stop step : Int} {fuel : Nat} {current : Int} (earlier : List Int)
    (enough : count current stop step ≤ fuel) :
    intsFrom stop step fuel current earlier =
      earlier.reverse ++ progression current step (count current stop step) := by
  induction fuel generalizing current earlier with
  | zero => simp [intsFrom, progression, Nat.le_zero.mp enough]
  | succ fuel ih =>
    have test := count_pos_iff current stop step
    simp only [intsFrom, Bool.or_eq_true, Bool.and_eq_true, decide_eq_true_eq, ← test]
    split
    · rename_i more
      have left := count_eq_succ more
      rw [ih _ (by omega), left, progression_succ]
      simp
    · rename_i done
      simp [progression, Nat.eq_zero_of_not_pos done]

theorem ints_eq (start stop step : Int) :
    ints start stop step = progression start step (count start stop step) :=
  intsFrom_eq [] (count_le start stop step)

theorem bound_int (n : Int) : bound (.int n) = .int n := by
  by_cases zero : n = 0 <;> simp [bound, numberOrZero, toNumber, Number.isZero, zero]

theorem range_int (start stop step : Int) :
    range (.int start) (.int stop) (.int step) = .ok (.list ((ints start stop step).map int)) := by
  simp only [range, bound_int]

theorem call_range {σ : Type} (s : Surroundings) (state : σ) {start stop step result : Value}
    (computed : range start stop step = .ok result) :
    (Library.standard s).call "range" [start, stop, step] state = (.ok result, state) := by
  let routine : Routine σ := fun _ next => (liftFault (range start stop step), next)
  have called : (Library.standard s).call "range" [start, stop, step] state =
      Library.guarded (.functionFailed "range") routine [] state := rfl
  have answer : routine [] state = (.ok result, state) := by simp only [routine, computed, liftFault]
  rw [called, Library.guarded, answer]
  rfl

/-- By a step of zero there are no integers. Otherwise they are the first bound and its sums with the
multiples of the step, as many as the distance of the bounds divided by the step and rounded up, and
none if that is negative. With one bound they start at zero and go on by one. -/
theorem range_is_progression {σ : Type} (s : Surroundings) (state : σ) (start stop step : Int) :
    (Library.standard s).call "range" [.int start, .int stop, .int step] state =
      (.ok (.list (if step = 0 then [] else
        (List.range ⌈((stop - start : Int) : ℚ) / step⌉.toNat).map fun i : Nat =>
          .int (start + i * step))), state) ∧
    (Library.standard s).call "range" [.int stop] state =
      (Library.standard s).call "range" [.int 0, .int stop, .int 1] state := by
  refine ⟨call_range s state ?_, rfl⟩
  rw [range_int, ints_eq]
  split
  · rename_i zero
    simp [count, progression, zero]
  · rw [progression, List.map_map]
    rfl

end Stencil.Functions
