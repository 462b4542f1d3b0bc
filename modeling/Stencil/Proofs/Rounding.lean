import Mathlib.Data.Nat.Dist
import Stencil.Number

/-! Integers as doubles. An integer is rounded to 53 significant bits: to the nearest integer that has
no more of them. One that has no more itself is kept, and one that is rounded out of range becomes an
infinity. -/
namespace Stencil

/-! ### Nearest multiples -/

section Nearest

variable {d : Nat}

theorem nearest_cases (n d : Nat) :
    nearest n d = n / d ∧ 2 * (n % d) ≤ d ∨ nearest n d = n / d + 1 ∧ d ≤ 2 * (n % d) := by
  simp only [nearest, Bool.or_eq_true, Bool.and_eq_true, decide_eq_true_eq, beq_iff_eq]
  split <;> omega

theorem nearest_mul (q : Nat) (pos : 0 < d) : nearest (q * d) d = q := by
  rw [nearest, Nat.mul_div_cancel q pos, Nat.mul_mod_left]
  simp [pos]

theorem nearest_mul_mul (n d : Nat) {k : Nat} (pos : 0 < k) :
    nearest (n * k) (d * k) = nearest n d := by
  have twice : 2 * (n % d * k) = 2 * (n % d) * k := (Nat.mul_assoc ..).symm
  have less : 2 * (n % d) * k < d * k ↔ 2 * (n % d) < d := Nat.mul_lt_mul_right pos
  have same : 2 * (n % d) * k = d * k ↔ 2 * (n % d) = d := Nat.mul_left_inj (Nat.ne_of_gt pos)
  simp only [nearest, Nat.mul_div_mul_right n d pos, Nat.mul_mod_mul_right, twice, less,
    Bool.beq_eq_decide_eq, same]

/-- No multiple is nearer. -/
theorem dist_nearest_le (pos : 0 < d) (n q : Nat) :
    n.dist (nearest n d * d) ≤ n.dist (q * d) := by
  have parts : n / d * d + n % d = n := Nat.div_add_mod' n d
  have rest : n % d < d := Nat.mod_lt n pos
  have next : (n / d + 1) * d = n / d * d + d := Nat.succ_mul ..
  have side : q * d ≤ n / d * d ∨ n / d * d + d ≤ q * d := by
    rcases Nat.lt_or_ge (n / d) q with above | below
    · exact .inr (next ▸ Nat.mul_le_mul_right d above)
    · exact .inl (Nat.mul_le_mul_right d below)
  unfold Nat.dist
  rcases nearest_cases n d with ⟨same, half⟩ | ⟨same, half⟩ <;> rw [same] <;> omega

end Nearest

namespace Double

/-! ### 53 significant bits -/

/-- A natural number of at most 53 significant bits. -/
def IsShort (n : Nat) : Prop := ∃ m k, m < 2 ^ 53 ∧ n = m * 2 ^ k

/-- The distance of doubles around a natural number. -/
def step (n : Nat) : Nat := 2 ^ (n.log2 - 52)

/-- The nearest number of at most 53 significant bits, a tie going to the even multiple of the
step. -/
def rounded (n : Nat) : Nat := nearest n (step n) * step n

theorem isShort_two_pow (k : Nat) : IsShort (2 ^ k) := ⟨1, k, by decide, (Nat.one_mul _).symm⟩

section Rounded

variable {n s : Nat}

theorem step_pos (n : Nat) : 0 < step n := Nat.two_pow_pos _

theorem div_step_lt (n : Nat) : n / step n < 2 ^ 53 := by
  have bound : 2 ^ (n.log2 + 1) ≤ 2 ^ 53 * step n := by
    rw [step, ← Nat.pow_add]
    exact Nat.pow_le_pow_right (by decide) (by omega)
  exact (Nat.div_lt_iff_lt_mul (step_pos n)).mpr (Nat.lt_of_lt_of_le Nat.lt_log2_self bound)

theorem isShort_rounded (n : Nat) : IsShort (rounded n) := by
  have small := div_step_lt n
  by_cases full : nearest n (step n) = 2 ^ 53
  · exact ⟨2 ^ 52, n.log2 - 52 + 1, by decide, by rw [rounded, full, step, Nat.pow_succ]; omega⟩
  · refine ⟨nearest n (step n), n.log2 - 52, ?_, rfl⟩
    rcases nearest_cases n (step n) with ⟨same, -⟩ | ⟨same, -⟩ <;> omega

/-- Short numbers from the leading power on are multiples of the step. -/
theorem step_dvd (short : IsShort s) (large : 2 ^ n.log2 ≤ s) : step n ∣ s := by
  obtain ⟨m, k, small, rfl⟩ := short
  have order : 2 ^ n.log2 < 2 ^ (53 + k) := by
    rw [Nat.pow_add]
    exact Nat.lt_of_le_of_lt large (Nat.mul_lt_mul_of_pos_right small (Nat.two_pow_pos k))
  have fine : n.log2 < 53 + k := (Nat.pow_lt_pow_iff_right (by decide)).mp order
  exact Nat.dvd_mul_left_of_dvd (Nat.pow_dvd_pow 2 (by omega)) m

theorem rounded_of_isShort (short : IsShort n) : rounded n = n := by
  rcases Nat.eq_zero_or_pos n with rfl | pos
  · rfl
  · obtain ⟨q, whole⟩ := step_dvd short (Nat.log2_self_le (Nat.ne_of_gt pos))
    have times : n = q * step n := whole.trans (Nat.mul_comm ..)
    have kept := nearest_mul q (step_pos n)
    rw [← times] at kept
    rw [rounded, kept, ← times]

/-- No short number is nearer. -/
theorem dist_rounded_le (n : Nat) (short : IsShort s) : n.dist (rounded n) ≤ n.dist s := by
  rcases Nat.lt_or_ge s (2 ^ n.log2) with below | above
  · -- The leading power is a multiple of the step and lies between.
    rcases Nat.eq_zero_or_pos n with rfl | pos
    · exact Nat.zero_le _
    have lead := Nat.log2_self_le (Nat.ne_of_gt pos)
    obtain ⟨q, whole⟩ := step_dvd (isShort_two_pow n.log2) (Nat.le_refl _)
    have near := dist_nearest_le (step_pos n) n q
    rw [Nat.mul_comm q, ← whole] at near
    refine Nat.le_trans near ?_
    unfold Nat.dist
    omega
  · obtain ⟨q, rfl⟩ := step_dvd short above
    rw [Nat.mul_comm]
    exact dist_nearest_le (step_pos n) n q

theorem rounded_pos (pos : 0 < n) : 0 < rounded n := by
  have lead := Nat.log2_self_le (Nat.ne_of_gt pos)
  have power := Nat.two_pow_pos n.log2
  have near := dist_rounded_le n (isShort_two_pow n.log2)
  unfold Nat.dist at near
  omega

end Rounded

/-! ### Powers of two -/

section Powers

variable {n : Nat}

theorem two_pow_of_add {k i j : Nat} (sum : i + j = k) : 2 ^ k = 2 ^ i * 2 ^ j := by
  rw [← sum, Nat.pow_add]

theorem log2_mul_two_pow (nonzero : n ≠ 0) (k : Nat) : (n * 2 ^ k).log2 = n.log2 + k := by
  have positive : n * 2 ^ k ≠ 0 := Nat.mul_ne_zero nonzero (Nat.ne_of_gt (Nat.two_pow_pos k))
  refine (Nat.log2_eq_iff positive).mpr ⟨?_, ?_⟩
  · rw [Nat.pow_add]
    exact Nat.mul_le_mul_right _ (Nat.log2_self_le nonzero)
  · rw [Nat.add_right_comm, Nat.pow_add]
    exact Nat.mul_lt_mul_of_pos_right Nat.lt_log2_self (Nat.two_pow_pos k)

/-- The greatest short number below a power of two. -/
theorem le_greatest {k : Nat} (short : IsShort n) (inside : n < 2 ^ (53 + k)) :
    n ≤ (2 ^ 53 - 1) * 2 ^ k := by
  rw [Nat.pow_add] at inside
  rcases Nat.lt_or_ge n (2 ^ (52 + k)) with below | above
  · rw [Nat.pow_add] at below
    omega
  · have divides := step_dvd (n := 2 ^ (52 + k)) short (by rwa [Nat.log2_two_pow])
    rw [step, Nat.log2_two_pow, Nat.add_sub_cancel_left] at divides
    obtain ⟨q, rfl⟩ := divides
    rw [Nat.mul_comm] at inside ⊢
    have fewer : q < 2 ^ 53 := Nat.lt_of_mul_lt_mul_right inside
    exact Nat.mul_le_mul_right _ (by omega)

/-- Half a step below a power of two is a tie, and the power is even. -/
theorem rounded_tie (k : Nat) : rounded ((2 ^ 54 - 1) * 2 ^ k) = 2 ^ (54 + k) := by
  have bits : ((2 ^ 54 - 1) * 2 ^ k).log2 - 52 = 1 + k := by
    rw [log2_mul_two_pow (by decide), show (2 ^ 54 - 1 : Nat).log2 = 53 by decide +kernel]
    omega
  have even : nearest (2 ^ 54 - 1) (2 ^ 1) = 2 ^ 53 := by decide +kernel
  rw [rounded, step, bits, Nat.pow_add, nearest_mul_mul _ _ (Nat.two_pow_pos k), even, ← Nat.mul_assoc,
    ← Nat.pow_add, ← Nat.pow_add]

/-- From half a step below it on numbers are rounded up to a power of two. -/
theorem rounded_lt_two_pow (k : Nat) : rounded n < 2 ^ (54 + k) ↔ n < (2 ^ 54 - 1) * 2 ^ k := by
  have tie := rounded_tie k
  have power := dist_rounded_le n (isShort_two_pow (54 + k))
  have greatest := dist_rounded_le n (s := (2 ^ 53 - 1) * 2 ^ (1 + k)) ⟨_, _, by decide, rfl⟩
  have most (inside : rounded n < 2 ^ (54 + k)) : rounded n ≤ (2 ^ 53 - 1) * 2 ^ (1 + k) :=
    le_greatest (isShort_rounded n) (by rwa [← Nat.add_assoc])
  have pos : 0 < 2 ^ k := Nat.two_pow_pos k
  unfold Nat.dist at power greatest
  simp only [Nat.pow_add] at *
  constructor
  · intro inside
    by_contra beyond
    have bound := most inside
    rcases Nat.eq_or_lt_of_not_lt beyond with rfl | beyond <;> omega
  · intro inside
    by_contra beyond
    omega

end Powers

/-! ### Doubles of integers -/

theorem one_eq : one = 2 ^ 1074 := by decide +kernel

theorem outOfRange_eq : outOfRange = 2 ^ 1024 * one := by decide +kernel

theorem one_pos : 0 < one := by decide +kernel

/-- The units of an integer are rounded as the integer is. -/
theorem roundUnits_one (n : Nat) : roundUnits (n * one) 1 = rounded n * one := by
  rcases Nat.eq_zero_or_pos n with rfl | pos
  · decide +kernel
  have spare : (n * one / 1).log2 + 1 - 53 = n.log2 + 1022 := by
    rw [Nat.div_one, one_eq, log2_mul_two_pow (Nat.ne_of_gt pos)]
    omega
  rw [roundUnits, spare]
  simp only [Nat.shiftLeft_eq, Nat.one_mul]
  rcases Nat.le_total n.log2 52 with few | many
  · -- All bits are kept.
    have short : IsShort n := by
      refine ⟨n, 0, Nat.lt_of_lt_of_le Nat.lt_log2_self ?_, (Nat.mul_one n).symm⟩
      exact Nat.pow_le_pow_right (by decide) (by omega)
    have units : n * one = n * 2 ^ (52 - n.log2) * 2 ^ (n.log2 + 1022) := by
      have exponents : 52 - n.log2 + (n.log2 + 1022) = 1074 := by omega
      rw [one_eq, Nat.mul_assoc, ← two_pow_of_add exponents]
    rw [rounded_of_isShort short, units, nearest_mul _ (Nat.two_pow_pos _)]
  · have units : 2 ^ (n.log2 + 1022) = step n * one := by
      rw [step, one_eq, ← Nat.pow_add]
      congr 1
      omega
    rw [units, nearest_mul_mul _ _ one_pos, rounded, Nat.mul_assoc]

/-- An integer that is a double. -/
def IsExact (n : Int) : Prop := IsShort n.natAbs ∧ n.natAbs < 2 ^ 1024

/-- An integer that is rounded to an infinity. -/
def IsTooLarge (n : Int) : Prop := 2 ^ 1024 - 2 ^ 970 ≤ n.natAbs

/-- An integer that is a double, and no such integer is nearer. -/
structure IsNearest (n x : Int) : Prop where
  exact : IsExact x
  least : ∀ y, IsExact y → (n - x).natAbs ≤ (n - y).natAbs

/-- The integer that an integer becomes as a double. -/
def whole (n : Int) : Int := signed (n < 0) (rounded n.natAbs)

section OfInt

variable {n x : Int}

theorem rounded_lt_iff {n : Nat} : rounded n < 2 ^ 1024 ↔ n < 2 ^ 1024 - 2 ^ 970 := by
  have exponents : 1024 = 54 + 970 := rfl
  have whole : 2 ^ 1024 - 2 ^ 970 = (2 ^ 54 - 1) * 2 ^ 970 := by
    rw [Nat.sub_mul, Nat.one_mul, ← two_pow_of_add exponents.symm]
  rw [whole, exponents]
  exact rounded_lt_two_pow 970

theorem signed_false (units : Nat) : signed false units = units := rfl

theorem signed_true (units : Nat) : signed true units = -units := rfl

theorem natAbs_signed (negative : Bool) (units : Nat) : (signed negative units).natAbs = units := by
  cases negative <;> simp [signed]

theorem whole_of_isExact (exact : IsExact n) : whole n = n := by
  rw [whole, rounded_of_isShort exact.1, signed]
  split <;> rename_i sign <;> simp at sign <;> omega

theorem whole_ne_zero (nonzero : n ≠ 0) : whole n ≠ 0 := by
  have positive := rounded_pos (Int.natAbs_pos.mpr nonzero)
  rw [← Int.natAbs_pos, whole, natAbs_signed]
  exact positive

theorem IsExact.not_isTooLarge (exact : IsExact n) : ¬ IsTooLarge n := by
  have inside := exact.2
  rw [← rounded_of_isShort exact.1, rounded_lt_iff] at inside
  exact Nat.not_le.mpr inside

/-- No short integer is nearer, in range or not. -/
theorem whole_least (n : Int) (short : IsShort x.natAbs) :
    (n - whole n).natAbs ≤ (n - x).natAbs := by
  have near := dist_rounded_le n.natAbs short
  unfold Nat.dist at near
  rw [whole, signed]
  split <;> rename_i sign <;> simp at sign <;> omega

theorem isNearest_whole (inRange : ¬ IsTooLarge n) : IsNearest n (whole n) where
  exact := by
    rw [IsExact, whole, natAbs_signed]
    exact ⟨isShort_rounded _, rounded_lt_iff.mpr (Nat.not_le.mp inRange)⟩
  least _ exact := whole_least n exact.1

theorem ofInt_eq (n : Int) :
    ofInt n = if rounded n.natAbs < 2 ^ 1024 then finite (n < 0) (rounded n.natAbs * one)
      else infinity (n < 0) := by
  rw [ofInt, ofRatio, ofUnits, roundUnits_one, outOfRange_eq]
  simp only [Nat.mul_lt_mul_right one_pos]

theorem ofInt_of_isTooLarge (tooLarge : IsTooLarge n) : ofInt n = infinity (n < 0) := by
  rw [ofInt_eq, if_neg (mt rounded_lt_iff.mp (Nat.not_lt.mpr tooLarge))]

theorem ofInt_of_inRange (inRange : ¬ IsTooLarge n) :
    ofInt n = finite (n < 0) (rounded n.natAbs * one) := by
  rw [ofInt_eq, if_pos (rounded_lt_iff.mpr (Nat.not_le.mp inRange))]

end OfInt

end Double
end Stencil
