import Stencil.Proofs.Rounding

/-! Sums of doubles. A sum is rounded to no number farther away than one of its terms, so it never goes
past a term against the sign of the other. It stays where it is only if the other term is smaller by
all bits of a double. -/
namespace Stencil

namespace Double

/-! ### Rounded integers -/

section Whole

variable {n x : Int}

theorem le_whole (short : IsShort x.natAbs) (below : x ≤ n) : x ≤ whole n := by
  have near := whole_least n short
  omega

theorem whole_le (short : IsShort x.natAbs) (above : n ≤ x) : whole n ≤ x := by
  have near := whole_least n short
  omega

/-- A sum goes no way against the sign of the term that is added. -/
theorem whole_add (term : Int) (short : IsShort x.natAbs) :
    (0 ≤ term → x ≤ whole (x + term)) ∧ (term ≤ 0 → whole (x + term) ≤ x) :=
  ⟨fun up => le_whole short (by omega), fun down => whole_le short (by omega)⟩

end Whole

/-! ### Sums -/

theorem roundUnits_eq (n : Nat) : roundUnits n 1 = rounded n := by
  have spare : n.log2 + 1 - 53 = n.log2 - 52 := by omega
  rw [roundUnits, Nat.div_one, spare, Nat.one_shiftLeft, Nat.shiftLeft_eq]
  rfl

/-- A double as results are: short and in range if it is finite. -/
def Proper : Double → Prop
  | finite _ units => IsShort units ∧ units < outOfRange
  | _ => True

theorem isShort_zero : IsShort 0 := ⟨0, 0, by decide, rfl⟩

theorem isShort_signed {n : Nat} (negative : Bool) (short : IsShort n) :
    IsShort (signed negative n).natAbs := by
  rwa [natAbs_signed]

/-- The sum of finite doubles is that of their units, rounded. -/
theorem add_finite (a b : Bool) (m n : Nat) :
    (∃ c k, add (finite a m) (finite b n) = finite c k ∧ IsShort k ∧ k < outOfRange ∧
      signed c k = whole (signed a m + signed b n)) ∨
    (∃ c, add (finite a m) (finite b n) = infinity c ∧
      outOfRange ≤ (whole (signed a m + signed b n)).natAbs ∧
      (c = true ↔ signed a m + signed b n < 0)) := by
  simp only [add, ofUnits, roundUnits_eq]
  generalize signed a m + signed b n = sum
  split
  · rename_i zero
    obtain rfl := eq_of_beq zero
    exact .inl ⟨_, 0, rfl, isShort_zero, by decide +kernel, by cases a && b <;> rfl⟩
  · split
    · rename_i inside
      exact .inl ⟨_, _, rfl, isShort_rounded _, inside, rfl⟩
    · rename_i outside
      refine .inr ⟨_, rfl, ?_, decide_eq_true_iff⟩
      rw [whole, natAbs_signed]
      exact Nat.not_lt.mp outside

theorem proper_add (x y : Double) : (x.add y).Proper := by
  cases x with
  | nan source => trivial
  | infinity a =>
    cases y with
    | infinity b =>
      rw [add]
      split <;> trivial
    | _ => trivial
  | finite a m =>
    cases y with
    | finite b n =>
      rcases add_finite a b m n with ⟨c, k, sum, short, inside, -⟩ | ⟨c, sum, -⟩ <;> rw [sum]
      · exact ⟨short, inside⟩
      · trivial
    | _ => trivial

/-! ### Lost terms -/

section Lost

variable {a b c : Bool} {k m n : Nat} {sum term : Int}

theorem eq_of_signed (same : signed c k = signed a m) (nonzero : k ≠ 0) :
    finite c k = finite a m := by
  have units : k = m := by rw [← natAbs_signed c k, same, natAbs_signed]
  subst units
  cases a <;> cases c <;> simp [signed] at same ⊢ <;> omega

/-- A sum that has the units of one term is that term, if the other is not zero. -/
theorem eq_of_unmoved (same : signed c k = signed a m)
    (rounds : signed c k = whole (signed a m + term)) (nonzero : term ≠ 0) :
    finite c k = finite a m := by
  refine eq_of_signed same fun zero => ?_
  rw [zero] at same rounds
  have none : signed c 0 = 0 := by cases c <;> rfl
  rw [none] at same rounds
  rw [← same, Int.zero_add] at rounds
  exact whole_ne_zero nonzero rounds.symm

/-- A step up or down from a short number leads to another. -/
theorem isShort_neighbour (short : IsShort m) (some : m ≠ 0) :
    IsShort (m + step m) ∧ IsShort (m - step m) := by
  have divides := step_dvd short (Nat.log2_self_le some)
  have quotient := div_step_lt m
  obtain ⟨q, times⟩ := divides
  have parts : m / step m = q := Nat.div_eq_of_eq_mul_right (step_pos m) times
  rw [parts] at quotient
  have up : m + step m = (q + 1) * step m := by rw [Nat.succ_mul, Nat.mul_comm q, ← times]
  have down : m - step m = (q - 1) * step m := by rw [Nat.sub_mul, Nat.mul_comm q, ← times, Nat.one_mul]
  constructor
  · rw [up]
    by_cases full : q + 1 = 2 ^ 53
    · rw [full, step, ← Nat.pow_add]
      exact isShort_two_pow _
    · exact ⟨q + 1, m.log2 - 52, by omega, rfl⟩
  · rw [down]
    exact ⟨q - 1, m.log2 - 52, by omega, rfl⟩

/-- A number is 2⁵² steps at least, unless its step is one. -/
theorem step_le_or (nonzero : m ≠ 0) : 2 ^ 52 * step m ≤ m ∨ step m = 1 := by
  rcases Nat.le_total 52 m.log2 with many | few
  · rw [step, ← Nat.pow_add, Nat.add_sub_cancel' many]
    exact .inl (Nat.log2_self_le nonzero)
  · rw [step, Nat.sub_eq_zero_of_le few]
    exact .inr rfl

/-- A sum stays at a term only if it is no nearer to the neighbours of that term. -/
theorem two_mul_le {x : Int} {gap : Nat} (apart : 0 < gap) (fits : gap ≤ x.natAbs)
    (more : IsShort (x.natAbs + gap)) (fewer : IsShort (x.natAbs - gap))
    (lost : whole (x + term) = x) : 2 * term.natAbs ≤ gap := by
  have above := whole_least (x + term) (x := x + gap)
  have below := whole_least (x + term) (x := x - gap)
  rw [lost] at above below
  rcases Int.natAbs_eq x with sign | sign
  · have := above (by rwa [show (x + gap).natAbs = x.natAbs + gap by omega])
    have := below (by rwa [show (x - gap).natAbs = x.natAbs - gap by omega])
    omega
  · have := above (by rwa [show (x + gap).natAbs = x.natAbs - gap by omega])
    have := below (by rwa [show (x - gap).natAbs = x.natAbs + gap by omega])
    omega

/-- A term that is lost in a sum is smaller by all bits of a double. -/
theorem lost_le {x : Int} (short : IsShort x.natAbs) (lost : whole (x + term) = x) :
    2 ^ 53 * term.natAbs ≤ x.natAbs := by
  rcases Nat.eq_zero_or_pos x.natAbs with zero | positive
  · rw [Int.natAbs_eq_zero.mp zero, Int.zero_add] at lost
    have nothing : term = 0 := by_contra fun nonzero => whole_ne_zero nonzero lost
    simp [nothing]
  · have nonzero : x.natAbs ≠ 0 := Nat.ne_of_gt positive
    have fits := Nat.le_of_dvd positive (step_dvd short (Nat.log2_self_le nonzero))
    obtain ⟨more, fewer⟩ := isShort_neighbour short nonzero
    have half := two_mul_le (step_pos _) fits more fewer lost
    rcases step_le_or nonzero with large | one <;> omega

/-- A sum of doubles that is one of them. -/
theorem le_of_add_eq (short : IsShort m) (same : add (finite a m) (finite b n) = finite a m) :
    2 ^ 53 * n ≤ m := by
  rcases add_finite a b m n with ⟨c, k, sum, -, -, rounds⟩ | ⟨c, sum, -⟩
  · cases sum.symm.trans same
    have lost := lost_le (isShort_signed a short) rounds.symm
    rwa [natAbs_signed, natAbs_signed] at lost
  · cases sum.symm.trans same

end Lost

end Double
end Stencil
