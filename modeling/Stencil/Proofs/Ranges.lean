import Stencil.Proofs.Equivariance
import Stencil.Proofs.Progressions
import Stencil.Proofs.Remainders
import Stencil.Proofs.Sums

/-! Ends of ranges. The loop of a range adds the step as long as it comes before the other bound. It
goes on without end only if integers count towards an infinity, or if a step is lost in a sum, so that
the loop stands still before the bound. -/
namespace Stencil

namespace Number

open Functions (extent)

variable {a b : Number}

theorem lt_iff_of_rank {x y : Rank} (left : a.rank? = some x) (right : b.rank? = some y) :
    a.lt b = true ↔ x.tier < y.tier ∨ x.tier = y.tier ∧ x.units < y.units := by
  simp [lt, compare?, left, right, Rank.compare, Ordering.then_eq_lt, compare_lt_iff_lt]

/-- A finite number of so many units. -/
def Measures (a : Number) (units : Int) : Prop := a.rank? = some ⟨0, units⟩

theorem measures_int (n : Int) : (int n).Measures (n * Double.one) := rfl

theorem measures_finite (negative : Bool) (units : Nat) :
    (real (.finite negative units)).Measures (Double.signed negative units) := rfl

theorem Measures.lt_iff {m n : Int} (left : a.Measures m) (right : b.Measures n) :
    a.lt b = true ↔ m < n := by
  simp [lt_iff_of_rank left right]

theorem units_pos : (0 : Int) < Double.one := Int.natCast_pos.mpr Double.one_pos

theorem int_lt_int {m n : Int} : (int m).lt (int n) = true ↔ m < n := by
  rw [(measures_int m).lt_iff (measures_int n), Int.mul_lt_mul_right units_pos]

theorem nan_not_lt (b : Number) (source : NanSource) : (real (.nan source)).lt b = false := rfl

theorem not_lt_nan (a : Number) (source : NanSource) : a.lt (real (.nan source)) = false := by
  unfold lt compare?
  cases a.rank? <;> rfl

theorem infinity_not_lt (b : Number) : (real (.infinity false)).lt b = false := by
  cases b with
  | int n => rfl
  | real x => rcases x with source | (_ | _) | ⟨negative, units⟩ <;> rfl

theorem not_lt_infinity (b : Number) : b.lt (real (.infinity true)) = false := by
  cases b with
  | int n => rfl
  | real x => rcases x with source | (_ | _) | ⟨negative, units⟩ <;> rfl

theorem Measures.extent_eq {m : Int} (measure : a.Measures m) : extent a = m := by
  rcases a with n | source | negative | ⟨negative, units⟩
  · exact congrArg Rank.units (Option.some.inj measure)
  · cases measure
  · cases negative <;> cases measure
  · exact congrArg Rank.units (Option.some.inj measure)

theorem lt_extent {m : Int} (left : a.Measures m) (inside : m.natAbs < Double.outOfRange) :
    (a.lt b = true → m < extent b) ∧ (b.lt a = true → extent b < m) := by
  rcases b with n | source | (_ | _) | ⟨negative, units⟩
  · exact ⟨(left.lt_iff (measures_int n)).mp, ((measures_int n).lt_iff left).mp⟩
  · rw [not_lt_nan, nan_not_lt]
    exact ⟨nofun, nofun⟩
  · rw [infinity_not_lt]
    refine ⟨fun _ => ?_, nofun⟩
    rw [extent, Double.signed_false]
    omega
  · rw [not_lt_infinity]
    refine ⟨nofun, fun _ => ?_⟩
    rw [extent, Double.signed_true]
    omega
  · have measure := measures_finite negative units
    exact ⟨(left.lt_iff measure).mp, (measure.lt_iff left).mp⟩

/-- Integers have an integer for a sum, all other numbers a double, unless one is out of range. -/
theorem add_cases (a b : Number) :
    (∃ m n, a = int m ∧ b = int n) ∨ (∃ fault, a.add b = .error fault) ∨
      ∃ x y, a.toDouble = .ok x ∧ b.toDouble = .ok y ∧ a.add b = .ok (real (x.add y)) := by
  have mixed (sum : a.add b = do return real (Double.add (← a.toDouble) (← b.toDouble))) :
      (∃ fault, a.add b = .error fault) ∨
        ∃ x y, a.toDouble = .ok x ∧ b.toDouble = .ok y ∧ a.add b = .ok (real (x.add y)) := by
    rw [sum]
    cases left : a.toDouble with
    | error fault => exact .inl ⟨fault, rfl⟩
    | ok x =>
      cases right : b.toDouble with
      | error fault => exact .inl ⟨fault, rfl⟩
      | ok y => exact .inr ⟨x, y, rfl, rfl, rfl⟩
  cases a with
  | real x => exact .inr (mixed rfl)
  | int m =>
    cases b with
    | real y => exact .inr (mixed rfl)
    | int n => exact .inl ⟨m, n, rfl, rfl⟩

theorem real_add {x y : Double} (converted : b.toDouble = .ok y) :
    (real x).add b = .ok (real (x.add y)) := by
  have sum : (real x).add b = do return real (x.add (← b.toDouble)) := rfl
  rw [sum, converted]
  rfl

/-- A number that becomes a finite double keeps its sign. -/
theorem toDouble_sign {negative : Bool} {units : Nat}
    (converted : a.toDouble = .ok (.finite negative units)) :
    (Number.lt (.int 0) a = true → 0 < Double.signed negative units) ∧
      (a.lt (.int 0) = true → Double.signed negative units < 0) := by
  cases a with
  | real x =>
    cases converted
    have above := (measures_int 0).lt_iff (measures_finite negative units)
    have below := (measures_finite negative units).lt_iff (measures_int 0)
    rw [Int.zero_mul] at above below
    exact ⟨above.mp, below.mp⟩
  | int n =>
    rw [int_lt_int, int_lt_int]
    by_cases tooLarge : Double.IsTooLarge n
    · cases (toDouble_of_isTooLarge tooLarge).symm.trans converted
    · cases (toDouble_of_inRange tooLarge).symm.trans converted
      have positive (some : n ≠ 0) : (0 : Int) < (Double.rounded n.natAbs * Double.one : Nat) :=
        Int.natCast_pos.mpr (Nat.mul_pos (Double.rounded_pos (Int.natAbs_pos.mpr some)) Double.one_pos)
      constructor <;> intro sign
      · rw [decide_eq_false (Int.not_lt.mpr (Int.le_of_lt sign)), Double.signed_false]
        exact positive (Int.ne_of_gt sign)
      · rw [decide_eq_true sign, Double.signed_true]
        exact Int.neg_neg_of_pos (positive (Int.ne_of_lt sign))

end Number

namespace Functions
open Number Double

/-- The number comes before the bound, in the direction of the step. -/
def goesOn (last step current : Number) : Bool :=
  (Number.lt (.int 0) step && current.lt last) || (step.lt (.int 0) && last.lt current)

/-- The loop goes so many steps from one number to another. -/
inductive Counts (last step : Number) : Nat → Number → Number → Prop
  | here (x : Number) : Counts last step 0 x x
  | next {n : Nat} {x y z : Number} (more : goesOn last step x = true) (sum : x.add step = .ok y)
      (rest : Counts last step n y z) : Counts last step (n + 1) x z

/-- From a number on the loop ends: with enough fuel it gives its numbers, or it fails. -/
def Ends (last step first : Number) : Prop := ∃ fuel, numbersFrom last step fuel first [] ≠ .ok none

/-- Integers count towards an infinity. -/
def Unbounded (last step first : Number) : Prop :=
  ∃ a s negative, first = .int a ∧ step = .int s ∧ last = .real (.infinity negative) ∧
    goesOn last step first = true

/-- The loop comes to a number before the bound where the step is lost. -/
def Lost (last step first : Number) : Prop :=
  ∃ n z, Counts last step n first z ∧ goesOn last step z = true ∧ z.add step = .ok z

section Loop

variable {last step x y z : Number} {n fuel : Nat}

theorem numbersFrom_succ (last step : Number) (fuel : Nat) (x : Number) (earlier : List Number) :
    numbersFrom last step (fuel + 1) x earlier =
      if goesOn last step x = true then
        x.add step >>= fun next => numbersFrom last step fuel next (x :: earlier)
      else .ok (some earlier.reverse) := rfl

theorem counts_succ_iff : Counts last step (n + 1) x z ↔
    goesOn last step x = true ∧ ∃ y, x.add step = .ok y ∧ Counts last step n y z := by
  constructor
  · intro counts
    cases counts with
    | next more sum rest => exact ⟨more, _, sum, rest⟩
  · rintro ⟨more, y, sum, rest⟩
    exact .next more sum rest

/-- More fuel changes nothing unless it was used up. -/
theorem numbersFrom_mono {more : Nat} {earlier : List Number} (le : fuel ≤ more)
    (lasts : numbersFrom last step fuel x earlier ≠ .ok none) :
    numbersFrom last step more x earlier = numbersFrom last step fuel x earlier := by
  induction fuel generalizing more x earlier with
  | zero => exact absurd rfl lasts
  | succ fuel ih =>
    obtain ⟨more, rfl⟩ := Nat.exists_eq_add_of_le' le
    rw [← Nat.add_assoc, numbersFrom_succ, numbersFrom_succ] at *
    split
    · rename_i further
      rw [if_pos further] at lasts
      cases sum : x.add step with
      | error fault => rfl
      | ok y =>
        rw [sum] at lasts
        exact ih (Nat.le_of_succ_le_succ le) lasts
    · rfl

/-- The fuel is used up exactly if the loop goes so many steps. -/
theorem numbersFrom_eq_none (last step : Number) (fuel : Nat) (x : Number) (earlier : List Number) :
    numbersFrom last step fuel x earlier = .ok none ↔ ∃ z, Counts last step fuel x z := by
  induction fuel generalizing x earlier with
  | zero => exact ⟨fun _ => ⟨x, .here x⟩, fun _ => rfl⟩
  | succ fuel ih =>
    rw [numbersFrom_succ]
    simp only [counts_succ_iff]
    split
    · rename_i more
      cases sum : x.add step with
      | error fault => simp [bind, Except.bind]
      | ok y => simpa [bind, Except.bind, more] using ih y (x :: earlier)
    · rename_i done
      simp [done]

/-- From a number on the loop goes less than so many steps. -/
def StopsWithin (last step : Number) (n : Nat) (x : Number) : Prop := ∀ z, ¬ Counts last step n x z

theorem stopsWithin_iff :
    StopsWithin last step fuel x ↔ numbersFrom last step fuel x [] ≠ .ok none := by
  rw [StopsWithin, ne_eq, numbersFrom_eq_none, not_exists]

theorem ends_iff : Ends last step x ↔ ∃ n, StopsWithin last step n x := by
  simp only [Ends, stopsWithin_iff]

theorem stopsWithin_succ_iff : StopsWithin last step (n + 1) x ↔
    ∀ y, goesOn last step x = true → x.add step = .ok y → StopsWithin last step n y := by
  simp only [StopsWithin, counts_succ_iff]
  grind

theorem StopsWithin.mono {more : Nat} (stops : StopsWithin last step n x) (le : n ≤ more) :
    StopsWithin last step more x := by
  induction n generalizing more x with
  | zero => exact absurd (.here x) (stops x)
  | succ n ih =>
    obtain ⟨more, rfl⟩ := Nat.exists_eq_add_of_le' le
    rw [← Nat.add_assoc, stopsWithin_succ_iff] at *
    exact fun y further sum => ih (stops y further sum) (Nat.le_of_succ_le_succ le)

theorem stopsWithin_of_stop (done : goesOn last step x = false) (n : Nat) :
    StopsWithin last step (n + 1) x := by
  simp [stopsWithin_succ_iff, done]

theorem stopsWithin_of_fault {fault : Fault} (failed : x.add step = .error fault) (n : Nat) :
    StopsWithin last step (n + 1) x := by
  simp [stopsWithin_succ_iff, failed]

theorem stopsWithin_next (more : goesOn last step x = true) (sum : x.add step = .ok y) :
    StopsWithin last step (n + 1) x ↔ StopsWithin last step n y := by
  simp [stopsWithin_succ_iff, more, sum]

/-- A step does not change whether the loop ends. -/
theorem ends_next (more : goesOn last step x = true) (sum : x.add step = .ok y) :
    Ends last step x ↔ Ends last step y := by
  simp only [ends_iff]
  constructor
  · rintro ⟨n, stops⟩
    exact ⟨n, (stopsWithin_next more sum).mp (stops.mono (Nat.le_succ n))⟩
  · rintro ⟨n, stops⟩
    exact ⟨n + 1, (stopsWithin_next more sum).mpr stops⟩

theorem Lost.of_next (more : goesOn last step x = true) (sum : x.add step = .ok y) :
    Lost last step y → Lost last step x := by
  rintro ⟨n, z, rest, stuck⟩
  exact ⟨n + 1, z, .next more sum rest, stuck⟩

/-- Where a step is lost the loop stands still. -/
theorem Lost.not_ends (lost : Lost last step x) : ¬ Ends last step x := by
  obtain ⟨n, z, counts, more, same⟩ := lost
  induction counts with
  | here z =>
    have still (k : Nat) : Counts last step k z z := by
      induction k with
      | zero => exact .here z
      | succ k ih => exact .next more same ih
    rw [ends_iff]
    rintro ⟨k, none⟩
    exact none z (still k)
  | next more' sum rest ih =>
    rw [ends_next more' sum]
    exact ih more same

theorem Counts.goesOn_first (counts : Counts last step n x z) (more : goesOn last step z = true) :
    goesOn last step x = true := by
  cases counts with
  | here => exact more
  | next more _ _ => exact more

end Loop

/-! ### Loops of doubles -/

section Reals

variable {last step : Number} {a b c : Bool} {m n : Nat}

theorem nan_stops (last step : Number) (source : NanSource) :
    goesOn last step (.real (.nan source)) = false := by
  rw [goesOn, nan_not_lt, not_lt_nan, Bool.and_false, Bool.and_false, Bool.or_false]

theorem stops_at_nan (step x : Number) (source : NanSource) :
    goesOn (.real (.nan source)) step x = false := by
  rw [goesOn, nan_not_lt, not_lt_nan, Bool.and_false, Bool.and_false, Bool.or_false]

/-- Before the bound a step leads towards it. -/
theorem towards (converted : step.toDouble = .ok (finite b n)) (inside : m < outOfRange)
    (more : goesOn last step (.real (finite a m)) = true) :
    0 < signed b n ∧ signed a m < extent last ∨ signed b n < 0 ∧ extent last < signed a m := by
  have sign := toDouble_sign converted
  have order := lt_extent (b := last) (measures_finite a m) (by rwa [natAbs_signed])
  simp only [goesOn, Bool.or_eq_true, Bool.and_eq_true] at more
  exact more.imp (And.imp sign.1 order.1) (And.imp sign.2 order.2)

/-- A sum that is out of range lies behind the bound. -/
theorem infinity_stops (last : Number) (converted : step.toDouble = .ok (finite b n)) (short : IsShort m)
    (inside : m < outOfRange) (far : outOfRange ≤ (whole (signed a m + signed b n)).natAbs)
    (sign : c = true ↔ signed a m + signed b n < 0) :
    goesOn last step (.real (infinity c)) = false := by
  have units := natAbs_signed a m
  have order := whole_add (signed b n) (isShort_signed a short)
  have zero_le := le_whole (x := 0) (n := signed a m + signed b n) isShort_zero
  have le_zero := whole_le (x := 0) (n := signed a m + signed b n) isShort_zero
  obtain ⟨positive, negative⟩ := toDouble_sign converted
  rw [goesOn]
  cases c with
  | false =>
    rw [infinity_not_lt, Bool.and_false, Bool.false_or, Bool.and_eq_false_imp]
    intro down
    have below := negative down
    have sum := mt sign.mpr Bool.false_ne_true
    omega
  | true =>
    rw [not_lt_infinity, Bool.and_false, Bool.or_false, Bool.and_eq_false_imp]
    intro up
    have above := positive up
    have sum := sign.mp rfl
    omega

/-- The loop ends within so many steps, or it stands still. -/
abbrev Settles (last step : Number) (n : Nat) (first : Number) : Prop :=
  StopsWithin last step n first ∨ Lost last step first

theorem Settles.mono {k j : Nat} {x : Number} (settles : Settles last step k x) (le : k ≤ j) :
    Settles last step j x :=
  settles.imp_left fun stops => stops.mono le

theorem Settles.of_stop {x : Number} (done : goesOn last step x = false) (k : Nat) :
    Settles last step (k + 1) x :=
  .inl (stopsWithin_of_stop done k)

/-- A sum is the number itself, or the loop settles from it on. -/
theorem Settles.of_sum {k : Nat} {x y : Number} (sum : x.add step = .ok y)
    (later : y = x ∨ Settles last step k y) : Settles last step (k + 1) x := by
  by_cases more : goesOn last step x = true
  case neg => exact .of_stop (Bool.eq_false_iff.mpr more) k
  rcases later with rfl | later
  · exact .inr ⟨0, y, .here y, more, sum⟩
  · exact later.imp (stopsWithin_next more sum).mpr (Lost.of_next more sum)

theorem infinity_settles (last step : Number) (a : Bool) :
    Settles last step 2 (.real (infinity a)) := by
  rcases add_cases (.real (infinity a)) step with ⟨_, _, same, -⟩ | ⟨_, failed⟩ | ⟨_, y, ⟨rfl⟩, -, sum⟩
  · cases same
  · exact .inl (stopsWithin_of_fault failed 1)
  refine .of_sum sum ?_
  rcases y with source | b | ⟨b, n⟩
  · exact .inr (.of_stop (nan_stops last step .fresh) 0)
  · by_cases same : a = b
    · exact .inl (by simp [Double.add, same])
    · have undefined : add (infinity a) (infinity b) = .nan .fresh := by
        simp [Double.add, same, undetermined]
      rw [undefined]
      exact .inr (.of_stop (nan_stops last step .fresh) 0)
  · exact .inl rfl

/-- With each step the loop comes nearer to the bound, unless the step is lost. -/
theorem finite_settles (converted : step.toDouble = .ok (finite b n)) (proper : (finite a m).Proper) :
    Settles last step ((extent last - signed a m).natAbs + 1) (.real (finite a m)) := by
  -- A step that moves leads towards the bound: so the distance shrinks as long as the loop goes on.
  generalize distance : (extent last - signed a m).natAbs = d
  induction d using Nat.strongRecOn generalizing a m with
  | ind d ih =>
    by_cases more : goesOn last step (.real (finite a m)) = true
    case neg => exact .of_stop (Bool.eq_false_iff.mpr more) d
    obtain ⟨short, inside⟩ := proper
    have toward := towards converted inside more
    obtain ⟨d, rfl⟩ : ∃ less, d = less + 1 := Nat.exists_eq_succ_of_ne_zero (by omega)
    refine .of_sum (real_add converted) ?_
    rcases add_finite a b m n with ⟨c, k, sum, short', inside', rounds⟩ | ⟨c, sum, far, sign⟩ <;> rw [sum]
    · by_cases same : finite c k = finite a m
      · exact .inl (congrArg Number.real same)
      by_cases more' : goesOn last step (.real (finite c k)) = true
      case neg => exact .inr (.of_stop (Bool.eq_false_iff.mpr more') d)
      have toward' := towards converted inside' more'
      have moved : signed c k ≠ signed a m :=
        fun units => same (eq_of_unmoved units rounds (by omega))
      have order := whole_add (signed b n) (isShort_signed a short)
      rw [← rounds] at order
      have nearer : (extent last - signed c k).natAbs < d + 1 := by omega
      exact .inr ((ih _ nearer ⟨short', inside'⟩ rfl).mono nearer)
    · exact .inr (.of_stop (infinity_stops last converted short inside far sign) d)

theorem real_settles (last step : Number) {x : Double} (proper : x.Proper) :
    Settles last step ((extent last).natAbs + outOfRange + 3) (.real x) := by
  rcases x with source | a | ⟨a, m⟩
  · exact .of_stop (nan_stops last step source) _
  · exact (infinity_settles last step a).mono (by omega)
  rcases add_cases (.real (finite a m)) step with
    ⟨_, _, same, -⟩ | ⟨_, failed⟩ | ⟨_, y, ⟨rfl⟩, converted, sum⟩
  · cases same
  · exact .inl (stopsWithin_of_fault failed _)
  · rcases y with source | b | ⟨b, n⟩
    · exact .of_sum sum (.inr (.of_stop (nan_stops last step .fresh) _))
    · exact .of_sum sum (.inr ((infinity_settles last step b).mono (by omega)))
    · have units := natAbs_signed a m
      have inside : m < outOfRange := proper.2
      exact (finite_settles converted proper).mono (by omega)

/-- A double that lies from `origin` on in the direction of the step. -/
def Ahead (origin step : Int) (z : Number) : Prop :=
  ∃ c k, z = .real (finite c k) ∧ (finite c k).Proper ∧
    (0 ≤ step → origin ≤ signed c k) ∧ (step ≤ 0 → signed c k ≤ origin)

/-- The loop runs in the direction of the step from the double that the first number becomes. -/
theorem Counts.ahead {x z : Number} {j : Nat} (converted : step.toDouble = .ok (finite b n))
    (sum : x.add step = .ok (.real (add (finite a m) (finite b n)))) (proper : (finite a m).Proper)
    (counts : Counts last step j x z) (more : goesOn last step z = true) :
    z = x ∨ Ahead (signed a m) (signed b n) z := by
  induction j generalizing x a m with
  | zero =>
    cases counts
    exact .inl rfl
  | succ j ih =>
    obtain ⟨-, y, sum', rest⟩ := counts_succ_iff.mp counts
    cases sum.symm.trans sum'
    obtain ⟨short, inside⟩ := proper
    rcases add_finite a b m n with ⟨c, k, eq, short', inside', rounds⟩ | ⟨c, eq, far, sign⟩ <;>
      rw [eq] at rest
    · have order := whole_add (signed b n) (isShort_signed a short)
      rw [← rounds] at order
      rcases ih (real_add converted) ⟨short', inside'⟩ rest with rfl | ⟨d, l, rfl, proper, up, down⟩
      · exact .inr ⟨c, k, rfl, ⟨short', inside'⟩, order⟩
      · refine .inr ⟨d, l, rfl, proper, fun sign => ?_, fun sign => ?_⟩
        · exact Int.le_trans (order.1 sign) (up sign)
        · exact Int.le_trans (down sign) (order.2 sign)
    · -- The loop has stopped at an infinity before it comes to `z`.
      have stops := infinity_stops last converted short inside far sign
      rw [rest.goesOn_first more] at stops
      cases stops

end Reals

/-! ### Loops of integers -/

section Ints

variable {last : Number} {step : Int}

theorem goesOn_ints_iff (step : Int) {units : Int} (measure : last.Measures units) (n : Int) :
    goesOn last (.int step) (.int n) = true ↔
      0 < step ∧ n * one < units ∨ step < 0 ∧ units < n * one := by
  simp only [goesOn, Bool.or_eq_true, Bool.and_eq_true, int_lt_int, (measures_int n).lt_iff measure,
    measure.lt_iff (measures_int n)]

/-- With each step the integers come nearer to the bound. -/
theorem ints_stop {units : Int} (measure : last.Measures units) (n : Int) :
    StopsWithin last (.int step) ((units - n * one).natAbs + 1) (.int n) := by
  generalize distance : (units - n * one).natAbs = d
  induction d using Nat.strongRecOn generalizing n with
  | ind d ih =>
    by_cases more : goesOn last (.int step) (.int n) = true
    case neg => exact stopsWithin_of_stop (Bool.eq_false_iff.mpr more) d
    refine (stopsWithin_next more (y := .int (n + step)) rfl).mpr ?_
    rw [goesOn_ints_iff step measure] at more
    obtain ⟨d, rfl⟩ : ∃ less, d = less + 1 := Nat.exists_eq_succ_of_ne_zero (by omega)
    by_cases more' : goesOn last (.int step) (.int (n + step)) = true
    case neg => exact stopsWithin_of_stop (Bool.eq_false_iff.mpr more') d
    rw [goesOn_ints_iff step measure] at more'
    have nearer : (units - (n + step) * one).natAbs < d + 1 := by
      rw [Int.add_mul] at *
      rcases more with ⟨up, before⟩ | ⟨down, before⟩
      · have := Int.mul_pos up units_pos
        omega
      · have := Int.mul_neg_of_neg_of_pos down units_pos
        omega
    exact (ih _ nearer _ rfl).mono nearer

theorem ints_end {units : Int} (measure : last.Measures units) (n : Int) :
    Ends last (.int step) (.int n) :=
  ends_iff.mpr ⟨_, ints_stop measure n⟩

/-- Where the loop of a range of integers ends it gives the integers of the range. -/
theorem numbersFrom_ints {stop : Int} {fuel : Nat} {current : Int} {earlier numbers : List Number}
    (ended : numbersFrom (.int stop) (.int step) fuel (.int current) earlier = .ok (some numbers)) :
    numbers = earlier.reverse ++
      (progression current step (count current stop step)).map Number.int := by
  induction fuel generalizing current earlier with
  | zero => cases ended
  | succ fuel ih =>
    have test := goesOn_ints_iff step (measures_int stop) current
    rw [Int.mul_lt_mul_right units_pos, Int.mul_lt_mul_right units_pos, ← count_pos_iff] at test
    rw [numbersFrom_succ] at ended
    split at ended
    · rename_i more
      rw [ih ended, count_eq_succ (test.mp more), progression_succ]
      simp
    · rename_i done
      have none : count current stop step = 0 := Nat.eq_zero_of_not_pos (mt test.mpr done)
      cases ended
      simp [none, progression]

end Ints

/-! ### All loops -/

section All

variable {first last step : Number}

theorem unbounded_or_settles (last step first : Number) :
    Unbounded last step first ∨ Settles last step (enough first last) first := by
  rw [enough]
  rcases add_cases first step with ⟨a, s, rfl, rfl⟩ | ⟨_, failed⟩ | ⟨x, y, -, -, sum⟩
  · have measured {units : Int} (measure : last.Measures units) :
        Settles last (.int s) ((extent (.int a)).natAbs + (extent last).natAbs + outOfRange + 4)
          (.int a) := by
      refine .inl ((ints_stop measure a).mono ?_)
      rw [measure.extent_eq, (measures_int a).extent_eq]
      omega
    rcases last with n | source | negative | ⟨negative, units⟩
    · exact .inr (measured (measures_int n))
    · exact .inr (.of_stop (stops_at_nan _ _ source) _)
    · by_cases more : goesOn (.real (infinity negative)) (.int s) (.int a) = true
      · exact .inl ⟨a, s, negative, rfl, rfl, rfl, more⟩
      · exact .inr (.of_stop (Bool.eq_false_iff.mpr more) _)
    · exact .inr (measured (measures_finite negative units))
  · exact .inr (.inl (stopsWithin_of_fault failed _))
  · refine .inr (Settles.mono (.of_sum sum (.inr (real_settles last step (proper_add x y)))) ?_)
    omega

theorem Unbounded.not_ends (unbounded : Unbounded last step first) : ¬ Ends last step first := by
  obtain ⟨a, s, negative, rfl, rfl, rfl, more⟩ := unbounded
  have still (b : Int) : goesOn (.real (infinity negative)) (.int s) (.int b) = true := by
    rw [← more]
    cases negative <;> rfl
  have always (k : Nat) (b : Int) :
      ∃ z, Counts (.real (infinity negative)) (.int s) k (.int b) z := by
    induction k generalizing b with
    | zero => exact ⟨_, .here _⟩
    | succ k ih =>
      obtain ⟨z, rest⟩ := ih (b + s)
      exact ⟨z, .next (still b) rfl rest⟩
  rw [ends_iff]
  rintro ⟨k, none⟩
  obtain ⟨z, counts⟩ := always k a
  exact none z counts

theorem ends_iff_not : Ends last step first ↔ ¬ Unbounded last step first ∧ ¬ Lost last step first := by
  constructor
  · exact fun ends => ⟨fun unbounded => unbounded.not_ends ends, fun lost => lost.not_ends ends⟩
  · rintro ⟨bounded, kept⟩
    exact ends_iff.mpr ⟨_, ((unbounded_or_settles last step first).resolve_left bounded).resolve_right kept⟩

/-- A loop that ends does so with the fuel of a range. -/
theorem Ends.stopsWithin_enough (ends : Ends last step first) :
    StopsWithin last step (enough first last) first := by
  obtain ⟨bounded, kept⟩ := ends_iff_not.mp ends
  exact ((unbounded_or_settles last step first).resolve_left bounded).resolve_right kept

/-- Bounds that are nearer to zero than so many steps as a double tells apart. -/
def Near (last step first : Number) : Prop :=
  ∃ a m b n units, first.toDouble = .ok (finite a m) ∧ (finite a m).Proper ∧
    step.toDouble = .ok (finite b n) ∧ last.Measures units ∧
    m < 2 ^ 53 * n ∧ units.natAbs < 2 ^ 53 * n

theorem Near.ends (near : Near last step first) : Ends last step first := by
  obtain ⟨a, m, b, n, units, left, proper, right, measure, low, high⟩ := near
  rcases add_cases first step with ⟨i, s, rfl, rfl⟩ | ⟨_, failed⟩ | ⟨_, _, left', right', sum⟩
  · exact ints_end measure i
  · exact ends_iff.mpr ⟨1, stopsWithin_of_fault failed 0⟩
  cases left.symm.trans left'
  cases right.symm.trans right'
  refine ends_iff_not.mpr ⟨?_, ?_⟩
  · rintro ⟨_, _, negative, -, -, rfl, -⟩
    cases negative <;> cases measure
  · rintro ⟨j, z, counts, more, same⟩
    have ahead : Ahead (signed a m) (signed b n) z := by
      rcases counts.ahead right sum proper more with rfl | ahead
      · -- The first number is its own sum, so it is the double that it becomes.
        cases sum.symm.trans same
        rw [Except.ok.inj left]
        exact ⟨a, m, rfl, proper, fun _ => Int.le_refl _, fun _ => Int.le_refl _⟩
      · exact ahead
    obtain ⟨c, k, rfl, ⟨short, inside⟩, up, down⟩ := ahead
    have kept := Except.ok.inj ((real_add right).symm.trans same)
    have lost := le_of_add_eq short (Number.real.inj kept)
    have toward := towards right inside more
    rw [measure.extent_eq] at toward
    have origin := natAbs_signed a m
    have place := natAbs_signed c k
    omega

end All

/-! ### Ranges -/

/-- The loop of a range ends. -/
def RangeEnds (start stop step : Value) : Prop :=
  Ends (ends start stop).2 (bound step) (ends start stop).1

theorem numbersFrom_raises (last step : Number) (fuel : Nat) (x : Number) (earlier : List Number) :
    RaisesOfNumbers (numbersFrom last step fuel x earlier) := by
  induction fuel generalizing x earlier with
  | zero => exact raises_ok _
  | succ fuel ih =>
    rw [numbersFrom_succ]
    split
    · exact raises_bind (Number.combine_raises _ _ x step) fun next _ => ih next _
    · exact raises_ok _

section Between

variable {first last step : Number}

/-- Integers between bounds are counted, other numbers are those of the loop. -/
theorem between_cases (first last step : Number) :
    (∃ a b s, first = .int a ∧ last = .int b ∧ step = .int s) ∨
      between first last step = numbersFrom last step (enough first last) first [] >>= listed := by
  cases first <;> cases last <;> cases step
  case int.int.int a b s => exact .inl ⟨a, b, s, rfl, rfl, rfl⟩
  all_goals exact .inr rfl

/-- The numbers of a range are those of its loop. -/
theorem between_of_ended {fuel : Nat} {numbers : List Number}
    (ended : numbersFrom last step fuel first [] = .ok (some numbers)) :
    between first last step = .ok (.list (numbers.map Value.ofNumber)) := by
  rcases between_cases first last step with ⟨a, b, s, rfl, rfl, rfl⟩ | loop
  · rw [numbersFrom_ints ended, between, ints_eq]
    simp [Value.ofNumber]
  have some_numbers : numbersFrom last step (enough first last) first [] = .ok (some numbers) := by
    have ends : Ends last step first := ⟨fuel, by simp [ended]⟩
    have stops := stopsWithin_iff.mp ends.stopsWithin_enough
    rcases Nat.le_total fuel (enough first last) with le | le
    · rw [numbersFrom_mono le (by simp [ended]), ended]
    · rw [← numbersFrom_mono le stops, ended]
  rw [loop, some_numbers]
  rfl

theorem between_endless_iff : between first last step = .error .endless ↔ ¬ Ends last step first := by
  rcases between_cases first last step with ⟨a, b, s, rfl, rfl, rfl⟩ | loop
  · have ends : Ends (.int b) (.int s) (.int a) := ints_end (measures_int b) a
    simp [between, ends]
  rw [loop]
  constructor
  · intro endless ends
    have stops := stopsWithin_iff.mp ends.stopsWithin_enough
    cases run : numbersFrom last step (enough first last) first [] with
    | error fault =>
      rw [run] at endless
      cases endless
      exact numbersFrom_raises _ _ _ _ _ _ run
    | ok numbers =>
      cases numbers with
      | none => exact stops run
      | some numbers =>
        rw [run] at endless
        cases endless
  · intro endless
    have none : numbersFrom last step (enough first last) first [] = .ok none :=
      by_contra fun ended => endless ⟨_, ended⟩
    rw [none]
    rfl

end Between

/-- A range ends, unless integers count towards an infinity or a step is lost before the bound. So it
ends if it is one of integers, or if its bounds are nearer to zero than 2⁵³ steps. The numbers of its
loop are the range, and a range that does not end is never answered. -/
theorem range_ends_iff (start stop step : Value) :
    let first := (ends start stop).1
    let last := (ends start stop).2
    let width := bound step
    (RangeEnds start stop step ↔ ¬ Unbounded last width first ∧ ¬ Lost last width first) ∧
    ((∃ a b s, first = .int a ∧ last = .int b ∧ width = .int s) ∨ Near last width first →
      RangeEnds start stop step) ∧
    (∀ fuel numbers, numbersFrom last width fuel first [] = .ok (some numbers) →
      range start stop step = .ok (.list (numbers.map Value.ofNumber))) ∧
    (range start stop step = .error .endless ↔ ¬ RangeEnds start stop step) := by
  intro first last width
  refine ⟨ends_iff_not, ?_, fun fuel numbers ended => ?_, ?_⟩
  · rintro (⟨a, b, s, start, stop, step⟩ | near)
    · change Ends last width first
      rw [start, stop, step]
      exact ints_end (measures_int b) a
    · exact near.ends
  · rw [range_eq]
    exact between_of_ended ended
  · rw [range_eq]
    exact between_endless_iff

/-- Half of one. -/
def half : Double := finite false (2 ^ 1073)

theorem halves_end :
    RangeEnds (.int 0) (.int 1) (.float half) ∧
      range (.int 0) (.int 1) (.float half) = .ok (.list [.int 0, .float half]) := by
  have loop := range_ends_iff (.int 0) (.int 1) (.float half)
  have measure : (ends (.int 0) (.int 1)).2.Measures (1 * one) := by
    rw [show (ends (.int 0) (.int 1)).2 = .int 1 by decide]
    exact measures_int 1
  refine ⟨loop.2.1 (.inr ?_), loop.2.2.1 3 [.int 0, .real half] ?_⟩
  · exact ⟨false, 0, false, 2 ^ 1073, 1 * one, by decide +kernel, ⟨isShort_zero, by decide +kernel⟩,
      by decide +kernel, measure, by decide +kernel, by decide +kernel⟩
  · decide +kernel

/-- From here on not every integer is a double. -/
def brim : Double := finite false (2 ^ 53 * one)

def beyond : Double := finite false ((2 ^ 53 + 2) * one)

/-- One more than the brim is no double and is rounded back to it. -/
theorem range_at_brim_is_endless : ¬ ∀ start stop step : Value, RangeEnds start stop step := by
  intro all
  have lost : Lost (.real beyond) (.int 1) (.real brim) :=
    ⟨0, _, .here _, by decide +kernel, by decide +kernel⟩
  have bounds : ends (.float brim) (.float beyond) = (.real brim, .real beyond) := by decide +kernel
  have ended := all (.float brim) (.float beyond) (.int 1)
  rw [RangeEnds, bounds, bound_int] at ended
  exact lost.not_ends ended

end Functions
end Stencil
