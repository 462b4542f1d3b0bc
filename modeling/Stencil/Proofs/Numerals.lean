import Stencil.Operator
import Stencil.Proofs.Lexemes
import Stencil.Proofs.Rounding

/-! Numerals. The text of an integer stands for the integer that it becomes as a double: so the text
reads back, and is equal to the integer, exactly where the integer is a double. -/
namespace Stencil

/-! ### Reading decimals -/

namespace Reading
open Double

variable {n : Int}

/-- The characters of an integer. -/
def numeral (n : Int) : List Char :=
  if n < 0 then '-' :: Value.decimalDigits n else Value.decimalDigits n

theorem toList_decimalText (n : Int) : (Value.decimalText n).toList = numeral n :=
  String.toList_ofList

theorem isTight_numeral (n : Int) : Text.IsTight (numeral n) := by
  have digits : Text.IsTight (Value.decimalDigits n) :=
    Notation.isTight_of_isWord (Text.isWord_toDigits n.natAbs) Nat.toDigits_ne_nil
  unfold numeral
  split
  · exact Notation.isTight_append (Notation.isTight_singleton (c := '-') (by decide)) digits []
  · exact digits

theorem trim_numeral (n : Int) : Text.trim (numeral n) = numeral n := by
  have trimmed := Text.trim_of_isTight [] [] (isTight_numeral n) (by simp) (by simp)
  rwa [List.nil_append, List.append_nil] at trimmed

theorem sign_numeral (n : Int) : sign (numeral n) = (decide (n < 0), Nat.toDigits 10 n.natAbs) := by
  unfold numeral
  split
  · rename_i negative
    rw [decide_eq_true negative]
    rfl
  · rename_i positive
    rw [decide_eq_false positive]
    exact sign_toDigits n.natAbs

theorem not_pointed (n : Int) : ∀ c ∈ numeral n, c ≠ '.' ∧ c ≠ 'e' ∧ c ≠ 'E' := by
  have digits : ∀ c ∈ Value.decimalDigits n, c ≠ '.' ∧ c ≠ 'e' ∧ c ≠ 'E' :=
    fun c => Text.forall_mem_toDigits (p := fun c => c ≠ '.' ∧ c ≠ 'e' ∧ c ≠ 'E') (by decide)
  unfold numeral
  split
  · exact List.forall_mem_cons.mpr ⟨by decide, digits⟩
  · exact digits

/-- Digits are no word that stands for a double. -/
theorem special?_toDigits (negative : Bool) (n : Nat) :
    special? negative (Nat.toDigits 10 n) = none := by
  obtain ⟨c, rest, shape⟩ := List.exists_cons_of_ne_nil (Nat.toDigits_ne_nil (n := n) (b := 10))
  have digit : c ∈ Nat.toDigits 10 n := by simp [shape]
  obtain ⟨notI, notN⟩ :=
    Text.forall_mem_toDigits (p := fun c => c.toLower ≠ 'i' ∧ c.toLower ≠ 'n') (by decide) digit
  have other {d : Char} {word : List Char} (apart : c.toLower ≠ d) :
      (String.ofList ((c :: rest).map Char.toLower) == String.ofList (d :: word)) = false := by
    rw [beq_eq_false_iff_ne]
    intro same
    have lists := congrArg String.toList same
    rw [String.toList_ofList, String.toList_ofList] at lists
    exact apart (List.cons.inj lists).1
  have infWord : "inf" = String.ofList ['i', 'n', 'f'] := rfl
  have infinityWord : "infinity" = String.ofList ['i', 'n', 'f', 'i', 'n', 'i', 't', 'y'] := rfl
  have nanWord : "nan" = String.ofList ['n', 'a', 'n'] := rfl
  rw [shape, special?, infWord, infinityWord, nanWord]
  simp only [other notI, other notN, Bool.or_self, Bool.false_eq_true, if_false]

theorem ten_pow_le_of_length {m k : Nat} (pos : 0 < k) (long : k < (Nat.toDigits 10 m).length) :
    10 ^ k ≤ m := by
  by_contra small
  have short := (Nat.length_toDigits_le_iff (by decide) pos).mpr (Nat.lt_of_not_le small)
  exact Nat.not_le_of_gt long short

theorem isTooLarge_of_length (long : 330 < (Nat.toDigits 10 n.natAbs).length) : IsTooLarge n := by
  have bound : 2 ^ 1024 - 2 ^ 970 ≤ 10 ^ 330 := by decide +kernel
  exact Nat.le_trans bound (ten_pow_le_of_length (by decide) long)

/-- A decimal without places is rounded as the integer is. -/
theorem ofDecimal_whole (n : Int) : ofDecimal (n < 0) n.natAbs 0 = ofInt n := by
  rcases eq_or_ne n 0 with rfl | nonzero
  · decide +kernel
  have mantissa : (n.natAbs == 0) = false := by simpa using nonzero
  have leading : ((Nat.toDigits 10 n.natAbs).length : Int) + 0 =
    (Nat.toDigits 10 n.natAbs).length := Int.add_zero _
  have visible : ¬ ((Nat.toDigits 10 n.natAbs).length : Int) < -330 := by omega
  rw [ofDecimal]
  simp only [leading, mantissa, visible, Bool.false_or, decide_false, Bool.false_eq_true, if_false]
  by_cases long : 330 < (Nat.toDigits 10 n.natAbs).length
  · rw [if_pos (by omega), ofInt_of_isTooLarge (isTooLarge_of_length long)]
  · have one : n.natAbs * Nat.pow 10 (0 : Int).natAbs = n.natAbs := Nat.mul_one _
    rw [if_neg (by omega), if_neg (by decide), one, ofInt]

theorem double?_numeral (n : Int) : double? (numeral n) = some (ofInt n) := by
  obtain ⟨digits, run, value, count⟩ := digitRun_toDigits n.natAbs
  have read : digits.isEmpty = false := by
    rw [List.isEmpty_eq_false_iff, ← List.length_pos_iff, count]
    exact List.length_pos_iff.mpr Nat.toDigits_ne_nil
  rw [double?, trim_numeral, sign_numeral]
  simp only [special?_toDigits, run, fraction, exponent, read, List.append_nil, value]
  exact congrArg some (ofDecimal_whole n)

end Reading

namespace Value
open Double

variable {n : Int}

/-- The text of an integer stands for what the double of the integer does. -/
theorem numberOfText_decimalText (n : Int) :
    numberOfText (decimalText n).toList = some (match ofInt n with
      | .finite negative units =>
        if (Double.finite negative units).isIntegral then .int (signed negative (units / one))
        else .real (.finite negative units)
      | x => .real x) := by
  have some : (Reading.numeral n).isEmpty = false :=
    List.isEmpty_eq_false_iff.mpr (Reading.isTight_numeral n).nonempty
  have plain : (Reading.numeral n).any (fun c => c == '.' || c == 'e' || c == 'E') = false := by
    rw [List.any_eq_false]
    intro c member
    have other := Reading.not_pointed n c member
    simp [other]
  rw [Reading.toList_decimalText, numberOfText, Reading.trim_numeral]
  simp only [some, Reading.double?_numeral, plain]
  cases ofInt n with
  | finite negative units =>
    cases integral : (Double.finite negative units).isIntegral <;> simp [integral]
  | _ => rfl

theorem numberOfText_of_inRange (inRange : ¬ IsTooLarge n) :
    numberOfText (decimalText n).toList = some (.int (whole n)) := by
  have integral (negative : Bool) (k : Nat) :
      (Double.finite negative (k * one)).isIntegral = true := by
    rw [isIntegral, Nat.mul_mod_left]
    rfl
  rw [numberOfText_decimalText, ofInt_of_inRange inRange]
  simp only [integral, if_true, Nat.mul_div_cancel _ Double.one_pos, whole]

theorem numberOfText_of_isTooLarge (tooLarge : IsTooLarge n) :
    numberOfText (decimalText n).toList = some (.real (.infinity (n < 0))) := by
  rw [numberOfText_decimalText, ofInt_of_isTooLarge tooLarge]

/-- Of the integers in range those that are doubles, and no others, stand for themselves. -/
theorem numberOfText_eq_iff :
    numberOfText (decimalText n).toList = some (.int n) ↔ IsExact n := by
  by_cases tooLarge : IsTooLarge n
  · rw [numberOfText_of_isTooLarge tooLarge]
    exact iff_of_false (by simp) fun exact => exact.not_isTooLarge tooLarge
  · rw [numberOfText_of_inRange tooLarge]
    constructor
    · intro same
      obtain same : whole n = n := by simpa using same
      exact same ▸ (isNearest_whole tooLarge).exact
    · intro exact
      rw [whole_of_isExact exact]

end Value

/-! ### Equality -/

namespace Number
open Double

theorem eq_int (m n : Int) : eq (int m) (int n) = decide (m = n) := by
  have unit : (Double.one : Int) ≠ 0 := Int.natCast_ne_zero.mpr (Nat.ne_of_gt Double.one_pos)
  have ranks : eq (int m) (int n) = (compare (m * Double.one) (n * Double.one) == .eq) := rfl
  rw [ranks, Bool.beq_eq_decide_eq, decide_eq_decide, compare_eq_iff_eq,
    Int.mul_eq_mul_right_iff unit]

theorem eq_infinity (negative : Bool) (n : Int) : eq (real (.infinity negative)) (int n) = false := by
  cases negative <;> rfl

end Number

namespace Operator
open Double Value

variable {n : Int}

theorem looseEqual_of_number {t : String} {a : Number} (stands : numberOfText t.toList = some a) :
    looseEqual (.text t) (.int n) = a.eq (.int n) := by
  simp [looseEqual, isMissing, asText?, numeric?, toNumber, stands]

theorem looseEqual_decimalText : looseEqual (.text (decimalText n)) (.int n) = true ↔ IsExact n := by
  by_cases tooLarge : IsTooLarge n
  · rw [looseEqual_of_number (numberOfText_of_isTooLarge tooLarge), Number.eq_infinity]
    exact iff_of_false (by simp) fun exact => exact.not_isTooLarge tooLarge
  · rw [looseEqual_of_number (numberOfText_of_inRange tooLarge), ← numberOfText_eq_iff,
      numberOfText_of_inRange tooLarge, Number.eq_int]
    simp

theorem toText_of_short (short : (decimalDigits n).length ≤ Fault.digitLimit) :
    (Value.int n).toText = .ok (decimalText n) := by
  rw [toText, intText, if_neg (Nat.not_lt.mpr short)]

/-- The text of an integer of at most as many digits as are written reads back as the integer, and
is equal to it, exactly where the integer is a double. Otherwise it stands for a double nearest to
the integer, or an infinity if the integer is too large. -/
theorem integer_text_reads_back_as_double
    (short : (decimalDigits n).length ≤ Fault.digitLimit) :
    ∃ t, (Value.int n).toText = .ok t ∧
      ((Value.text t).toNumber = some (.int n) ↔ IsExact n) ∧
      (∃ verdict, compareBy "==" (.text t) (.int n) = .ok verdict ∧ (verdict = true ↔ IsExact n)) ∧
      (¬ IsTooLarge n → ∃ x, IsNearest n x ∧ (Value.text t).toNumber = some (.int x)) ∧
      (IsTooLarge n → (Value.text t).toNumber = some (.real (.infinity (n < 0))))  := by
  refine ⟨decimalText n, toText_of_short short, numberOfText_eq_iff,
    ⟨_, rfl, looseEqual_decimalText⟩, ?inRange, ?tooLarge⟩
  case inRange =>
    intro inRange
    exact ⟨whole n, isNearest_whole inRange, numberOfText_of_inRange inRange⟩
  case tooLarge => exact numberOfText_of_isTooLarge

theorem power_text_reads_back :
    (decimalDigits (-2 ^ 100)).length ≤ Fault.digitLimit ∧ ∃ t,
      (Value.int (-2 ^ 100)).toText = .ok t ∧
      (Value.text t).toNumber = some (.int (-2 ^ 100)) ∧
      compareBy "==" (.text t) (.int (-2 ^ 100)) = .ok true := by
  have short : (decimalDigits (-2 ^ 100)).length ≤ Fault.digitLimit := by decide +kernel
  have exact : IsExact (-2 ^ 100) := ⟨⟨1, 100, by decide, by decide⟩, by decide +kernel⟩
  obtain ⟨t, written, read, ⟨verdict, compared, equal⟩, -⟩ := integer_text_reads_back_as_double short
  rw [equal.mpr exact] at compared
  exact ⟨short, t, written, read.mpr exact, compared⟩

/-- The least odd number of more bits than a double has. -/
theorem odd_text_reads_back_as_even :
    ¬ ∀ n : Int, (decimalDigits n).length ≤ Fault.digitLimit → ∃ t,
      (Value.int n).toText = .ok t ∧ (Value.text t).toNumber = some (.int n) ∧
      compareBy "==" (.text t) (.int n) = .ok true := by
  intro readsBack
  have short : (decimalDigits (2 ^ 53 + 1)).length ≤ Fault.digitLimit := by decide +kernel
  obtain ⟨t, written, read, -⟩ := readsBack (2 ^ 53 + 1) short
  rw [toText_of_short short] at written
  cases written
  have exact : IsExact (2 ^ 53 + 1) := numberOfText_eq_iff.mp read
  exact absurd (whole_of_isExact exact) (by decide +kernel)

end Operator
end Stencil
