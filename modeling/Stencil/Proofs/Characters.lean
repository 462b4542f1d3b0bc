import Stencil.Markup.Bracket
import Stencil.Operator
import Mathlib.Data.List.TakeWhile

/-! Classes of characters exclude each other: what may stand in names is neither blank nor a mark,
and a digit begins no name. -/
namespace Stencil.Text

/-! ### Names and blanks -/

theorem ne_of_isNamePart {c d : Char} (part : isNamePart c = true) (other : isNamePart d = false) :
    c ≠ d := by
  rintro rfl
  rw [part] at other
  contradiction

theorem not_covers_of_apart {some others : Ranges} {c : Char}
    (apart : (some.all fun r => others.all fun s => r.2 < s.1 || s.2 < r.1) = true)
    (covered : some.covers c = true) : others.covers c = false := by
  obtain ⟨r, member, within⟩ := List.any_eq_true.mp covered
  have clear := List.all_eq_true.mp (List.all_eq_true.mp apart r member)
  rw [Ranges.covers, List.any_eq_false]
  intro s other
  have between := clear s other
  simp only [Bool.or_eq_true, Bool.and_eq_true, decide_eq_true_eq] at between within ⊢
  omega

theorem ascii_forall {p : Char → Prop} (holds : ∀ n < 128, p (Char.ofNat n)) (c : Char)
    (ascii : c.toNat < 128) : p c := by
  have here := holds c.toNat ascii
  rwa [Char.ofNat_toNat] at here

theorem not_isBlank_of_isNamePart {c : Char} (part : isNamePart c = true) : isBlank c = false := by
  by_cases ascii : c.toNat < 128
  · exact ascii_forall (p := fun c => isNamePart c = true → isBlank c = false)
      (by decide +kernel) c ascii part
  · have other : c ≠ '$' := by
      rintro rfl
      exact ascii (by decide)
    have letter : letters.covers c = true := by
      simpa [isNamePart, isWord, ascii, other] using part
    exact not_covers_of_apart (by decide +kernel) letter

theorem isBlank_space : isBlank ' ' = true := rfl

theorem ascii_of_le {c : Char} (last : Char) (below : c.val ≤ last.val) (ascii : last.toNat < 128) :
    c.toNat < 128 :=
  Nat.lt_of_le_of_lt (UInt32.le_iff_toNat_le.mp below) ascii

theorem ascii_of_isNameStart {c : Char} (start : isNameStart c = true) : c.toNat < 128 := by
  change (decide (c.val ≥ 'A'.val ∧ c.val ≤ 'Z'.val) || (c.val ≥ 'a'.val && c.val ≤ 'z'.val) ||
    c == '_' || c == '$') = true at start
  simp only [Bool.or_eq_true, Bool.and_eq_true, decide_eq_true_eq, beq_iff_eq] at start
  rcases start with ((upper | lower) | rfl) | rfl
  · exact ascii_of_le 'Z' upper.2 (by decide)
  · exact ascii_of_le 'z' lower.2 (by decide)
  · decide
  · decide

theorem isNamePart_of_isNameStart {c : Char} (start : isNameStart c = true) :
    isNamePart c = true :=
  ascii_forall (p := fun c => isNameStart c = true → isNamePart c = true)
    (by decide +kernel) c (ascii_of_isNameStart start) start

theorem not_isDigit_of_isNameStart {c : Char} (start : isNameStart c = true) :
    isDigit c = false :=
  ascii_forall (p := fun c => isNameStart c = true → isDigit c = false)
    (by decide +kernel) c (ascii_of_isNameStart start) start

/-! ### Words -/

/-- A text of characters that names are made of. -/
def IsWord (text : List Char) : Prop := ∀ c ∈ text, isNamePart c = true

theorem takeWhile_append_of_stop {p : Char → Bool} {word rest : List Char}
    (every : ∀ c ∈ word, p c = true) (stop : rest.head?.all (!p ·) = true) :
    (word ++ rest).takeWhile p = word := by
  rw [List.takeWhile_append_of_pos every]
  cases rest with
  | nil => simp
  | cons c more =>
    have stays : p c = false := by simpa using stop
    simp [stays]

theorem isName_cons {c : Char} {rest : List Char} :
    isName (c :: rest) = true ↔ isNameStart c = true ∧ IsWord rest := by
  cases start : isNameStart c with
  | false => simp [isName, leadingName, start]
  | true => simp [isName, leadingName, start, IsWord, List.takeWhile_eq_self_iff]

/-- A name is a character that may begin it and characters that may continue it. -/
theorem exists_cons_of_isName {text : List Char} (name : isName text = true) :
    ∃ c rest, text = c :: rest ∧ isNameStart c = true ∧ IsWord rest := by
  cases text with
  | nil => contradiction
  | cons c rest => exact ⟨c, rest, rfl, isName_cons.mp name⟩

theorem isWord_of_isName {text : List Char} (name : isName text = true) : IsWord text := by
  obtain ⟨c, rest, rfl, start, word⟩ := exists_cons_of_isName name
  intro d member
  rcases List.mem_cons.mp member with rfl | later
  · exact isNamePart_of_isNameStart start
  · exact word d later

theorem leadingName_append {name rest : List Char} (valid : isName name = true)
    (stop : rest.head?.all (!isNamePart ·) = true) : leadingName (name ++ rest) = name := by
  obtain ⟨c, more, rfl, start, word⟩ := exists_cons_of_isName valid
  rw [List.cons_append, leadingName, if_pos start, takeWhile_append_of_stop word stop]

/-! ### Trimming -/

/-- A text with blanks neither at its start nor at its end. -/
structure IsTight (text : List Char) : Prop where
  starts : ∃ c rest, text = c :: rest ∧ isBlank c = false
  ends : ∃ before c, text = before ++ [c] ∧ isBlank c = false

theorem IsTight.nonempty {text : List Char} (tight : IsTight text) : text ≠ [] := by
  obtain ⟨c, rest, rfl, -⟩ := tight.starts
  simp

theorem dropWhile_append_of_stop {p : Char → Bool} {run rest : List Char} {c : Char}
    (every : ∀ c ∈ run, p c = true) (stop : p c = false) :
    (run ++ c :: rest).dropWhile p = c :: rest := by
  rw [List.dropWhile_append_of_pos every, List.dropWhile_cons_of_neg (by simp [stop])]

theorem trimStart_of_isTight {pad text rest : List Char} (tight : IsTight text)
    (blank : ∀ c ∈ pad, isBlank c = true) : trimStart (pad ++ (text ++ rest)) = text ++ rest := by
  obtain ⟨c, more, rfl, visible⟩ := tight.starts
  exact dropWhile_append_of_stop blank visible

theorem trimEnd_of_isTight {text pad : List Char} (tight : IsTight text)
    (blank : ∀ c ∈ pad, isBlank c = true) : trimEnd (text ++ pad) = text := by
  obtain ⟨before, c, rfl, visible⟩ := tight.ends
  rw [trimEnd, List.reverse_append, List.reverse_append, List.reverse_singleton,
    List.singleton_append, dropWhile_append_of_stop (by simpa using blank) visible]
  simp

theorem trim_of_isTight (before after : List Char) {text : List Char} (tight : IsTight text)
    (front : ∀ c ∈ before, isBlank c = true) (back : ∀ c ∈ after, isBlank c = true) :
    trim (before ++ (text ++ after)) = text := by
  rw [trim, trimStart_of_isTight tight front, trimEnd_of_isTight tight back]

theorem not_all_isBlank_of_isTight {before text after : List Char} (tight : IsTight text) :
    (before ++ (text ++ after)).all isBlank = false := by
  obtain ⟨c, more, rfl, visible⟩ := tight.starts
  simp [visible]

/-! ### Digits -/

/-- What can be checked of a list's items one by one holds of each. -/
theorem forall_mem_of_all {α : Type} {p : α → Prop} [DecidablePred p] {items : List α}
    (holds : items.all (fun a => decide (p a)) = true) : ∀ a ∈ items, p a :=
  fun a member => of_decide_eq_true (List.all_eq_true.mp holds a member)

def decimals : List Char := ['0', '1', '2', '3', '4', '5', '6', '7', '8', '9']

theorem mem_decimals_of_mem_toDigits {n : Nat} {c : Char} (member : c ∈ Nat.toDigits 10 n) :
    c ∈ decimals := by
  have digit := Nat.isDigit_of_mem_toDigits (by decide) (by decide) member
  have ascii : c.toNat < 128 := by
    simp only [Char.isDigit, Bool.and_eq_true, decide_eq_true_eq] at digit
    exact ascii_of_le '9' digit.2 (by decide)
  exact ascii_forall (p := fun c => c.isDigit = true → _) (by decide +kernel) c ascii digit

/-- The digits of a number are characters of which this can be checked. -/
theorem forall_mem_toDigits {p : Char → Prop} [DecidablePred p]
    (holds : decimals.all (fun c => decide (p c)) = true) {n : Nat} {c : Char}
    (member : c ∈ Nat.toDigits 10 n) : p c :=
  forall_mem_of_all holds c (mem_decimals_of_mem_toDigits member)

theorem isDigit_of_mem_toDigits {n : Nat} {c : Char} (member : c ∈ Nat.toDigits 10 n) :
    isDigit c = true :=
  forall_mem_toDigits (p := (isDigit · = true)) (by decide) member

theorem not_mem_toDigits {n : Nat} {c : Char} (other : isDigit c = false) :
    c ∉ Nat.toDigits 10 n := by
  intro member
  rw [isDigit_of_mem_toDigits member] at other
  contradiction

theorem isWord_toDigits (n : Nat) : IsWord (Nat.toDigits 10 n) :=
  fun _ => forall_mem_toDigits (p := (isNamePart · = true)) (by decide)

end Stencil.Text
