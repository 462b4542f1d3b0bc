import Stencil.Proofs.Pieces

/-! Separators. How calls and filters are written, and the pieces that their arguments are read
from: those between separators outside of quotes and brackets that are not blank. -/
namespace Stencil.Markup
open Text

/-! ### Cutting -/

section Cutting

variable {separator : Char} {text more : List Char}

/-- What stands behind a text does not matter for what is outside in it. -/
theorem zip_outsideFrom_append (quote : Option Char) (escaped : Bool) (depth : Nat)
    (text more : List Char) : ∃ flags,
      (text ++ more).zip (outsideFrom quote escaped depth (text ++ more)) =
        text.zip (outsideFrom quote escaped depth text) ++ more.zip flags := by
  induction text generalizing quote escaped depth with
  | nil => exact ⟨_, rfl⟩
  | cons c rest ih =>
    have next (quote : Option Char) (escaped : Bool) (depth : Nat) (flag : Bool) : ∃ flags,
        (c :: (rest ++ more)).zip (flag :: outsideFrom quote escaped depth (rest ++ more)) =
          (c :: rest).zip (flag :: outsideFrom quote escaped depth rest) ++ more.zip flags := by
      obtain ⟨flags, same⟩ := ih quote escaped depth
      exact ⟨flags, by rw [List.zip_cons_cons, List.zip_cons_cons, same, List.cons_append]⟩
    rw [List.cons_append]
    cases quote with
    | none =>
      rw [outsideFrom, outsideFrom]
      cases isQuote c <;> cases isOpener c <;> cases isCloser c <;> exact next _ _ _ _
    | some mark =>
      rw [outsideFrom, outsideFrom]
      cases escaped <;> cases c == '\\' <;> exact next _ _ _ _

theorem cutFrom_of_blank (solid : isBlank separator = false) {start : Nat} {run : List Char}
    {marked : List (Char × Bool)} (blank : ∀ p ∈ marked, isBlank p.1 = true) :
    cutFrom separator start run marked = [⟨run.reverse ++ marked.map (·.1), start⟩] := by
  induction marked generalizing run with
  | nil => simp [cutFrom]
  | cons first rest ih =>
    obtain ⟨here, later⟩ := List.forall_mem_cons.mp blank
    obtain ⟨c, free⟩ := first
    have other : ¬(c == separator && free) = true := by
      rintro both
      rw [eq_of_beq (Bool.and_eq_true_iff.mp both).1, solid] at here
      contradiction
    rw [cutFrom, if_neg other, ih later]
    simp

theorem trimEnd_append_blank {text blanks : List Char} (blank : ∀ c ∈ blanks, isBlank c = true) :
    trimEnd (text ++ blanks) = trimEnd text := by
  rw [trimEnd, trimEnd, List.reverse_append, List.dropWhile_append_of_pos]
  exact fun c member => blank c (List.mem_reverse.mp member)

/-- Blanks behind a piece with a visible character are trimmed. -/
theorem trim_append_blank {text blanks : List Char} (start : Nat)
    (blank : ∀ c ∈ blanks, isBlank c = true) (visible : text.all isBlank = false) :
    Piece.trim ⟨text ++ blanks, start⟩ = Piece.trim ⟨text, start⟩ := by
  obtain ⟨d, member, shows⟩ := List.all_eq_false.mp visible
  have short : (text.takeWhile isBlank).length ≠ text.length := by
    intro whole
    have all := List.takeWhile_eq_self_iff.mp
      ((List.takeWhile_prefix isBlank (l := text)).eq_of_length whole)
    exact shows (all d member)
  have some : text.dropWhile isBlank ≠ [] := fun none =>
    shows (List.dropWhile_eq_nil_iff.mp none d member)
  rw [Piece.trim, Piece.trim, trim, trim, trimStart, trimStart, List.takeWhile_append, if_neg short,
    List.dropWhile_append, if_neg (by simpa using some), trimEnd_append_blank blank]

theorem cutFrom_append_blank (solid : isBlank separator = false) (front : List (Char × Bool))
    {back : List (Char × Bool)} (blank : ∀ p ∈ back, isBlank p.1 = true) (start : Nat)
    (run : List Char) :
    ((cutFrom separator start run (front ++ back)).filter (!·.isBlank)).map (·.trim) =
      ((cutFrom separator start run front).filter (!·.isBlank)).map (·.trim) := by
  induction front generalizing start run with
  | nil =>
    have all : (back.map (·.1)).all isBlank = true := by simpa using blank
    rw [List.nil_append, cutFrom_of_blank solid blank, cutFrom]
    cases visible : run.reverse.all isBlank with
    | true => simp [Piece.isBlank, List.all_append, visible, all]
    | false =>
      have same := trim_append_blank start (List.all_eq_true.mp all) visible
      simp [Piece.isBlank, List.all_append, visible, all, same]
  | cons first rest ih =>
    obtain ⟨c, free⟩ := first
    rw [List.cons_append, cutFrom, cutFrom]
    split
    · have same := ih (start + run.length + 1) []
      rw [List.filter_cons, List.filter_cons]
      split <;> simp [same]
    · exact ih start (c :: run)

/-- Blanks behind the last argument are no part of it. -/
theorem arguments_append_blank (solid : isBlank separator = false) {blanks : List Char}
    (blank : ∀ c ∈ blanks, isBlank c = true) (text : List Char) (base : Nat) :
    arguments separator (text ++ blanks) base = arguments separator text base := by
  obtain ⟨flags, same⟩ := zip_outsideFrom_append none false 0 text blanks
  have behind (p : Char × Bool) (member : p ∈ blanks.zip flags) : isBlank p.1 = true :=
    blank p.1 (List.of_mem_zip member).1
  have pieces := cutFrom_append_blank solid (text.zip (outside text)) behind 0 []
  have shifted := congrArg (List.map fun piece => Piece.shift piece base) pieces
  rw [List.map_map, List.map_map] at shifted
  rw [arguments, arguments, cut, cut, outside, same]
  exact shifted

end Cutting

/-! ### Calls -/

section Calls

variable {text : List Char} {base : Nat} {exclude : List (Nat × Nat)} {head m : Match}

/-- The bracket that empties a stack is the one at its bottom. -/
theorem exists_of_closingFrom {stack : List Char} {quote : Option Char} {offset close : Nat}
    {c : Char} (bottom : stack.getLast? = some c)
    (closed : closingFrom stack quote offset text = some close) :
    ∃ inner after, text = inner ++ c :: after ∧ close = offset + inner.length := by
  have behind {rest : List Char} {offset : Nat} (front : List Char)
      (later : ∃ inner after, rest = inner ++ c :: after ∧
        close = offset + front.length + inner.length) :
      ∃ inner after, front ++ rest = inner ++ c :: after ∧ close = offset + inner.length := by
    obtain ⟨inner, after, rfl, rfl⟩ := later
    exact ⟨front ++ inner, after, by simp, by simp [Nat.add_assoc]⟩
  fun_induction closingFrom stack quote offset text
  case case1 | case2 | case7 | case8 => contradiction
  case case3 ih => exact behind [_, _] (ih bottom closed)
  case case4 ih => exact behind [_] (ih bottom closed)
  case case5 ih => exact behind [_] (ih bottom closed)
  case case6 stack _ _ _ _ closer _ ih =>
    refine behind [_] (ih ?_ closed)
    rw [List.getLast?_cons, bottom]
    rfl
  case case9 d rest _ _ _ expected outer same last =>
    obtain rfl : expected = c := by simpa [List.isEmpty_iff.mp last] using bottom
    obtain rfl : expected = d := by simpa using same
    obtain rfl := Option.some.inj closed
    exact ⟨[], rest, rfl, rfl⟩
  case case10 outer _ deeper ih =>
    refine behind [_] (ih ?_ closed)
    obtain ⟨d, others, rfl⟩ := List.exists_cons_of_ne_nil (by simpa using deeper)
    simpa using bottom
  case case11 ih => exact behind [_] (ih bottom closed)

/-- A call is a name and, in parentheses, what its arguments are cut from. -/
structure Match.WrittenCall (m : Match) (callee gap inner : List Char) : Prop where
  text : m.text = callee ++ (gap ++ '(' :: (inner ++ [')']))
  blank : ∀ c ∈ gap, isBlank c = true
  detail : m.detail =
    .call callee inner (arguments ',' inner (m.start + callee.length + gap.length + 1))

theorem writtenCall_of_callMatch (found : head ∈ scan .function text 0 exclude)
    (built : callMatch? text base head = some m) :
    ∃ callee gap inner, m.WrittenCall callee gap inner := by
  obtain ⟨before, rest, hit, rfl, -, hits, -, -, rfl⟩ := Notation.exists_hit_of_mem_scan found
  obtain ⟨callee, gap, after, rfl, -, -, blank, rfl⟩ := hit_of_callHead hits
  rw [Notation.shift_zero] at built
  generalize named : Hit.toMatch _ Category.function _ before.length = head at built
  have start : head.start = before.length := by rw [← named]; rfl
  have capture : head.capture 0 = callee := by
    rw [← named]
    simp [Hit.toMatch, Match.capture, Match.captures]
  have place : head.stop - 1 = (before ++ (callee ++ gap)).length := by
    rw [← named]
    simp only [Match.stop, Hit.toMatch, List.length_take, List.length_append, List.length_cons]
    omega
  have whole : before ++ (callee ++ (gap ++ '(' :: after)) =
      (before ++ (callee ++ gap)) ++ '(' :: after := by simp
  have behind : (before ++ (callee ++ (gap ++ '(' :: after))).drop (head.stop - 1) =
      '(' :: after := by rw [whole, place, List.drop_left]
  obtain ⟨close, closed, rfl⟩ := Notation.exists_of_callMatch built
  rw [closing?, behind, closingFrom_opens rfl] at closed
  obtain ⟨inner, tail, rfl, rfl⟩ :=
    exists_of_closingFrom (by rfl : [')'].getLast? = some ')') closed
  have inside : ((before ++ (callee ++ (gap ++ '(' :: (inner ++ ')' :: tail)))).drop
      (head.stop - 1 + 1)).take (head.stop - 1 + 1 + inner.length - (head.stop - 1) - 1) =
        inner := by
    have size : head.stop - 1 + 1 + inner.length - (head.stop - 1) - 1 = inner.length := by omega
    rw [← List.drop_drop, behind, size, List.drop_one, List.tail_cons, List.take_left]
  rw [inside, capture]
  refine ⟨callee, gap, inner, ?_, blank, ?_⟩
  · have size : head.stop - 1 + 1 + inner.length + 1 - head.start =
        (callee ++ (gap ++ '(' :: (inner ++ [')']))).length := by
      rw [place, start]
      simp only [List.length_append, List.length_cons, List.length_nil]
      omega
    have split : callee ++ (gap ++ '(' :: (inner ++ ')' :: tail)) =
        (callee ++ (gap ++ '(' :: (inner ++ [')']))) ++ tail := by simp
    dsimp only
    rw [size, start, List.drop_left, split, List.take_left]
  · rw [place, start]
    simp only [List.length_append]
    congr 2
    omega

end Calls

/-! ### Filters -/

section Filters

variable {text : List Char} {base stop : Nat} {head : Match}

/-- A filter is a bar and a name; behind a colon stands what its arguments are cut from. -/
inductive Match.WrittenFilter (m : Match) (gap name : List Char) : Prop
  | bare (text : m.text = '|' :: (gap ++ name)) (detail : m.detail = .filter name none [] [])
  | given {colonGap inner : List Char}
      (text : m.text = '|' :: (gap ++ (name ++ (colonGap ++ ':' :: inner))))
      (blank : ∀ c ∈ colonGap, isBlank c = true)
      (detail : ∃ shown, m.detail = .filter name (some shown) (arguments ':' inner
        (m.start + 1 + gap.length + name.length + colonGap.length + 1)) [])
  | garbage {rest : List Char} (some : rest ≠ []) (detail : m.detail = .filter name none [] rest)

theorem trimEnd_name_append {name : List Char} (valid : isName name = true)
    (front tail : List Char) :
    trimEnd (front ++ (name ++ tail)) = front ++ (name ++ trimEnd tail) := by
  obtain ⟨first, rest, shape⟩ := exists_cons_of_isName valid
  obtain ⟨start, c, rfl⟩ := List.eq_nil_or_concat name |>.resolve_left (by simp [shape])
  have visible : isBlank c = false :=
    not_isBlank_of_isNamePart (isWord_of_isName valid c (by simp))
  have split (tail : List Char) :
      front ++ (start.concat c ++ tail) = (front ++ start) ++ c :: tail := by
    simp
  rw [split, trimEnd_append visible, split]

theorem exists_trimEnd (text : List Char) :
    ∃ blanks, text = trimEnd text ++ blanks ∧ ∀ c ∈ blanks, isBlank c = true := by
  refine ⟨(text.reverse.takeWhile isBlank).reverse, ?_, fun c member => ?_⟩
  · rw [trimEnd, ← List.reverse_append, List.takeWhile_append_dropWhile, List.reverse_reverse]
  · exact List.mem_takeWhile_imp (List.mem_reverse.mp member)

/-- What a filter is made of, given its name and the text from `start` to the next filter. -/
def filterDetail (name tail : List Char) (start : Nat) : Detail :=
  match trim tail with
  | ':' :: given =>
    .filter name (some (trim given))
      (arguments ':' (tail.drop (blankCount tail + 1)) (start + blankCount tail + 1)) []
  | garbage => .filter name none [] garbage

theorem filterMatch_eq (found : head ∈ scan .filter text 0 []) (base : Nat)
    (reached : head.stop ≤ stop) :
    ∃ gap name tail, (∀ c ∈ gap, isBlank c = true) ∧ isName name = true ∧
      filterMatch text base head stop =
        ⟨.filter, '|' :: (gap ++ (name ++ trimEnd tail)), base + head.start,
          filterDetail name tail (base + head.start + 1 + gap.length + name.length)⟩ := by
  obtain ⟨before, rest, hit, rfl, -, hits, -, -, rfl⟩ := Notation.exists_hit_of_mem_scan found
  obtain ⟨gap, name, after, rfl, blank, valid, rfl⟩ := hit_of_filterHead hits
  rw [Notation.shift_zero] at reached ⊢
  generalize named : Hit.toMatch _ Category.filter _ before.length = head at reached ⊢
  have start : head.start = before.length := by rw [← named]; rfl
  have capture : head.capture 0 = name := by
    rw [← named]
    simp [Hit.toMatch, Match.capture, Match.captures, Nat.add_comm 1]
  have place : head.stop = before.length + 1 + gap.length + name.length := by
    rw [← named]
    simp only [Match.stop, Hit.toMatch, List.length_take, List.length_append, List.length_cons]
    omega
  obtain ⟨size, rfl⟩ := Nat.exists_eq_add_of_le reached
  -- The slices that the filter is read from: `behind` its name, and the `whole` of it.
  have behind (extra : Nat) :
      ((before ++ '|' :: (gap ++ (name ++ after))).drop (head.stop + extra)).take
        (head.stop + size - (head.stop + extra)) = (after.take size).drop extra := by
    have split : before ++ '|' :: (gap ++ (name ++ after)) =
        (before ++ '|' :: (gap ++ name)) ++ after := by simp
    have front : head.stop = (before ++ '|' :: (gap ++ name)).length := by
      rw [place]
      simp only [List.length_append, List.length_cons]
      omega
    rw [List.drop_take, ← List.drop_drop, split, front, List.drop_left]
    congr 1
    omega
  have whole : ((before ++ '|' :: (gap ++ (name ++ after))).drop head.start).take
      (head.stop + size - head.start) = '|' :: gap ++ (name ++ after.take size) := by
    have room : head.stop + size - head.start = ('|' :: (gap ++ name)).length + size := by
      rw [place, start]
      simp only [List.length_append, List.length_cons]
      omega
    have split : '|' :: (gap ++ (name ++ after)) = '|' :: (gap ++ name) ++ after := by simp
    rw [room, start, List.drop_left, split, List.take_length_add_append]
    simp
  refine ⟨gap, name, after.take size, blank, valid, ?_⟩
  have tail := behind 0
  rw [Nat.add_zero, List.drop_zero] at tail
  have starts : base + (head.stop + blankCount (after.take size) + 1) =
      base + head.start + 1 + gap.length + name.length + blankCount (after.take size) + 1 := by
    rw [place, start]
    omega
  rw [filterMatch, tail, whole, capture, trimEnd_name_append valid, starts,
    Nat.add_assoc head.stop, behind]
  rfl

theorem writtenFilter_of_filterMatch (found : head ∈ scan .filter text 0 []) (base : Nat)
    (reached : head.stop ≤ stop) :
    ∃ gap name, (∀ c ∈ gap, isBlank c = true) ∧
      (filterMatch text base head stop).WrittenFilter gap name := by
  obtain ⟨gap, name, tail, blank, -, same⟩ := filterMatch_eq found base reached
  rw [same]
  refine ⟨gap, name, blank, ?_⟩
  have stripped : trim tail = trimEnd (tail.dropWhile isBlank) := rfl
  cases visible : tail.dropWhile isBlank with
  | nil =>
    have none : trim tail = [] := by rw [stripped, visible]; rfl
    have ends : trimEnd ([] ++ tail) = trimEnd [] :=
      trimEnd_append_blank (List.dropWhile_eq_nil_iff.mp visible)
    refine .bare ?_ (by rw [filterDetail, none])
    rw [List.nil_append] at ends
    rw [ends]
    simp [trimEnd]
  | cons d more =>
    have solid : isBlank d = false := by
      have first := List.head_dropWhile_not isBlank (l := tail) (by simp [visible])
      simpa [visible] using first
    have shown : trim tail = d :: trimEnd more := by
      rw [stripped, visible]
      exact trimEnd_append solid [] more
    have ends : trimEnd tail = tail.takeWhile isBlank ++ d :: trimEnd more := by
      rw [← trimEnd_append solid, ← visible, List.takeWhile_append_dropWhile]
    rw [ends, filterDetail, shown]
    by_cases colon : d = ':'
    · subst colon
      have given : tail.drop (blankCount tail + 1) = more := by
        rw [← List.drop_drop, blankCount, drop_length_takeWhile, visible]
        rfl
      obtain ⟨blanks, all, clear⟩ := exists_trimEnd more
      have same (base : Nat) : arguments ':' more base = arguments ':' (trimEnd more) base := by
        conv_lhs => rw [all]
        exact arguments_append_blank rfl clear _ base
      refine .given rfl (fun c => List.mem_takeWhile_imp) ⟨trim (trimEnd more), ?_⟩
      dsimp only
      rw [given, same]
      rfl
    · refine .garbage (List.cons_ne_nil d (trimEnd more)) ?_
      dsimp only
      split
      · rename_i other
        exact absurd (List.cons.inj other).1 colon
      · rfl

/-- The filters of an expression are written as such. -/
theorem writtenFilter_of_mem_filters {m : Match} (found : m ∈ filters text base) :
    ∃ gap name, (∀ c ∈ gap, isBlank c = true) ∧ m.WrittenFilter gap name := by
  rw [filters] at found
  obtain ⟨⟨head, stop⟩, member, rfl⟩ := List.mem_map.mp found
  obtain ⟨scanned, reached, -⟩ := (zip_filterHeads text).2 _ member
  exact writtenFilter_of_filterMatch (mem_scan_of_mem_filterHeads scanned) base reached

end Filters
end Stencil.Markup
