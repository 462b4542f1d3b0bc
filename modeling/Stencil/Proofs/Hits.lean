import Stencil.Proofs.Printing

/-! Where the matchers of the parts of expressions hit: what a hit starts with, what it spans, and
the hits at words, signs and texts. -/
namespace Stencil.Markup
open Text

def isSign (c : Char) : Bool := operatorSigns.any (·.head? == some c)

namespace Category

/-- The categories that lexemes come from. -/
def lexical : List Category :=
  [string, function, accessor, keywordLiteral, number, operator, identifier]

/-- The characters that a match of the category starts with. -/
def starts : Category → Char → Bool
  | string => isQuote
  | function | accessor | identifier => isNameStart
  | keywordLiteral => fun c => c == 't' || c == 'f' || c == 'n'
  | number => isDigit
  | operator => isSign
  | _ => fun _ => true

/-- What holds of each category of lexemes holds of them all. -/
theorem lexical_cases {motive : (category : Category) → category ∈ lexical → Prop}
    {category : Category} (known : category ∈ lexical) (string : motive .string (by decide))
    (function : motive .function (by decide)) (accessor : motive .accessor (by decide))
    (keywordLiteral : motive .keywordLiteral (by decide)) (number : motive .number (by decide))
    (operator : motive .operator (by decide)) (identifier : motive .identifier (by decide)) :
    motive category known := by
  have each := known
  simp only [lexical, List.mem_cons, List.not_mem_nil, or_false] at each
  rcases each with rfl | rfl | rfl | rfl | rfl | rfl | rfl <;> assumption

end Category

theorem eq_append_of_leadingName (text : List Char) (some : leadingName text ≠ []) :
    ∃ name after, text = name ++ after ∧ leadingName text = name ∧ isName name = true := by
  cases text with
  | nil => contradiction
  | cons c rest =>
    cases start : isNameStart c with
    | false => simp [leadingName, start] at some
    | true =>
      refine ⟨c :: rest.takeWhile isNamePart, rest.dropWhile isNamePart, by simp, ?_, ?_⟩
      · simp [leadingName, start]
      · exact isName_cons.mpr ⟨start, fun d member => List.mem_takeWhile_imp member⟩

theorem drop_length_takeWhile (p : Char → Bool) (text : List Char) :
    text.drop (text.takeWhile p).length = text.dropWhile p := by
  conv_lhs => arg 2; rw [← List.takeWhile_append_dropWhile (p := p) (l := text)]
  rw [List.drop_left]

theorem mem_keywordLiterals {word : List Char} :
    keywordLiterals.contains (String.ofList word) = true ↔ word ∈ Notation.reserved := by
  have same (text : String) : String.ofList word = text ↔ word = text.toList := by
    constructor
    · rintro rfl
      simp
    · rintro rfl
      simp
  simp [keywordLiterals, Notation.reserved, same]

section Hits

variable {previous : Option Char} {text : List Char} {hit : Hit}

theorem hit_of_whereFree {matcher : List Char → Option Hit}
    (hits : whereFree matcher previous text = some hit) :
    freeBefore previous = true ∧ matcher text = some hit := by
  unfold whereFree at hits
  split at hits
  · exact ⟨‹_›, hits⟩
  · contradiction

theorem hit_of_callHead (hits : callHead previous text = some hit) :
    ∃ name blanks after, text = name ++ (blanks ++ '(' :: after) ∧ isName name = true ∧
      leadingName text = name ∧ (∀ c ∈ blanks, isBlank c = true) ∧
      hit = ⟨name.length + blanks.length + 1, [(0, name.length)]⟩ := by
  obtain ⟨-, hits⟩ := hit_of_whereFree hits
  dsimp only at hits
  split at hits
  · rename_i found
    rw [Bool.and_eq_true] at found
    obtain ⟨some, paren⟩ := found
    obtain ⟨name, after, shape, leads, valid⟩ :=
      eq_append_of_leadingName text (by simpa using some)
    rw [leads] at hits paren
    have rest : text.drop name.length = after := by rw [shape, List.drop_left]
    rw [rest] at hits paren
    have gone : text.drop (name.length + blankCount after) = after.dropWhile isBlank := by
      rw [← List.drop_drop, rest, blankCount, drop_length_takeWhile]
    rw [gone, beq_iff_eq] at paren
    obtain ⟨more, same⟩ : ∃ more, after.dropWhile isBlank = '(' :: more := by
      cases dropped : after.dropWhile isBlank with
      | nil => simp [dropped] at paren
      | cons c more =>
        rw [dropped] at paren
        exact ⟨more, by simpa using paren⟩
    refine ⟨name, after.takeWhile isBlank, more, ?_, valid, leads,
      fun c => List.mem_takeWhile_imp, ?_⟩
    · rw [shape, ← same, List.takeWhile_append_dropWhile]
    · exact (Option.some.inj hits).symm
  · contradiction

theorem hit_of_filterHead (hits : filterHead previous text = some hit) :
    ∃ gap name after, text = '|' :: (gap ++ (name ++ after)) ∧ (∀ c ∈ gap, isBlank c = true) ∧
      isName name = true ∧
      hit = ⟨1 + gap.length + name.length, [(1 + gap.length, name.length)]⟩ := by
  unfold filterHead at hits
  split at hits
  · rename_i rest
    split at hits
    · contradiction
    · dsimp only at hits
      split at hits
      · contradiction
      · rename_i some
        have gone : rest.drop (blankCount rest) = rest.dropWhile isBlank :=
          drop_length_takeWhile isBlank rest
        rw [gone] at hits some
        obtain ⟨name, after, split, leads, valid⟩ :=
          eq_append_of_leadingName (rest.dropWhile isBlank) (by simpa using some)
        obtain rfl := Option.some.inj hits
        refine ⟨rest.takeWhile isBlank, name, after, ?_, fun c => List.mem_takeWhile_imp, valid, ?_⟩
        · rw [← split, List.takeWhile_append_dropWhile]
        · rw [leads, blankCount]
  · contradiction

theorem hit_of_pathHead (hits : pathHead previous text = some hit) :
    ∃ name c after, text = name ++ c :: after ∧ isName name = true ∧ leadingName text = name ∧
      (c = '[' ∨ c = '.') ∧ hit = ⟨name.length, [(0, name.length)]⟩ := by
  obtain ⟨-, hits⟩ := hit_of_whereFree hits
  dsimp only at hits
  rw [Option.ite_none_right_eq_some, Bool.and_eq_true] at hits
  obtain ⟨⟨some, follows⟩, same⟩ := hits
  obtain ⟨name, after, shape, leads, valid⟩ :=
    eq_append_of_leadingName text (by simpa using some)
  have rest : text.drop name.length = after := by rw [shape, List.drop_left]
  rw [leads] at same
  rw [leads, rest] at follows
  split at follows
  · exact ⟨name, _, _, shape, valid, leads, .inl rfl, (Option.some.inj same).symm⟩
  · exact ⟨name, _, _, shape, valid, leads, .inr rfl, (Option.some.inj same).symm⟩
  · contradiction

theorem hit_of_identifier (hits : identifier previous text = some hit) :
    ∃ name after, text = name ++ after ∧ isName name = true ∧
      hit = ⟨name.length, [(0, name.length)]⟩ := by
  obtain ⟨-, hits⟩ := hit_of_whereFree hits
  dsimp only at hits
  split at hits
  · contradiction
  · rename_i found
    obtain ⟨name, after, shape, leads, valid⟩ :=
      eq_append_of_leadingName text (by simpa using found)
    rw [leads] at hits
    exact ⟨name, after, shape, valid, (Option.some.inj hits).symm⟩

theorem hit_of_keywordLiteral (hits : keywordLiteral previous text = some hit) :
    ∃ word after, text = word ++ after ∧ word = text.takeWhile isNamePart ∧
      word ∈ Notation.reserved ∧ hit = ⟨word.length, [(0, word.length)]⟩ := by
  obtain ⟨-, hits⟩ := hit_of_whereFree hits
  dsimp only at hits
  split at hits
  · rename_i found
    exact ⟨text.takeWhile isNamePart, text.dropWhile isNamePart, by simp, rfl,
      mem_keywordLiterals.mp found, (Option.some.inj hits).symm⟩
  · contradiction

theorem hit_of_numberLiteral (hits : numberLiteral previous text = some hit) :
    ∃ word after, text = word ++ after ∧ word.length = hit.size ∧ text.takeWhile isDigit ≠ [] ∧
      ∀ c ∈ word, isDigit c = true ∨ c = '.' := by
  obtain ⟨-, hits⟩ := hit_of_whereFree hits
  have whole : text = text.takeWhile isDigit ++ text.dropWhile isDigit := by simp
  have digits : ∀ c ∈ text.takeWhile isDigit, isDigit c = true := fun c => List.mem_takeWhile_imp
  simp only [drop_length_takeWhile] at hits
  generalize text.takeWhile isDigit = run at hits whole digits ⊢
  generalize text.dropWhile isDigit = after at hits whole
  rw [Option.ite_none_left_eq_some] at hits
  obtain ⟨some, hits⟩ := hits
  have nonempty : run ≠ [] := by
    rintro rfl
    exact some (by simp)
  split at hits
  · rename_i _ rest
    split at hits
    · refine ⟨run ++ '.' :: rest.takeWhile isDigit, rest.dropWhile isDigit, by simp [whole], ?_,
        nonempty, ?_⟩
      · rw [← Option.some.inj hits]
        simp
        omega
      · intro c member
        rcases List.mem_append.mp member with inside | inside
        · exact .inl (digits c inside)
        · rcases List.mem_cons.mp inside with rfl | later
          · exact .inr rfl
          · exact .inl (List.mem_takeWhile_imp later)
    · rw [Option.ite_none_right_eq_some] at hits
      exact ⟨run, '.' :: rest, whole, by rw [← Option.some.inj hits.2], nonempty,
        fun c member => .inl (digits c member)⟩
  · rw [if_neg (by simp), Option.ite_none_right_eq_some] at hits
    exact ⟨run, after, whole, by rw [← Option.some.inj hits.2], nonempty,
      fun c member => .inl (digits c member)⟩

theorem hit_of_operatorSign (hits : operatorSign previous text = some hit) :
    ∃ sign after, text = sign ++ after ∧ sign ∈ operatorSigns ∧ hit = ⟨sign.length, []⟩ := by
  simp only [operatorSign, Option.map_eq_some_iff] at hits
  obtain ⟨sign, found, same⟩ := hits
  have starts : sign.isPrefixOf text = true :=
    List.find?_some (p := (List.isPrefixOf · text)) found
  obtain ⟨after, shape⟩ := List.isPrefixOf_iff_prefix.mp starts
  exact ⟨sign, after, shape.symm, List.mem_of_find?_eq_some found, same.symm⟩

theorem hit_of_stringLiteral (hits : stringLiteral previous text = some hit) :
    ∃ c rest, text = c :: rest ∧ isQuote c = true := by
  cases text with
  | nil => contradiction
  | cons c rest =>
    simp only [stringLiteral] at hits
    rw [Option.ite_none_right_eq_some] at hits
    exact ⟨c, rest, rfl, hits.1⟩

end Hits

theorem starts_of_isName {name after rest : List Char} {c : Char} (valid : isName name = true)
    (shape : c :: rest = name ++ after) : isNameStart c = true := by
  obtain ⟨d, more, rfl, start, -⟩ := exists_cons_of_isName valid
  rw [(List.cons.inj shape).1]
  exact start

theorem starts_of_hit {category : Category} (known : category ∈ Category.lexical)
    {previous : Option Char} {c : Char} {rest : List Char} {hit : Hit}
    (hits : category.matcher previous (c :: rest) = some hit) : category.starts c = true := by
  cases known using Category.lexical_cases with simp only [Category.matcher] at hits
  | string =>
    obtain ⟨d, more, shape, quotes⟩ := hit_of_stringLiteral hits
    rw [(List.cons.inj shape).1]
    exact quotes
  | function =>
    obtain ⟨name, blanks, after, shape, valid, -, -, -⟩ := hit_of_callHead hits
    exact starts_of_isName valid shape
  | accessor =>
    obtain ⟨name, d, after, shape, valid, -, -, -⟩ := hit_of_pathHead hits
    exact starts_of_isName valid shape
  | keywordLiteral =>
    obtain ⟨word, after, shape, -, reserved, -⟩ := hit_of_keywordLiteral hits
    have each : ∀ word ∈ Notation.reserved, ∃ d more, word = d :: more ∧
        Category.keywordLiteral.starts d = true := by
      simp [Notation.reserved, Category.starts]
    obtain ⟨d, more, rfl, start⟩ := each word reserved
    rw [(List.cons.inj shape).1]
    exact start
  | number =>
    obtain ⟨-, -, -, -, some, -⟩ := hit_of_numberLiteral hits
    by_contra other
    have none : isDigit c = false := by simpa [Category.starts] using other
    exact some (by simp [none])
  | operator =>
    obtain ⟨sign, after, shape, member, -⟩ := hit_of_operatorSign hits
    have each : ∀ sign ∈ operatorSigns, ∃ d more, sign = d :: more ∧ isSign d = true := by
      simp [operatorSigns, isSign]
    obtain ⟨d, more, rfl, start⟩ := each sign member
    rw [(List.cons.inj shape).1]
    exact start
  | identifier =>
    obtain ⟨name, after, shape, valid, -⟩ := hit_of_identifier hits
    exact starts_of_isName valid shape

theorem freeBefore_of_hit {category : Category} (known : category ∈ Category.lexical)
    {previous : Option Char} {text : List Char} {hit : Hit}
    (hits : category.matcher previous text = some hit) (word : category ≠ .string)
    (mark : category ≠ .operator) : freeBefore previous = true := by
  cases known using Category.lexical_cases with simp only [Category.matcher] at hits
  | string | operator => contradiction
  | function | accessor | keywordLiteral | number | identifier => exact (hit_of_whereFree hits).1

theorem not_mem_of_isName {name : List Char} {c : Char} (valid : isName name = true)
    (other : isNamePart c = false) : c ∉ name := by
  intro member
  have part := isWord_of_isName valid c member
  rw [other] at part
  contradiction

/-- Hits other than those of strings and calls span no blank. -/
theorem solid_of_hit {category : Category} (known : category ∈ Category.lexical)
    {previous : Option Char} {text : List Char} {hit : Hit}
    (hits : category.matcher previous text = some hit) (quoted : category ≠ .string)
    (call : category ≠ .function) :
    ∃ word after, text = word ++ after ∧ word.length = hit.size ∧ ' ' ∉ word := by
  cases known using Category.lexical_cases with simp only [Category.matcher] at hits
  | string | function => contradiction
  | accessor =>
    obtain ⟨name, c, after, shape, valid, -, -, same⟩ := hit_of_pathHead hits
    exact ⟨name, c :: after, shape, by rw [same], not_mem_of_isName valid rfl⟩
  | keywordLiteral =>
    obtain ⟨word, after, shape, -, reserved, same⟩ := hit_of_keywordLiteral hits
    have each : ∀ word ∈ Notation.reserved, ' ' ∉ word := by simp [Notation.reserved]
    exact ⟨word, after, shape, by rw [same], each word reserved⟩
  | number =>
    obtain ⟨word, after, shape, size, -, each⟩ := hit_of_numberLiteral hits
    refine ⟨word, after, shape, size, fun member => ?_⟩
    rcases each ' ' member with digit | point
    · exact absurd digit (by decide)
    · contradiction
  | operator =>
    obtain ⟨sign, after, shape, member, same⟩ := hit_of_operatorSign hits
    have each : ∀ sign ∈ operatorSigns, ' ' ∉ sign := by simp [operatorSigns]
    exact ⟨sign, after, shape, by rw [same], each sign member⟩
  | identifier =>
    obtain ⟨name, after, shape, valid, same⟩ := hit_of_identifier hits
    exact ⟨name, after, shape, by rw [same], not_mem_of_isName valid rfl⟩

/-! ### Ends of words -/

/-- What stops a word before it: nothing, or a blank with no parenthesis behind it. -/
def Stops (rest : List Char) : Prop :=
  rest = [] ∨ ∃ more, rest = ' ' :: more ∧ (more.dropWhile isBlank).head? ≠ some '('

section Stops

variable {word rest after : List Char} {previous : Option Char}

theorem Stops.head (stops : Stops rest) {p : Char → Bool} (blank : p ' ' = false) :
    rest.head?.all (!p ·) = true := by
  rcases stops with rfl | ⟨more, rfl, -⟩
  · rfl
  · simp [blank]

/-- A call is not begun before the stop and opened behind it. -/
theorem call_within (stops : Stops rest) {name blanks : List Char}
    (valid : isName name = true) (blank : ∀ c ∈ blanks, isBlank c = true)
    (shape : word ++ rest = name ++ (blanks ++ '(' :: after)) :
    ∃ inner, word = name ++ (blanks ++ '(' :: inner) := by
  rw [← List.append_assoc] at shape
  rcases List.append_eq_append_iff.mp shape with ⟨middle, front, back⟩ | ⟨middle, front, back⟩
  · exfalso
    rcases stops with rfl | ⟨more, rfl, opens⟩
    · simp at back
    · cases middle with
      | nil => simp at back
      | cons c middle =>
        rw [List.cons_append, List.cons.injEq] at back
        obtain ⟨rfl, same⟩ := back
        have behind : ∀ c ∈ middle, isBlank c = true := by
          intro c member
          rcases List.append_eq_append_iff.mp front with ⟨_, -, within⟩ | ⟨cut, within, left⟩
          · exact blank c (by rw [within]; simp [member])
          · cases cut with
            | nil => exact blank c (by rw [← List.nil_append blanks, ← left]; simp [member])
            | cons d cut =>
              rw [List.cons_append, List.cons.injEq] at left
              have member : ' ' ∈ name := by simp [within, ← left.1]
              exact absurd member (not_mem_of_isName valid rfl)
        rw [same, List.dropWhile_append_of_pos behind] at opens
        exact opens rfl
  · cases middle with
    | nil => exact absurd back (by rcases stops with rfl | ⟨more, rfl, -⟩ <;> simp)
    | cons c middle =>
      obtain ⟨rfl, -⟩ := List.cons.inj back
      exact ⟨middle, by rw [front, List.append_assoc]⟩

/-! ### Hits of the parts of expressions -/

theorem identifier_append (free : freeBefore previous = true) (valid : isName word = true)
    (stops : Stops rest) :
    identifier previous (word ++ rest) = some ⟨word.length, [(0, word.length)]⟩ := by
  have some : word.isEmpty = false := by
    obtain ⟨c, more, rfl, -⟩ := exists_cons_of_isName valid
    rfl
  simp only [identifier, whereFree, free, if_true]
  rw [leadingName_append valid (stops.head rfl), some]
  rfl

theorem keywordLiteral_append (free : freeBefore previous = true) (valid : IsWord word)
    (reserved : word ∈ Notation.reserved) (stops : Stops rest) :
    keywordLiteral previous (word ++ rest) = some ⟨word.length, [(0, word.length)]⟩ := by
  simp only [keywordLiteral, whereFree, free, if_true]
  rw [takeWhile_append_of_stop valid (stops.head rfl), if_pos (mem_keywordLiterals.mpr reserved)]

theorem numberLiteral_append (free : freeBefore previous = true)
    (digits : ∀ c ∈ word, isDigit c = true) (full : word ≠ []) (stops : Stops rest) :
    numberLiteral previous (word ++ rest) = some ⟨word.length, []⟩ := by
  have positive : (word.length == 0) = false := by simpa using full
  have apart : freeAfter rest = true := stops.head rfl
  simp only [numberLiteral, whereFree, free, if_true]
  rw [takeWhile_append_of_stop digits (stops.head rfl), List.drop_left, positive]
  rcases stops with rfl | ⟨more, rfl, -⟩ <;> simp [apart]

theorem callHead_append (free : freeBefore previous = true) (valid : isName word = true) :
    callHead previous (word ++ '(' :: rest) = some ⟨word.length + 1, [(0, word.length)]⟩ := by
  have some : word.isEmpty = false := by
    obtain ⟨c, more, rfl, -⟩ := exists_cons_of_isName valid
    rfl
  have none : blankCount ('(' :: rest) = 0 := rfl
  simp only [callHead, whereFree, free, if_true]
  rw [leadingName_append valid (by simp; decide)]
  simp [some, none]

theorem pathHead_append (free : freeBefore previous = true) (valid : isName word = true)
    (step : Notation.Step) :
    pathHead previous (word ++ (step.print ++ rest)) =
      some ⟨word.length, [(0, word.length)]⟩ := by
  have some : word.isEmpty = false := by
    obtain ⟨c, more, rfl, -⟩ := exists_cons_of_isName valid
    rfl
  cases step with
  | property name =>
    obtain ⟨c, more, same, start, -⟩ := exists_cons_of_isName name.valid
    have leads : leadingName (word ++ '.' :: c :: (more ++ rest)) = word :=
      leadingName_append valid (by simp; decide)
    rw [Notation.Step.print, same, List.cons_append, List.cons_append]
    simp [pathHead, whereFree, free, leads, some, start]
  | index inner =>
    have leads : leadingName (word ++ '[' :: (inner.print ++ ']' :: rest)) = word :=
      leadingName_append valid (by simp; decide)
    rw [Notation.Step.print, List.cons_append, List.append_assoc, List.singleton_append]
    simp [pathHead, whereFree, free, leads, some]

theorem stringLiteral_append (content : List Char) :
    stringLiteral previous (Notation.quote content ++ rest) =
      some ⟨(Notation.quote content).length, [(0, 1), (1, (Notation.escape content).length)]⟩ := by
  have shape : Notation.quote content ++ rest =
      '"' :: (Notation.escape content ++ '"' :: rest) := by
    simp [Notation.quote]
  rw [shape, stringLiteral, if_pos (by rfl), Notation.quotedSize_escape]
  simp [Notation.quote]

theorem operatorSign_append {op : Operator}
    (apart : op = .sub ∨ ∃ more, rest = ' ' :: more) :
    operatorSign previous (op.symbol.toList ++ rest) = some ⟨op.symbol.toList.length, []⟩ := by
  rcases apart with rfl | ⟨more, rfl⟩
  · rfl
  · cases op <;> rfl

end Stops

end Stencil.Markup
