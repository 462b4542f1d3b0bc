import Stencil.Proofs.Hits

/-! The parts of a printed expression, the element that each of them is, and the hits by which the
elements are found. -/
namespace Stencil.Notation
open Text Markup

/-- A part of a printed expression. -/
inductive Part
  | blank
  | mark (op : Operator)
  | atom (atom : Atom)

def Part.text : Part → List Char
  | .blank => [' ']
  | .mark op => op.symbol.toList
  | .atom a => a.print

def textOf (parts : List Part) : List Char := parts.flatMap (·.text)

@[simp] theorem textOf_nil : textOf [] = [] := rfl

@[simp] theorem textOf_cons (part : Part) (rest : List Part) :
    textOf (part :: rest) = part.text ++ textOf rest := rfl

@[simp] theorem textOf_append (first second : List Part) :
    textOf (first ++ second) = textOf first ++ textOf second := List.flatMap_append

def Phrase.parts : Phrase → List Part
  | .last signs atom => List.replicate signs (.mark .sub) ++ [.atom atom]
  | .more signs atom op rest =>
    List.replicate signs (.mark .sub) ++ .atom atom :: .blank :: .mark op :: .blank :: rest.parts

theorem textOf_signs (signs : Nat) :
    textOf (List.replicate signs (.mark .sub)) = List.replicate signs '-' := by
  induction signs with
  | zero => rfl
  | succ signs ih =>
    rw [List.replicate_succ, textOf_cons, ih, List.replicate_succ]
    rfl

theorem textOf_parts (phrase : Phrase) : textOf phrase.parts = phrase.print := by
  cases phrase with
  | last signs atom => simp [Phrase.parts, Phrase.print, textOf_signs, Part.text]
  | more signs atom op rest =>
    simp [Phrase.parts, Phrase.print, textOf_signs, Part.text, textOf_parts rest]

/-! ### Layout -/

/-- What has to stand around a part: an atom is a word of its own, and an operator other than a
sign has a blank behind it. -/
def Part.Sits (previous : Option Char) (rest : List Char) : Part → Prop
  | .blank => True
  | .mark op => op = .sub ∨ ∃ more, rest = ' ' :: more
  | .atom _ => freeBefore previous = true ∧ Stops rest

def Laid (previous : Option Char) : List Part → Prop
  | [] => True
  | part :: rest =>
    part.Sits previous (textOf rest) ∧ Laid (part.text.getLast?.or previous) rest

theorem sits_of_laid {previous : Option Char} {before after : List Part} {part : Part}
    (laid : Laid previous (before ++ part :: after)) :
    part.Sits ((textOf before).getLast?.or previous) (textOf after) := by
  induction before generalizing previous with
  | nil => exact laid.1
  | cons first before ih =>
    rw [textOf_cons, List.getLast?_append, Option.or_assoc]
    exact ih laid.2

theorem laid_signs {rest : List Part} (laid : ∀ previous, freeBefore previous = true →
    Laid previous rest) (signs : Nat) {previous : Option Char} (free : freeBefore previous = true) :
    Laid previous (List.replicate signs (.mark .sub) ++ rest) := by
  induction signs generalizing previous with
  | zero => exact laid previous free
  | succ signs ih => exact ⟨.inl rfl, ih rfl⟩

theorem symbol_cons (op : Operator) :
    ∃ c more, op.symbol.toList = c :: more ∧ isBlank c = false ∧ c ≠ '(' := by
  cases op <;> exact ⟨_, _, rfl, by decide, by decide⟩

theorem Part.nonempty (part : Part) : part.text ≠ [] := by
  cases part with
  | blank => simp [Part.text]
  | mark op =>
    obtain ⟨c, more, same, -⟩ := symbol_cons op
    simp [Part.text, same]
  | atom a => exact a.tight.nonempty

theorem stops_before_mark (op : Operator) (rest : List Char) :
    Stops (' ' :: (op.symbol.toList ++ rest)) := by
  obtain ⟨c, more, same, visible, opens⟩ := symbol_cons op
  refine .inr ⟨_, rfl, ?_⟩
  simp [same, visible, opens]

/-- A phrase is laid out well where it is free before it and what follows stops it. -/
theorem laid_parts (phrase : Phrase) {tail : List Part} (stops : Stops (textOf tail))
    (laid : ∀ previous, Laid previous tail) {previous : Option Char}
    (free : freeBefore previous = true) : Laid previous (phrase.parts ++ tail) := by
  cases phrase with
  | last signs atom =>
    have operand : ∀ previous, freeBefore previous = true →
        Laid previous ([.atom atom] ++ tail) := fun previous free => ⟨⟨free, stops⟩, laid _⟩
    rw [Phrase.parts, List.append_assoc]
    exact laid_signs operand signs free
  | more signs atom op rest =>
    have further : Laid (some ' ') (rest.parts ++ tail) := laid_parts rest stops laid rfl
    have operand : ∀ previous, freeBefore previous = true →
        Laid previous (.atom atom :: .blank :: .mark op :: .blank :: (rest.parts ++ tail)) :=
      fun previous free =>
        ⟨⟨free, stops_before_mark op _⟩, trivial, .inr ⟨_, rfl⟩, trivial, further⟩
    rw [Phrase.parts, List.append_assoc]
    exact laid_signs operand signs free

/-- A place in the text lies in one of the parts. -/
theorem exists_part {parts : List Part} {x y : List Char} (shape : textOf parts = x ++ y)
    (full : y ≠ []) : ∃ before part after u v, parts = before ++ part :: after ∧
      part.text = u ++ v ∧ v ≠ [] ∧ x = textOf before ++ u ∧ y = v ++ textOf after := by
  induction parts generalizing x with
  | nil => exact absurd (List.append_eq_nil_iff.mp shape.symm).2 full
  | cons first rest ih =>
    have later {z : List Char} (front : x = first.text ++ z) (back : textOf rest = z ++ y) :
        ∃ before part after u v, first :: rest = before ++ part :: after ∧
          part.text = u ++ v ∧ v ≠ [] ∧ x = textOf before ++ u ∧ y = v ++ textOf after := by
      obtain ⟨before, part, after, u, v, split, inside, some, left, right⟩ := ih back
      refine ⟨first :: before, part, after, u, v, by rw [split, List.cons_append], inside, some, ?_,
        right⟩
      rw [front, left, textOf_cons, List.append_assoc]
    rw [textOf_cons] at shape
    rcases List.append_eq_append_iff.mp shape with ⟨z, front, back⟩ | ⟨z, front, back⟩
    · exact later front back
    · by_cases empty : z = []
      · subst empty
        rw [List.append_nil] at front
        exact later (z := []) (by rw [List.append_nil, front]) (by rw [back]; simp)
      · exact ⟨[], first, rest, x, z, rfl, front, empty, rfl, back⟩

/-! ### Elements -/

/-- The steps of a chain that starts at an offset. -/
def segments (offset : Nat) : List Step → List Segment
  | [] => []
  | .property name :: rest =>
    .property ⟨name.text, offset + 1⟩ :: segments (offset + 1 + name.text.length) rest
  | .index inner :: rest =>
    .index ⟨inner.print, offset + 1⟩ :: segments (offset + 2 + inner.print.length) rest

def Atom.category : Atom → Category
  | .integer .. => .number
  | .bool _ | .null => .keywordLiteral
  | .text .. => .string
  | .name .. => .identifier
  | .path .. => .accessor
  | .call .. => .function

def Atom.detail (offset : Nat) : Atom → Detail
  | .integer .. => .captured []
  | .bool b => .captured [⟨boolWord b, offset⟩]
  | .null => .captured [⟨['n', 'u', 'l', 'l'], offset⟩]
  | .text content _ => .captured [⟨['"'], offset⟩, ⟨escape content, offset + 1⟩]
  | .name word _ => .captured [⟨word.text, offset⟩]
  | .path base first rest =>
    .path base.text (segments (offset + base.text.length) (first :: rest))
  | .call callee args =>
    .call callee.text (printArgs args)
      (arguments ',' (printArgs args) (offset + callee.text.length + 1))

/-- The element that an atom at an offset is. -/
def Atom.element (offset : Nat) (atom : Atom) : Match :=
  ⟨atom.category, atom.print, offset, atom.detail offset⟩

def Part.element? (offset : Nat) : Part → Option Match
  | .blank => none
  | .mark op => some ⟨.operator, op.symbol.toList, offset, .captured []⟩
  | .atom a => some (a.element offset)

/-- The match that a hit leads to: calls and chains grow from their heads. -/
def grow (text : List Char) (base : Nat) (head : Match) : Option Match :=
  match head.category with
  | .function => callMatch? text base head
  | .accessor => pathMatch? text base head
  | _ => some (head.shift base)

theorem trim_of_tight {text : List Char} (tight : IsTight text) (start : Nat) :
    (⟨text, start⟩ : Piece).trim = ⟨text, start⟩ := by
  have trimmed : trim text = text := by
    simpa using trim_of_isTight [] [] tight (by simp) (by simp)
  obtain ⟨c, rest, rfl, visible⟩ := tight.starts
  simp [Piece.trim, trimmed, visible]

theorem closingFrom_bracketed (opener closer : Char) (pair : closerOf? opener = some closer)
    (closing : isCloser closer = true) {free : Char → Bool} {inside : List Char}
    (complete : Completes free [] inside) (rest : List Char) (offset : Nat) :
    closingFrom [] none offset (opener :: (inside ++ closer :: rest)) =
      some (offset + 1 + inside.length) := by
  have beyond : [closer] ≠ [] := by simp
  have closes := complete.closingFrom_append beyond (closer :: rest) (offset + 1)
  rw [closingFrom_opens pair]
  rw [List.nil_append] at closes
  rw [closes, closingFrom_closes closing]
  rfl

theorem segmentsFrom_steps (base : Nat) {fuel : Nat} (steps : List Step) {rest : List Char}
    (stops : Stops rest) (room : (printSteps steps ++ rest).length ≤ fuel) (offset : Nat) :
    segmentsFrom base fuel offset (printSteps steps ++ rest) =
      (segments (base + offset) steps, offset + (printSteps steps).length) := by
  induction steps generalizing fuel offset with
  | nil =>
    rw [printSteps, List.nil_append]
    rcases stops with rfl | ⟨more, rfl, -⟩ <;> cases fuel <;> rfl
  | cons step steps ih =>
    rw [printSteps, List.length_append, List.length_append] at room
    cases fuel with
    | zero =>
      obtain ⟨c, more, same, -⟩ := step.tight.starts
      simp [same] at room
    | succ fuel =>
      cases step with
      | property name =>
        -- The name ends here: the next step begins with a mark, and the rest with no name.
        have halts : (printSteps steps ++ rest).head?.all (!isNamePart ·) = true := by
          cases steps with
          | nil => exact stops.head rfl
          | cons step steps => cases step <;> rfl
        have leads := leadingName_append name.valid halts
        have some : name.text.isEmpty = false := by simpa using name.nonempty
        rw [Step.print, List.length_cons] at room
        rw [printSteps, Step.print, List.cons_append, List.cons_append, List.append_assoc,
          segmentsFrom, leads, some]
        simp only [Bool.false_eq_true, if_false, List.drop_left]
        rw [ih (by rw [List.length_append]; omega)]
        simp [segments, Nat.add_assoc, Nat.add_comm, Nat.add_left_comm]
      | index inner =>
        have closes := closingFrom_bracketed '[' ']' rfl rfl inner.complete
          (printSteps steps ++ rest) 0
        have size : 0 + 1 + inner.print.length - 1 = inner.print.length := by omega
        rw [Step.print, List.length_cons, List.length_append] at room
        rw [printSteps, Step.print, List.cons_append, List.cons_append, List.append_assoc,
          List.append_assoc, List.singleton_append, segmentsFrom, closes]
        simp only [size, List.take_left, trim_of_tight inner.tight]
        have behind : (inner.print ++ ']' :: (printSteps steps ++ rest)).drop
            (0 + 1 + inner.print.length) = printSteps steps ++ rest := by
          rw [Nat.zero_add, Nat.add_comm, ← List.drop_drop, List.drop_left]
          rfl
        have place : base + (offset + (0 + 1 + inner.print.length) + 1) =
            base + offset + 2 + inner.print.length := by omega
        rw [behind, ih (by rw [List.length_append]; omega), segments, place]
        simp only [List.length_append, List.length_cons, List.length_nil]
        congr 1
        omega

section Grow

variable {before rest : List Char} {base : Nat}

theorem pathMatch_of_head (name : Name) (first : Step) (steps : List Step) (stops : Stops rest)
    {head : Match} (start : head.start = before.length) (text : head.text = name.text)
    (capture : head.capture 0 = name.text) :
    pathMatch? (before ++ (name.text ++ (first.print ++ printSteps steps) ++ rest)) base head =
      some ((Atom.path name first steps).element (base + before.length)) := by
  have stop : head.stop = before.length + name.text.length := by rw [Match.stop, start, text]
  have tail : (before ++ (name.text ++ (first.print ++ printSteps steps) ++ rest)).drop head.stop =
      printSteps (first :: steps) ++ rest := by
    rw [stop, ← List.drop_drop, List.drop_left, List.append_assoc, List.drop_left, printSteps]
  have walk := segmentsFrom_steps base (first :: steps) stops (Nat.le_refl _) head.stop
  have some : (segments (base + head.stop) (first :: steps)).isEmpty = false := by
    cases first <;> rfl
  have size : head.stop + (printSteps (first :: steps)).length - head.start =
      (name.text ++ (first.print ++ printSteps steps)).length := by
    rw [stop, start, printSteps]
    simp only [List.length_append]
    omega
  rw [pathMatch?, tail, walk]
  simp only [some, Bool.false_eq_true, if_false, size]
  rw [start, List.drop_left, List.take_left, capture, stop, ← Nat.add_assoc]
  rfl

theorem callMatch_of_head (callee : Name) (args : List Phrase)
    {head : Match} (start : head.start = before.length)
    (text : head.text = callee.text ++ ['(']) (capture : head.capture 0 = callee.text) :
    callMatch? (before ++ (callee.text ++ '(' :: (printArgs args ++ [')']) ++ rest)) base head =
      some ((Atom.call callee args).element (base + before.length)) := by
  have stop : head.stop - 1 = before.length + callee.text.length := by
    rw [Match.stop, start, text, List.length_append]
    rfl
  have shape : before ++ (callee.text ++ '(' :: (printArgs args ++ [')']) ++ rest) =
      (before ++ callee.text) ++ '(' :: (printArgs args ++ ')' :: rest) := by simp
  have tail : (before ++ (callee.text ++ '(' :: (printArgs args ++ [')']) ++ rest)).drop
      (head.stop - 1) = '(' :: (printArgs args ++ ')' :: rest) := by
    rw [stop, shape, ← List.length_append, List.drop_left]
  have inside : (before ++ (callee.text ++ '(' :: (printArgs args ++ [')']) ++ rest)).drop
      (head.stop - 1 + 1) = printArgs args ++ ')' :: rest := by
    rw [← List.drop_drop, tail]
    rfl
  have closes := closingFrom_bracketed '(' ')' rfl rfl
    (args_complete args) rest (head.stop - 1)
  have size : head.stop - 1 + 1 + (printArgs args).length - (head.stop - 1) - 1 =
      (printArgs args).length := by omega
  have whole : head.stop - 1 + 1 + (printArgs args).length + 1 - head.start =
      (callee.text ++ '(' :: (printArgs args ++ [')'])).length := by
    rw [stop, start, List.length_append, List.length_cons, List.length_append]
    simp
    omega
  rw [callMatch?, closing?, tail, closes]
  simp only [Option.bind_eq_bind, Option.bind_some, inside, size, whole, List.take_left]
  rw [start, List.drop_left, List.take_left, capture, stop, ← Nat.add_assoc]
  rfl

theorem grow_toMatch {category : Category} (call : category ≠ .function)
    (path : category ≠ .accessor) (text word : List Char) (groups : List (Nat × Nat)) (start : Nat) :
    grow text base ((⟨word.length, groups⟩ : Hit).toMatch category (word ++ rest) start) =
      some ⟨category, word, base + start, .captured (groups.map fun group =>
        ⟨((word ++ rest).drop group.1).take group.2, base + (start + group.1)⟩)⟩ := by
  have plain : grow text base ((⟨word.length, groups⟩ : Hit).toMatch category (word ++ rest) start) =
      some (((⟨word.length, groups⟩ : Hit).toMatch category (word ++ rest) start).shift base) := by
    cases category <;> first | contradiction | rfl
  rw [plain]
  simp [Hit.toMatch, Match.shift, Piece.shiftAll, Piece.shift]

/-- The category of an element hits the word at its start, and the element grows from this hit. -/
def LeadsTo (previous : Option Char) (before word rest : List Char) (base : Nat) (e : Match) :
    Prop :=
  ∃ hit, e.category.matcher previous (word ++ rest) = some hit ∧ 0 < hit.size ∧
    grow (before ++ (word ++ rest)) base
      (hit.toMatch e.category (word ++ rest) before.length) = some e

variable {previous : Option Char}

theorem leadsTo_of_hit (category : Category) (word : List Char) (call : category ≠ .function)
    (path : category ≠ .accessor) {groups : List (Nat × Nat)}
    (hits : category.matcher previous (word ++ rest) = some ⟨word.length, groups⟩)
    (full : word ≠ []) {captured : List Piece}
    (captures : groups.map (fun group => (⟨((word ++ rest).drop group.1).take group.2,
      base + (before.length + group.1)⟩ : Piece)) = captured) :
    LeadsTo previous before word rest base
      ⟨category, word, base + before.length, .captured captured⟩ := by
  refine ⟨_, hits, List.length_pos_iff.mpr full, ?_⟩
  rw [grow_toMatch call path, captures]

theorem leadsTo_path (name : Name) (first : Step) (steps : List Step)
    (free : freeBefore previous = true) (stops : Stops rest) :
    LeadsTo previous before (Atom.path name first steps).print rest base
      ((Atom.path name first steps).element (base + before.length)) := by
  have hits : pathHead previous (name.text ++ (first.print ++ (printSteps steps ++ rest))) = _ :=
    pathHead_append free name.valid first
  have shape : (Atom.path name first steps).print ++ rest =
      name.text ++ (first.print ++ (printSteps steps ++ rest)) := by simp [Atom.print]
  rw [LeadsTo, shape]
  refine ⟨_, hits, List.length_pos_iff.mpr name.nonempty, ?_⟩
  rw [← shape]
  apply pathMatch_of_head name first steps stops rfl
  · rw [shape]
    exact List.take_left
  · simp [shape, Match.capture, Match.captures, Hit.toMatch]

theorem leadsTo_call (callee : Name) (args : List Phrase) (free : freeBefore previous = true) :
    LeadsTo previous before (Atom.call callee args).print rest base
      ((Atom.call callee args).element (base + before.length)) := by
  have hits : callHead previous (callee.text ++ '(' :: (printArgs args ++ ')' :: rest)) = _ :=
    callHead_append free callee.valid
  have shape : (Atom.call callee args).print ++ rest =
      callee.text ++ '(' :: (printArgs args ++ ')' :: rest) := by simp [Atom.print]
  rw [LeadsTo, shape]
  refine ⟨_, hits, Nat.succ_pos _, ?_⟩
  rw [← shape]
  apply callMatch_of_head callee args rfl
  · rw [shape]
    simp [Hit.toMatch, List.take_append, List.take_of_length_le]
  · simp [shape, Match.capture, Match.captures, Hit.toMatch]

theorem leadsTo_element (atom : Atom) (free : freeBefore previous = true) (stops : Stops rest) :
    LeadsTo previous before atom.print rest base (atom.element (base + before.length)) := by
  have full := atom.tight.nonempty
  cases atom with
  | integer n short =>
    have hits := numberLiteral_append free (fun c => isDigit_of_mem_toDigits)
      (Nat.toDigits_ne_nil (n := n)) stops
    exact leadsTo_of_hit .number (Nat.toDigits 10 n) (by simp) (by simp) hits full rfl
  | bool b =>
    have reserved : boolWord b ∈ reserved := by cases b <;> simp [boolWord, reserved]
    have hits := keywordLiteral_append free (isWord_boolWord b) reserved stops
    exact leadsTo_of_hit .keywordLiteral (boolWord b) (by simp) (by simp) hits full (by simp)
  | null =>
    have hits := keywordLiteral_append free isWord_null (by simp [reserved]) stops
    exact leadsTo_of_hit .keywordLiteral ['n', 'u', 'l', 'l'] (by simp) (by simp) hits full rfl
  | text content unclosed =>
    have hits : stringLiteral previous (quote content ++ rest) = _ := stringLiteral_append content
    refine leadsTo_of_hit .string (quote content) (by simp) (by simp) hits full ?_
    simp [quote, Nat.add_assoc]
  | name name reserved =>
    have hits := identifier_append free name.valid stops
    exact leadsTo_of_hit .identifier name.text (by simp) (by simp) hits full (by simp)
  | path name first steps => exact leadsTo_path name first steps free stops
  | call callee args => exact leadsTo_call callee args free

/-- The element of a part is what the hit of its category at its start leads to. -/
theorem leadsTo_of_element {part : Part} {e : Match} (sits : part.Sits previous rest)
    (element : part.element? (base + before.length) = some e) :
    LeadsTo previous before part.text rest base e := by
  cases part with
  | blank => contradiction
  | mark op =>
    cases element
    have hits : operatorSign previous (op.symbol.toList ++ rest) = _ := operatorSign_append sits
    exact leadsTo_of_hit .operator op.symbol.toList (by simp) (by simp) hits (Part.mark op).nonempty rfl
  | atom a =>
    cases element
    exact leadsTo_element a sits.1 sits.2

end Grow

theorem category_of_element {part : Part} {offset : Nat} {e : Match}
    (element : part.element? offset = some e) : e.category ∈ Category.lexical := by
  cases part with
  | blank => contradiction
  | mark op =>
    cases element
    simp [Category.lexical]
  | atom a =>
    cases element
    cases a <;> simp [Category.lexical, Atom.element, Atom.category]

end Stencil.Notation
