import Mathlib.Data.List.Forall2
import Stencil.Proofs.Meaning
import Stencil.Proofs.Outcome
import Stencil.Proofs.Selection

/-! The lexemes of a printed expression stand for the groups of its operands, and no character of
it is reported. -/
namespace Stencil

/-! ### Readings of tokens -/

/-- The reading returns something of the kind and reports nothing. -/
def Gives {α : Type} (reading : Lexing α) (kind : α → Prop) : Prop :=
  ∀ problems, ∃ a, Returns reading problems a problems ∧ kind a

section Gives

variable {α β : Type} {reading : Lexing α} {next : α → Lexing β} {kind : α → Prop}
  {other : β → Prop}

theorem gives_pure {a : α} (fits : kind a) : Gives (pure a) kind :=
  fun _ => ⟨a, returns_pure.mpr ⟨rfl, rfl⟩, fits⟩

theorem gives_bind (first : Gives reading kind) (later : ∀ a, kind a → Gives (next a) other) :
    Gives (reading >>= next) other := by
  intro problems
  obtain ⟨a, here, fits⟩ := first problems
  obtain ⟨b, there, whole⟩ := later a fits problems
  exact ⟨b, returns_bind.mpr ⟨a, problems, here, there⟩, whole⟩

theorem gives_lift {result : Except Fault α} {a : α} (ok : result = .ok a) (fits : kind a) :
    Gives (liftM result) kind := by
  subst ok
  exact fun _ => ⟨a, rfl, fits⟩

end Gives

/-! ### Numbers -/

theorem Reading.digitRun_decimals {text : List Char}
    (each : ∀ c ∈ text, Text.digitValue? c = some (c.toNat - '0'.toNat))
    (opened : Bool) :
    digitRun opened text = (text.map fun c => c.toNat - '0'.toNat, []) := by
  induction text generalizing opened with
  | nil => rfl
  | cons c text ih =>
    have later := ih (fun d member => each d (by simp [member])) true
    rw [digitRun, each c (by simp)]
    simp only [later, List.map_cons]

theorem Text.trimPlain_of_isTight {text : List Char} (tight : IsTight text) :
    trimPlain text = text := by
  have visible {c : Char} (shown : isBlank c = false) : ¬ isPlainBlank c = true := by
    simp [isPlainBlank, shown]
  have front : text.dropWhile isPlainBlank = text := by
    obtain ⟨c, rest, rfl, shown⟩ := tight.starts
    exact List.dropWhile_cons_of_neg (visible shown)
  have back : text.reverse.dropWhile isPlainBlank = text.reverse := by
    obtain ⟨before, c, rfl, shown⟩ := tight.ends
    rw [List.reverse_append]
    exact List.dropWhile_cons_of_neg (visible shown)
  rw [trimPlain, front, back, List.reverse_reverse]

theorem Reading.sign_toDigits (n : Nat) : sign (Nat.toDigits 10 n) = (false, Nat.toDigits 10 n) := by
  obtain ⟨c, rest, shape⟩ := List.exists_cons_of_ne_nil (Nat.toDigits_ne_nil (n := n) (b := 10))
  have digit : c ∈ Nat.toDigits 10 n := by simp [shape]
  obtain ⟨minus, plus⟩ := Text.forall_mem_toDigits (p := fun c => c ≠ '-' ∧ c ≠ '+') (by decide) digit
  rw [shape, sign.eq_3]
  · simp [minus]
  · simp [plus]

/-- The digits of a number are read to their end, and stand for it. -/
theorem Reading.digitRun_toDigits (n : Nat) :
    ∃ digits, digitRun false (Nat.toDigits 10 n) = (digits, []) ∧ ofDigits digits = n ∧
      digits.length = (Nat.toDigits 10 n).length := by
  refine ⟨_, digitRun_decimals (fun c => Text.forall_mem_toDigits
    (p := fun c => Text.digitValue? c = some (c.toNat - '0'.toNat)) (by decide)) false, ?_, ?_⟩
  · rw [ofDigits, List.foldl_map]
    exact Nat.ofDigitChars_ten_toDigits
  · rw [List.length_map]

theorem Reading.whole_toDigits (n : Nat) :
    whole? (Nat.toDigits 10 n) = some ⟨n, (Nat.toDigits 10 n).length⟩ := by
  have tight := Notation.isTight_of_isWord (Text.isWord_toDigits n) Nat.toDigits_ne_nil
  obtain ⟨digits, run, value, count⟩ := digitRun_toDigits n
  have some : digits ≠ [] := by
    rw [← List.length_pos_iff, count]
    exact List.length_pos_iff.mpr Nat.toDigits_ne_nil
  obtain ⟨digit, rest, rfl⟩ := List.exists_cons_of_ne_nil some
  rw [whole?, Text.trimPlain_of_isTight tight, sign_toDigits]
  simp only [run, value, count]
  simp

theorem Lexeme.readNumber_toDigits {n : Nat}
    (short : (Nat.toDigits 10 n).length ≤ Fault.digitLimit) :
    readNumber (Nat.toDigits 10 n) = .ok (.int n) := by
  have point : (Nat.toDigits 10 n).contains '.' = false := by
    rw [List.contains_eq_mem, decide_eq_false_iff_not]
    exact Text.not_mem_toDigits (by decide)
  rw [readNumber, point, Reading.whole_toDigits]
  simp only [Bool.false_eq_true, if_false, if_pos short]

namespace Notation
open Text Markup

/-! ### Elements -/

section Elements

variable {inner : Piece → Lexing (List Lexeme)}

/-- The reading of the phrase, wherever it starts, gives its group. -/
def Understands (inner : Piece → Lexing (List Lexeme)) (phrase : Phrase) : Prop :=
  ∀ start, Gives (inner ⟨phrase.print, start⟩) (ChainMeans · phrase.group)

theorem gives_pieces {args : List Phrase} (each : ∀ arg ∈ args, Understands inner arg)
    {pieces : List Piece} (same : pieces.map (·.text) = args.map (·.print)) :
    Gives (pieces.mapM inner) (ArgsMean · (argTerms args)) := by
  induction args generalizing pieces with
  | nil =>
    obtain rfl := List.map_eq_nil_iff.mp same
    exact gives_pure .nil
  | cons arg rest ih =>
    obtain ⟨⟨text, start⟩, others, rfl, front, back⟩ := List.map_eq_cons_iff.mp same
    obtain rfl : text = arg.print := front
    rw [List.mapM_cons, argTerms]
    refine gives_bind (each arg (by simp) start) fun lexemes means => ?_
    refine gives_bind (ih (fun other member => each other (by simp [member])) back) ?_
    exact fun others meant => gives_pure (.cons means meant)

theorem gives_segments {steps : List Step}
    (each : ∀ phrase, Step.index phrase ∈ steps → Understands inner phrase) (offset : Nat)
    (object : Term) :
    Gives ((segments offset steps).mapM fun
      | .property piece => return PathStep.property (String.ofList piece.text)
      | .index piece => return PathStep.index (← inner piece))
      (StepsMean · object (stepsTerm object steps)) := by
  induction steps generalizing offset object with
  | nil => exact gives_pure .nil
  | cons step rest ih =>
    have later := ih fun phrase member => each phrase (by simp [member])
    cases step with
    | property name =>
      rw [segments, List.mapM_cons, stepsTerm, Step.term]
      refine gives_bind (gives_pure rfl) ?_
      rintro _ rfl
      exact gives_bind (later _ _) fun others walk => gives_pure (.property walk)
    | index phrase =>
      rw [segments, List.mapM_cons, stepsTerm, Step.term]
      have index (lexemes : List Lexeme) (means : ChainMeans lexemes phrase.group) :
          Gives (pure (PathStep.index lexemes)) fun step => ∃ lexemes,
            step = .index lexemes ∧ ChainMeans lexemes phrase.group :=
        gives_pure ⟨lexemes, rfl, means⟩
      refine gives_bind (gives_bind (each phrase (by simp) (offset + 1)) index) ?_
      rintro _ ⟨lexemes, rfl, means⟩
      exact gives_bind (later _ _) fun others walk => gives_pure (.index means walk)

/-- The text is that of the argument with blanks around it. -/
def Pads (text : List Char) (arg : Phrase) : Prop :=
  ∃ before after, text = List.replicate before ' ' ++ (arg.print ++ List.replicate after ' ')

theorem isBlank_of_mem_replicate {n : Nat} {c : Char} (member : c ∈ List.replicate n ' ') :
    isBlank c = true := by
  rw [List.eq_of_mem_replicate member, isBlank_space]

/-- Texts of arguments are found again between separators. -/
theorem texts_of_pads {separator : Char} (mark : isPlain separator = true)
    (apart : isUnseparated separator = false) {texts : List (List Char)} {args : List Phrase}
    (pads : List.Forall₂ Pads texts args) (base : Nat) :
    (arguments separator (glueTogether [separator] texts) base).map (·.text) =
      args.map (·.print) := by
  have blanks (n : Nat) : Completes (· != separator) [] (List.replicate n ' ') := by
    refine .of_plain fun c member => ⟨isPlain_of_isBlank (isBlank_of_mem_replicate member), ?_⟩
    rw [bne_iff_ne, List.eq_of_mem_replicate member]
    rintro rfl
    contradiction
  have printed (arg : Phrase) : Completes (· != separator) [] arg.print := by
    refine arg.complete.mono fun c free => bne_iff_ne.mpr ?_
    rintro rfl
    rw [apart] at free
    contradiction
  have each : ∀ text ∈ texts, ∃ arg, Pads text arg := by
    induction pads with
    | nil => simp
    | cons first later ih =>
      intro text member
      rcases List.mem_cons.mp member with rfl | inside
      · exact ⟨_, first⟩
      · exact ih text inside
  have complete : ∀ text ∈ texts, Completes (· != separator) [] text := by
    intro text member
    obtain ⟨arg, before, after, rfl⟩ := each text member
    exact (blanks before).and_then ((printed arg).and_then (blanks after))
  have visible : ∀ text ∈ texts, text.all isBlank = false := by
    intro text member
    obtain ⟨arg, before, after, rfl⟩ := each text member
    exact not_all_isBlank_of_isTight arg.tight
  rw [texts_arguments mark complete visible]
  clear each complete visible
  induction pads with
  | nil => rfl
  | @cons text arg texts args first later ih =>
    obtain ⟨before, after, rfl⟩ := first
    have trimmed := trim_of_isTight (List.replicate before ' ') (List.replicate after ' ') arg.tight
      (fun c => isBlank_of_mem_replicate) (fun c => isBlank_of_mem_replicate)
    rw [List.map_cons, List.map_cons, trimmed, ih]

/-- The texts of the arguments of a call as they stand between commas. -/
def argTexts : List Phrase → List (List Char)
  | [] => []
  | arg :: rest => arg.print :: rest.map fun other => ' ' :: other.print

theorem glueTogether_cons (glue : List Char) (c : Char) (piece : List Char)
    (rest : List (List Char)) :
    glueTogether glue ((c :: piece) :: rest) = c :: glueTogether glue (piece :: rest) := by
  cases rest <;> rfl

theorem glueTogether_argTexts (args : List Phrase) :
    glueTogether [','] (argTexts args) = printArgs args := by
  induction args with
  | nil => rfl
  | cons arg rest ih =>
    cases rest with
    | nil => rfl
    | cons next rest =>
      have later : glueTogether [','] (argTexts (arg :: next :: rest)) =
          arg.print ++ [','] ++ glueTogether [','] ((' ' :: next.print) ::
            rest.map fun other => ' ' :: other.print) := rfl
      rw [printArgs.eq_3 _ _ (by simp), ← ih, later, glueTogether_cons, argTexts]
      simp

theorem pads_argTexts (args : List Phrase) : List.Forall₂ Pads (argTexts args) args := by
  cases args with
  | nil => exact .nil
  | cons arg rest =>
    refine .cons ⟨0, 0, by simp⟩ ?_
    rw [List.forall₂_map_left_iff, List.forall₂_same]
    exact fun other _ => ⟨1, 0, by simp⟩

theorem texts_of_args (args : List Phrase) (base : Nat) :
    (arguments ',' (printArgs args) base).map (·.text) = args.map (·.print) := by
  rw [← glueTogether_argTexts]
  exact texts_of_pads rfl rfl (pads_argTexts args) base

/-- The element of an atom is read to a lexeme that stands for it. -/
theorem gives_ofElement (atom : Atom)
    (each : ∀ phrase : Phrase, phrase.print.length < atom.print.length → Understands inner phrase)
    (span : Span) (offset : Nat) :
    Gives (Lexeme.ofElement inner span (atom.element offset)) (LexemeMeans · atom.term) := by
  cases atom with
  | integer n short =>
    refine gives_bind (gives_lift (Lexeme.readNumber_toDigits short) rfl) ?_
    rintro _ rfl
    exact gives_pure .literal
  | bool b =>
    cases b <;> exact gives_pure .literal
  | null => exact gives_pure .literal
  | text content unclosed =>
    have inside : (Atom.element offset (.text content unclosed)).capture 1 = escape content := rfl
    rw [Lexeme.ofElement]
    refine gives_pure ?_
    rw [inside, unescape_escape]
    exact .literal
  | name name free => exact gives_pure .name
  | path base first rest =>
    have inside : ∀ phrase, Step.index phrase ∈ first :: rest → Understands inner phrase := by
      intro phrase member
      refine each phrase ?_
      have bound := length_le_printSteps member
      rw [Atom.print, List.length_append]
      rw [printSteps] at bound
      omega
    exact gives_bind (gives_segments inside _ _) fun steps walk => gives_pure (.path walk)
  | call callee args =>
    have inside : ∀ arg ∈ args, Understands inner arg := by
      intro arg member
      refine each arg ?_
      have bound := length_le_printArgs member
      simp only [Atom.print, List.length_append, List.length_cons]
      omega
    exact gives_bind (gives_pieces inside (texts_of_args args _)) fun args given =>
      gives_pure (.call given)

end Elements

/-! ### Lexemes of parts -/

/-- The lexemes stand for the parts; blanks have none. -/
inductive LexemesOf : List Part → List Lexeme → Prop
  | nil : LexemesOf [] []
  | blank {parts : List Part} {lexemes : List Lexeme} (later : LexemesOf parts lexemes) :
      LexemesOf (.blank :: parts) lexemes
  | mark {parts : List Part} {lexemes : List Lexeme} {op : Operator} {span : Span}
      (later : LexemesOf parts lexemes) :
      LexemesOf (.mark op :: parts) (.operator span op :: lexemes)
  | atom {parts : List Part} {lexemes : List Lexeme} {atom : Atom} {lexeme : Lexeme}
      (means : LexemeMeans lexeme atom.term) (later : LexemesOf parts lexemes) :
      LexemesOf (.atom atom :: parts) (lexeme :: lexemes)

theorem gives_ofMark (inner : Piece → Lexing (List Lexeme)) (op : Operator) (span : Span)
    (offset : Nat) :
    Gives (Lexeme.ofElement inner span ⟨.operator, op.symbol.toList, offset, .captured []⟩)
      (· = .operator span op) := by
  have known : Operator.ofSymbol? (String.ofList op.symbol.toList) = some op := by
    rw [String.ofList_toList]
    cases op <;> decide
  rw [Lexeme.ofElement]
  refine gives_pure ?_
  rw [known]
  rfl

theorem gives_elementsOf {inner : Piece → Lexing (List Lexeme)} {parts : List Part}
    (each : ∀ phrase : Phrase, phrase.print.length < (textOf parts).length →
      Understands inner phrase) (lines : Option Lines) (offset : Nat) :
    Gives ((elementsOf offset parts).mapM fun m =>
      Lexeme.ofElement inner (.locate lines m.start m.stop) m) (LexemesOf parts) := by
  induction parts generalizing offset with
  | nil => exact gives_pure .nil
  | cons part rest ih =>
    simp only [textOf_cons, List.length_append] at each
    have later := ih (fun phrase short => each phrase (by omega)) (offset + part.text.length)
    cases part with
    | blank =>
      intro problems
      obtain ⟨lexemes, returns, others⟩ := later problems
      exact ⟨lexemes, returns, .blank others⟩
    | mark op =>
      rw [elementsOf, Part.element?, Option.toList_some, List.singleton_append, List.mapM_cons]
      refine gives_bind (gives_ofMark inner op _ offset) ?_
      rintro _ rfl
      exact gives_bind later fun lexemes others => gives_pure (.mark others)
    | atom atom =>
      rw [elementsOf, Part.element?, Option.toList_some, List.singleton_append, List.mapM_cons]
      have short : ∀ phrase : Phrase, phrase.print.length < atom.print.length →
          Understands inner phrase := by
        intro phrase short
        refine each phrase ?_
        rw [Part.text]
        omega
      refine gives_bind (gives_ofElement atom short _ _) fun lexeme means => ?_
      exact gives_bind later fun lexemes others => gives_pure (.atom means others)

/-! ### Signs -/

theorem not_stepsMean_literal {steps : List PathStep} {object : Term} {value : Literal}
    (other : ∀ value, object ≠ .literal value) : ¬ StepsMean steps object (.literal value) := by
  intro walk
  induction steps generalizing object with
  | nil =>
    cases walk
    exact other value rfl
  | cons step rest ih =>
    cases walk with
    | property later => exact ih (by simp) later
    | index inside later => exact ih (by simp) later

theorem foldNegatives_operator {operand : Bool} {span : Span} {op : Operator}
    {lexemes : List Lexeme}
    (apart : operand = true ∨ ∀ place text n rest,
      lexemes ≠ .literal place text (.number n) :: rest) :
    Lexeme.foldNegatives operand (.operator span op :: lexemes) =
      .operator span op :: Lexeme.foldNegatives false lexemes := by
  by_cases number : ∃ place text n rest, lexemes = .literal place text (.number n) :: rest
  · obtain ⟨place, text, n, rest, rfl⟩ := number
    have behind : operand = true := apart.resolve_right fun none => none place text n rest rfl
    subst behind
    cases op <;> rfl
  · refine Lexeme.foldNegatives.eq_3 _ _ _ fun _ place text n rest _ same => number ?_
    exact ⟨place, text, n, rest, same⟩

theorem signed_of_not_number {signs : Nat} {term : Term}
    (other : signs = 0 ∨ ∀ n, term ≠ .literal (.number n)) :
    term.signed signs = term.negated signs := by
  refine Term.signed.eq_2 _ _ fun fewer n some same => ?_
  rcases other with none | none
  · omega
  · exact none n same

theorem signed_succ (signs : Nat) (term : Term) :
    term.signed (signs + 2) =
      .binary .sub (.literal (.number (.int 0))) (term.signed (signs + 1)) := by
  by_cases number : ∃ n, term = .literal (.number n)
  · obtain ⟨n, rfl⟩ := number
    rfl
  · have other : ∀ n, term ≠ .literal (.number n) := fun n same => number ⟨n, same⟩
    rw [signed_of_not_number (.inr other), signed_of_not_number (.inr other)]
    rfl

theorem exists_literal {lexeme : Lexeme} {value : Literal}
    (means : LexemeMeans lexeme (.literal value)) :
    ∃ span text, lexeme = .literal span text value := by
  cases means with
  | literal => exact ⟨_, _, rfl⟩
  | path walk => exact absurd walk (not_stepsMean_literal (by simp))

theorem signed_succ_of_apart {signs : Nat} {atom : Atom} {rest : List Part} {lexemes : List Lexeme}
    (given : LexemesOf (List.replicate signs (.mark .sub) ++ .atom atom :: rest) lexemes)
    (apart : ∀ place text n more, lexemes ≠ .literal place text (.number n) :: more) :
    atom.term.signed (signs + 1) =
      .binary .sub (.literal (.number (.int 0))) (atom.term.signed signs) := by
  cases signs with
  | succ signs => exact signed_succ signs atom.term
  | zero =>
    have other : ∀ n, atom.term ≠ .literal (.number n) := by
      intro n same
      cases given with
      | atom means later =>
        rw [same] at means
        obtain ⟨span, text, rfl⟩ := exists_literal means
        exact apart _ _ _ _ rfl
    rw [signed_of_not_number (.inr other), signed_of_not_number (.inl rfl)]
    rfl

/-- Signs before an atom, the last of them taken into a number, stand for the signed operand. -/
theorem exists_operand {signs : Nat} {atom : Atom} {rest : List Part} {lexemes : List Lexeme}
    (given : LexemesOf (List.replicate signs (.mark .sub) ++ .atom atom :: rest) lexemes) :
    ∃ operand others, LexemesOf rest others ∧ OperandMeans operand (atom.term.signed signs) ∧
      Lexeme.foldNegatives false lexemes = operand ++ Lexeme.foldNegatives true others := by
  induction signs generalizing lexemes with
  | zero =>
    cases given with
    | @atom _ others _ lexeme means later =>
      have plain := isOperator_of_lexemeMeans means
      refine ⟨[lexeme], others, later, ?_, ?_⟩
      · rw [signed_of_not_number (.inl rfl)]
        exact .atom means
      · rw [Lexeme.foldNegatives.eq_3, plain]
        · rfl
        · rintro _ _ _ _ _ rfl
          contradiction
  | succ signs ih =>
    rw [List.replicate_succ, List.cons_append] at given
    cases given with
    | @mark _ lexemes _ span later =>
      obtain ⟨operand, others, behind, means, folded⟩ := ih later
      -- Only the sign right before a number is taken into it.
      by_cases number : ∃ place text n more, lexemes = .literal place text (.number n) :: more
      · obtain ⟨place, text, n, more, rfl⟩ := number
        cases signs with
        | zero =>
          cases later with
          | atom first further =>
            have same : atom.term = .literal (.number n) := by
              generalize atom.term = term at first
              cases first
              rfl
            refine ⟨[_], more, further, ?_, rfl⟩
            rw [same]
            exact .atom .literal
        | succ signs => cases later
      · have apart : ∀ place text n more, lexemes ≠ .literal place text (.number n) :: more :=
          fun place text n more same => number ⟨place, text, n, more, same⟩
        refine ⟨.operator span .sub :: operand, others, behind, ?_, ?_⟩
        · rw [signed_succ_of_apart later apart]
          exact .sign means
        · rw [foldNegatives_operator (.inr apart), folded]
          rfl

theorem lexemesOf_behind_blanks {pads : Nat} {parts : List Part} {lexemes : List Lexeme}
    (given : LexemesOf (List.replicate pads .blank ++ parts) lexemes) : LexemesOf parts lexemes := by
  induction pads with
  | zero => exact given
  | succ pads ih =>
    cases given with
    | blank later => exact ih later

theorem lexemesOf_blanks {pads : Nat} {lexemes : List Lexeme}
    (given : LexemesOf (List.replicate pads .blank) lexemes) : lexemes = [] := by
  rw [← List.append_nil (List.replicate pads Part.blank)] at given
  cases lexemesOf_behind_blanks given
  rfl

/-- The lexemes of a phrase, with signs taken into numbers, stand for its group. -/
theorem chainMeans_of_lexemesOf (phrase : Phrase) {pads : Nat} {lexemes : List Lexeme}
    (given : LexemesOf (phrase.parts ++ List.replicate pads .blank) lexemes) :
    ChainMeans (Lexeme.foldNegatives false lexemes) phrase.group := by
  match phrase with
  | .last signs atom =>
    rw [Phrase.parts, List.append_assoc] at given
    obtain ⟨operand, others, behind, means, folded⟩ := exists_operand given
    obtain rfl := lexemesOf_blanks behind
    rw [folded, Lexeme.foldNegatives, List.append_nil]
    exact .last means
  | .more signs atom op rest =>
    rw [Phrase.parts, List.append_assoc] at given
    obtain ⟨operand, others, behind, means, folded⟩ := exists_operand given
    cases behind with
    | blank behind =>
      cases behind with
      | mark behind =>
        cases behind with
        | blank behind =>
          rw [folded, foldNegatives_operator (.inl rfl)]
          exact .more means (chainMeans_of_lexemesOf rest behind)

/-! ### Phrases -/

/-- A phrase with blanks around it. -/
def padded (before : Nat) (phrase : Phrase) (after : Nat) : List Part :=
  List.replicate before .blank ++ (phrase.parts ++ List.replicate after .blank)

theorem textOf_blanks (pads : Nat) : textOf (List.replicate pads .blank) = List.replicate pads ' ' := by
  induction pads with
  | zero => rfl
  | succ pads ih =>
    rw [List.replicate_succ, textOf_cons, ih, List.replicate_succ]
    rfl

theorem textOf_padded (before after : Nat) (phrase : Phrase) :
    textOf (padded before phrase after) =
      List.replicate before ' ' ++ (phrase.print ++ List.replicate after ' ') := by
  simp [padded, textOf_blanks, textOf_parts]

theorem stops_blanks (pads : Nat) : Stops (List.replicate pads ' ') := by
  cases pads with
  | zero => exact .inl rfl
  | succ pads =>
    refine .inr ⟨List.replicate pads ' ', rfl, ?_⟩
    simp [isBlank_space]

theorem laid_blanks (pads : Nat) {rest : List Part}
    (laid : ∀ previous, freeBefore previous = true → Laid previous rest) {previous : Option Char}
    (free : freeBefore previous = true) : Laid previous (List.replicate pads .blank ++ rest) := by
  induction pads generalizing previous with
  | zero => exact laid previous free
  | succ pads ih => exact ⟨trivial, ih rfl⟩

theorem laid_padded (before after : Nat) (phrase : Phrase) :
    Laid none (padded before phrase after) := by
  have tail (pads : Nat) : ∀ previous, Laid previous (List.replicate pads .blank) := by
    induction pads with
    | zero => exact fun _ => trivial
    | succ pads ih => exact fun _ => ⟨trivial, ih _⟩
  refine laid_blanks before (fun previous free => laid_parts phrase ?_ (tail after) free) rfl
  rw [textOf_blanks]
  exact stops_blanks after

theorem gives_readWithin (lines : Option Lines) (fuel : Nat) (phrase : Phrase)
    (before after start : Nat)
    (short : (textOf (padded before phrase after)).length < fuel) :
    Gives (Lexeme.readWithin lines fuel ⟨textOf (padded before phrase after), start⟩)
      (ChainMeans · phrase.group) := by
  induction fuel generalizing phrase before after start with
  | zero => omega
  | succ fuel ih =>
    have each : ∀ inner : Phrase, inner.print.length < (textOf (padded before phrase after)).length →
        Understands (Lexeme.readWithin lines fuel) inner := by
      intro inner smaller start
      have whole : textOf (padded 0 inner 0) = inner.print := by simp [textOf_padded]
      rw [← whole]
      refine ih inner 0 0 start ?_
      rw [whole]
      omega
    rw [Lexeme.readWithin, selected_textOf (laid_padded before after phrase)]
    have silent : Gives (Lexeme.reportUnclaimed ⟨textOf (padded before phrase after), start⟩
        (elementsOf start (padded before phrase after))) fun _ => True := by
      rw [Lexeme.reportUnclaimed, unclaimed_textOf fun m member => member]
      exact gives_pure trivial
    refine gives_bind silent fun _ _ => ?_
    refine gives_bind (gives_elementsOf each lines start) fun lexemes given => gives_pure ?_
    exact chainMeans_of_lexemesOf phrase (lexemesOf_behind_blanks given)

/-- The reading of a printed expression with blanks around it gives its group. -/
theorem gives_read (lines : Option Lines) (before after : Nat) (phrase : Phrase) (start : Nat) :
    Gives (Lexeme.read lines
        ⟨List.replicate before ' ' ++ (phrase.print ++ List.replicate after ' '), start⟩)
      (ChainMeans · phrase.group) := by
  rw [← textOf_padded]
  exact gives_readWithin lines _ phrase before after start (Nat.lt_succ_self _)

end Notation
end Stencil
