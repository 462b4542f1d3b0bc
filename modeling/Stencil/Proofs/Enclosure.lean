import Stencil.Markup.Check
import Stencil.Proofs.Filters

/-! A printed interpolation between braces is the only construct of its template, and the check
finds nothing wrong with it. -/
namespace Stencil.Notation
open Text Markup

/-! ### The closing braces -/

section Closing

theorem breakAt_cons_of_none {mark : List Char} {c : Char} {rest : List Char}
    (apart : mark.isPrefixOf? (c :: rest) = none) :
    breakAt mark (c :: rest) = (breakAt mark rest).map fun parts => (c :: parts.1, parts.2) := by
  rw [breakAt, apart]

theorem breakAt_cons_of_ne {c : Char} (other : c ≠ '}') (rest : List Char) :
    breakAt ['}', '}'] (c :: rest) =
      (breakAt ['}', '}'] rest).map fun parts => (c :: parts.1, parts.2) :=
  breakAt_cons_of_none (by simp [List.isPrefixOf?, other.symm])

theorem not_isPrefixOf_escape {c : Char} {content : List Char}
    (unclosed : ¬ ['}', '}'] <:+: c :: content) (rest : List Char) :
    ['}', '}'].isPrefixOf? (c :: (escape content ++ '"' :: rest)) = none := by
  by_cases brace : c = '}'
  · subst brace
    cases content with
    | nil => simp [escape, List.isPrefixOf?]
    | cons d content =>
      rw [escape_cons]
      rcases escapeChar_cases d with ⟨same, -⟩ | ⟨same, -⟩
      · simp [same, List.isPrefixOf?]
      · have other : d ≠ '}' := by
          rintro rfl
          exact unclosed ⟨[], content, rfl⟩
        simp [same, List.isPrefixOf?, other.symm]
  · simp [List.isPrefixOf?, Ne.symm brace]

/-- The braces that close an interpolation are not among those of a text. -/
theorem breakAt_escape {content : List Char} (unclosed : ¬ ['}', '}'] <:+: content)
    (rest : List Char) : breakAt ['}', '}'] (escape content ++ '"' :: rest) =
      (breakAt ['}', '}'] rest).map fun parts => (escape content ++ '"' :: parts.1, parts.2) := by
  induction content with
  | nil => exact breakAt_cons_of_ne (by decide) rest
  | cons c content ih =>
    have later := ih fun inside => unclosed (List.infix_cons inside)
    rw [escape_cons]
    rcases escapeChar_cases c with ⟨same, special⟩ | ⟨same, -⟩
    · have other : c ≠ '}' := by
        rintro rfl
        simp at special
      simp only [same, List.cons_append, List.nil_append]
      rw [breakAt_cons_of_ne (by decide), breakAt_cons_of_ne other, later, Option.map_map,
        Option.map_map]
      rfl
    · have apart := not_isPrefixOf_escape unclosed rest
      simp only [same, List.cons_append, List.nil_append]
      rw [breakAt_cons_of_none apart, later, Option.map_map]
      rfl

theorem breakAt_append {free : Char → Bool} {stack text : List Char}
    (complete : Completes free stack text) (rest : List Char) :
    breakAt ['}', '}'] (text ++ rest) =
      (breakAt ['}', '}'] rest).map fun parts => (text ++ parts.1, parts.2) := by
  induction complete with
  | nil => simp
  | plain plain _ _ ih =>
    obtain ⟨-, -, -, brace⟩ := isPlain_iff.mp plain
    rw [List.cons_append, breakAt_cons_of_ne brace, ih, Option.map_map]
    rfl
  | @quoted content _ text unclosed _ ih =>
    have inside := breakAt_escape unclosed (text ++ rest)
    have shape : quote content ++ text ++ rest =
        '"' :: (escape content ++ '"' :: (text ++ rest)) := by
      simp [quote]
    rw [shape, breakAt_cons_of_ne (by decide), inside, ih]
    simp [quote, Function.comp_def]
  | @opens c _ _ _ pair _ ih =>
    have other : c ≠ '}' := by
      rintro rfl
      contradiction
    rw [List.cons_append, breakAt_cons_of_ne other, ih, Option.map_map]
    rfl
  | @closes c _ _ closing _ ih =>
    have other : c ≠ '}' := by
      rintro rfl
      contradiction
    rw [List.cons_append, breakAt_cons_of_ne other, ih, Option.map_map]
    rfl

end Closing

/-! ### The construct -/

theorem printFilters_complete (filters : List Filter) :
    Completes (fun _ => true) [] (printFilters filters) := by
  induction filters with
  | nil => exact .nil
  | cons filter rest ih => exact filter.complete.and_then ih

theorem Interpolation.inner_complete (i : Interpolation) : Completes (fun _ => true) [] i.inner :=
  .plain rfl (fun _ => rfl) ((i.phrase.complete.mono fun _ _ => rfl).and_then
    ((printFilters_complete i.filters).and_then (.plain rfl (fun _ => rfl) .nil)))

/-- The template of an interpolation. -/
def Interpolation.source (i : Interpolation) : List Char :=
  ['{', '{', ' '] ++ (i.print ++ [' ', '}', '}'])

theorem Interpolation.source_eq (i : Interpolation) :
    i.source = '{' :: '{' :: (i.inner ++ ['}', '}']) := by
  simp [source, inner, print, printFilters]

/-- The construct that an interpolation is. -/
def Interpolation.construct (i : Interpolation) : Match :=
  ⟨.interpolation, i.source, 0, .captured [⟨i.inner, 2⟩]⟩

theorem scan_interpolation (i : Interpolation) :
    scan .interpolation i.source 0 [] = [i.construct] := by
  have closed : breakAt ['}', '}'] (i.inner ++ ['}', '}']) = some (i.inner, []) := by
    rw [breakAt_append i.inner_complete]
    simp [breakAt, List.isPrefixOf?]
  have hits : enclosed ['{', '{'] ['}', '}'] none (i.source ++ []) =
      some ⟨2 + i.inner.length + 2, [(2, i.inner.length)]⟩ := by
    rw [List.append_nil, i.source_eq]
    simp [enclosed, List.isPrefixOf?, closed]
  have size : 2 + i.inner.length + 2 = i.source.length := by
    rw [i.source_eq]
    simp
    omega
  have whole : scanFrom (enclosed ['{', '{'] ['}', '}']) .interpolation none 0 0 (i.source ++ []) =
      _ := scanFrom_of_hit hits size (by simp [i.source_eq]) 0
  rw [List.append_nil] at whole
  rw [scan_eq_scanFrom]
  refine whole.trans ?_
  have inside : (i.source.drop 2).take i.inner.length = i.inner := by
    rw [i.source_eq]
    simp
  simp [Hit.toMatch, Interpolation.construct, size, inside, scanFrom]

/-- Tags and comments start further on. -/
theorem start_of_mem_scan {category : Category}
    (other : category ∈ [Category.blockStart, .blockEnd, .comment, .tag]) {i : Interpolation}
    {m : Match} (found : m ∈ scan category i.source 0 []) : 0 < m.start := by
  obtain ⟨x, y, hit, split, -, hits, -, -, rfl⟩ := exists_hit_of_mem_scan found
  cases x with
  | nil =>
    rw [List.nil_append, i.source_eq] at split
    subst split
    simp only [List.mem_cons, List.not_mem_nil, or_false] at other
    have none : category.matcher none ('{' :: '{' :: (i.inner ++ ['}', '}'])) = none := by
      rcases other with rfl | rfl | rfl | rfl <;> rfl
    cases none.symm.trans hits
  | cons c x =>
    simp [Match.shift, Hit.toMatch]

theorem disjoint_eq_nil {reached : Nat} {found : List Match}
    (covered : ∀ m ∈ found, m.start < reached) : Recognition.disjoint reached found = [] := by
  induction found with
  | nil => rfl
  | cons m rest ih =>
    rw [Recognition.disjoint, if_pos (covered m (by simp))]
    exact ih fun other member => covered other (by simp [member])

/-- A match that starts first and covers where all others start is the only one kept. -/
theorem disjoint_of_cover {found : List Match} {m : Match} (member : m ∈ found) (start : m.start = 0)
    (later : ∀ other ∈ found, other = m ∨ 0 < other.start)
    (covered : ∀ other ∈ found, other.start < m.stop) :
    Recognition.disjoint 0 (found.mergeSort Match.outerFirst) = [m] := by
  have order := pairwise_outerFirst found
  have same (other : Match) : other ∈ found.mergeSort Match.outerFirst ↔ other ∈ found :=
    List.mem_mergeSort
  cases sorted : found.mergeSort Match.outerFirst with
  | nil =>
    have inside := (same m).mpr member
    rw [sorted] at inside
    contradiction
  | cons first rest =>
    rw [sorted] at order same
    have front : first = m := by
      rcases later first ((same first).mp (by simp)) with equal | positive
      · exact equal
      · rcases List.mem_cons.mp ((same m).mpr member) with equal | behind
        · exact equal.symm
        · have before := (List.pairwise_cons.mp order).1 m behind
          omega
    subst front
    rw [Recognition.disjoint, if_neg (Nat.not_lt_zero _), disjoint_eq_nil]
    exact fun other inside => covered other ((same other).mp (by simp [inside]))

theorem constructs_source (i : Interpolation) : constructs i.source = [i.construct] := by
  have stop : i.construct.stop = i.source.length := Nat.zero_add _
  have covered {category : Category} {m : Match} (found : m ∈ scan category i.source 0 []) :
      m.start < i.construct.stop := by
    have occurs := occursIn_of_mem_scan found
    have before := occurs.start_lt_stop
    have within := occurs.stop_le
    omega
  have each : ∀ m ∈ (recognize i.source).interpolations ++ (recognize i.source).blockStarts ++
      (recognize i.source).blockEnds ++ (recognize i.source).comments ++ (recognize i.source).tags,
      (m = i.construct ∨ 0 < m.start) ∧ m.start < i.construct.stop := by
    intro m found
    simp only [recognize, List.mem_append, List.mem_filter] at found
    rcases found with (((found | found) | found) | found) | ⟨found, -⟩
    · exact ⟨.inl (by simpa [scan_interpolation] using found), covered found⟩
    all_goals exact ⟨.inr (start_of_mem_scan (by simp) found), covered found⟩
  refine disjoint_of_cover ?_ rfl (fun m found => (each m found).1) fun m found => (each m found).2
  simp [recognize, scan_interpolation]

/-! ### The check -/

section Wordish
open Check

def isWordishChar (c : Char) : Bool := isNamePart c || c == '.'

theorem piecesFrom_append {word : List Char} (apart : '.' ∉ word) (piece rest : List Char) :
    piecesFrom ['.'] 0 piece (word ++ rest) = piecesFrom ['.'] 0 (word.reverse ++ piece) rest := by
  induction word generalizing piece with
  | nil => rfl
  | cons c word ih =>
    simp only [List.mem_cons, not_or] at apart
    have step : piecesFrom ['.'] 0 piece (c :: (word ++ rest)) =
        piecesFrom ['.'] 0 (c :: piece) (word ++ rest) := by
      simp [piecesFrom, List.isPrefixOf, apart.1]
    rw [List.cons_append, step, ih apart.2, List.reverse_cons, List.append_assoc]
    rfl

theorem pieces_of_not_mem {word : List Char} (apart : '.' ∉ word) : pieces ['.'] word = [word] := by
  have whole := piecesFrom_append apart [] []
  rw [List.append_nil, List.append_nil] at whole
  rw [pieces, whole, piecesFrom, List.reverse_reverse]

theorem not_wordish {text : List Char} {c : Char} (member : c ∈ text)
    (other : isWordishChar c = false) : ¬ text.all isWordishChar = true := by
  intro wordish
  have free := List.all_eq_true.mp wordish c member
  rw [other] at free
  contradiction

theorem isName_piecesFrom {steps : List Step} {piece : List Char}
    (wordish : (printSteps steps).all isWordishChar = true) (name : isName piece.reverse = true) :
    (piecesFrom ['.'] 0 piece (printSteps steps)).all isName = true := by
  induction steps generalizing piece with
  | nil => simp [printSteps, piecesFrom, name]
  | cons step rest ih =>
    cases step with
    | index inner =>
      have opened : '[' ∈ printSteps (.index inner :: rest) := by simp [printSteps, Step.print]
      exact absurd wordish (not_wordish opened (by decide))
    | property word =>
      have apart := not_mem_of_isName (c := '.') word.valid (by decide)
      have point : piecesFrom ['.'] 0 piece ('.' :: (word.text ++ printSteps rest)) =
          piece.reverse :: piecesFrom ['.'] 0 [] (word.text ++ printSteps rest) := by
        simp [piecesFrom, List.isPrefixOf]
      rw [printSteps, Step.print, List.cons_append] at wordish ⊢
      rw [List.all_cons, List.all_append, Bool.and_eq_true, Bool.and_eq_true] at wordish
      rw [point, piecesFrom_append apart, List.all_cons, name, Bool.true_and, List.append_nil]
      exact ih wordish.2.2 (by rw [List.reverse_reverse]; exact word.valid)

/-- An atom of letters, digits and points is a path of names or a number. -/
theorem isNamePath_or_isNumber_atom {atom : Atom} (wordish : atom.print.all isWordishChar = true) :
    isNamePath atom.print = true ∨ isNumber atom.print = true := by
  have single {word : List Char} (valid : isName word = true) : isNamePath word = true := by
    rw [isNamePath, pieces_of_not_mem (not_mem_of_isName valid (by decide)), List.all_cons, valid]
    rfl
  cases atom with
  | integer n short =>
    have apart : '.' ∉ Nat.toDigits 10 n := not_mem_toDigits (by decide)
    have full : (Nat.toDigits 10 n).isEmpty = false := by simp [Nat.toDigits_ne_nil]
    have digits : (Nat.toDigits 10 n).all isDigit = true :=
      List.all_eq_true.mpr fun c => isDigit_of_mem_toDigits
    right
    simp [Atom.print, isNumber, pieces_of_not_mem apart, full, digits]
  | bool b => exact .inl (single (by cases b <;> decide))
  | null => exact .inl (single (by decide))
  | text content unclosed =>
    have quotes : '"' ∈ quote content := by simp [quote]
    exact absurd wordish (not_wordish quotes (by decide))
  | name name free => exact .inl (single name.valid)
  | path base first rest =>
    have apart := not_mem_of_isName (c := '.') base.valid (by decide)
    rw [Atom.print, List.all_append, Bool.and_eq_true] at wordish
    have walk : (printSteps (first :: rest)).all isWordishChar = true := wordish.2
    have names := isName_piecesFrom walk
      (by rw [List.reverse_reverse]; exact base.valid : isName base.text.reverse.reverse = true)
    left
    rw [isNamePath, pieces, Atom.print, piecesFrom_append apart, List.append_nil]
    exact names
  | call callee args =>
    have opened : '(' ∈ (Atom.call callee args).print := by simp [Atom.print]
    exact absurd wordish (not_wordish opened (by decide))

theorem isNamePath_or_isNumber {phrase : Phrase} (wordish : isWordish phrase.print = true) :
    isNamePath phrase.print = true ∨ isNumber phrase.print = true := by
  rw [isWordish, Bool.and_eq_true] at wordish
  have each : phrase.print.all isWordishChar = true := wordish.2
  have none {c : Char} (member : c ∈ phrase.print) (other : isWordishChar c = false) : False :=
    absurd each (not_wordish member other)
  cases phrase with
  | last signs atom =>
    cases signs with
    | zero => exact isNamePath_or_isNumber_atom each
    | succ signs => exact (none (c := '-') (by simp [Phrase.print, List.replicate_succ]) (by decide)).elim
  | more signs atom op rest =>
    exact (none (c := ' ') (by simp [Phrase.print]) (by decide)).elim

theorem interpolation_construct (i : Interpolation) : interpolation i.construct = [] := by
  have inner : i.construct.capture 0 = i.inner := rfl
  have head : expressionHead i.inner = ' ' :: (i.phrase.print ++ [' ']) := head_inner i 0
  have trimmed : trim (' ' :: (i.phrase.print ++ [' '])) = i.phrase.print :=
    trim_of_isTight [' '] [' '] i.phrase.tight (by simp [isBlank_space]) (by simp [isBlank_space])
  have visible : i.inner.all isBlank = false := by
    have shown : ([' '] ++ (i.phrase.print ++ (printFilters i.filters ++ [' ']))).all isBlank = false :=
      not_all_isBlank_of_isTight i.phrase.tight
    exact shown
  have sound : ¬ (isWordish i.phrase.print && !isNamePath i.phrase.print &&
      !isNumber i.phrase.print) = true := by
    simp only [Bool.and_eq_true, Bool.not_eq_true', not_and, Bool.not_eq_false]
    rintro ⟨wordish, other⟩
    exact (isNamePath_or_isNumber wordish).resolve_left (by simp [other])
  rw [interpolation, inner, head, trimmed, visible, if_neg (by simp), if_neg sound]

theorem strayMarks_source (i : Interpolation) :
    strayMarks i.source [interval i.construct] = [] := by
  rw [strayMarks, List.flatMap_eq_nil_iff]
  rintro ⟨mark, kind, message⟩ -
  have none : scanWith (literally mark) .tag i.source 0 [interval i.construct] = [] := by
    rw [scanWith, List.map_eq_nil_iff, List.filter_eq_nil_iff]
    intro m found
    have occurs := occursIn_of_mem_scanFrom found
    have before := occurs.start_lt_stop
    have within := occurs.stop_le
    have covered : inside m.start [interval i.construct] = true := by
      simp only [inside, interval, List.any_cons, List.any_nil, Bool.or_false, Bool.and_eq_true,
        decide_eq_true_eq]
      have stop : i.construct.stop = i.source.length := Nat.zero_add _
      exact ⟨Nat.zero_le _, by omega⟩
    simp [covered]
  simp only [none, List.map_nil]

/-- The check finds nothing wrong with a printed interpolation. -/
theorem diagnostics_source (i : Interpolation) : diagnostics i.source = [] := by
  have none : problems i.source = [] := by
    have alone : structureProblems [] [i.construct] = interpolation i.construct ++ [] := rfl
    rw [problems, constructs_source, alone, interpolation_construct, List.map_singleton,
      strayMarks_source]
    rfl
  rw [diagnostics, none, List.mergeSort_nil, List.map_nil]

end Wordish

end Stencil.Notation
