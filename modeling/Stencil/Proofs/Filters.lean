import Mathlib.Data.List.Forall2
import Stencil.Proofs.Lexemes

/-! The filters of a printed interpolation are found at its bars: those of operators come in pairs,
and all others stand in quotes or brackets. -/
namespace Stencil.Markup
open Text Notation

/-! ### Heads -/

section Heads

variable {previous : Option Char} {offset : Nat} {rest : List Char}

theorem filterHead_of_ne {c : Char} (other : c ≠ '|') : filterHead previous (c :: rest) = none := by
  simp [filterHead, other]

/-- A filter head has no bar behind its first one. -/
theorem not_mem_of_filterHead {hit : Hit} {c : Char}
    (hits : filterHead previous (c :: rest) = some hit) :
    0 < hit.size ∧ '|' ∉ rest.take (hit.size - 1) := by
  obtain ⟨gap, name, after, shape, blank, valid, rfl⟩ := hit_of_filterHead hits
  obtain ⟨-, rfl⟩ := List.cons.inj shape
  have taken : (gap ++ (name ++ after)).take (1 + gap.length + name.length - 1) = gap ++ name := by
    have size : 1 + gap.length + name.length - 1 = (gap ++ name).length := by
      rw [List.length_append]
      omega
    rw [size, ← List.append_assoc, List.take_left]
  refine ⟨by simp only; omega, fun member => ?_⟩
  rw [taken] at member
  rcases List.mem_append.mp member with inside | inside
  · exact absurd (blank _ inside) (by decide)
  · exact not_mem_of_isName valid (by decide) inside

theorem scanFrom_filter_skip {skip : Nat} (apart : '|' ∉ rest.take skip) :
    scanFrom filterHead .filter previous offset skip rest =
      scanFrom filterHead .filter previous offset 0 rest := by
  induction rest generalizing previous offset skip with
  | nil => rfl
  | cons c rest ih =>
    cases skip with
    | zero => rfl
    | succ skip =>
      simp only [List.take_succ_cons, List.mem_cons, not_or] at apart
      rw [scanFrom, scanFrom, filterHead_of_ne (Ne.symm apart.1)]
      exact ih apart.2

/-- Filter heads never cover each other, so every one is found. -/
theorem scanFrom_filter_cons (c : Char) :
    scanFrom filterHead .filter previous offset 0 (c :: rest) =
      ((filterHead previous (c :: rest)).map fun hit =>
        hit.toMatch .filter (c :: rest) offset).toList ++
          scanFrom filterHead .filter (some c) (offset + 1) 0 rest := by
  rw [scanFrom]
  cases hits : filterHead previous (c :: rest) with
  | none => rfl
  | some hit =>
    obtain ⟨positive, apart⟩ := not_mem_of_filterHead hits
    have full : (hit.size == 0) = false := by
      rw [beq_eq_false_iff_ne]
      omega
    simp only [full, Bool.false_eq_true, if_false, scanFrom_filter_skip apart]
    rfl

end Heads

/-! ### Texts without heads -/

/-- The heads at the places that count as outside. -/
def headsFrom (free : List Bool) (previous : Option Char) (offset : Nat) (text : List Char) :
    List Match :=
  (scanFrom filterHead .filter previous offset 0 text).filter fun head =>
    free.getD head.start false

/-- No head that counts starts in the text, whatever follows it. -/
def Hushed (free : List Bool) (offset : Nat) (text : List Char) : Prop :=
  ∀ previous rest, headsFrom free previous offset (text ++ rest) =
    headsFrom free (text.getLast?.or previous) (offset + text.length) rest

section Hushed

variable {free : List Bool} {offset : Nat} {first second : List Char}

theorem headsFrom_cons_of_none {previous : Option Char} {c : Char} {rest : List Char}
    (none : filterHead previous (c :: rest) = none) :
    headsFrom free previous offset (c :: rest) = headsFrom free (some c) (offset + 1) rest := by
  rw [headsFrom, scanFrom_filter_cons, none]
  rfl

theorem headsFrom_cons_of_hit {previous : Option Char} {c : Char} {rest : List Char} {hit : Hit}
    (hits : filterHead previous (c :: rest) = some hit) (outer : free.getD offset false = true) :
    headsFrom free previous offset (c :: rest) =
      hit.toMatch .filter (c :: rest) offset :: headsFrom free (some c) (offset + 1) rest := by
  rw [headsFrom, scanFrom_filter_cons, hits]
  exact List.filter_cons_of_pos outer

theorem hushed_append (one : Hushed free offset first)
    (two : Hushed free (offset + first.length) second) : Hushed free offset (first ++ second) := by
  intro previous rest
  rw [List.append_assoc, one, two, List.getLast?_append, Option.or_assoc, List.length_append,
    Nat.add_assoc]

theorem hushed_of_covered {text : List Char}
    (covered : ∀ i c, text[i]? = some c → free.getD (offset + i) false = true → c ≠ '|') :
    Hushed free offset text := by
  induction text generalizing offset with
  | nil => exact fun previous rest => rfl
  | cons c text ih =>
    intro previous rest
    have later : Hushed free (offset + 1) text := by
      refine ih fun i d here => ?_
      rw [Nat.add_assoc, Nat.add_comm 1 i]
      exact covered (i + 1) d here
    have first : headsFrom free previous offset (c :: (text ++ rest)) =
        headsFrom free (some c) (offset + 1) (text ++ rest) := by
      rw [headsFrom, scanFrom_filter_cons]
      cases hits : filterHead previous (c :: (text ++ rest)) with
      | none => rfl
      | some hit =>
        have bar : c = '|' := by
          by_contra other
          rw [filterHead_of_ne other] at hits
          contradiction
        have hidden : ¬ free.getD offset false = true := fun outer => covered 0 c rfl outer bar
        exact List.filter_cons_of_neg hidden
    rw [List.cons_append, first, later, getLast_or_cons, List.length_cons]
    congr 1
    omega

theorem hushed_of_not_mem {text : List Char} (apart : '|' ∉ text) : Hushed free offset text := by
  refine hushed_of_covered fun i c here _ same => apart ?_
  rw [← same]
  exact List.mem_of_getElem? here

theorem hushed_symbol (op : Operator) : Hushed free offset op.symbol.toList := by
  cases op with
  | or =>
    intro previous rest
    have double : Operator.or.symbol.toList = ['|', '|'] := rfl
    rw [double, List.cons_append, List.singleton_append, headsFrom_cons_of_none (by simp [filterHead]),
      headsFrom_cons_of_none (by simp [filterHead])]
    rfl
  | _ => exact hushed_of_not_mem (by decide)

end Hushed

end Stencil.Markup

namespace Stencil.Notation
open Text Markup

section Texts

variable {before text after : List Char} {free : Char → Bool}

theorem hushed_of_completes (front : Completes free [] before)
    (complete : Completes isUnbarred [] text) :
    Hushed (outside (before ++ (text ++ after))) before.length text := by
  refine hushed_of_covered fun i c here outer => ?_
  obtain ⟨flags, size, found, -⟩ := front.exists_outsideFrom
  obtain ⟨inner, length, further, known⟩ := complete.exists_outsideFrom
  have place : i < inner.length := length ▸ (List.getElem?_eq_some_iff.mp here).1
  have whole : outside (before ++ (text ++ after)) =
      flags ++ (inner ++ outsideFrom none false 0 after) := by
    rw [outside, ← further after]
    exact found _
  rw [whole, List.getD_eq_getElem?_getD, ← size, List.getElem?_append_right (Nat.le_add_right _ _),
    Nat.add_sub_cancel_left, List.getElem?_append_left place,
    List.getElem?_eq_getElem place, Option.getD_some] at outer
  have pair : (c, inner[i]) ∈ text.zip inner := by
    refine List.mem_of_getElem? (i := i) ?_
    rw [List.getElem?_zip_eq_some]
    exact ⟨here, List.getElem?_eq_getElem place⟩
  have apart := known _ pair outer
  simp only [isUnbarred, Bool.and_eq_true, bne_iff_ne] at apart
  exact apart.2

theorem hushed_textOf {parts : List Part} (front : Completes (fun _ => true) [] before) :
    Hushed (outside (before ++ (textOf parts ++ after))) before.length (textOf parts) := by
  induction parts generalizing before with
  | nil => exact fun previous rest => rfl
  | cons part rest ih =>
    have complete : Completes (fun _ => true) [] part.text := part.complete.mono fun _ _ => rfl
    have later := ih (front.and_then complete)
    rw [textOf_cons]
    refine hushed_append ?_ ?_
    · cases part with
      | blank => exact hushed_of_not_mem (by decide)
      | mark op => exact hushed_symbol op
      | atom a =>
        rw [List.append_assoc]
        exact hushed_of_completes front a.complete
    · simpa using later

theorem hushed_phrase (phrase : Phrase) (front : Completes (fun _ => true) [] before)
    (after : List Char) :
    Hushed (outside (before ++ (phrase.print ++ after))) before.length phrase.print := by
  rw [← textOf_parts]
  exact hushed_textOf front

/-- A plain character outside of brackets and quotes counts as outside. -/
theorem getD_outside {c : Char} (front : Completes free [] before) (plain : isPlain c = true)
    (rest : List Char) : (outside (before ++ c :: rest)).getD before.length false = true := by
  obtain ⟨flags, size, found, -⟩ := front.exists_outsideFrom
  obtain ⟨quotes, opens, closes, -⟩ := isPlain_iff.mp plain
  have whole : outside (before ++ c :: rest) = flags ++ outsideFrom none false 0 (c :: rest) :=
    found _
  rw [whole, List.getD_eq_getElem?_getD, ← size, List.getElem?_append_right (Nat.le_refl _),
    Nat.sub_self, outsideFrom, quotes, opens, closes]
  rfl

/-- Arguments of a filter with a colon before each. -/
def colons (args : List Phrase) : List Char := args.flatMap fun arg => ':' :: arg.print

theorem colons_cons (arg : Phrase) (args : List Phrase) :
    colons (arg :: args) = ':' :: (arg.print ++ colons args) := rfl

theorem colons_complete (args : List Phrase) : Completes (fun _ => true) [] (colons args) := by
  induction args with
  | nil => exact .nil
  | cons arg args ih =>
    exact .plain rfl (fun _ => rfl) ((arg.complete.mono fun _ _ => rfl).and_then ih)

theorem hushed_colons (args : List Phrase) (front : Completes (fun _ => true) [] before)
    (after : List Char) :
    Hushed (outside (before ++ (colons args ++ after))) before.length (colons args) := by
  induction args generalizing before with
  | nil => exact fun previous rest => rfl
  | cons arg args ih =>
    have mark : Completes (fun _ => true) [] [':'] := .plain rfl (fun _ => rfl) .nil
    have phrase := hushed_phrase arg (front.and_then mark) (colons args ++ after)
    have later := ih ((front.and_then mark).and_then (arg.complete.mono fun _ _ => rfl))
    rw [colons_cons, ← List.singleton_append]
    refine hushed_append (hushed_of_not_mem (by decide)) (hushed_append ?_ ?_)
    · simpa using phrase
    · simpa [Nat.add_assoc, Nat.add_comm 1] using later

/-- The head of a filter whose printed form starts at an offset. -/
def Filter.head (offset : Nat) (filter : Filter) : Match :=
  ⟨.filter, '|' :: ' ' :: filter.name.text, offset + 1,
    .captured [⟨filter.name.text, offset + 3⟩]⟩

theorem Filter.print_eq (filter : Filter) : filter.print =
    ' ' :: '|' :: ' ' :: (filter.name.text ++ colons filter.args) := rfl

theorem Filter.complete (filter : Filter) : Completes (fun _ => true) [] filter.print := by
  have word : Completes (fun _ => true) [] filter.name.text :=
    (Completes.of_isWord (isWord_of_isName filter.name.valid)).mono fun _ _ => rfl
  rw [filter.print_eq]
  exact .plain rfl (fun _ => rfl) (.plain rfl (fun _ => rfl) (.plain rfl (fun _ => rfl)
    (word.and_then (colons_complete filter.args))))

theorem filterHead_print {previous : Option Char} (filter : Filter) (other : previous ≠ some '|')
    (more : List Char) :
    filterHead previous ('|' :: ' ' :: (filter.name.text ++ (colons filter.args ++ ' ' :: more))) =
      some ⟨2 + filter.name.text.length, [(2, filter.name.text.length)]⟩ := by
  have stops : (colons filter.args ++ ' ' :: more).head?.all (!isNamePart ·) = true := by
    cases filter.args <;> rfl
  have leads := leadingName_append filter.name.valid stops
  have blanks : blankCount (' ' :: (filter.name.text ++ (colons filter.args ++ ' ' :: more))) = 1 := by
    obtain ⟨c, rest, same, visible⟩ := filter.name.tight.starts
    rw [blankCount, same, List.cons_append, List.takeWhile_cons_of_pos isBlank_space,
      List.takeWhile_cons_of_neg (by simp [visible])]
    rfl
  have full : filter.name.text.isEmpty = false := by simpa using filter.name.nonempty
  rw [filterHead.eq_1]
  simp only [blanks, List.drop_succ_cons, List.drop_zero, leads, full, Bool.false_eq_true, if_false]
  simp [other]

theorem headsFrom_filter {previous : Option Char} (filter : Filter)
    (front : Completes (fun _ => true) [] before) (more : List Char) :
    headsFrom (outside (before ++ (filter.print ++ ' ' :: more))) previous before.length
        (filter.print ++ ' ' :: more) =
      filter.head before.length ::
        headsFrom (outside (before ++ (filter.print ++ ' ' :: more)))
          (filter.print.getLast?.or previous) (before.length + filter.print.length) (' ' :: more) := by
  have space : Completes (fun _ => true) [] [' '] := .plain rfl (fun _ => rfl) .nil
  have bar : Completes (fun _ => true) [] ['|', ' '] := .plain rfl (fun _ => rfl) space
  have word : Completes (fun _ => true) [] filter.name.text :=
    (Completes.of_isWord (isWord_of_isName filter.name.valid)).mono fun _ _ => rfl
  have outer := getD_outside (c := '|') (front.and_then space) rfl
    (' ' :: (filter.name.text ++ (colons filter.args ++ ' ' :: more)))
  have quiet : '|' ∉ ' ' :: filter.name.text := by
    have apart := not_mem_of_isName (c := '|') filter.name.valid (by decide)
    simp [apart]
  have given : Hushed (outside (before ++ ' ' :: '|' :: ' ' ::
      (filter.name.text ++ (colons filter.args ++ ' ' :: more))))
      (before.length + 1 + 1 + (' ' :: filter.name.text).length) (colons filter.args) := by
    have args := hushed_colons filter.args (((front.and_then space).and_then bar).and_then word)
      (' ' :: more)
    simpa [Nat.add_assoc, Nat.add_comm, Nat.add_left_comm] using args
  have behind := hushed_append (hushed_of_not_mem quiet) given (some '|') (' ' :: more)
  have found := filterHead_print filter (by simp : some ' ' ≠ some '|') more
  rw [filter.print_eq]
  simp only [List.cons_append, List.append_assoc] at outer behind ⊢
  rw [headsFrom_cons_of_none (filterHead_of_ne (by decide))]
  rw [headsFrom_cons_of_hit found (by simpa using outer), behind]
  simp only [getLast_or_cons]
  congr 1
  · simp [Hit.toMatch, Filter.head, Nat.add_comm 2, Nat.add_assoc]
  · congr 1
    simp only [List.length_cons]
    omega

def printFilters (filters : List Filter) : List Char := filters.flatMap (·.print)

theorem printFilters_cons (filter : Filter) (rest : List Filter) :
    printFilters (filter :: rest) = filter.print ++ printFilters rest := rfl

theorem exists_blank (filters : List Filter) :
    ∃ more, printFilters filters ++ [' '] = ' ' :: more := by
  cases filters with
  | nil => exact ⟨[], rfl⟩
  | cons filter rest => exact ⟨_, by rw [printFilters_cons, filter.print_eq, List.append_assoc]; rfl⟩

/-- The heads of filters whose printed forms start at an offset. -/
def headsOf (offset : Nat) : List Filter → List Match
  | [] => []
  | filter :: rest => filter.head offset :: headsOf (offset + filter.print.length) rest

theorem headsFrom_printFilters (filters : List Filter) (front : Completes (fun _ => true) [] before)
    (previous : Option Char) :
    headsFrom (outside (before ++ (printFilters filters ++ [' ']))) previous before.length
      (printFilters filters ++ [' ']) = headsOf before.length filters := by
  induction filters generalizing before previous with
  | nil =>
    have blank : filterHead previous [' '] = none := filterHead_of_ne (by decide)
    exact headsFrom_cons_of_none blank
  | cons filter rest ih =>
    have later := ih (front.and_then filter.complete) (filter.print.getLast?.or previous)
    obtain ⟨more, same⟩ := exists_blank rest
    rw [printFilters_cons, List.append_assoc, same, headsFrom_filter filter front, ← same, headsOf]
    rw [List.append_assoc, List.length_append] at later
    rw [later]

/-! ### Filters -/

/-- The text between the braces of a printed interpolation. -/
def Interpolation.inner (i : Interpolation) : List Char :=
  ' ' :: (i.phrase.print ++ (printFilters i.filters ++ [' ']))

/-- The match is that of the filter. -/
def Filter.IsMatch (filter : Filter) (m : Match) : Prop :=
  ∃ argumentText arguments, m.detail = .filter filter.name.text argumentText arguments [] ∧
    arguments.map (·.text) = filter.args.map (·.print)

/-- The texts of the arguments of a filter as they stand between colons. -/
def filterTexts : List Phrase → List (List Char)
  | [] => []
  | [arg] => [arg.print ++ [' ']]
  | arg :: rest => arg.print :: filterTexts rest

theorem pads_filterTexts (args : List Phrase) : List.Forall₂ Pads (filterTexts args) args := by
  induction args with
  | nil => exact .nil
  | cons arg rest ih =>
    cases rest with
    | nil => exact .cons ⟨0, 1, rfl⟩ .nil
    | cons next rest => exact .cons ⟨0, 0, by simp⟩ ih

theorem glueTogether_filterTexts (arg : Phrase) (args : List Phrase) :
    glueTogether [':'] (filterTexts (arg :: args)) = arg.print ++ (colons args ++ [' ']) := by
  induction args generalizing arg with
  | nil => rfl
  | cons next args ih =>
    have full : filterTexts (next :: args) ≠ [] := by cases args <;> simp [filterTexts]
    rw [filterTexts.eq_3 _ _ (by simp), glueTogether.eq_3 _ _ _ full, ih, colons_cons]
    simp

theorem colons_tight {text : List Char} (tight : IsTight text) (args : List Phrase) :
    IsTight (text ++ colons args) := by
  induction args generalizing text with
  | nil => simpa [colons] using tight
  | cons arg args ih =>
    have longer := ih (isTight_append tight arg.tight [':'])
    simpa [colons_cons] using longer

theorem isMatch_filterMatch (filter : Filter) (before more : List Char) (base : Nat) :
    filter.IsMatch (filterMatch (before ++ (filter.print ++ ' ' :: more)) base
      (filter.head before.length) (before.length + filter.print.length + 1)) := by
  have shape : before ++ (filter.print ++ ' ' :: more) =
      (before ++ ' ' :: '|' :: ' ' :: filter.name.text) ++
        ((colons filter.args ++ [' ']) ++ more) := by
    simp [filter.print_eq]
  have stop : (filter.head before.length).stop =
      (before ++ ' ' :: '|' :: ' ' :: filter.name.text).length := by
    simp only [Match.stop, Filter.head, List.length_append, List.length_cons]
    omega
  have size : before.length + filter.print.length + 1 - (filter.head before.length).stop =
      (colons filter.args ++ [' ']).length := by
    rw [stop, filter.print_eq]
    simp only [List.length_append, List.length_cons, List.length_nil]
    omega
  have tail : ((before ++ (filter.print ++ ' ' :: more)).drop (filter.head before.length).stop).take
      (before.length + filter.print.length + 1 - (filter.head before.length).stop) =
        colons filter.args ++ [' '] := by
    rw [size, shape, stop, List.drop_left, List.take_left]
  have name : (filter.head before.length).capture 0 = filter.name.text := rfl
  rw [filterMatch, tail, name]
  cases given : filter.args with
  | nil => exact ⟨none, [], rfl, by rw [given]; rfl⟩
  | cons arg rest =>
    have tight : IsTight (colons (arg :: rest)) :=
      isTight_append (isTight_singleton (c := ':') rfl) (colons_tight arg.tight rest) []
    have trimmed : trim (colons (arg :: rest) ++ [' ']) = ':' :: (arg.print ++ colons rest) :=
      trim_of_isTight [] [' '] tight (by simp) (by simp [isBlank_space])
    have blanks : blankCount (colons (arg :: rest) ++ [' ']) = 0 := by
      rw [blankCount, colons_cons, List.cons_append, List.takeWhile_cons_of_neg (by decide)]
      rfl
    have inside : ((before ++ (filter.print ++ ' ' :: more)).drop
        ((filter.head before.length).stop + 0 + 1)).take (before.length + filter.print.length + 1 -
          ((filter.head before.length).stop + 0 + 1)) =
        glueTogether [':'] (filterTexts (arg :: rest)) := by
      rw [← List.drop_drop, ← Nat.sub_sub, Nat.add_zero (Match.stop _), size, shape, stop, List.drop_left, given,
        colons_cons, glueTogether_filterTexts]
      simp [List.take_append, List.take_of_length_le]
    rw [trimmed, blanks, inside]
    exact ⟨_, _, rfl, by rw [given]; exact texts_of_pads rfl rfl (pads_filterTexts _) _⟩

theorem isMatch_filters (filters : List Filter) (before : List Char) (base : Nat) :
    List.Forall₂ Filter.IsMatch filters
      (((headsOf before.length filters).zip
        (((headsOf before.length filters).drop 1).map (·.start) ++
          [(before ++ (printFilters filters ++ [' '])).length])).map fun (head, stop) =>
        filterMatch (before ++ (printFilters filters ++ [' '])) base head stop) := by
  induction filters generalizing before with
  | nil => exact .nil
  | cons filter rest ih =>
    -- The first stop is the next bar, or the end, which a blank stands before as well.
    have stops : ∃ stops, ((headsOf (before.length + filter.print.length) rest).map (·.start) ++
        [(before ++ (printFilters (filter :: rest) ++ [' '])).length]) =
          (before.length + filter.print.length + 1) :: stops ∧
        (headsOf (before.length + filter.print.length) rest).zip stops =
          (headsOf (before.length + filter.print.length) rest).zip
            (((headsOf (before.length + filter.print.length) rest).drop 1).map (·.start) ++
              [(before ++ (printFilters (filter :: rest) ++ [' '])).length]) := by
      cases rest with
      | nil => exact ⟨[], by simp [headsOf, printFilters, Nat.add_assoc], rfl⟩
      | cons next rest => exact ⟨_, rfl, rfl⟩
    obtain ⟨stops, first, later⟩ := stops
    obtain ⟨more, same⟩ := exists_blank rest
    have further := ih (before ++ filter.print)
    rw [List.append_assoc, List.length_append, ← List.append_assoc filter.print] at further
    rw [headsOf, List.drop_succ_cons, List.drop_zero, first, List.zip_cons_cons, later, List.map_cons]
    refine .cons ?_ further
    rw [printFilters_cons, List.append_assoc, same]
    exact isMatch_filterMatch filter before more base

theorem filters_inner (i : Interpolation) (base : Nat) :
    filters i.inner base =
      ((headsOf (' ' :: i.phrase.print).length i.filters).zip
        (((headsOf (' ' :: i.phrase.print).length i.filters).drop 1).map (·.start) ++
          [i.inner.length])).map fun (head, stop) => filterMatch i.inner base head stop := by
  have space : Completes (fun _ => true) [] [' '] := .plain rfl (fun _ => rfl) .nil
  have front := space.and_then (i.phrase.complete.mono fun _ _ => rfl)
  have heads : (scan .filter i.inner 0 []).filter
      (fun head => (outside i.inner).getD head.start false) =
        headsOf (' ' :: i.phrase.print).length i.filters := by
    rw [scan_eq_scanFrom]
    have first : headsFrom (outside i.inner) none 0 i.inner = headsFrom (outside i.inner) (some ' ') 1
        (i.phrase.print ++ (printFilters i.filters ++ [' '])) :=
      headsFrom_cons_of_none (filterHead_of_ne (by decide))
    have second := hushed_phrase i.phrase space (printFilters i.filters ++ [' ']) (some ' ')
      (printFilters i.filters ++ [' '])
    have third := headsFrom_printFilters i.filters front
      (i.phrase.print.getLast?.or (some ' '))
    rw [← List.length_append] at second
    rw [List.append_assoc] at third
    exact first.trans (second.trans third)
  rw [filters]
  dsimp only
  rw [heads]

/-- The filters of a printed interpolation. -/
theorem isMatch_inner (i : Interpolation) (base : Nat) :
    List.Forall₂ Filter.IsMatch i.filters (filters i.inner base) := by
  rw [filters_inner]
  exact isMatch_filters i.filters (' ' :: i.phrase.print) base

/-- What stands before the first filter. -/
theorem head_inner (i : Interpolation) (base : Nat) :
    (match filters i.inner base with
      | [] => i.inner
      | first :: _ => i.inner.take (first.start - base)) = ' ' :: (i.phrase.print ++ [' ']) := by
  rw [filters_inner]
  obtain ⟨phrase, given⟩ := i
  cases given with
  | nil => rfl
  | cons filter rest =>
    obtain ⟨more, same⟩ := exists_blank (filter :: rest)
    have start (stop : Nat) : (filterMatch (Interpolation.inner ⟨phrase, filter :: rest⟩) base
        (filter.head (' ' :: phrase.print).length) stop).start - base = phrase.print.length + 2 :=
      Nat.add_sub_cancel_left _ _
    have front : (Interpolation.inner ⟨phrase, filter :: rest⟩).take (phrase.print.length + 2) =
        ' ' :: (phrase.print ++ [' ']) := by
      rw [Interpolation.inner, same, List.take_succ_cons, List.take_append]
      simp [List.take_of_length_le]
    obtain ⟨stop, stops, shape⟩ := List.exists_cons_of_ne_nil
      (List.append_ne_nil_of_right_ne_nil
        ((headsOf ((' ' :: phrase.print).length + filter.print.length) rest).map (·.start))
        (List.cons_ne_nil (Interpolation.inner ⟨phrase, filter :: rest⟩).length []))
    rw [headsOf, List.drop_succ_cons, List.drop_zero, shape, List.zip_cons_cons, List.map_cons]
    dsimp only
    rw [start, front]

end Texts

end Stencil.Notation
