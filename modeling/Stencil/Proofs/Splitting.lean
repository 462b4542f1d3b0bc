import Stencil.Proofs.Quotation
import Stencil.Proofs.Pieces

/-! Division of texts at separators. Outside of quotes and brackets a text is read as if it began
there, so behind every separator the rest is divided by itself. The pieces with the separators
between them make up the text, each stands where its offset says, and none is divided again. -/
namespace Stencil.Markup

/-! ### Reading from left to right -/

/-- What is known of a text in front of a place: which quote is open, and how many brackets are. -/
structure Standing where
  quoting : Quoting
  depth : Nat

namespace Standing

def start : Standing := ⟨.outside, 0⟩

/-- The character stands outside of quotes and brackets, and is neither. -/
def free (standing : Standing) (c : Char) : Bool :=
  !standing.quoting.covers c && !isOpener c && !isCloser c && standing.depth == 0

def next (standing : Standing) (c : Char) : Standing where
  quoting := standing.quoting.next c
  depth :=
    if standing.quoting.covers c then standing.depth
    else if isOpener c then standing.depth + 1
    else if isCloser c then standing.depth - 1
    else standing.depth

def marks (standing : Standing) (text : List Char) : List (Char × Bool) :=
  text.zip (outsideFrom standing.quoting.quote standing.quoting.escaped standing.depth text)

variable {standing : Standing} {separator c : Char} {text : List Char}

theorem marks_cons (standing : Standing) (c : Char) (rest : List Char) :
    standing.marks (c :: rest) = (c, standing.free c) :: (standing.next c).marks rest := by
  rw [marks, outsideFrom_cons]
  rfl

theorem map_fst_marks (standing : Standing) (text : List Char) :
    (standing.marks text).map (·.1) = text :=
  List.map_fst_zip (by rw [length_outsideFrom]; omega)

/-- Behind a character that may separate the text is read from its start. -/
theorem next_of_free (free : standing.free c = true) : standing.next c = start := by
  obtain ⟨⟨quote, escaped⟩, depth⟩ := standing
  simp only [Standing.free, Bool.and_eq_true, Bool.not_eq_true', beq_iff_eq] at free
  obtain ⟨⟨⟨clear, opens⟩, closes⟩, outermost⟩ := free
  have quoting : (Quoting.mk quote escaped).next c = .outside := by
    cases quote with
    | some q => cases clear
    | none =>
      cases quotes : isQuote c with
      | false => exact Markup.next_of_free quotes
      | true => simp [Quoting.covers, Quoting.next, quotes] at clear
  rw [next, quoting]
  simp [start, clear, opens, closes, outermost]

/-- A text in which a separator is free begins with a piece in which none is, and is read from the
start again behind the separator. -/
theorem exists_piece (standing : Standing) (separates : (separator, true) ∈ standing.marks text) :
    ∃ piece rest, text = piece ++ separator :: rest ∧ (separator, true) ∉ standing.marks piece ∧
      standing.marks text = standing.marks piece ++ (separator, true) :: start.marks rest := by
  induction text generalizing standing with
  | nil => cases separates
  | cons c rest ih =>
    rw [marks_cons] at separates ⊢
    -- A separator that is free ends the piece; any other character belongs to it.
    by_cases here : (separator, true) = (c, standing.free c)
    · obtain ⟨rfl, free⟩ := Prod.mk.inj here
      exact ⟨[], rest, rfl, List.not_mem_nil, by rw [← free, next_of_free free.symm]; rfl⟩
    · have later := (List.mem_cons.mp separates).resolve_left here
      obtain ⟨piece, behind, rfl, whole, split⟩ := ih (standing.next c) later
      refine ⟨c :: piece, behind, rfl, ?_, by rw [split, marks_cons, List.cons_append]⟩
      rw [marks_cons]
      exact List.not_mem_cons_of_ne_of_not_mem here whole

end Standing

/-! ### Whole pieces -/

/-- In the text by itself no separator is free. -/
def Whole (separator : Char) (text : List Char) : Prop :=
  (separator, true) ∉ Standing.start.marks text

/-- Whole pieces with free separators between them make up the text, which starts at an offset. -/
inductive Division (separator : Char) : Nat → List Char → List Piece → Prop
  | last {start : Nat} {text : List Char} (whole : Whole separator text) :
      Division separator start text [⟨text, start⟩]
  | more {start : Nat} {piece rest : List Char} {pieces : List Piece}
      (whole : Whole separator piece)
      (free : Standing.start.marks (piece ++ separator :: rest) =
        Standing.start.marks piece ++ (separator, true) :: Standing.start.marks rest)
      (later : Division separator (start + piece.length + 1) rest pieces) :
      Division separator start (piece ++ separator :: rest) (⟨piece, start⟩ :: pieces)

section Division

variable {separator : Char} {start : Nat} {text : List Char} {pieces before after : List Piece}
  {piece : Piece}

theorem Whole.cutFrom_append (whole : Whole separator text) (start : Nat)
    (more : List (Char × Bool)) :
    cutFrom separator start [] (Standing.start.marks text ++ more) =
      cutFrom separator start text.reverse more := by
  have apart (pair : Char × Bool) (member : pair ∈ Standing.start.marks text)
      (free : pair.2 = true) : pair.1 ≠ separator := by
    rintro rfl
    exact whole (by rwa [← free])
  rw [Notation.cutFrom_append start [] apart, Standing.map_fst_marks, List.append_nil]

theorem Whole.cutFrom_eq (whole : Whole separator text) (start : Nat) :
    cutFrom separator start [] (Standing.start.marks text) = [⟨text, start⟩] := by
  have all := whole.cutFrom_append start []
  rwa [List.append_nil, cutFrom, List.reverse_reverse] at all

theorem division_cutFrom (separator : Char) (start : Nat) (text : List Char) :
    Division separator start text (cutFrom separator start [] (Standing.start.marks text)) := by
  induction size : text.length using Nat.strong_induction_on generalizing start text with
  | _ n ih =>
    subst size
    by_cases separates : (separator, true) ∈ Standing.start.marks text
    · obtain ⟨piece, rest, rfl, whole, split⟩ := Standing.start.exists_piece separates
      have cuts : cutFrom separator start [] (Standing.start.marks (piece ++ separator :: rest)) =
          ⟨piece, start⟩ :: cutFrom separator (start + piece.length + 1) []
            (Standing.start.marks rest) := by
        rw [split, Whole.cutFrom_append whole, cutFrom]
        simp
      rw [cuts]
      exact .more whole split (ih rest.length (by simp; omega) _ rest rfl)
    · rw [Whole.cutFrom_eq separates]
      exact .last separates

theorem division_cut (separator : Char) (text : List Char) :
    Division separator 0 text (cut separator text) :=
  division_cutFrom separator 0 text

namespace Division

theorem ne_nil (division : Division separator start text pieces) : pieces ≠ [] := by
  cases division <;> exact List.cons_ne_nil _ _

theorem length_eq (division : Division separator start text pieces) :
    pieces.length = (Standing.start.marks text).count (separator, true) + 1 := by
  induction division with
  | last whole => rw [List.count_eq_zero_of_not_mem whole, List.length_singleton]
  | more whole free later ih =>
    rw [free, List.count_append, List.count_eq_zero_of_not_mem whole, List.count_cons_self,
      List.length_cons, ih, Nat.zero_add]

theorem intercalate_eq (division : Division separator start text pieces) :
    [separator].intercalate (pieces.map (·.text)) = text := by
  induction division with
  | last => simp
  | more whole free later ih =>
    rw [List.map_cons, List.intercalate_cons_of_ne_nil (by simpa using later.ne_nil), ih]
    simp

theorem whole_of_mem (division : Division separator start text pieces) (member : piece ∈ pieces) :
    Whole separator piece.text := by
  induction division with
  | last whole =>
    obtain rfl := List.mem_singleton.mp member
    exact whole
  | more whole free later ih =>
    rcases List.mem_cons.mp member with rfl | behind
    · exact whole
    · exact ih behind

/-- In front of a piece stand the pieces before it, each with a separator. -/
theorem exists_behind (division : Division separator start text pieces)
    (split : pieces = before ++ piece :: after) :
    ∃ rest, text = (before.flatMap fun earlier => earlier.text ++ [separator]) ++
        (piece.text ++ rest) ∧
      piece.start = start + (before.flatMap fun earlier => earlier.text ++ [separator]).length := by
  induction division generalizing before with
  | last whole =>
    cases before with
    | nil =>
      obtain ⟨rfl, -⟩ := List.cons.inj split
      exact ⟨[], by simp⟩
    | cons first others => simp at split
  | more whole free later ih =>
    cases before with
    | nil =>
      obtain ⟨rfl, -⟩ := List.cons.inj split
      exact ⟨_, rfl, rfl⟩
    | cons first others =>
      obtain ⟨rfl, same⟩ := List.cons.inj split
      obtain ⟨rest, rfl, place⟩ := ih same
      refine ⟨rest, by simp, ?_⟩
      rw [place, List.flatMap_cons]
      simp only [List.length_append, List.length_singleton]
      omega

end Division
end Division

/-- The pieces with the separator between them are the text, and it has one separator outside of
quotes and brackets less than pieces. Each piece starts behind those before it and their separators,
which is where it stands; cut again, each is the one piece there is. This holds of every character,
as quotes and brackets never separate. -/
theorem cut_is_lossless_and_final (separator : Char) (text : List Char) :
    [separator].intercalate ((cut separator text).map (·.text)) = text ∧
    (cut separator text).length = (text.zip (outside text)).count (separator, true) + 1 ∧
    (∀ before piece after, cut separator text = before ++ piece :: after →
      piece.start = (before.flatMap fun earlier => earlier.text ++ [separator]).length ∧
      (text.drop piece.start).take piece.text.length = piece.text) ∧
    ∀ piece ∈ cut separator text, cut separator piece.text = [⟨piece.text, 0⟩] := by
  have division := division_cut separator text
  refine ⟨division.intercalate_eq, division.length_eq, fun before piece after split => ?_,
    fun piece member => ?_⟩
  · obtain ⟨rest, shape, place⟩ := division.exists_behind split
    rw [Nat.zero_add] at place
    refine ⟨place, ?_⟩
    rw [shape, place, List.drop_left, List.take_left]
  · exact (division.whole_of_mem member).cutFrom_eq 0

/-- A closing bracket that nothing opened, and a quote that nothing closes. -/
theorem cut_is_lossless_and_final_with_open_quote :
    let text := ['a', ')', ',', '(', ',', ')', ',', '\'', ',']
    let front : List Piece := [⟨['a', ')'], 0⟩, ⟨['(', ',', ')'], 3⟩]
    let last : Piece := ⟨['\'', ','], 7⟩
    cut ',' text = front ++ [last] ∧ [','].intercalate ((cut ',' text).map (·.text)) = text ∧
    (cut ',' text).length = (text.zip (outside text)).count (',', true) + 1 ∧
    (last.start = (front.flatMap fun earlier => earlier.text ++ [',']).length ∧
      (text.drop 7).take 2 = last.text) ∧
    last ∈ cut ',' text ∧ cut ',' last.text = [⟨last.text, 0⟩] := by
  intro text front last
  have cuts : cut ',' text = front ++ [last] := by decide
  have member : last ∈ cut ',' text := by
    rw [cuts]
    exact List.mem_append_right front (List.mem_singleton_self last)
  obtain ⟨joined, count, places, final⟩ := cut_is_lossless_and_final ',' text
  exact ⟨cuts, joined, count, places front last [] cuts, member, final last member⟩

end Stencil.Markup
