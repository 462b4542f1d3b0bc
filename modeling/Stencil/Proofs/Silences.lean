import Stencil.Proofs.Coverage
import Stencil.Proofs.Writing

/-! Readings without problems. What a silent reading is made of is silent, a piece is read alike
with any fuel beyond its length, and a piece that is not blank is read to some lexemes. -/
namespace Stencil
open Markup

/-! ### Readings -/

namespace Lexing

variable {α β : Type} {reading : Lexing α} {next : α → Lexing β}

/-- The reading returns this and meets no problem. -/
def Yields (reading : Lexing α) (a : α) : Prop := Returns reading [] a []

theorem yields_pure {a b : α} : Yields (pure a) b ↔ b = a := by
  simp [Yields, returns_pure]

theorem Yields.of_bind {b : β} (run : Yields (reading >>= next) b)
    (writes : ∀ a, Writes Lexeme.addProblem (next a)) : ∃ a, Yields reading a ∧ Yields (next a) b := by
  obtain ⟨a, problems, here, there⟩ := returns_bind.mp run
  obtain ⟨more, none, -⟩ := Lexeme.returns_behind (writes a) there
  obtain ⟨rfl, rfl⟩ := List.append_eq_nil_iff.mp none.symm
  exact ⟨a, here, there⟩

theorem Yields.of_mapM {f : β → Lexing α} {items : List β} {results : List α}
    (run : Yields (items.mapM f) results) (writes : ∀ item, Writes Lexeme.addProblem (f item)) :
    List.Forall₂ (fun item a => Yields (f item) a) items results := by
  induction items generalizing results with
  | nil =>
    rw [List.mapM_nil, yields_pure] at run
    rw [run]
    exact .nil
  | cons item rest ih =>
    rw [List.mapM_cons] at run
    obtain ⟨a, here, run⟩ := run.of_bind fun _ =>
      writes_bind (writes_mapM rest fun item _ => writes item) fun _ => writes_pure _
    obtain ⟨others, there, last⟩ := run.of_bind fun _ => writes_pure _
    rw [yields_pure.mp last]
    exact .cons here (ih there)

end Lexing
open Lexing

/-! ### Fuel -/

theorem mapM_congr {m : Type → Type} [Monad m] [LawfulMonad m] {α β : Type} {f g : α → m β}
    (items : List α) (same : ∀ item ∈ items, f item = g item) : items.mapM f = items.mapM g := by
  induction items with
  | nil => rfl
  | cons item rest ih =>
    rw [List.mapM_cons, List.mapM_cons, same item List.mem_cons_self,
      ih fun other member => same other (List.mem_cons_of_mem _ member)]

namespace Markup

variable {text : List Char} {base : Nat} {head m : Match}

/-- The arguments of a call stand behind its head. -/
theorem start_lt_of_callMatch (full : head.text ≠ []) (built : callMatch? text base head = some m)
    {piece : Piece} (found : piece ∈ m.pieces) : m.start < piece.start := by
  obtain ⟨close, closed, rfl⟩ := Notation.exists_of_callMatch built
  have positive := List.length_pos_iff.mpr full
  have behind := (partOf_of_mem_arguments found).start_le
  simp only [Match.stop] at behind ⊢
  omega

/-- The indices of a chain stand behind its head. -/
theorem start_lt_of_pathMatch (full : head.text ≠ []) (built : pathMatch? text base head = some m)
    {piece : Piece} (found : piece ∈ m.pieces) : m.start < piece.start := by
  obtain ⟨segments, stop, walk, -, rfl⟩ := Notation.exists_of_pathMatch built
  have each := (segmentsFrom_spec base (text.drop head.stop).length
    (rfl : text.drop head.stop = text.drop head.stop)).2
  rw [walk] at each
  obtain ⟨first, size, start, -, -, part⟩ := each _ ((Match.mem_pieces_of_path rfl).mp found)
  have positive := List.length_pos_iff.mpr full
  have behind := part.start_le
  simp only [Match.stop] at start behind ⊢
  omega

/-- The expressions inside an element are shorter than it. -/
theorem length_lt_of_mem_elements {piece part : Piece}
    (found : m ∈ elements piece.text piece.start) (member : part ∈ m.pieces) :
    part.text.length < piece.text.length := by
  obtain ⟨fits, -⟩ := fitsIn_of_mem_elements found
  have behind : m.start < part.start := by
    rcases Notation.mem_elements_cases found with
      ⟨category, -, -, -, exclude, found⟩ | found | found
    · simp [pieces_of_mem_scan found] at member
    · obtain ⟨head, scanned, built⟩ := Notation.mem_of_mem_outermost found
      exact start_lt_of_callMatch (partOf_of_mem_scan scanned).2 built member
    · obtain ⟨head, scanned, built⟩ := Notation.mem_of_mem_outermost found
      exact start_lt_of_pathMatch (partOf_of_mem_scan scanned).2 built member
  have inner := (fits.pieces part member).stop_le
  have outer := fits.within.stop_le
  have starts := fits.within.start_le
  simp only [Piece.stop, Match.piece] at inner outer starts
  omega

end Markup

namespace Lexeme

theorem mem_elements_of_mem_selected {piece : Piece} {m : Match} (member : m ∈ selected piece) :
    m ∈ elements piece.text piece.start := by
  rcases (claim_apart (elements piece.text piece.start) List.Pairwise.nil).2 m
    (List.mem_mergeSort.mp member) with none | found
  · cases none
  · exact found

theorem ofElement_congr {inner other : Piece → Lexing (List Lexeme)} {m : Match}
    (same : ∀ piece ∈ m.pieces, inner piece = other piece) (span : Span) :
    ofElement inner span m = ofElement other span m := by
  unfold ofElement
  dsimp only
  split
  · rename_i callee written arguments detail
    rw [Match.pieces_of_call detail] at same
    rw [mapM_congr arguments same]
  · rename_i name segments detail
    refine congrArg (· >>= _) (mapM_congr segments fun segment member => ?_)
    cases segment with
    | property name => rfl
    | index piece =>
      dsimp only
      rw [same piece ((Match.mem_pieces_of_path detail).mpr member)]
  · rfl

/-- Any fuel beyond the length of a piece is enough to read it. -/
theorem readWithin_fuel (lines : Option Text.Lines) {fuel more : Nat} {piece : Piece}
    (enough : piece.text.length < fuel) (other : piece.text.length < more) :
    readWithin lines fuel piece = readWithin lines more piece := by
  induction fuel generalizing more piece with
  | zero => cases enough
  | succ fuel ih =>
    cases more with
    | zero => cases other
    | succ more =>
      have each (m : Match) (member : m ∈ selected piece) :
          ofElement (readWithin lines fuel) (.locate lines m.start m.stop) m =
            ofElement (readWithin lines more) (.locate lines m.start m.stop) m := by
        refine ofElement_congr (fun part inside => ?_) _
        have shorter := length_lt_of_mem_elements (mem_elements_of_mem_selected member) inside
        exact ih (by omega) (by omega)
      rw [readWithin, readWithin, mapM_congr (selected piece) each]

/-! ### Lexemes -/

theorem read_writes (lines : Option Text.Lines) (piece : Piece) :
    Writes addProblem (read lines piece) :=
  readWithin_writes lines _ piece

/-- What is read in silence: each element that found a place, and no character without one. -/
theorem exists_of_read {lines : Option Text.Lines} {piece : Piece} {lexemes : List Lexeme}
    (run : Yields (read lines piece) lexemes) :
    reports piece (selected piece) = [] ∧
      ∃ items, List.Forall₂ (fun m lexeme =>
          Yields (ofElement (read lines) (.locate lines m.start m.stop) m) lexeme)
          (selected piece) items ∧
        Folded items lexemes := by
  have element (m : Match) := ofElement_writes (read_writes lines) (.locate lines m.start m.stop) m
  have same (m : Match) (member : m ∈ selected piece) :
      ofElement (readWithin lines piece.text.length) (.locate lines m.start m.stop) m =
        ofElement (read lines) (.locate lines m.start m.stop) m :=
    ofElement_congr (fun part inside => readWithin_fuel lines
      (length_lt_of_mem_elements (mem_elements_of_mem_selected member) inside)
      (Nat.lt_succ_self _)) _
  rw [read, readWithin, mapM_congr (selected piece) same] at run
  obtain ⟨_, reported, run⟩ := run.of_bind fun _ =>
    writes_bind (writes_mapM _ fun m _ => element m) fun _ => writes_pure _
  obtain ⟨items, given, last⟩ := run.of_bind fun _ => writes_pure _
  have silent := reported.unique (reportUnclaimed_returns piece (selected piece) [])
  refine ⟨silent.2.symm, items, given.of_mapM element, ?_⟩
  rw [yields_pure.mp last]
  exact folded_foldNegatives false items

/-- A piece with a visible character is read to some lexeme. -/
theorem ne_nil_of_yields {lines : Option Text.Lines} {piece : Piece} {lexemes : List Lexeme}
    (run : Yields (read lines piece) lexemes) {c : Char} (member : c ∈ piece.text)
    (visible : Text.isBlank c = false) : lexemes ≠ [] := by
  obtain ⟨silent, items, each, folded⟩ := exists_of_read run
  rintro rfl
  cases folded
  generalize chosen : selected piece = found at each silent
  cases each
  obtain ⟨i, here⟩ := List.mem_iff_getElem?.mp member
  have left : (piece.start + i, c) ∈ unclaimed [] piece.start piece.text :=
    mem_unclaimed.mpr ⟨i, here, rfl, visible, rfl⟩
  rw [reports, List.map_eq_nil_iff] at silent
  rw [silent] at left
  cases left

end Lexeme

/-! ### Tokens -/

namespace Token
open Lexeme

variable (lines : Text.Lines)

theorem filterOf_writes (m : Match) : Writes addProblem (filterOf lines m) := by
  unfold filterOf
  dsimp only
  split
  · refine writes_bind (writes_mapM _ fun piece _ => read_writes _ piece) fun _ => ?_
    split
    · exact writes_pure _
    · exact writes_bind (report_writes _ _ _) fun _ => writes_pure _
  · exact writes_pure _

theorem readFrom_writes (separate : Bool) (offset : Nat) (rest : List Char) (found : List Match) :
    Writes addProblem (readFrom lines separate offset rest found) := by
  have output (span : Span) (m : Match) : Writes addProblem (outputOf lines span m) := by
    refine writes_bind (read_writes _ _) fun _ => ?_
    exact writes_bind (writes_mapM _ fun m _ => filterOf_writes lines m) fun _ => writes_pure _
  have opening (keyword : Keyword) (condition : Piece) :
      Writes addProblem (openingOf lines keyword condition) := by
    unfold openingOf
    dsimp only
    split
    · split
      · exact writes_pure _
      · exact writes_bind (read_writes _ _) fun _ => writes_pure _
    · exact writes_bind (read_writes _ _) fun _ => writes_pure _
  induction found generalizing offset rest with
  | nil => exact writes_pure _
  | cons m more ih =>
    refine writes_bind ?_ fun _ => writes_bind (ih _ _) fun _ => writes_pure _
    unfold ofConstruct
    dsimp only
    split
    · exact output _ m
    · exact writes_bind (opening _ _) fun _ => writes_pure _
    all_goals exact writes_pure _

end Token
end Stencil
