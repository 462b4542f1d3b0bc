import Mathlib.Data.List.Nodup
import Stencil.Proofs.Calm
import Stencil.Proofs.Nesting

/-! Characters of expressions. The elements that found a place in an expression and the reports of
unexpected characters share its characters out: each one that is not blank is in exactly one
element or has exactly one report. -/
namespace Stencil
open Markup Text

def Span.covers (span : Span) (offset : Nat) : Bool := span.start ≤ offset && offset < span.stop

theorem Span.covers_iff {span : Span} {offset : Nat} :
    span.covers offset = true ↔ span.start ≤ offset ∧ offset < span.stop := by
  rw [covers, Bool.and_eq_true, decide_eq_true_iff, decide_eq_true_iff]

/-- The report of a character that belongs to no element. -/
def Problem.unexpected (c : Char) (offset : Nat) : Problem :=
  ⟨.unexpectedCharacter, "Unexpected character in expression: " ++ String.ofList (quoted [c]),
    offset⟩

/-- Places and reports share the characters of a piece out. -/
structure Accounts (piece : Piece) (places : List Span) (reports : List Problem) : Prop where
  within : ∀ place ∈ places, piece.start ≤ place.start ∧ place.stop ≤ piece.stop
  reported : ∀ problem ∈ reports, ∃ i c, piece.text[i]? = some c ∧ isBlank c = false ∧
    problem = .unexpected c (piece.start + i)
  once (offset : Nat) :
    places.countP (·.covers offset) + reports.countP (·.offset == offset) ≤ 1
  all (i : Nat) (c : Char) (here : piece.text[i]? = some c) (visible : isBlank c = false) :
    places.countP (·.covers (piece.start + i)) +
      reports.countP (·.offset == piece.start + i) = 1

namespace Lexeme

/-! ### Reports -/

theorem mem_unclaimed {found : List Match} {start offset : Nat} {c : Char} {text : List Char} :
    (offset, c) ∈ unclaimed found start text ↔
      ∃ i, text[i]? = some c ∧ offset = start + i ∧ isBlank c = false ∧
        inside offset (found.map interval) = false := by
  induction text generalizing start with
  | nil => simp [unclaimed]
  | cons first rest ih =>
    have either : (offset, c) ∈ unclaimed found start (first :: rest) ↔
        (offset = start ∧ c = first ∧ isBlank c = false ∧
          inside offset (found.map interval) = false) ∨
        (offset, c) ∈ unclaimed found (start + 1) rest := by
      rw [unclaimed]
      split <;> rename_i covered
      · refine (or_iff_right ?_).symm
        rintro ⟨rfl, rfl, visible, free⟩
        simp [visible, free] at covered
      · simp only [List.mem_cons, Prod.mk.injEq]
        refine or_congr_left ⟨?_, fun known => ⟨known.1, known.2.1⟩⟩
        rintro ⟨rfl, rfl⟩
        simpa using covered
    rw [either, ih]
    constructor
    · rintro (⟨rfl, rfl, visible, free⟩ | ⟨i, here, rfl, visible, free⟩)
      · exact ⟨0, rfl, rfl, visible, free⟩
      · exact ⟨i + 1, here, by omega, visible, free⟩
    · rintro ⟨_ | i, here, rfl, visible, free⟩
      · exact .inl ⟨rfl, (Option.some.inj here).symm, visible, free⟩
      · exact .inr ⟨i, here, by omega, visible, free⟩

theorem sorted_unclaimed (found : List Match) (start : Nat) (text : List Char) :
    ((unclaimed found start text).map (·.1)).Pairwise (· < ·) := by
  induction text generalizing start with
  | nil => exact .nil
  | cons first rest ih =>
    rw [unclaimed]
    split
    · exact ih _
    · refine List.pairwise_cons.mpr ⟨fun offset later => ?_, ih _⟩
      obtain ⟨⟨place, c⟩, member, rfl⟩ := List.mem_map.mp later
      obtain ⟨i, -, same, -⟩ := mem_unclaimed.mp member
      simp only
      omega

/-- The reports for what is left of a piece. -/
def reports (piece : Piece) (found : List Match) : List Problem :=
  (unclaimed found piece.start piece.text).map fun (offset, c) => .unexpected c offset

theorem countP_reports (piece : Piece) (found : List Match) (offset : Nat) :
    (reports piece found).countP (·.offset == offset) =
      if offset ∈ (unclaimed found piece.start piece.text).map (·.1) then 1 else 0 := by
  rw [reports, List.countP_map, ← List.Nodup.count (sorted_unclaimed _ _ _).nodup, List.count,
    List.countP_map]
  rfl

theorem reportUnclaimed_returns (piece : Piece) (found : List Match) (before : List Problem) :
    Returns (reportUnclaimed piece found) before ⟨⟩ (before ++ reports piece found) := by
  rw [reportUnclaimed, reports]
  generalize unclaimed found piece.start piece.text = left
  induction left generalizing before with
  | nil => exact returns_pure.mpr ⟨rfl, List.append_nil before⟩
  | cons first rest ih =>
    refine returns_bind.mpr
      ⟨⟨⟩, before ++ [.unexpected first.2 first.1], returns_modify.mpr rfl, ?_⟩
    have later := ih (before ++ [.unexpected first.2 first.1])
    rwa [List.append_assoc] at later

/-! ### Places -/

/-- The spans of elements. -/
def places (lines : Option Lines) (found : List Match) : List Span :=
  found.map fun m => .locate lines m.start m.stop

theorem countP_places (lines : Option Lines) {found : List Match}
    (apart : found.Pairwise fun m n => m.stop ≤ n.start) (offset : Nat) :
    (places lines found).countP (·.covers offset) =
      if inside offset (found.map interval) then 1 else 0 := by
  induction apart with
  | nil => rfl
  | @cons m found before apart ih =>
    have more : inside offset ((m :: found).map interval) =
      ((Span.locate lines m.start m.stop).covers offset ||
        inside offset (found.map interval)) := rfl
    rw [places, List.map_cons, List.countP_cons, ← places, ih, more]
    by_cases here : (Span.locate lines m.start m.stop).covers offset = true
    · have none : inside offset (found.map interval) = false := by
        refine List.any_eq_false.mpr fun other member => ?_
        obtain ⟨n, later, rfl⟩ := List.mem_map.mp member
        have behind := before n later
        have here := Span.covers_iff.mp here
        intro there
        change (Span.locate lines n.start n.stop).covers offset = true at there
        rw [Span.covers_iff] at there
        simp only [Span.locate] at here there
        omega
      simp [here, none]
    · simp [here]

theorem accounts_selected (lines : Option Lines) (piece : Piece) :
    Accounts piece (places lines (selected piece)) (reports piece (selected piece)) := by
  obtain ⟨apart, fits⟩ := selected_spec piece
  have covered := countP_places lines apart
  have left := countP_reports piece (selected piece)
  have unreported (offset : Nat) (claimed : inside offset ((selected piece).map interval) = true) :
      offset ∉ (unclaimed (selected piece) piece.start piece.text).map (·.1) := by
    intro member
    obtain ⟨⟨_, c⟩, found, rfl⟩ := List.mem_map.mp member
    obtain ⟨i, -, -, -, free⟩ := mem_unclaimed.mp found
    simp [free] at claimed
  refine ⟨fun place member => ?_, fun problem member => ?_, fun offset => ?_,
    fun i c here visible => ?_⟩
  · obtain ⟨m, found, rfl⟩ := List.mem_map.mp member
    exact ⟨(fits m found).within.start_le, (fits m found).within.stop_le⟩
  · obtain ⟨⟨offset, c⟩, found, rfl⟩ := List.mem_map.mp member
    obtain ⟨i, here, rfl, visible, -⟩ := mem_unclaimed.mp found
    exact ⟨i, c, here, visible, rfl⟩
  · rw [covered, left]
    by_cases claimed : inside offset ((selected piece).map interval) = true
    · rw [if_pos claimed, if_neg (unreported offset claimed)]
    · rw [if_neg claimed, Nat.zero_add]
      split <;> decide
  · rw [covered, left]
    by_cases claimed : inside (piece.start + i) ((selected piece).map interval) = true
    · rw [if_pos claimed, if_neg (unreported _ claimed)]
    · have reported :
          piece.start + i ∈ (unclaimed (selected piece) piece.start piece.text).map (·.1) :=
        List.mem_map.mpr ⟨_, mem_unclaimed.mpr ⟨i, here, rfl, visible, by simpa using claimed⟩, rfl⟩
      rw [if_neg claimed, if_pos reported]

/-! ### Readings inside elements -/

/-- The state is the one before with some more problems, each of them allowed. -/
def Reported (before : List Problem) (allowed : Problem → Prop) (problems : List Problem) : Prop :=
  ∃ more, problems = before ++ more ∧ ∀ problem ∈ more, allowed problem

theorem ofElement_placed {fit : List Problem → Prop} {inner : Piece → Lexing (List Lexeme)}
    {m : Match} (reads : ∀ piece ∈ m.pieces, Ensures fit (fun _ => True) (inner piece))
    (span : Span) : Ensures fit (·.span = span) (ofElement inner span m) := by
  unfold ofElement
  dsimp only
  split
  · rename_i callee written arguments detail
    rw [Match.pieces_of_call detail] at reads
    exact ensures_bind (ensures_mapM_all _ _ reads) fun _ _ => ensures_pure rfl
  · rename_i base segments detail
    refine ensures_bind (@ensures_mapM_all _ _ _ _ _ (fun _ => True) _ _ fun segment member => ?_)
      fun _ _ => ensures_pure rfl
    cases segment with
    | property name => exact ensures_pure trivial
    | index piece =>
      have inside := (Match.mem_pieces_of_path detail).mpr member
      exact ensures_bind (reads piece inside) fun _ _ => ensures_pure trivial
  · split
    · exact ensures_pure rfl
    · exact ensures_bind (ensures_lift _) fun _ _ => ensures_pure rfl
    · exact ensures_pure rfl
    · cases Operator.ofSymbol? (String.ofList m.text) <;> exact ensures_pure rfl
    · exact ensures_pure rfl

/-- Whatever is reported while a piece is read is about characters of that piece. -/
theorem readWithin_reports {lines : Option Lines} {before : List Problem}
    {allowed : Problem → Prop} (fuel : Nat) (piece : Piece)
    (inside : ∀ problem : Problem, piece.start ≤ problem.offset → problem.offset < piece.stop →
      allowed problem) :
    Ensures (Reported before allowed) (fun _ => True) (readWithin lines fuel piece) := by
  induction fuel generalizing piece with
  | zero => exact ensures_pure trivial
  | succ fuel ih =>
    obtain ⟨-, fits⟩ := selected_spec piece
    refine ensures_bind (ensures_forM _ _ fun left member => ensures_modify ?_) fun _ _ => ?_
    · rintro _ ⟨more, rfl, known⟩
      obtain ⟨i, here, offset, -⟩ := mem_unclaimed.mp member
      have short := (List.getElem?_eq_some_iff.mp here).1
      refine ⟨more ++ [.unexpected left.2 left.1], List.append_assoc .., fun problem member => ?_⟩
      rcases List.mem_append.mp member with old | new
      · exact known problem old
      · rw [List.mem_singleton.mp new]
        refine inside _ ?_ ?_ <;> simp only [Problem.unexpected, offset, Piece.stop] <;> omega
    · refine ensures_bind (@ensures_mapM_all _ _ _ _ _ (fun _ => True) _ _ fun m member => ?_)
        fun _ _ => ensures_pure trivial
      refine (ofElement_placed (fun part found => ih part fun problem starts stops => ?_) _).weaken
        fun _ _ => trivial
      have part := ((fits m member).pieces part found).trans (fits m member).within
      exact inside problem (part.start_le.trans starts) (stops.trans_le part.stop_le)

/-- The elements that found a place are read to lexemes at their places, and what is reported
meanwhile is about characters inside them. -/
theorem selected_placed (lines : Option Lines) (piece : Piece) (before : List Problem) :
    Ensures
      (Reported before fun problem =>
        ∃ place ∈ places lines (selected piece), place.covers problem.offset = true)
      (List.Forall₂ (fun m lexeme => lexeme.span = .locate lines m.start m.stop) (selected piece))
      ((selected piece).mapM fun m =>
        ofElement (readWithin lines piece.text.length) (.locate lines m.start m.stop) m) := by
  obtain ⟨-, fits⟩ := selected_spec piece
  refine ensures_mapM _ _ fun m member => ofElement_placed (fun part found => ?_) _
  refine readWithin_reports _ part fun problem starts stops => ?_
  have inside := (fits m member).pieces part found
  refine ⟨.locate lines m.start m.stop, List.mem_map_of_mem member, ?_⟩
  exact Span.covers_iff.mpr ⟨inside.start_le.trans starts, stops.trans_le inside.stop_le⟩

/-! ### Folded numbers -/

theorem Folded.covers {lexemes others : List Lexeme} (folded : Folded lexemes others)
    (apart : lexemes.Pairwise fun a b => a.span.stop ≤ b.span.start)
    (wide : ∀ lexeme ∈ lexemes, lexeme.span.start ≤ lexeme.span.stop) {offset : Nat}
    {lexeme : Lexeme} (member : lexeme ∈ lexemes) (here : lexeme.span.covers offset = true) :
    ∃ other ∈ others, other.span.covers offset = true := by
  induction folded with
  | nil => contradiction
  | kept first rest ih =>
    rcases List.mem_cons.mp member with rfl | later
    · exact ⟨_, List.mem_cons_self, here⟩
    · obtain ⟨other, inside, there⟩ := ih (List.pairwise_cons.mp apart).2
        (List.forall_mem_cons.mp wide).2 later
      exact ⟨other, List.mem_cons_of_mem _ inside, there⟩
  | joined minus span digits number rest ih =>
    obtain ⟨before, apart⟩ := List.pairwise_cons.mp apart
    obtain ⟨first, second, wide⟩ := And.imp_right List.forall_mem_cons.mp
      (List.forall_mem_cons.mp wide)
    have adjoins := before _ List.mem_cons_self
    simp only [Lexeme.span] at adjoins first second
    rcases List.mem_cons.mp member with rfl | member
    · refine ⟨_, List.mem_cons_self, Span.covers_iff.mpr ?_⟩
      have inside := Span.covers_iff.mp here
      simp only [Lexeme.span] at inside ⊢
      omega
    · rcases List.mem_cons.mp member with rfl | later
      · refine ⟨_, List.mem_cons_self, Span.covers_iff.mpr ?_⟩
        have inside := Span.covers_iff.mp here
        simp only [Lexeme.span] at inside ⊢
        omega
      · obtain ⟨other, inside, there⟩ := ih (List.pairwise_cons.mp apart).2 wide later
        exact ⟨other, List.mem_cons_of_mem _ inside, there⟩

end Lexeme

/-- The one report of a character that no place covers. -/
theorem Accounts.report_of_uncovered {piece : Piece} {places : List Span} {reports : List Problem}
    (accounts : Accounts piece places reports) {i : Nat} {c : Char}
    (here : piece.text[i]? = some c) (visible : isBlank c = false)
    (uncovered : ∀ place ∈ places, place.covers (piece.start + i) = false) :
    reports.filter (·.offset == piece.start + i) = [.unexpected c (piece.start + i)] := by
  have none : places.countP (·.covers (piece.start + i)) = 0 :=
    List.countP_eq_zero.mpr fun place member => by simp [uncovered place member]
  have one := accounts.all i c here visible
  rw [none, Nat.zero_add, List.countP_eq_length_filter] at one
  obtain ⟨problem, only⟩ := List.length_eq_one_iff.mp one
  have member : problem ∈ reports.filter (·.offset == piece.start + i) := by simp [only]
  obtain ⟨listed, offset⟩ := List.mem_filter.mp member
  obtain ⟨j, d, there, -, rfl⟩ := accounts.reported problem listed
  have same : j = i := Nat.add_left_cancel (eq_of_beq offset)
  subst same
  rw [only, Option.some.inj (there.symm.trans here)]

/-- Every character of an expression that is not blank is in one of the lexemes that are returned
or has one report. Before numbers are folded no character is in two lexemes, and none is both in
a lexeme and reported. The reports that follow are about expressions inside those lexemes. -/
theorem characters_are_covered_or_reported (lines : Option Lines) (piece : Piece)
    (before : List Problem) :
    ∃ places reports deeper, Accounts piece places reports ∧
      (∀ problem ∈ deeper, ∃ place ∈ places, place.covers problem.offset = true) ∧
      ((∃ elements lexemes, elements.map Lexeme.span = places ∧
          lexemes = Lexeme.foldNegatives false elements ∧
          Returns (Lexeme.read lines piece) before lexemes (before ++ reports ++ deeper) ∧
          ∀ (i : Nat) (c : Char), piece.text[i]? = some c → isBlank c = false →
            (∃ lexeme ∈ lexemes, lexeme.span.covers (piece.start + i) = true) ∨
              reports.filter (·.offset == piece.start + i) = [.unexpected c (piece.start + i)]) ∨
        ∃ count, Fails (Lexeme.read lines piece) before (.tooManyDigits count)
          (before ++ reports ++ deeper)) := by
  have accounts := Lexeme.accounts_selected lines piece
  obtain ⟨apart, -⟩ := Lexeme.selected_spec piece
  have reported := Lexeme.reportUnclaimed_returns piece (Lexeme.selected piece) before
  generalize Lexeme.reports piece (Lexeme.selected piece) = reports at accounts reported
  have deep := Lexeme.selected_placed lines piece (before ++ reports)
  generalize placed : Lexeme.places lines (Lexeme.selected piece) = places at accounts deep
  obtain ⟨returned, failed⟩ := deep (before ++ reports) ⟨[], (List.append_nil _).symm, by simp⟩
  rcases returns_or_fails _ (before ++ reports) with ⟨elements, t, run⟩ | ⟨e, t, run⟩
  · obtain ⟨⟨deeper, rfl, inside⟩, are⟩ := returned elements t run
    have spans : elements.map Lexeme.span = places := by
      rw [← placed, Lexeme.places, ← List.forall₂_eq_eq_eq, List.forall₂_map_left_iff,
        List.forall₂_map_right_iff]
      exact are.flip
    have ordered : (elements.map Lexeme.span).Pairwise fun a b => a.stop ≤ b.start := by
      rw [spans, ← placed, Lexeme.places, List.pairwise_map]
      exact apart
    have wide : ∀ lexeme ∈ elements, lexeme.span.start ≤ lexeme.span.stop := by
      intro lexeme member
      obtain ⟨m, -, same⟩ := exists_of_forall₂_of_mem are member
      rw [same]
      exact Nat.le_add_right _ _
    refine ⟨places, reports, deeper, accounts, inside, .inl ⟨elements, _, spans, rfl, ?_,
      fun i c here visible => ?_⟩⟩
    · exact returns_bind.mpr
        ⟨_, _, reported, returns_bind.mpr ⟨_, _, run, returns_pure.mpr ⟨rfl, rfl⟩⟩⟩
    · by_cases covered : ∃ place ∈ places, place.covers (piece.start + i) = true
      · obtain ⟨place, listed, covers⟩ := covered
        obtain ⟨element, member, rfl⟩ := List.mem_map.mp (spans ▸ listed)
        exact .inl ((Lexeme.folded_foldNegatives false elements).covers
          (List.pairwise_map.mp ordered) wide member covers)
      · exact .inr (accounts.report_of_uncovered here visible fun place listed =>
          Bool.eq_false_iff.mpr fun covers => covered ⟨place, listed, covers⟩)
  · obtain ⟨deeper, rfl, inside⟩ := failed e t run
    have whole : Fails (Lexeme.read lines piece) before e (before ++ reports ++ deeper) :=
      fails_bind.mpr (.inr ⟨_, _, reported, fails_bind.mpr (.inl run)⟩)
    obtain ⟨count, rfl⟩ := ((Lexeme.read_mild lines piece before).2 e _ whole).2
    exact ⟨places, reports, deeper, accounts, inside, .inr ⟨count, whole⟩⟩

end Stencil
