import Mathlib.Data.List.Pairwise
import Stencil.Proofs.Lines
import Stencil.Proofs.Pieces
import Stencil.Proofs.Selection
import Stencil.Proofs.Tiling
import Stencil.Token.Document

/-! Where the lexemes inside tokens stand. Every list of lexemes, at whatever depth, lies inside the
token or lexeme that it belongs to, in order and without overlap, and each lexeme is what the text
has at its span; only a number with a folded minus may differ in what stands between the two. -/
namespace Stencil
open Markup

/-! ### Spans -/

namespace Span

/-- The part of a text that a span covers. -/
def slice (text : List Char) (span : Span) : List Char :=
  (text.drop span.start).take (span.stop - span.start)

def Inside (span outer : Span) : Prop :=
  outer.start ≤ span.start ∧ span.start ≤ span.stop ∧ span.stop ≤ outer.stop

/-- Line and column of the span are those of its start. -/
def Placed (text : List Char) (span : Span) : Prop :=
  span.position = Text.position text span.start

end Span

theorem Span.placed_locate (text : List Char) (start stop : Nat) :
    (Span.locate (some (.ofText text)) start stop).Placed text :=
  Text.Lines.locate_ofText text start

theorem Span.slice_of_partOf {text : List Char} {m : Match} (within : m.piece.PartOf ⟨text, 0⟩)
    (lines : Option Text.Lines) : (Span.locate lines m.start m.stop).slice text = m.text := by
  obtain ⟨before, after, split, start⟩ := within
  have size : m.stop - m.start = m.text.length := Nat.add_sub_cancel_left _ _
  have first : m.start = before.length := start.trans (Nat.zero_add _)
  have whole : text = before ++ (m.text ++ after) := split
  rw [slice, locate, size, whole, first, List.drop_left, List.take_left]

/-- Items that stand side by side inside a span, each as it is shown there. -/
structure SideBySide {α : Type} (span : α → Span) (shown : α → Prop) (outer : Span)
    (items : List α) : Prop where
  inside : ∀ item ∈ items, (span item).Inside outer
  apart : items.Pairwise fun a b => (span a).stop ≤ (span b).start
  shown : ∀ item ∈ items, shown item

theorem sideBySide_nil {α : Type} {span : α → Span} {shown : α → Prop} {outer : Span} :
    SideBySide span shown outer [] :=
  ⟨by simp, .nil, by simp⟩

theorem sideBySide_cons {α : Type} {span : α → Span} {shown : α → Prop} {outer : Span} {item : α}
    {items : List α} : SideBySide span shown outer (item :: items) ↔
      (span item).Inside outer ∧ shown item ∧
        (∀ other ∈ items, (span item).stop ≤ (span other).start) ∧ SideBySide span shown outer items := by
  constructor
  · rintro ⟨inside, apart, displayed⟩
    obtain ⟨before, apart⟩ := List.pairwise_cons.mp apart
    obtain ⟨here, inside⟩ := List.forall_mem_cons.mp inside
    obtain ⟨first, displayed⟩ := List.forall_mem_cons.mp displayed
    exact ⟨here, first, before, inside, apart, displayed⟩
  · rintro ⟨here, first, before, inside, apart, displayed⟩
    exact ⟨List.forall_mem_cons.mpr ⟨here, inside⟩, List.pairwise_cons.mpr ⟨before, apart⟩,
      List.forall_mem_cons.mpr ⟨first, displayed⟩⟩

theorem SideBySide.widen {α : Type} {span : α → Span} {shown : α → Prop} {inner outer : Span}
    {items : List α} (side : SideBySide span shown inner items) (starts : outer.start ≤ inner.start)
    (stops : inner.stop ≤ outer.stop) : SideBySide span shown outer items where
  inside item member :=
    have ⟨first, ordered, last⟩ := side.inside item member
    ⟨starts.trans first, ordered, last.trans stops⟩
  apart := side.apart
  shown := side.shown

/-- One list behind another. -/
theorem SideBySide.append {α : Type} {span : α → Span} {shown : α → Prop} {outer : Span}
    {items others : List α} (first : SideBySide span shown outer items)
    (second : SideBySide span shown outer others)
    (before : ∀ a ∈ items, ∀ b ∈ others, (span a).stop ≤ (span b).start) :
    SideBySide span shown outer (items ++ others) where
  inside := List.forall_mem_append.mpr ⟨first.inside, second.inside⟩
  apart := List.pairwise_append.mpr ⟨first.apart, second.apart, before⟩
  shown := List.forall_mem_append.mpr ⟨first.shown, second.shown⟩

theorem sideBySide_map {α β : Type} {span : β → Span} {shown : β → Prop} {outer : Span} {f : α → β}
    {items : List α} (side : SideBySide (fun a => span (f a)) (fun a => shown (f a)) outer items) :
    SideBySide span shown outer (items.map f) where
  inside := List.forall_mem_map.mpr side.inside
  apart := List.pairwise_map.mpr side.apart
  shown := List.forall_mem_map.mpr side.shown

/-- What comes from matches that stand side by side in a part of a text does so itself. -/
theorem sideBySide_of_matches {α : Type} {text : List Char} {lines : Option Text.Lines}
    {span : α → Span} {chars : α → List Char} {found : List Match} {items : List α} {piece : Piece}
    {outer : Span} (within : piece.PartOf ⟨text, 0⟩) (starts : outer.start ≤ piece.start)
    (stops : piece.stop ≤ outer.stop) (apart : found.Pairwise fun m n => m.stop ≤ n.start)
    (parts : ∀ m ∈ found, m.piece.PartOf piece)
    (are : List.Forall₂ (fun m item => span item = .locate lines m.start m.stop ∧
      m.text = chars item) found items) :
    SideBySide span (fun item => (span item).slice text = chars item) outer items := by
  induction are with
  | nil => exact sideBySide_nil
  | @cons m item found items is rest ih =>
    obtain ⟨here, same⟩ := is
    obtain ⟨before, apart⟩ := List.pairwise_cons.mp apart
    obtain ⟨part, parts⟩ := List.forall_mem_cons.mp parts
    refine sideBySide_cons.mpr ⟨?_, ?_, fun other member => ?_, ih apart parts⟩
    · rw [here]
      exact ⟨starts.trans part.start_le, Nat.le_add_right _ _, part.stop_le.trans stops⟩
    · rw [here, ← same]
      exact Span.slice_of_partOf (part.trans within) lines
    · obtain ⟨n, inside, there, -⟩ := exists_of_forall₂_of_mem rest member
      rw [here, there]
      exact before n inside

/-! ### Lexemes in tokens -/

namespace Lexeme

/-- The lists of lexemes right inside a lexeme: arguments of a call, indices of a chain. -/
def parts : Lexeme → List (List Lexeme)
  | call _ _ _ args => args
  | path _ _ _ steps => steps.filterMap fun
    | .property _ => none
    | .index inner => some inner
  | _ => []

/-- The lexeme is what the text has at its span. A number that a minus belongs to starts with the
minus and ends with the digits. -/
inductive WrittenIn (text : List Char) : Lexeme → Prop
  | whole {lexeme : Lexeme} (same : lexeme.span.slice text = lexeme.text.toList) :
      WrittenIn text lexeme
  | negative {span : Span} {number : Number} {between digits : List Char}
      (same : span.slice text = '-' :: (between ++ digits)) :
      WrittenIn text (.literal span (String.ofList ('-' :: digits)) (.number number))

/-- Lexemes that stand side by side inside a span, as the text has them. -/
abbrev Row (text : List Char) : Span → List Lexeme → Prop :=
  SideBySide Lexeme.span (WrittenIn text)

/-- A property of a list of lexemes, given the span it belongs to, and of all lists inside it. -/
inductive Throughout (good : Span → List Lexeme → Prop) : Span → List Lexeme → Prop
  | intro {outer : Span} {lexemes : List Lexeme} (here : good outer lexemes)
      (deeper : ∀ lexeme ∈ lexemes, ∀ part ∈ lexeme.parts, Throughout good lexeme.span part) :
      Throughout good outer lexemes

theorem Throughout.imp {good fine : Span → List Lexeme → Prop} {outer : Span}
    {lexemes : List Lexeme} (weaker : ∀ outer lexemes, good outer lexemes → fine outer lexemes)
    (holds : Throughout good outer lexemes) : Throughout fine outer lexemes := by
  induction holds with
  | intro here _ ih => exact .intro (weaker _ _ here) ih

end Lexeme

namespace Token

/-- The filters of an interpolation. -/
def filters (token : Token) : List FilterLexeme :=
  match token.content with
  | .output _ filters _ => filters
  | _ => []

/-- A property of every list of lexemes in a token: its expression or condition, the arguments of
its filters, and all lists inside these. -/
def Throughout (good : Span → List Lexeme → Prop) (token : Token) : Prop :=
  match token.content with
  | .output expression filters _ =>
    Lexeme.Throughout good token.span expression ∧
      ∀ filter ∈ filters, ∀ arg ∈ filter.args, Lexeme.Throughout good filter.span arg
  | .opening tag _ => Lexeme.Throughout good token.span tag.lexemes
  | _ => True

theorem Throughout.imp {good fine : Span → List Lexeme → Prop} {token : Token}
    (weaker : ∀ outer lexemes, good outer lexemes → fine outer lexemes)
    (holds : token.Throughout good) : token.Throughout fine := by
  unfold Throughout at holds ⊢
  split at holds
  · exact ⟨holds.1.imp weaker, fun filter member arg inside =>
      (holds.2 filter member arg inside).imp weaker⟩
  · exact Lexeme.Throughout.imp weaker holds
  · trivial

end Token

/-- What an interpolation lists: lexemes, and filters behind them. -/
inductive Entry
  | lexeme (lexeme : Lexeme)
  | filter (filter : FilterLexeme)

namespace Entry

def span : Entry → Span
  | lexeme l => l.span
  | filter f => f.span

def toDocument : Entry → Value
  | lexeme l => l.toDocument
  | filter f => f.toDocument

/-- The entry is what the text has at its span; a lexeme may be a number with a folded minus. -/
def WrittenIn (text : List Char) : Entry → Prop
  | lexeme l => l.WrittenIn text
  | filter f => f.span.slice text = f.text.toList

/-- Entries that stand side by side inside a span, as the text has them. -/
abbrev Row (text : List Char) : Span → List Entry → Prop := SideBySide Entry.span (WrittenIn text)

end Entry

theorem Lexeme.documents_eq (lexemes : List Lexeme) : documents lexemes = lexemes.map toDocument := by
  induction lexemes with
  | nil => rfl
  | cons lexeme rest ih => rw [documents, ih, List.map_cons]

namespace Token

/-- The one list of an interpolation: its expression with its filters. -/
def entries (token : Token) : List Entry :=
  match token.content with
  | .output expression filters _ => expression.map .lexeme ++ filters.map .filter
  | _ => []

/-- The document of an interpolation has these entries as its expression. -/
theorem metadata_expression {token : Token} {expression : List Lexeme} {filters : List FilterLexeme}
    {source : String} (content : token.content = .output expression filters source) :
    token.metadata = [("expression", .list (token.entries.map Entry.toDocument)),
      ("raw", .text source)] := by
  rw [metadata, entries, content]
  simp only [List.map_append, List.map_map, Lexeme.documents_eq]
  rfl

end Token

/-! ### Folded numbers -/

namespace Lexeme

/-- The lexemes on the right are those on the left, some with a minus joined to the number behind
it. -/
inductive Folded : List Lexeme → List Lexeme → Prop
  | nil : Folded [] []
  | kept (lexeme : Lexeme) {lexemes others : List Lexeme} (rest : Folded lexemes others) :
      Folded (lexeme :: lexemes) (lexeme :: others)
  | joined (minus span : Span) (digits : String) (number : Number) {lexemes others : List Lexeme}
      (rest : Folded lexemes others) :
      Folded (operator minus .sub :: literal span digits (.number number) :: lexemes)
        (literal ⟨minus.start, span.stop, minus.position⟩ ("-" ++ digits) (.number number.neg) ::
          others)

variable {text : List Char} {outer : Span} {lexemes others : List Lexeme}

theorem folded_foldNegatives (operand : Bool) (lexemes : List Lexeme) :
    Folded lexemes (foldNegatives operand lexemes) := by
  fun_induction foldNegatives operand lexemes with
  | case1 => exact .nil
  | case2 operand minus span digits number rest folded ih =>
    cases operand with
    | false => exact .joined minus span digits number ih
    | true => exact .kept _ (.kept _ ih)
  | case3 operand first rest _ ih => exact .kept first ih

/-- What holds of lexemes, and of a number where it holds of the minus and the digits, holds of
folded ones. -/
theorem Folded.forall_mem {holds : Lexeme → Prop} (folded : Folded lexemes others)
    (joins : ∀ minus span digits number, holds (operator minus .sub) →
      holds (literal span digits (.number number)) →
        holds (literal ⟨minus.start, span.stop, minus.position⟩ ("-" ++ digits)
          (.number number.neg)))
    (each : ∀ lexeme ∈ lexemes, holds lexeme) : ∀ lexeme ∈ others, holds lexeme := by
  induction folded with
  | nil => exact each
  | kept lexeme rest ih =>
    obtain ⟨here, later⟩ := List.forall_mem_cons.mp each
    exact List.forall_mem_cons.mpr ⟨here, ih later⟩
  | joined minus span digits number rest ih =>
    obtain ⟨sign, behind⟩ := List.forall_mem_cons.mp each
    obtain ⟨number, later⟩ := List.forall_mem_cons.mp behind
    exact List.forall_mem_cons.mpr ⟨joins _ _ _ _ sign number, ih later⟩

/-- A minus and the number behind it, with what stands between them. -/
theorem written_negative {minus span : Span} {digits : String} {number : Number}
    (sign : minus.slice text = ['-']) (shown : span.slice text = digits.toList)
    (before : minus.stop ≤ span.start) (ordered : span.start ≤ span.stop) :
    WrittenIn text (literal ⟨minus.start, span.stop, minus.position⟩ ("-" ++ digits)
      (.number number.neg)) := by
  unfold Span.slice at sign shown
  obtain ⟨size, wide⟩ : ∃ size, minus.stop - minus.start = size + 1 :=
    Nat.exists_eq_succ_of_ne_zero fun none => by simp [none] at sign
  obtain ⟨rest, behind⟩ : ∃ rest, text.drop minus.start = '-' :: rest := by
    cases behind : text.drop minus.start with
    | nil => simp [behind] at sign
    | cons c rest =>
      rw [behind, wide, List.take_succ_cons] at sign
      exact ⟨rest, by rw [(List.cons.inj sign).1]⟩
  have gone : text.drop (minus.start + 1) = rest := by
    rw [← List.drop_drop, behind, List.drop_one, List.tail_cons]
  have gap : minus.start + 1 + (span.start - (minus.start + 1)) = span.start := by omega
  have same : Span.slice text ⟨minus.start, span.stop, minus.position⟩ =
      '-' :: (rest.take (span.start - (minus.start + 1)) ++ digits.toList) := by
    have length : span.stop - minus.start =
        (span.start - (minus.start + 1) + (span.stop - span.start)) + 1 := by omega
    rw [Span.slice, behind, length, List.take_succ_cons, List.take_add, ← shown]
    congr 2
    rw [← gone, List.drop_drop, gap]
  have joined : "-" ++ digits = String.ofList ('-' :: digits.toList) := by
    rw [String.ofList_cons, String.ofList_toList]
    rfl
  rw [joined]
  exact .negative same

/-- Folding keeps lexemes side by side. -/
theorem Folded.row (folded : Folded lexemes others)
    (row : SideBySide span (fun lexeme => lexeme.span.slice text = lexeme.text.toList) outer
      lexemes) :
    Row text outer others := by
  induction folded with
  | nil => exact sideBySide_nil
  | kept lexeme rest ih =>
    obtain ⟨inside, same, before, row⟩ := sideBySide_cons.mp row
    exact sideBySide_cons.mpr
      ⟨inside, .whole same, rest.forall_mem (fun _ _ _ _ sign _ => sign) before, ih row⟩
  | joined minus span digits number rest ih =>
    obtain ⟨⟨starts, wide, -⟩, sign, before, row⟩ := sideBySide_cons.mp row
    obtain ⟨⟨-, ordered, stops⟩, same, ahead, row⟩ := sideBySide_cons.mp row
    have adjoins : minus.stop ≤ span.start := before _ List.mem_cons_self
    refine sideBySide_cons.mpr ⟨⟨starts, ?_, stops⟩, ?_, ?_, ih row⟩
    · exact wide.trans (adjoins.trans ordered)
    · have minus_shown := by simpa [Lexeme.span, Lexeme.text, Operator.symbol] using sign
      exact written_negative minus_shown same adjoins ordered
    · exact rest.forall_mem (fun _ _ _ _ sign _ => sign) ahead

/-! ### Elements that found a place -/

theorem overlaps_eq_false {m n : Match} :
    overlaps m n = false ↔ m.stop ≤ n.start ∨ n.stop ≤ m.start := by
  rw [overlaps, Bool.and_eq_false_iff, decide_eq_false_iff_not, decide_eq_false_iff_not]
  omega

theorem claim_apart {claimed : List Match} (candidates : List Match)
    (apart : claimed.Pairwise fun m n => overlaps m n = false) :
    (claim claimed candidates).Pairwise (fun m n => overlaps m n = false) ∧
      ∀ m ∈ claim claimed candidates, m ∈ claimed ∨ m ∈ candidates := by
  induction candidates generalizing claimed with
  | nil => exact ⟨apart, fun m member => .inl member⟩
  | cons first rest ih =>
    rw [claim]
    split
    · refine ⟨(ih apart).1, fun m member => ?_⟩
      exact ((ih apart).2 m member).imp_right (List.mem_cons_of_mem _)
    · rename_i free
      have wider : (claimed ++ [first]).Pairwise fun m n => overlaps m n = false := by
        refine List.pairwise_append.mpr
          ⟨apart, List.pairwise_singleton _ _, fun m before n last => ?_⟩
        rw [List.mem_singleton.mp last]
        have clear := List.any_eq_false.mp (Bool.eq_false_iff.mpr free) m before
        rw [Bool.not_eq_true, overlaps_eq_false] at clear
        exact overlaps_eq_false.mpr clear.symm
      obtain ⟨disjoint, known⟩ := ih wider
      refine ⟨disjoint, fun m member => ?_⟩
      rcases known m member with inside | later
      · rcases List.mem_append.mp inside with before | last
        · exact .inl before
        · exact .inr (List.mem_singleton.mp last ▸ List.mem_cons_self)
      · exact .inr (List.mem_cons_of_mem _ later)

/-- The elements that found a place stand side by side in the piece. -/
theorem selected_spec (piece : Piece) :
    (selected piece).Pairwise (fun m n => m.stop ≤ n.start) ∧
      ∀ m ∈ selected piece, m.FitsIn piece := by
  obtain ⟨apart, known⟩ := claim_apart (elements piece.text piece.start) List.Pairwise.nil
  have fits : ∀ m ∈ selected piece, m.FitsIn piece ∧ m.text ≠ [] := by
    intro m member
    rcases known m (List.mem_mergeSort.mp member) with none | found
    · cases none
    · exact fitsIn_of_mem_elements found
  have clear : (selected piece).Pairwise fun m n => overlaps m n = false :=
    ((List.mergeSort_perm _ _).pairwise_iff fun other =>
      overlaps_eq_false.mpr (overlaps_eq_false.mp other).symm).mpr apart
  refine ⟨?_, fun m member => (fits m member).1⟩
  refine ((sorted_selected piece).and clear).imp_of_mem fun {m n} _ second both => ?_
  have positive := List.length_pos_iff.mpr (fits n second).2
  have free := overlaps_eq_false.mp both.2
  unfold Match.stop at free ⊢
  omega

/-! ### Reading -/

/-- Lexemes that stand side by side, each at its line and column. -/
def Sound (text : List Char) (outer : Span) (lexemes : List Lexeme) : Prop :=
  Row text outer lexemes ∧ ∀ lexeme ∈ lexemes, lexeme.span.Placed text

/-- The pieces of a text are read to lexemes that are sound inside every span around the piece. -/
def ReadsSound (text : List Char) (inner : Piece → Lexing (List Lexeme)) : Prop :=
  ∀ piece : Piece, piece.PartOf ⟨text, 0⟩ → ∀ outer : Span, outer.start ≤ piece.start →
    piece.stop ≤ outer.stop → Ensures (fun _ => True) (Throughout (Sound text) outer) (inner piece)

/-- The lexeme of an element: at its place, with its text and what is read inside it. -/
structure IsOf (text : List Char) (m : Match) (lexeme : Lexeme) : Prop where
  span : lexeme.span = .locate (some (.ofText text)) m.start m.stop
  shown : lexeme.text.toList = m.text
  deeper : ∀ part ∈ lexeme.parts, Throughout (Sound text) lexeme.span part

theorem symbol_of_ofSymbol? {symbol : String} {op : Operator}
    (found : Operator.ofSymbol? symbol = some op) : op.symbol = symbol := by
  unfold Operator.ofSymbol? at found
  exact eq_of_beq (List.find?_some (p := fun op : Operator => op.symbol == symbol) found)

theorem ofElement_isOf {inner : Piece → Lexing (List Lexeme)} (reads : ReadsSound text inner)
    {m : Match} (within : m.piece.PartOf ⟨text, 0⟩)
    (pieces : ∀ piece ∈ m.pieces, piece.PartOf m.piece) :
    Ensures (fun _ => True) (IsOf text m)
      (ofElement inner (.locate (some (.ofText text)) m.start m.stop) m) := by
  generalize placed : Span.locate (some (.ofText text)) m.start m.stop = span
  have each (piece : Piece) (member : piece ∈ m.pieces) :
      Ensures (fun _ => True) (Throughout (Sound text) span) (inner piece) := by
    have part := pieces piece member
    subst placed
    exact reads piece (part.trans within) _ part.start_le part.stop_le
  have plain {lexeme : Lexeme} (here : lexeme.span = span) (shown : lexeme.text.toList = m.text)
      (flat : lexeme.parts = []) : IsOf text m lexeme :=
    ⟨here.trans placed.symm, shown, by simp [flat]⟩
  unfold ofElement
  dsimp only
  split
  · rename_i callee argumentText arguments detail
    refine ensures_bind
      (ensures_mapM_all _ _ fun piece member => each piece ?_) fun args sound => ?_
    · rwa [Match.pieces_of_call detail]
    · exact ensures_pure ⟨placed.symm, String.toList_ofList, sound⟩
  · rename_i base segments detail
    refine ensures_bind (?each : Ensures _ (fun steps : List PathStep => ∀ step ∈ steps,
      ∀ part, step = .index part → Throughout (Sound text) span part) _) fun steps sound => ?_
    · refine ensures_mapM_all _ _ fun segment member => ?_
      cases segment with
      | property name => exact ensures_pure fun _ same => by cases same
      | index piece =>
        have inside := (Match.mem_pieces_of_path detail).mpr member
        exact ensures_bind (each piece inside) fun lexemes found =>
          ensures_pure fun part same => PathStep.index.inj same ▸ found
    · refine ensures_pure ⟨placed.symm, String.toList_ofList, fun part member => ?_⟩
      obtain ⟨step, inside, chosen⟩ := List.mem_filterMap.mp member
      cases step with
      | property name => contradiction
      | index inner => exact sound _ inside part (by rw [Option.some.inj chosen])
  · split
    · exact ensures_pure (plain rfl String.toList_ofList rfl)
    · exact ensures_bind (ensures_lift _) fun _ _ =>
        ensures_pure (plain rfl String.toList_ofList rfl)
    · exact ensures_pure (plain rfl String.toList_ofList rfl)
    · cases found : Operator.ofSymbol? (String.ofList m.text) with
      | none => exact ensures_pure (plain rfl String.toList_ofList rfl)
      | some op =>
        have symbol := symbol_of_ofSymbol? found
        exact ensures_pure (plain rfl (by simp [Lexeme.text, symbol]) rfl)
    · exact ensures_pure (plain rfl String.toList_ofList rfl)

theorem readWithin_sound (text : List Char) (fuel : Nat) :
    ReadsSound text (readWithin (some (.ofText text)) fuel) := by
  induction fuel with
  | zero =>
    intro piece _ outer _ _
    exact ensures_pure (.intro ⟨sideBySide_nil, by simp⟩ (by simp))
  | succ fuel ih =>
    intro piece within outer starts stops
    obtain ⟨apart, fits⟩ := selected_spec piece
    refine ensures_bind
      (ensures_forM _ _ fun _ _ => ensures_modify fun _ _ => trivial) fun _ _ => ?_
    refine ensures_bind (ensures_mapM _ _ fun m member =>
      ofElement_isOf ih ((fits m member).within.trans within) (fits m member).pieces)
      fun lexemes are => ensures_pure ?_
    have each (lexeme : Lexeme) (member : lexeme ∈ lexemes) : ∃ m, IsOf text m lexeme := by
      obtain ⟨m, -, is⟩ := exists_of_forall₂_of_mem are member
      exact ⟨m, is⟩
    have row : SideBySide span (fun lexeme => lexeme.span.slice text = lexeme.text.toList) outer
        lexemes :=
      sideBySide_of_matches within starts stops apart (fun m member => (fits m member).within)
        (are.imp fun m lexeme is => ⟨is.span, is.shown.symm⟩)
    have folded := folded_foldNegatives false lexemes
    refine .intro ⟨folded.row row, ?_⟩ ?_
    · refine folded.forall_mem (fun _ _ _ _ sign _ => sign) fun lexeme member => ?_
      obtain ⟨m, is⟩ := each lexeme member
      rw [is.span]
      exact Span.placed_locate text _ _
    · refine folded.forall_mem (fun _ _ _ _ _ _ => by simp [parts]) fun lexeme member => ?_
      obtain ⟨m, is⟩ := each lexeme member
      exact is.deeper

theorem read_sound (text : List Char) : ReadsSound text (read (some (.ofText text))) :=
  fun piece => readWithin_sound text _ piece

end Lexeme

/-! ### Tokens -/

namespace Token

/-- What is to hold of a token: it is at its line and column, and so is everything in it, side by
side and as the text has it. -/
structure Sound (text : List Char) (token : Token) : Prop where
  placed : token.span.Placed text
  lexemes : token.Throughout (Lexeme.Sound text)
  entries : Entry.Row text token.span token.entries
  filtersPlaced : ∀ filter ∈ token.filters, filter.span.Placed text

variable {text : List Char} {m : Match}

/-- A token without lexemes. -/
theorem sound_of_plain {token : Token} (placed : token.span.Placed text)
    (plain : ∀ good, token.Throughout good) (flat : token.filters = [])
    (bare : token.entries = []) : token.Sound text :=
  ⟨placed, plain _, by rw [bare]; exact sideBySide_nil, by simp [flat]⟩

/-- The filter of a match: at its place, with its text and what is read inside it. -/
structure IsFilterOf (text : List Char) (m : Match) (filter : FilterLexeme) : Prop where
  span : filter.span = .locate (some (.ofText text)) m.start m.stop
  shown : filter.text.toList = m.text
  deeper : ∀ arg ∈ filter.args, Lexeme.Throughout (Lexeme.Sound text) filter.span arg

theorem filterOf_isFilterOf (within : m.piece.PartOf ⟨text, 0⟩)
    (pieces : ∀ piece ∈ m.pieces, piece.PartOf m.piece) :
    Ensures (fun _ => True) (IsFilterOf text m) (filterOf (.ofText text) m) := by
  unfold filterOf
  dsimp only
  split
  · rename_i name argumentText arguments garbage detail
    have each : ∀ piece ∈ arguments, Ensures (fun _ => True)
        (Lexeme.Throughout (Lexeme.Sound text) (.locate (some (.ofText text)) m.start m.stop))
        (Lexeme.read (some (.ofText text)) piece) := by
      intro piece member
      have part : piece.PartOf m.piece :=
        pieces piece (by rwa [Match.pieces_of_filter detail])
      exact Lexeme.read_sound text piece (part.trans within) _ part.start_le part.stop_le
    refine ensures_bind (ensures_mapM_all _ _ each) fun args sound => ?_
    have filter : IsFilterOf text m ⟨.locate (some (.ofText text)) m.start m.stop,
        String.ofList m.text, String.ofList name, args⟩ := ⟨rfl, String.toList_ofList, sound⟩
    split
    · exact ensures_pure filter
    · exact ensures_bind (ensures_modify fun _ _ => trivial) fun _ _ => ensures_pure filter
  · exact ensures_pure ⟨rfl, String.toList_ofList, by simp⟩

/-- The part of an interpolation in front of its filters. -/
theorem partOf_head (inner : List Char) (start : Nat) (found : List Match) :
    Piece.PartOf ⟨match found with
      | [] => inner
      | first :: _ => inner.take (first.start - start), start⟩ ⟨inner, start⟩ := by
  cases found with
  | nil => exact Piece.partOf_prefix (List.prefix_refl _) start
  | cons first rest => exact Piece.partOf_prefix (List.take_prefix _ _) start

/-- The part in front of the filters ends where the first of them starts. -/
theorem head_stop_le {inner : List Char} {start : Nat} {found : List Match} {head : Piece}
    (is : head = ⟨match found with
      | [] => inner
      | first :: _ => inner.take (first.start - start), start⟩)
    (apart : found.Pairwise fun m n => m.stop ≤ n.start)
    (fits : ∀ m ∈ found, m.FitsIn ⟨inner, start⟩) (member : m ∈ found) : head.stop ≤ m.start := by
  subst is
  cases found with
  | nil => cases member
  | cons first rest =>
    have starts : start ≤ first.start := (fits first List.mem_cons_self).within.start_le
    have size := List.length_take_le (first.start - start) inner
    have short : Piece.stop ⟨inner.take (first.start - start), start⟩ ≤ first.start := by
      simp only [Piece.stop]
      omega
    rcases List.mem_cons.mp member with rfl | later
    · exact short
    · have before := (List.pairwise_cons.mp apart).1 m later
      exact short.trans ((Nat.le_add_right _ _).trans before)

/-- Lexemes of a part in front of the filters, with the filters behind them. -/
theorem entries_row {outer : Span} {head : Piece} {expression : List Lexeme}
    {filters : List FilterLexeme} (starts : outer.start ≤ head.start) (stops : head.stop ≤ outer.stop)
    (lexemes : Lexeme.Row text ⟨head.start, head.stop, ⟨1, 1⟩⟩ expression)
    (row : SideBySide FilterLexeme.span (fun filter => filter.span.slice text = filter.text.toList)
      outer filters)
    (behind : ∀ filter ∈ filters, head.stop ≤ filter.span.start) :
    Entry.Row text outer (expression.map .lexeme ++ filters.map .filter) := by
  refine (@sideBySide_map _ _ _ _ _ Entry.lexeme _ (lexemes.widen starts stops)).append
    (@sideBySide_map _ _ _ _ _ Entry.filter _ row) ?_
  rintro a first b last
  obtain ⟨lexeme, inside, rfl⟩ := List.mem_map.mp first
  obtain ⟨filter, member, rfl⟩ := List.mem_map.mp last
  exact (lexemes.inside lexeme inside).2.2.trans (behind filter member)

theorem outputOf_sound (within : m.piece.PartOf ⟨text, 0⟩)
    (inner : Piece.PartOf ⟨m.capture 0, m.start + 2⟩ m.piece) :
    Ensures (fun _ => True) (Sound text)
      (outputOf (.ofText text) (.locate (some (.ofText text)) m.start m.stop) m) := by
  obtain ⟨apart, fits⟩ := filters_spec (m.capture 0) (m.start + 2)
  have part := partOf_head (m.capture 0) (m.start + 2) (Markup.filters (m.capture 0) (m.start + 2))
  unfold outputOf
  dsimp only
  generalize head_is : Piece.mk (match Markup.filters (m.capture 0) (m.start + 2) with
    | [] => m.capture 0
    | first :: _ => (m.capture 0).take (first.start - (m.start + 2))) (m.start + 2) = head at part ⊢
  have head_part := part.trans inner
  refine ensures_bind (Lexeme.read_sound text head (head_part.trans within)
    ⟨head.start, head.stop, ⟨1, 1⟩⟩ (Nat.le_refl _) (Nat.le_refl _)) fun expression sound => ?_
  refine ensures_bind (ensures_mapM _ _ fun n member =>
    filterOf_isFilterOf ((fits n member).within.trans (inner.trans within)) (fits n member).pieces)
    fun filters are => ensures_pure ?_
  have each (filter : FilterLexeme) (member : filter ∈ filters) :
      ∃ n ∈ Markup.filters (m.capture 0) (m.start + 2), IsFilterOf text n filter :=
    exists_of_forall₂_of_mem are member
  have row : SideBySide FilterLexeme.span (fun filter => filter.span.slice text = filter.text.toList)
      (.locate (some (.ofText text)) m.start m.stop) filters :=
    sideBySide_of_matches (inner.trans within) inner.start_le inner.stop_le apart
      (fun n member => (fits n member).within)
      (are.imp fun n filter is => ⟨is.span, is.shown.symm⟩)
  obtain ⟨⟨lexemes, placed⟩, deeper⟩ := sound
  refine ⟨Span.placed_locate text _ _, ⟨.intro ⟨?_, placed⟩ deeper, fun filter member => ?_⟩, ?_,
    fun filter member => ?_⟩
  · exact lexemes.widen head_part.start_le head_part.stop_le
  · obtain ⟨n, -, is⟩ := each filter member
    exact is.deeper
  · refine entries_row head_part.start_le head_part.stop_le lexemes row fun filter member => ?_
    obtain ⟨n, known, is⟩ := each filter member
    rw [is.span]
    exact head_stop_le head_is.symm apart fits known
  · obtain ⟨n, -, is⟩ := each filter member
    rw [is.span]
    exact Span.placed_locate text _ _

theorem openingOf_sound {condition : Piece} (within : condition.PartOf ⟨text, 0⟩) (outer : Span)
    (starts : outer.start ≤ condition.start) (stops : condition.stop ≤ outer.stop)
    (keyword : Keyword) :
    Ensures (fun _ => True) (fun tag => Lexeme.Throughout (Lexeme.Sound text) outer tag.lexemes)
      (openingOf (.ofText text) keyword condition) := by
  unfold openingOf
  dsimp only
  split
  · split
    · exact ensures_pure (.intro ⟨sideBySide_nil, by simp⟩ (by simp))
    · rename_i target iterable divided
      have part := partOf_of_splitLoop divided
      exact ensures_bind (Lexeme.read_sound text iterable (part.trans within) outer
        (starts.trans part.start_le) (part.stop_le.trans stops)) fun lexemes sound =>
          ensures_pure sound
  · exact ensures_bind (Lexeme.read_sound text condition within outer starts stops)
      fun lexemes sound => ensures_pure sound

theorem ofConstruct_sound (found : m ∈ constructs text) :
    Ensures (fun _ => True) (Sound text) (ofConstruct (.ofText text) m) := by
  have within : m.piece.PartOf ⟨text, 0⟩ :=
    (partOf_of_mem_scan (mem_scan_of_mem_constructs found)).1
  have plain {content : TokenContent} {word : String} (bare : ∀ good, Throughout good
      ⟨word, .locate (some (.ofText text)) m.start m.stop, content⟩)
      (flat : filters ⟨word, .locate (some (.ofText text)) m.start m.stop, content⟩ = [])
      (none : entries ⟨word, .locate (some (.ofText text)) m.start m.stop, content⟩ = []) :
      Ensures (ε := Fault) (σ := List Problem) (fun _ => True) (Sound text)
        (pure ⟨word, .locate (some (.ofText text)) m.start m.stop, content⟩) :=
    ensures_pure (sound_of_plain (Span.placed_locate text _ _) bare flat none)
  unfold ofConstruct
  dsimp only
  split
  · rename_i category
    exact outputOf_sound within (partOf_interpolation found category)
  · rename_i category
    have condition := partOf_openingCondition found category
    refine ensures_bind (openingOf_sound (condition.trans within)
      (.locate (some (.ofText text)) m.start m.stop) condition.start_le condition.stop_le _)
      fun tag sound => ensures_pure ?_
    exact ⟨Span.placed_locate text _ _, sound, sideBySide_nil, fun _ none => by cases none⟩
  all_goals exact plain (fun _ => trivial) rfl rfl

theorem readFrom_sound (separate : Bool) (offset : Nat) (rest : List Char) {found : List Match}
    (known : ∀ m ∈ found, m ∈ constructs text) :
    Ensures (fun _ => True) (fun tokens => ∀ token ∈ tokens, token.Sound text)
      (readFrom (.ofText text) separate offset rest found) := by
  have texts {piece : Piece} :
      ∀ token ∈ ofText (.ofText text) separate piece, token.Sound text := by
    intro token member
    obtain ⟨⟨kind, content⟩, first, last, span⟩ := content_ofText member
    refine sound_of_plain (span ▸ Span.placed_locate text first last) (fun good => ?_) ?_ ?_
    · simp [Token.Throughout, content]
    · simp [Token.filters, content]
    · simp [Token.entries, content]
  induction found generalizing offset rest with
  | nil =>
    refine ensures_pure (List.forall_mem_append.mpr ⟨texts, ?_⟩)
    rw [List.forall_mem_singleton]
    exact sound_of_plain (Span.placed_locate text _ _) (fun _ => trivial) rfl rfl
  | cons m more ih =>
    obtain ⟨construct, others⟩ := List.forall_mem_cons.mp known
    refine ensures_bind (ofConstruct_sound construct) fun token here => ?_
    refine ensures_bind (ih _ _ others) fun after later => ensures_pure ?_
    exact List.forall_mem_append.mpr ⟨texts, List.forall_mem_cons.mpr ⟨here, later⟩⟩

/-- The tokens of the constructs of a text are sound. -/
theorem sound_of_readFrom {separate : Bool} {p q : List Problem} {tokens : List Token}
    (run : Returns (readFrom (.ofText text) separate 0 text (constructs text)) p tokens q) :
    ∀ token ∈ tokens, token.Sound text :=
  ((readFrom_sound separate 0 text fun _ member => member) p trivial).1 _ _ run |>.2

theorem sound_of_read {separate : Bool} {tokens : List Token} {diagnostics : List Diagnostic}
    (tokenized : read separate text = .ok (tokens, diagnostics)) :
    ∀ token ∈ tokens, token.Sound text := by
  obtain ⟨problems, run, -⟩ := Lexing.run_ok.mp tokenized
  exact sound_of_readFrom run

end Token

/-- Every list in a token, at whatever depth, stands side by side inside the token or lexeme it
belongs to, as the text has it; in the one list of an interpolation this goes for the lexemes of its
expression together with the filters behind them. -/
theorem nested_lexemes_stand_in_text {separate : Bool} {text : List Char} {tokens : List Token}
    {diagnostics : List Diagnostic}
    (tokenized : Token.read separate text = .ok (tokens, diagnostics)) :
    ∀ token ∈ tokens, token.Throughout (Lexeme.Row text) ∧
      Entry.Row text token.span token.entries := by
  intro token member
  have sound := Token.sound_of_read tokenized token member
  exact ⟨sound.lexemes.imp (fun _ _ both => both.1), sound.entries⟩

set_option maxRecDepth 8000 in
/-- A call with an index in it and a number behind a minus, and a filter with an argument. -/
theorem nested_lexemes_stand_in_filtered_call :
    ∃ tokens diagnostics,
      Token.read false "{{ f(a[b], - 5)|g: x }}".toList = .ok (tokens, diagnostics) ∧
      ∀ token ∈ tokens,
        token.Throughout (Lexeme.Row "{{ f(a[b], - 5)|g: x }}".toList) ∧
        Entry.Row "{{ f(a[b], - 5)|g: x }}".toList token.span token.entries := by
  obtain ⟨⟨tokens, diagnostics⟩, tokenized⟩ := exists_ok
    (Token.read false "{{ f(a[b], - 5)|g: x }}".toList) (by cbv)
  exact ⟨tokens, diagnostics, tokenized, nested_lexemes_stand_in_text tokenized⟩

end Stencil
