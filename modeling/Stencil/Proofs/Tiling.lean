import Mathlib
import Stencil.Proofs.Outcome
import Stencil.Proofs.Scanning

/-! Tokens tile their text: each starts where the one before has stopped, none is empty but the
last, and their sources in a row are the text. -/
namespace Stencil.Token
open Text Markup

/-- The part of the text that a token stands for. -/
def source (token : Token) : String :=
  match token.content with
  | .text _ | .comment _ => token.text
  | .output _ _ source | .opening _ source | .closing source => source
  | .stray _ | .done => ""

/-- Tokens from `start` to `stop` without a gap or an overlap, none of them empty. -/
def Adjoining (start stop : Nat) : List Token → Prop
  | [] => start = stop
  | token :: rest =>
    token.span.start = start ∧ start < token.span.stop ∧ Adjoining token.span.stop stop rest

theorem Adjoining.append {start middle stop : Nat} {first second : List Token}
    (left : Adjoining start middle first) (right : Adjoining middle stop second) :
    Adjoining start stop (first ++ second) := by
  induction first generalizing start with
  | nil =>
    cases left
    exact right
  | cons token rest ih =>
    obtain ⟨here, wide, later⟩ := left
    exact ⟨here, wide, ih later⟩

/-- Tokens that stand for a text at `start`, piece by piece. -/
structure Tiling (start : Nat) (text : List Char) (tokens : List Token) : Prop where
  adjoining : Adjoining start (start + text.length) tokens
  sources : tokens.flatMap (·.source.toList) = text
  running : ∀ token ∈ tokens, token.isDone = false

namespace Tiling

theorem nil (start : Nat) : Tiling start [] [] := ⟨rfl, rfl, by simp⟩

theorem append {start : Nat} {first second : List Char} {before after : List Token}
    (left : Tiling start first before) (right : Tiling (start + first.length) second after) :
    Tiling start (first ++ second) (before ++ after) := by
  refine ⟨?_, ?_, ?_⟩
  · rw [List.length_append, ← Nat.add_assoc]
    exact left.adjoining.append right.adjoining
  · rw [List.flatMap_append, left.sources, right.sources]
  · intro token member
    rcases List.mem_append.mp member with inside | inside
    · exact left.running token inside
    · exact right.running token inside

theorem cons {start : Nat} {first rest : List Char} {token : Token} {after : List Token}
    (here : token.span.start = start) (ends : token.span.stop = start + first.length)
    (nonempty : first ≠ []) (stands : token.source.toList = first) (goesOn : token.isDone = false)
    (right : Tiling (start + first.length) rest after) :
    Tiling start (first ++ rest) (token :: after) := by
  have positive := List.length_pos_iff.mpr nonempty
  refine ⟨⟨here, by omega, ?_⟩, ?_, ?_⟩
  · rw [ends, List.length_append, ← Nat.add_assoc]
    exact right.adjoining
  · rw [List.flatMap_cons, stands, right.sources]
  · intro other member
    rcases List.mem_cons.mp member with rfl | inside
    · exact goesOn
    · exact right.running other inside

end Tiling

/-! ### Text -/

/-- The runs of a text in a row, with the run that has been begun, and none of them empty. -/
theorem textRuns_tile (kind : TextKind) (run text : List Char) :
    (textRuns kind run text).flatMap (·.2) = run.reverse ++ text ∧
      ∀ piece ∈ textRuns kind run text, piece.2 ≠ [] := by
  have emitted (kind : TextKind) (run : List Char) (after : List (TextKind × List Char)) :
      (emit kind run after).flatMap (·.2) = run.reverse ++ after.flatMap (·.2) ∧
        ((∀ piece ∈ after, piece.2 ≠ []) → ∀ piece ∈ emit kind run after, piece.2 ≠ []) := by
    cases run <;> simp [emit]
  fun_induction textRuns kind run text with
  | case1 kind run => simpa using emitted kind run []
  | case2 kind run rest blank ih =>
    refine ⟨by simp [(emitted _ _ _).1, ih.1], (emitted _ _ _).2 ?_⟩
    simpa using ih.2
  | case3 kind run rest other ih =>
    refine ⟨by simp [(emitted _ _ _).1, ih.1], (emitted _ _ _).2 ?_⟩
    simpa using ih.2
  | case4 kind run c rest pair lineEnd ih =>
    refine ⟨by simp [(emitted _ _ _).1, ih.1], (emitted _ _ _).2 ?_⟩
    simpa using ih.2
  | case5 kind run c rest pair other same ih => simpa using ih
  | case6 kind run c rest pair other different ih =>
    refine ⟨by simp [(emitted _ _ _).1, ih.1], (emitted _ _ _).2 ih.2⟩

theorem ofRuns_tile (lines : Lines) (start : Nat) (runs : List (TextKind × List Char))
    (nonempty : ∀ run ∈ runs, run.2 ≠ []) :
    Tiling start (runs.flatMap (·.2)) (ofRuns lines start runs) := by
  induction runs generalizing start with
  | nil => exact .nil start
  | cons run rest ih =>
    rw [ofRuns, List.flatMap_cons]
    refine .cons rfl rfl (nonempty run (by simp)) (by simp [source]) rfl ?_
    exact ih _ fun other member => nonempty other (by simp [member])

theorem ofText_tile (lines : Lines) (separate : Bool) (piece : Piece) :
    Tiling piece.start piece.text (ofText lines separate piece) := by
  obtain ⟨text, start⟩ := piece
  rw [ofText]
  split
  · rename_i empty
    rw [List.isEmpty_iff.mp empty]
    exact .nil start
  · rename_i nonempty
    cases separate with
    | false =>
      have tiled := ofRuns_tile lines start [(.plain, text)] (by simpa using nonempty)
      simpa using tiled
    | true =>
      obtain ⟨whole, pieces⟩ := textRuns_tile .plain [] text
      have tiled := ofRuns_tile lines start _ pieces
      rw [whole] at tiled
      simpa using tiled

theorem content_ofRuns {lines : Lines} {start : Nat} {runs : List (TextKind × List Char)}
    {token : Token} (member : token ∈ ofRuns lines start runs) :
    (∃ kind, token.content = .text kind) ∧
      ∃ first last, token.span = .locate (some lines) first last := by
  induction runs generalizing start with
  | nil => cases member
  | cons run rest ih =>
    rw [ofRuns] at member
    rcases List.mem_cons.mp member with rfl | later
    · exact ⟨⟨run.1, rfl⟩, _, _, rfl⟩
    · exact ih later

theorem content_ofText {lines : Lines} {separate : Bool} {piece : Piece} {token : Token}
    (member : token ∈ ofText lines separate piece) :
    (∃ kind, token.content = .text kind) ∧
      ∃ first last, token.span = .locate (some lines) first last := by
  rw [ofText] at member
  split at member
  · cases member
  · exact content_ofRuns member

/-! ### Constructs -/

/-- The token of a construct has its span and stands for its text. -/
theorem ofConstruct_source {lines : Lines} {m : Match} {p q : List Problem} {token : Token}
    (run : Returns (ofConstruct lines m) p token q) :
    token.span = .locate (some lines) m.start m.stop ∧ token.source = String.ofList m.text ∧
      token.isDone = false := by
  unfold ofConstruct at run
  dsimp only at run
  split at run
  · simp only [outputOf, returns_bind, returns_pure] at run
    obtain ⟨expression, -, -, filters, -, -, rfl, -⟩ := run
    exact ⟨rfl, rfl, rfl⟩
  · simp only [returns_bind, returns_pure] at run
    obtain ⟨tag, -, -, rfl, -⟩ := run
    exact ⟨rfl, rfl, rfl⟩
  all_goals
    obtain ⟨rfl, -⟩ := returns_pure.mp run
    exact ⟨rfl, rfl, rfl⟩

theorem readFrom_tile {lines : Lines} {separate : Bool} (text : List Char) (offset : Nat)
    {constructs : List Match} {p q : List Problem} {tokens : List Token}
    (inside : offset ≤ text.length) (ascending : Ascending offset constructs)
    (occurs : ∀ m ∈ constructs, m.OccursIn text)
    (run : Returns (readFrom lines separate offset (text.drop offset) constructs) p tokens q) :
    ∃ parts last, tokens = parts ++ [last] ∧ last.isDone = true ∧
      last.span.start = text.length ∧ last.span.stop = text.length ∧
      Tiling offset (text.drop offset) parts := by
  induction constructs generalizing offset p q tokens with
  | nil =>
    have stop : offset + (text.drop offset).length = text.length := by
      rw [List.length_drop]
      omega
    simp only [readFrom, returns_pure, stop] at run
    obtain ⟨rfl, -⟩ := run
    exact ⟨_, _, rfl, rfl, rfl, rfl, ofText_tile lines separate ⟨text.drop offset, offset⟩⟩
  | cons m more ih =>
    obtain ⟨reached, ascending⟩ := ascending
    have here := occurs m (by simp)
    have wide := here.start_lt_stop
    -- The rest of the text is a gap, the construct and what stands behind it.
    have behind : (text.drop offset).drop (m.stop - offset) = text.drop m.stop := by
      rw [List.drop_drop, Nat.add_sub_cancel' (by omega)]
    have whole : text.drop offset =
        (text.drop offset).take (m.start - offset) ++ (m.text ++ text.drop m.stop) := by
      have after : m.text ++ text.drop m.stop = (text.drop offset).drop (m.start - offset) := by
        obtain ⟨tail, split⟩ := here.here
        rw [List.drop_drop, Nat.add_sub_cancel' reached, Match.stop, ← List.drop_drop, ← split,
          List.drop_left]
      rw [after, List.take_append_drop]
    have gap : ((text.drop offset).take (m.start - offset)).length = m.start - offset := by
      have fits := here.stop_le
      rw [List.length_take, List.length_drop]
      omega
    simp only [readFrom, returns_bind, returns_pure, behind] at run
    obtain ⟨token, p₁, first, after, p₂, later, rfl, -⟩ := run
    obtain ⟨placed, stands, goesOn⟩ := ofConstruct_source first
    obtain ⟨parts, last, rfl, done, start, stop, tiled⟩ :=
      ih m.stop here.stop_le ascending (fun other member => occurs other (by simp [member])) later
    generalize (text.drop offset).take (m.start - offset) = before at whole gap ⊢
    refine ⟨ofText lines separate ⟨before, offset⟩ ++ token :: parts, last, by simp, done, start,
      stop, ?_⟩
    rw [whole]
    refine .append (ofText_tile lines separate ⟨before, offset⟩) ?_
    rw [show offset + before.length = m.start by omega]
    exact .cons (by rw [placed]; rfl) (by rw [placed]; rfl) here.nonempty (by rw [stands]; simp)
      goesOn tiled

/-- The tokens of a text end with the only token that stands for its end; the others are not
empty, lie side by side from the first character to the last, and their sources in a row are the
text. -/
theorem tokens_tile_text {separate : Bool} {text : List Char} {tokens : List Token}
    {diagnostics : List Diagnostic} (success : read separate text = .ok (tokens, diagnostics)) :
    ∃ parts last, tokens = parts ++ [last] ∧
      last.isDone = true ∧ last.span.start = text.length ∧ last.span.stop = text.length ∧
      (∀ token ∈ parts, token.isDone = false) ∧ Adjoining 0 text.length parts ∧
      parts.flatMap (·.source.toList) = text := by
  obtain ⟨problems, run, -⟩ := Lexing.run_ok.mp success
  obtain ⟨parts, last, split, done, start, stop, tiled⟩ :=
    readFrom_tile text 0 (Nat.zero_le _) (ascending_constructs text)
      (fun m member => occursIn_of_mem_constructs member) run
  exact ⟨parts, last, split, done, start, stop, tiled.running, by simpa using tiled.adjoining,
    tiled.sources⟩

set_option maxRecDepth 8000 in
/-- A mark that is never closed, a blank beyond ASCII, and a tag that is hidden in a comment. -/
theorem tokens_tile_mixed_text :
    ∃ tokens diagnostics,
      read true "\x7b\x7b\u00a0\x7b# \x7b% #\x7d\r\n\x7b% if b %\x7d".toList =
        .ok (tokens, diagnostics) ∧
      ∃ parts last, tokens = parts ++ [last] ∧
        last.isDone = true ∧ last.span.start = 23 ∧ last.span.stop = 23 ∧
        (∀ token ∈ parts, token.isDone = false) ∧ Adjoining 0 23 parts ∧
        parts.flatMap (·.source.toList) =
          "\x7b\x7b\u00a0\x7b# \x7b% #\x7d\r\n\x7b% if b %\x7d".toList := by
  obtain ⟨⟨tokens, diagnostics⟩, success⟩ := exists_ok
    (read true "\x7b\x7b\u00a0\x7b# \x7b% #\x7d\r\n\x7b% if b %\x7d".toList) (by cbv)
  exact ⟨tokens, diagnostics, success, tokens_tile_text success⟩

end Stencil.Token
