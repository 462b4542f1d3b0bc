import Stencil.Library.Filters

/-! Texts that are cut at a separator and joined again. The pieces are what stands between the
occurrences of the separator from left to right, so none of them holds it, and with the separator
between them they make up the text. The empty separator cuts between any two characters. -/
namespace Stencil

/-! ### Pieces of a text -/

namespace Text

variable {mark piece rest text p : List Char} {skip : Nat}

theorem piecesFrom_ne_nil : piecesFrom mark skip piece text ≠ [] := by
  induction text generalizing skip piece with
  | nil => exact List.cons_ne_nil _ _
  | cons c rest ih =>
    cases skip with
    | succ more => exact ih
    | zero =>
      rw [piecesFrom]
      split
      · exact List.cons_ne_nil _ _
      · exact ih

/-- The pieces hold the current piece and the text behind the last occurrence. -/
theorem intercalate_piecesFrom (marked : mark ≠ []) (skip : Nat) (piece text : List Char) :
    mark.intercalate (piecesFrom mark skip piece text) = piece.reverse ++ text.drop skip := by
  induction text generalizing skip piece with
  | nil => simp [piecesFrom]
  | cons c rest ih =>
    cases skip with
    | succ more => exact ih more piece
    | zero =>
      rw [piecesFrom]
      split
      · rename_i occurs
        obtain ⟨after, shape⟩ := List.isPrefixOf_iff_prefix.mp occurs
        obtain ⟨first, others, rfl⟩ := List.exists_cons_of_ne_nil marked
        obtain ⟨rfl, rfl⟩ := List.cons.inj shape
        rw [List.intercalate_cons_of_ne_nil piecesFrom_ne_nil, ih]
        simp
      · rw [ih]
        simp

theorem intercalate_pieces (marked : mark ≠ []) (text : List Char) :
    mark.intercalate (pieces mark text) = text :=
  intercalate_piecesFrom marked 0 [] text

/-- No occurrence of the mark begins in a piece that the rest of the text follows. -/
def Unbroken (mark piece rest : List Char) : Prop :=
  ∀ tail, tail ≠ [] → tail <:+ piece → ¬ mark <+: tail ++ rest

theorem unbroken_reverse_nil : Unbroken mark (List.reverse []) rest :=
  fun _ nonempty inside => absurd (List.suffix_nil.mp inside) nonempty

theorem Unbroken.concat {c : Char} (unbroken : Unbroken mark piece (c :: rest))
    (apart : ¬ mark <+: c :: rest) : Unbroken mark (piece ++ [c]) rest := by
  intro tail nonempty inside
  rcases List.suffix_concat_iff.mp inside with rfl | ⟨before, rfl, behind⟩
  · contradiction
  · rw [List.append_assoc]
    by_cases only : before = []
    · rw [only]
      exact apart
    · exact unbroken before only behind

theorem Unbroken.not_infix (marked : mark ≠ []) (unbroken : Unbroken mark piece rest) :
    ¬ mark <:+: piece := by
  rintro ⟨before, after, rfl⟩
  refine unbroken (mark ++ after) (List.append_ne_nil_of_left_ne_nil marked after) ?_ ?_
  · exact ⟨before, (List.append_assoc ..).symm⟩
  · exact ⟨after ++ rest, (List.append_assoc ..).symm⟩

theorem not_infix_of_mem_piecesFrom (marked : mark ≠ [])
    (unbroken : Unbroken mark piece.reverse (text.drop skip))
    (member : p ∈ piecesFrom mark skip piece text) : ¬ mark <:+: p := by
  induction text generalizing skip piece with
  | nil =>
    obtain rfl := List.mem_singleton.mp member
    exact unbroken.not_infix marked
  | cons c rest ih =>
    cases skip with
    | succ more => exact ih unbroken member
    | zero =>
      rw [piecesFrom] at member
      split at member
      · rcases List.mem_cons.mp member with rfl | later
        · exact unbroken.not_infix marked
        · exact ih unbroken_reverse_nil later
      · rename_i apart
        refine ih ?_ member
        rw [List.reverse_cons]
        exact unbroken.concat fun occurs => apart (List.isPrefixOf_iff_prefix.mpr occurs)

theorem not_infix_of_mem_pieces (marked : mark ≠ []) (member : p ∈ pieces mark text) :
    ¬ mark <:+: p :=
  not_infix_of_mem_piecesFrom marked unbroken_reverse_nil member

/-- The empty mark stands between any two characters. -/
theorem intercalate_characters (text : List Char) : [].intercalate (text.map ([·])) = text := by
  induction text with
  | nil => rfl
  | cons c rest ih =>
    cases rest with
    | nil => rfl
    | cons next others =>
      rw [List.map_cons, List.intercalate_cons_of_ne_nil (by simp), ih]
      rfl

end Text

/-! ### Filters -/

namespace Filters
open Value

/-- The pieces between the occurrences of a mark; by the empty mark the characters. -/
def cut (mark shown : String) : List String :=
  if mark.isEmpty then shown.toList.map fun c => String.ofList [c]
  else (Text.pieces mark.toList shown.toList).map String.ofList

theorem split_eq (value separator : Value) :
    split value separator = do
      let mark ← separator.toText
      let shown ← value.toText
      return ofTexts (cut mark shown) := by
  unfold split
  refine bind_congr fun mark => bind_congr fun shown => ?_
  have texts : ofChars = Value.text ∘ String.ofList := rfl
  by_cases empty : mark.isEmpty <;> simp [cut, empty, ofTexts, texts, Function.comp_def]

theorem intercalate_cut (mark shown : String) : mark.intercalate (cut mark shown) = shown := by
  rw [← String.toList_inj, String.toList_intercalate, cut]
  by_cases empty : mark = ""
  · subst empty
    simpa [Function.comp_def] using Text.intercalate_characters shown.toList
  · have marked : mark.toList ≠ [] := by simpa using empty
    rw [if_neg (by simpa using empty), List.map_map]
    simp [Function.comp_def, Text.intercalate_pieces marked]

theorem not_infix_of_mem_cut {mark shown piece : String} (marked : mark ≠ "")
    (member : piece ∈ cut mark shown) : ¬ mark.toList <:+: piece.toList := by
  rw [cut, if_neg (by simpa using marked)] at member
  obtain ⟨chars, inside, rfl⟩ := List.mem_map.mp member
  rw [String.toList_ofList]
  exact Text.not_infix_of_mem_pieces (by simpa using marked) inside

theorem itemTexts_ofTexts (texts : List String) : itemTexts (texts.map Value.text) = .ok texts := by
  induction texts with
  | nil => rfl
  | cons first rest ih =>
    rw [List.map_cons, itemTexts, ih]
    rfl

theorem join_ofTexts (texts : List String) (separator : Value) :
    join (ofTexts texts) separator = do
      let mark ← separator.toText
      return .text (mark.intercalate texts) := by
  rw [ofTexts, join, itemTexts_ofTexts]
  rfl

/-- Joined with the separator that it was cut at, a value gives its text; where the separator or the
value has no text, that is the fault of cutting it. No piece holds a separator that is not empty. -/
theorem join_undoes_split (value separator : Value) :
    (do join (← split value separator) separator) =
      (do let _ ← separator.toText; return .text (← value.toText)) ∧
    ∀ pieces mark, split value separator = .ok pieces → separator.toText = .ok mark → mark ≠ "" →
      ∃ texts, pieces = ofTexts texts ∧ ∀ t ∈ texts, ¬ mark.toList <:+: t.toList := by
  rw [split_eq]
  cases separates : separator.toText with
  | error fault => exact ⟨rfl, fun _ _ failed => nomatch failed⟩
  | ok mark =>
    cases value.toText with
    | error fault => exact ⟨rfl, fun _ _ failed => nomatch failed⟩
    | ok shown =>
      constructor
      · have joined : join (ofTexts (cut mark shown)) separator = .ok (.text shown) := by
          rw [join_ofTexts, separates]
          exact congrArg (Except.ok ∘ Value.text) (intercalate_cut mark shown)
        exact joined
      · rintro pieces _ ⟨rfl⟩ ⟨rfl⟩ marked
        exact ⟨cut mark shown, rfl, fun _ => not_infix_of_mem_cut marked⟩

/-- The occurrences of a separator may overlap each other; the first one counts. -/
theorem join_undoes_split_at_pairs :
    split (.text "aaabaa") (.text "aa") = .ok (ofTexts ["", "ab", ""]) ∧
    (do join (← split (.text "aaabaa") (.text "aa")) (.text "aa")) = .ok (.text "aaabaa") ∧
    ∀ t ∈ ["", "ab", ""], ¬ "aa".toList <:+: t.toList := by
  have pieces : split (.text "aaabaa") (.text "aa") = .ok (ofTexts ["", "ab", ""]) := rfl
  obtain ⟨joined, parted⟩ := join_undoes_split (.text "aaabaa") (.text "aa")
  obtain ⟨texts, same, apart⟩ := parted _ "aa" pieces rfl (by decide)
  obtain rfl := (List.map_inj_right fun _ _ => Value.text.inj).mp (Value.list.inj same)
  exact ⟨pieces, joined, apart⟩

end Filters
end Stencil
