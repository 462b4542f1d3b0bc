import Stencil.Proofs.Presence
import Stencil.Token.Lexing

/-! Pieces of texts. Whatever a scan, a cut at separators or the building of a call, a chain, a
filter or a tag takes out of a text stands in it at the offset that it says. -/
namespace Stencil.Markup
open Text

namespace Piece

/-- The piece stands in the other one at its offset. -/
def PartOf (part whole : Piece) : Prop :=
  ∃ before after, whole.text = before ++ (part.text ++ after) ∧
    part.start = whole.start + before.length

variable {part middle whole : Piece}

theorem PartOf.trans (inner : part.PartOf middle) (outer : middle.PartOf whole) :
    part.PartOf whole := by
  obtain ⟨before, after, split, start⟩ := inner
  obtain ⟨front, back, around, first⟩ := outer
  refine ⟨front ++ before, after ++ back, ?_, ?_⟩
  · rw [around, split]
    simp
  · rw [start, first, List.length_append, Nat.add_assoc]

theorem PartOf.start_le (inside : part.PartOf whole) : whole.start ≤ part.start := by
  obtain ⟨before, after, split, start⟩ := inside
  omega

theorem PartOf.stop_le (inside : part.PartOf whole) : part.stop ≤ whole.stop := by
  obtain ⟨before, after, split, start⟩ := inside
  simp only [stop, split, start, List.length_append]
  omega

theorem PartOf.shift (inside : part.PartOf whole) (base : Nat) :
    (part.shift base).PartOf (whole.shift base) := by
  obtain ⟨before, after, split, start⟩ := inside
  exact ⟨before, after, split, by rw [Piece.shift, Piece.shift, start, Nat.add_assoc]⟩

theorem partOf_prefix {text front : List Char} (leads : front <+: text) (start : Nat) :
    PartOf ⟨front, start⟩ ⟨text, start⟩ := by
  obtain ⟨after, rfl⟩ := leads
  exact ⟨[], after, rfl, rfl⟩

theorem partOf_slice {text : List Char} {first : Nat} (inside : first ≤ text.length)
    (size base : Nat) : PartOf ⟨(text.drop first).take size, base + first⟩ ⟨text, base⟩ := by
  refine ⟨text.take first, (text.drop first).drop size, ?_, ?_⟩
  · rw [List.take_append_drop, List.take_append_drop]
  · rw [List.length_take, Nat.min_eq_left inside]

/-- A slice of a slice. -/
theorem partOf_slices {text : List Char} {first size inner count : Nat}
    (inside : inner ≤ text.length) (starts : first ≤ inner) (stops : inner + count ≤ first + size) (base : Nat) :
    PartOf ⟨(text.drop inner).take count, base + inner⟩
      ⟨(text.drop first).take size, base + first⟩ := by
  have offset : first + (inner - first) = inner := by omega
  have same : (text.drop inner).take count =
      (((text.drop first).take size).drop (inner - first)).take count := by
    rw [List.drop_take, List.drop_drop, offset, List.take_take, Nat.min_eq_left (by omega)]
  have within : inner - first ≤ ((text.drop first).take size).length := by
    rw [List.length_take, List.length_drop]
    omega
  rw [same, show base + inner = base + first + (inner - first) by omega]
  exact partOf_slice within count (base + first)

theorem trim_partOf (piece : Piece) : piece.trim.PartOf piece := by
  refine ⟨piece.text.takeWhile Text.isBlank,
    ((piece.text.dropWhile Text.isBlank).reverse.takeWhile Text.isBlank).reverse, ?_, rfl⟩
  rw [trim, Text.trim, trimEnd, trimStart, ← List.reverse_append, List.takeWhile_append_dropWhile,
    List.reverse_reverse, List.takeWhile_append_dropWhile]

theorem partOf_suffix {text back : List Char} (ends : back <:+ text) (start : Nat) :
    PartOf ⟨back, start + (text.length - back.length)⟩ ⟨text, start⟩ := by
  obtain ⟨before, rfl⟩ := ends
  exact ⟨before, [], by simp, by simp⟩

end Piece

theorem exists_visible_of_trim {text : List Char} (visible : text.all isBlank = false) :
    ∃ front c, trim text = front ++ [c] ∧ isBlank c = false := by
  obtain ⟨d, member, shows⟩ := List.all_eq_false.mp visible
  have left : d ∈ trimStart text := by
    have whole := List.takeWhile_append_dropWhile (p := isBlank) (l := text)
    rw [← whole, List.mem_append] at member
    rcases member with pad | inside
    · exact absurd (List.mem_takeWhile_imp pad) shows
    · exact inside
  have some : (trimStart text).reverse.dropWhile isBlank ≠ [] := by
    rw [ne_eq, List.dropWhile_eq_nil_iff]
    intro blank
    exact shows (blank d (List.mem_reverse.mpr left))
  obtain ⟨c, rest, shape⟩ := List.exists_cons_of_ne_nil some
  refine ⟨rest.reverse, c, by rw [trim, trimEnd, shape, List.reverse_cons], ?_⟩
  have first := List.head_dropWhile_not isBlank some
  simpa [shape] using first

theorem trimEnd_append {c : Char} (visible : isBlank c = false) (front after : List Char) :
    trimEnd (front ++ c :: after) = front ++ c :: trimEnd after := by
  have split : (front ++ c :: after).reverse = after.reverse ++ c :: front.reverse := by simp
  rw [trimEnd, trimEnd, split, List.dropWhile_append]
  split
  · rename_i all
    rw [List.isEmpty_iff.mp all, List.dropWhile_cons_of_neg (by simp [visible])]
    simp
  · simp

theorem isPrefix_trimEnd (text : List Char) : trimEnd text <+: text := by
  rw [trimEnd, ← List.reverse_suffix, List.reverse_reverse]
  exact List.dropWhile_suffix isBlank

/-! ### Cutting -/

theorem partOf_of_mem_cutFrom {separator : Char} {start : Nat} {run : List Char}
    {marked : List (Char × Bool)} {piece : Piece}
    (found : piece ∈ cutFrom separator start run marked) :
    piece.PartOf ⟨run.reverse ++ marked.map (·.1), start⟩ := by
  induction marked generalizing start run with
  | nil =>
    rw [List.mem_singleton.mp found]
    exact Piece.partOf_prefix (List.prefix_append _ _) start
  | cons first rest ih =>
    obtain ⟨c, free⟩ := first
    rw [cutFrom] at found
    split at found
    · rcases List.mem_cons.mp found with rfl | later
      · exact Piece.partOf_prefix (List.prefix_append _ _) start
      · refine (ih later).trans ⟨run.reverse ++ [c], [], ?_, ?_⟩
        · simp
        · simp [Nat.add_assoc]
    · simpa using ih found

theorem length_outsideFrom (quote : Option Char) (escaped : Bool) (depth : Nat)
    (text : List Char) : (outsideFrom quote escaped depth text).length = text.length + 1 := by
  fun_induction outsideFrom quote escaped depth text <;> grind

theorem partOf_of_mem_cut {separator : Char} {text : List Char} {piece : Piece}
    (found : piece ∈ cut separator text) : piece.PartOf ⟨text, 0⟩ := by
  have whole : (text.zip (outside text)).map (·.1) = text :=
    List.map_fst_zip (by rw [outside, length_outsideFrom]; omega)
  have part := partOf_of_mem_cutFrom found
  rwa [whole] at part

theorem partOf_of_mem_arguments {separator : Char} {text : List Char} {base : Nat} {piece : Piece}
    (found : piece ∈ arguments separator text base) : piece.PartOf ⟨text, base⟩ := by
  simp only [arguments, List.mem_map, List.mem_filter] at found
  obtain ⟨raw, ⟨member, -⟩, rfl⟩ := found
  exact ((raw.trim_partOf).trans (partOf_of_mem_cut member)).shift base

theorem exists_visible_of_mem_arguments {separator : Char} {text : List Char} {base : Nat}
    {piece : Piece} (found : piece ∈ arguments separator text base) :
    ∃ front c, piece.text = front ++ [c] ∧ isBlank c = false := by
  simp only [arguments, List.mem_map, List.mem_filter] at found
  obtain ⟨raw, ⟨-, shows⟩, rfl⟩ := found
  exact exists_visible_of_trim (by simpa [Piece.isBlank] using shows)

/-! ### Matches -/

namespace Match

/-- The text of the match at its place. -/
def piece (m : Match) : Piece := ⟨m.text, m.start⟩

/-- The pieces that the expressions inside the match are read from. -/
def pieces (m : Match) : List Piece :=
  match m.detail with
  | .captured _ => []
  | .filter _ _ arguments _ | .call _ _ arguments => arguments
  | .path _ segments => segments.filterMap fun
    | .property _ => none
    | .index inner => some inner

section Pieces
variable {m : Match} {name : List Char} {arguments : List Piece}

theorem pieces_of_filter {inner : Option (List Char)} {garbage : List Char}
    (detail : m.detail = .filter name inner arguments garbage) : m.pieces = arguments := by
  rw [pieces, detail]

theorem pieces_of_call {inner : List Char} (detail : m.detail = .call name inner arguments) :
    m.pieces = arguments := by
  rw [pieces, detail]

theorem mem_pieces_of_path {segments : List Segment} (detail : m.detail = .path name segments)
    {piece : Piece} : piece ∈ m.pieces ↔ .index piece ∈ segments := by
  rw [pieces, detail, List.mem_filterMap]
  constructor
  · rintro ⟨segment, member, chosen⟩
    cases segment with
    | property name => contradiction
    | index inner => exact Option.some.inj chosen ▸ member
  · exact fun member => ⟨_, member, rfl⟩

end Pieces

/-- The match is a part of the piece, and the pieces inside the match are parts of the match. -/
structure FitsIn (m : Match) (whole : Piece) : Prop where
  within : m.piece.PartOf whole
  pieces : ∀ piece ∈ m.pieces, piece.PartOf m.piece

end Match

section Matches

variable {category : Category} {text : List Char} {base : Nat} {exclude : List (Nat × Nat)}
  {head m : Match}

theorem partOf_of_mem_scan (found : m ∈ scan category text base exclude) :
    m.piece.PartOf ⟨text, base⟩ ∧ m.text ≠ [] := by
  obtain ⟨x, y, hit, rfl, full, -, size, -, rfl⟩ := Notation.exists_hit_of_mem_scan found
  refine ⟨⟨x, y.drop hit.size, ?_, rfl⟩, ?_⟩
  · simp [Match.piece, Match.shift, Hit.toMatch]
  · simp [Match.shift, Hit.toMatch, size, full]

theorem pieces_of_mem_scan (found : m ∈ scan category text base exclude) : m.pieces = [] := by
  obtain ⟨x, y, hit, -, -, -, -, -, rfl⟩ := Notation.exists_hit_of_mem_scan found
  rfl

theorem le_of_closingFrom {stack : List Char} {quote : Option Char} {offset close : Nat}
    (closed : closingFrom stack quote offset text = some close) : offset ≤ close := by
  fun_induction closingFrom stack quote offset text <;> grind

/-- A call reaches from its head to the parenthesis that closes it, around its arguments. -/
theorem fitsIn_of_callMatch (inside : head.piece.PartOf ⟨text, 0⟩) (full : head.text ≠ [])
    (built : callMatch? text base head = some m) : m.FitsIn ⟨text, base⟩ ∧ m.text ≠ [] := by
  obtain ⟨close, closed, rfl⟩ := Notation.exists_of_callMatch built
  have behind := le_of_closingFrom closed
  have positive := List.length_pos_iff.mpr full
  have stops : 0 + text.length ≥ head.start + head.text.length := inside.stop_le
  unfold Match.stop at behind
  refine ⟨⟨Piece.partOf_slice (by omega) _ base, fun piece found => ?_⟩, ?_⟩
  · refine (partOf_of_mem_arguments found).trans ?_
    unfold Match.stop
    rw [Nat.add_assoc]
    exact Piece.partOf_slices (by omega) (by omega) (by omega) base
  · rw [← List.length_pos_iff, List.length_take, List.length_drop]
    omega

/-- The piece is a part of a slice between two offsets of a text that starts at `base`. -/
def Between (text : List Char) (base low high : Nat) (piece : Piece) : Prop :=
  ∃ first size, low ≤ first ∧ first ≤ text.length ∧ first + size ≤ high ∧
    piece.PartOf ⟨(text.drop first).take size, base + first⟩

/-- The steps of a chain stand one behind the other, each index between its start and its end. -/
theorem segmentsFrom_spec (base fuel : Nat) {offset : Nat} {rest : List Char}
    (here : text.drop offset = rest) :
    offset ≤ (segmentsFrom base fuel offset rest).2 ∧
      ∀ piece, .index piece ∈ (segmentsFrom base fuel offset rest).1 →
        Between text base offset (segmentsFrom base fuel offset rest).2 piece := by
  induction fuel generalizing offset rest with
  | zero => simp [segmentsFrom]
  | succ fuel ih =>
    -- What stands behind a step is walked with less fuel, whichever step it was.
    have behind (next : Nat) (after : List Char) (goesOn : text.drop next = after)
        (later : offset ≤ next) : offset ≤ (segmentsFrom base fuel next after).2 ∧
          ∀ piece, .index piece ∈ (segmentsFrom base fuel next after).1 →
            Between text base offset (segmentsFrom base fuel next after).2 piece := by
      obtain ⟨reaches, each⟩ := ih goesOn
      refine ⟨later.trans reaches, fun piece member => ?_⟩
      obtain ⟨first, size, start, further⟩ := each piece member
      exact ⟨first, size, later.trans start, further⟩
    cases rest with
    | nil => simp [segmentsFrom]
    | cons c rest =>
      have dropped : text.drop (offset + 1) = rest := by
        rw [← List.drop_drop, here, List.drop_one, List.tail_cons]
      have shorter := congrArg List.length here
      rw [List.length_drop, List.length_cons] at shorter
      by_cases property : c = '.'
      · subst property
        rw [segmentsFrom]
        dsimp only
        split
        · simp
        · have next := behind (offset + 1 + (leadingName rest).length)
            (rest.drop (leadingName rest).length) (by rw [← List.drop_drop, dropped]) (by omega)
          refine ⟨next.1, fun piece member => ?_⟩
          rcases List.mem_cons.mp member with other | later
          · contradiction
          · exact next.2 piece later
      · by_cases index : c = '['
        · subst index
          rw [segmentsFrom]
          split
          · simp
          · rename_i close closed
            have goesOn : text.drop (offset + close + 1) = rest.drop close := by
              rw [Nat.add_right_comm, ← List.drop_drop, dropped]
            have next := behind (offset + close + 1) (rest.drop close) goesOn (by omega)
            have reaches := (ih goesOn).1
            refine ⟨next.1, fun piece member => ?_⟩
            rcases List.mem_cons.mp member with same | later
            · rw [Segment.index.inj same]
              refine ⟨offset + 1, close - 1, by omega, by omega, ?_, ?_⟩
              · dsimp only
                omega
              · rw [dropped]
                exact Piece.trim_partOf _
            · exact next.2 piece later
        · simp [segmentsFrom, property, index]

/-- A chain reaches from its head over all of its steps. -/
theorem fitsIn_of_pathMatch (inside : head.piece.PartOf ⟨text, 0⟩) (full : head.text ≠ [])
    (built : pathMatch? text base head = some m) : m.FitsIn ⟨text, base⟩ ∧ m.text ≠ [] := by
  obtain ⟨segments, stop, walk, -, rfl⟩ := Notation.exists_of_pathMatch built
  have spec := segmentsFrom_spec base (text.drop head.stop).length
    (rfl : text.drop head.stop = text.drop head.stop)
  rw [walk] at spec
  obtain ⟨reaches, each⟩ := spec
  have positive := List.length_pos_iff.mpr full
  have stops : 0 + text.length ≥ head.start + head.text.length := inside.stop_le
  unfold Match.stop at reaches each
  refine ⟨⟨Piece.partOf_slice (by omega) _ base, fun piece found => ?_⟩, ?_⟩
  · obtain ⟨first, size, start, within, stop, part⟩ :=
      each _ ((Match.mem_pieces_of_path rfl).mp found)
    exact part.trans (Piece.partOf_slices within (by omega) (by omega) base)
  · rw [← List.length_pos_iff, List.length_take, List.length_drop]
    omega

theorem fitsIn_of_mem_elements {piece : Piece} (found : m ∈ elements piece.text piece.start) :
    m.FitsIn piece ∧ m.text ≠ [] := by
  rcases Notation.mem_elements_cases found with ⟨category, -, -, -, exclude, found⟩ | found | found
  · obtain ⟨within, full⟩ := partOf_of_mem_scan found
    exact ⟨⟨within, by simp [pieces_of_mem_scan found]⟩, full⟩
  · obtain ⟨head, member, built⟩ := Notation.mem_of_mem_outermost found
    obtain ⟨inside, full⟩ := partOf_of_mem_scan member
    exact fitsIn_of_callMatch inside full built
  · obtain ⟨head, member, built⟩ := Notation.mem_of_mem_outermost found
    obtain ⟨inside, full⟩ := partOf_of_mem_scan member
    exact fitsIn_of_pathMatch inside full built

/-! ### Filters -/

/-- A part that ends with a visible character is left whole where the blanks after it are
trimmed. -/
theorem Piece.PartOf.trimEnd {text front : List Char} {c : Char} {start first : Nat}
    (inside : PartOf ⟨front ++ [c], first⟩ ⟨text, start⟩) (visible : Text.isBlank c = false) :
    PartOf ⟨front ++ [c], first⟩ ⟨Text.trimEnd text, start⟩ := by
  obtain ⟨before, after, split, place⟩ := inside
  refine ⟨before, Text.trimEnd after, ?_, place⟩
  have shape : text = (before ++ front) ++ c :: after := by simpa using split
  rw [shape, trimEnd_append visible]
  simp

/-- A filter reaches from its head to its last visible character, around its arguments. -/
theorem fitsIn_of_filterMatch (base : Nat) {stop : Nat} (reached : head.stop ≤ stop)
    (within : stop ≤ text.length) :
    (filterMatch text base head stop).FitsIn ⟨text, base⟩ ∧
      (filterMatch text base head stop).stop ≤ base + stop := by
  have starts : head.start ≤ head.stop := Nat.le_add_right _ _
  have whole : Piece.PartOf ⟨trimEnd ((text.drop head.start).take (stop - head.start)),
      base + head.start⟩ ⟨(text.drop head.start).take (stop - head.start), base + head.start⟩ :=
    Piece.partOf_prefix (isPrefix_trimEnd _) _
  have fits := whole.trans (Piece.partOf_slice (by omega) _ base)
  refine ⟨⟨fits, fun piece found => ?_⟩, ?_⟩
  · unfold filterMatch at found
    dsimp only at found
    split at found
    · rename_i given colon
      generalize tailed : (text.drop head.stop).take (stop - head.stop) = tail at found colon
      -- The colon stands behind the blanks after the head, so the arguments start in the text.
      have behind := (Piece.trim_partOf ⟨tail, 0⟩).stop_le
      simp only [Piece.trim, Piece.stop, colon, List.length_cons] at behind
      have room := congrArg List.length tailed
      rw [List.length_take, List.length_drop] at room
      have blanks : blankCount tail + 1 ≤ tail.length := by
        unfold blankCount
        omega
      have inside : piece.PartOf
          ⟨(text.drop head.start).take (stop - head.start), base + head.start⟩ :=
        (partOf_of_mem_arguments found).trans
          (Piece.partOf_slices (by omega) (by omega) (by omega) base)
      obtain ⟨front, c, ends, visible⟩ := exists_visible_of_mem_arguments found
      obtain ⟨shown, first⟩ := piece
      obtain rfl : shown = front ++ [c] := ends
      exact inside.trimEnd visible
    · contradiction
  · have size := whole.stop_le
    simp only [Piece.stop, List.length_take, List.length_drop] at size
    simp only [filterMatch, Match.stop]
    omega

/-- Heads that stand side by side, each paired with the start of the next one or the end. -/
theorem zip_stops {heads : List Match} {last : Nat} (ends : ∀ head ∈ heads, head.stop ≤ last)
    (apart : heads.Pairwise fun m n => m.start < n.start ∧ m.stop ≤ n.start) :
    (heads.zip ((heads.drop 1).map (·.start) ++ [last])).Pairwise (fun p q => p.2 ≤ q.1.start) ∧
      ∀ pair ∈ heads.zip ((heads.drop 1).map (·.start) ++ [last]),
        pair.1 ∈ heads ∧ pair.1.stop ≤ pair.2 ∧ pair.2 ≤ last := by
  induction heads with
  | nil => simp
  | cons head rest ih =>
    have here := ends head List.mem_cons_self
    obtain ⟨before, later⟩ := List.pairwise_cons.mp apart
    obtain ⟨order, each⟩ :=
      ih (fun other member => ends other (List.mem_cons_of_mem _ member)) later
    cases rest with
    | nil => simp [here]
    | cons next more =>
      have adjoins := before next List.mem_cons_self
      have reaches : next.start ≤ last :=
        (Nat.le_add_right _ _).trans (ends next (by simp))
      rw [List.drop_one, List.tail_cons, List.map_cons, List.cons_append, List.zip_cons_cons]
      refine ⟨List.pairwise_cons.mpr ⟨fun pair member => ?_, order⟩, fun pair member => ?_⟩
      · rcases List.mem_cons.mp (each pair member).1 with same | inside
        · exact Nat.le_of_eq (congrArg Match.start same.symm)
        · exact Nat.le_of_lt ((List.pairwise_cons.mp later).1 _ inside).1
      · rcases List.mem_cons.mp member with rfl | inside
        · exact ⟨List.mem_cons_self, adjoins.2, reaches⟩
        · obtain ⟨found, reach⟩ := each pair inside
          exact ⟨List.mem_cons_of_mem _ found, reach⟩

/-- The heads of filters: bars that stand outside of brackets and strings. -/
def filterHeads (text : List Char) : List Match :=
  (scan .filter text 0 []).filter fun head => (outside text).getD head.start false

theorem mem_scan_of_mem_filterHeads (found : head ∈ filterHeads text) :
    head ∈ scan .filter text 0 [] := (List.mem_filter.mp found).1

/-- Each head of a filter reaches to the next one at most, and the last one to the end. -/
theorem zip_filterHeads (text : List Char) :
    let stops := ((filterHeads text).drop 1).map (·.start) ++ [text.length]
    ((filterHeads text).zip stops).Pairwise (fun p q => p.2 ≤ q.1.start) ∧
      ∀ p ∈ (filterHeads text).zip stops,
        p.1 ∈ filterHeads text ∧ p.1.stop ≤ p.2 ∧ p.2 ≤ text.length := by
  have apart : (filterHeads text).Pairwise fun m n => m.start < n.start ∧ m.stop ≤ n.start :=
    (pairwise_scan text 0 []).filter _
  have ends : ∀ head ∈ filterHeads text, head.stop ≤ text.length := by
    intro head member
    have within := (partOf_of_mem_scan (mem_scan_of_mem_filterHeads member)).1.stop_le
    simpa [Piece.stop, Match.piece, Match.stop] using within
  exact zip_stops ends apart

/-- The filters of an expression stand side by side. -/
theorem filters_spec (text : List Char) (base : Nat) :
    (filters text base).Pairwise (fun m n => m.stop ≤ n.start) ∧
      ∀ m ∈ filters text base, m.FitsIn ⟨text, base⟩ := by
  obtain ⟨order, each⟩ := zip_filterHeads text
  rw [filters]
  constructor
  · refine List.pairwise_map.mpr (order.imp_of_mem ?_)
    intro p q first second before
    obtain ⟨-, reached, within⟩ := each p first
    have stop := (fitsIn_of_filterMatch base reached within).2
    refine stop.trans ?_
    simp only [filterMatch]
    omega
  · intro m member
    obtain ⟨pair, found, rfl⟩ := List.mem_map.mp member
    obtain ⟨-, reached, within⟩ := each pair found
    exact (fitsIn_of_filterMatch base reached within).1

end Matches

/-! ### Tags -/

section Tags

variable {text : List Char} {m : Match}

theorem mem_scan_of_mem_constructs (found : m ∈ constructs text) :
    m ∈ scan m.category text 0 [] := by
  have member := mem_of_mem_disjoint found
  simp only [List.mem_mergeSort, recognize, List.mem_append, List.mem_filter] at member
  rcases member with (((found | found) | found) | found) | ⟨found, -⟩ <;>
    exact Notation.category_of_mem_scan found ▸ found

theorem exists_construct (found : m ∈ constructs text) :
    ∃ (before rest : List Char) (hit : Hit),
      m.category.matcher before.getLast? rest = some hit ∧
        m = hit.toMatch m.category rest before.length := by
  obtain ⟨before, rest, hit, -, -, hits, -, -, same⟩ :=
    Notation.exists_hit_of_mem_scan (mem_scan_of_mem_constructs found)
  exact ⟨before, rest, hit, hits, by rw [Notation.shift_zero] at same; exact same⟩

/-- What a hit captures is a part of the match. -/
theorem partOf_group {hit : Hit} {category : Category} {start first size : Nat}
    (inside : first ≤ text.length) (stops : first + size ≤ hit.size) :
    Piece.PartOf ⟨(text.drop first).take size, start + first⟩
      (hit.toMatch category text start).piece := by
  have part := Piece.partOf_slices inside (Nat.zero_le first)
    (by omega : first + size ≤ 0 + hit.size) start
  rwa [List.drop_zero, Nat.add_zero] at part

/-- What stands inside an interpolation. -/
theorem partOf_interpolation (found : m ∈ constructs text)
    (category : m.category = .interpolation) :
    Piece.PartOf ⟨m.capture 0, m.start + 2⟩ m.piece := by
  obtain ⟨before, rest, hit, hits, same⟩ := exists_construct found
  rw [category] at hits same
  simp only [Category.matcher, enclosed, Option.bind_eq_bind, Option.bind_eq_some_iff] at hits
  obtain ⟨after, opens, ⟨inner, tail⟩, -, shape⟩ := hits
  have long := congrArg List.length (List.append_eq_of_isPrefixOf?_eq_some opens)
  obtain rfl := Option.some.inj shape
  rw [same]
  simp only [List.length_append, List.length_cons, List.length_nil] at long
  have inside : 2 ≤ rest.length := by omega
  exact partOf_group inside (by simp)

/-- What an opening tag says after its word. -/
theorem partOf_condition (found : m ∈ constructs text) (category : m.category = .blockStart)
    {condition : Piece} (captured : m.captures[1]? = some condition) :
    condition.PartOf m.piece := by
  obtain ⟨before, rest, hit, hits, same⟩ := exists_construct found
  rw [category] at hits same
  change openingTag before.getLast? rest = some hit at hits
  unfold openingTag at hits
  obtain ⟨after, opens, hits⟩ := Option.bind_eq_some_iff.mp hits
  dsimp only at hits
  obtain ⟨_, known, hits⟩ := Option.bind_eq_some_iff.mp hits
  obtain ⟨⟨inner, tail⟩, closes, shape⟩ := Option.bind_eq_some_iff.mp hits
  obtain rfl := Option.some.inj shape
  rw [same] at captured ⊢
  have short := (isPrefix_trimEnd inner).length_le
  generalize 2 + blankCount after +
    ((rest.drop (2 + blankCount after)).takeWhile isNamePart).length + blankCount (rest.drop (2 + blankCount after +
      ((rest.drop (2 + blankCount after)).takeWhile isNamePart).length)) = start at *
  have inside : start ≤ rest.length := by
    by_contra beyond
    rw [List.drop_of_length_le (by omega)] at closes
    contradiction
  obtain rfl : _ = condition := Option.some.inj captured
  exact partOf_group inside (by dsimp only; omega)

/-- What an opening tag is read from, also if it says nothing behind its word. -/
theorem partOf_openingCondition (found : m ∈ constructs text)
    (category : m.category = .blockStart) :
    Piece.PartOf ((m.captures[1]?).getD ⟨[], m.stop⟩) m.piece := by
  cases captured : m.captures[1]? with
  | none => exact ⟨m.text, [], by simp [Match.piece], rfl⟩
  | some condition => exact partOf_condition found category captured

theorem partOf_of_splitLoop {before target : List Char} {offset : Nat} {iterable : Piece}
    (divided : Token.splitLoop before offset text = some (target, iterable)) :
    iterable.PartOf ⟨text, offset⟩ := by
  induction text generalizing before offset with
  | nil => contradiction
  | cons c rest ih =>
    have further
        (found : Token.splitLoop (c :: before) (offset + 1) rest = some (target, iterable)) :
        iterable.PartOf ⟨c :: rest, offset⟩ := (ih found).trans ⟨[c], [], by simp, rfl⟩
    unfold Token.splitLoop at divided
    dsimp only at divided
    split at divided
    · exact further divided
    · split at divided
      · rename_i after blanks
        split at divided
        · have word : 'i' :: 'n' :: after <:+ c :: rest := by
            rw [← blanks]
            exact List.dropWhile_suffix _
          have ends : after.dropWhile isBlank <:+ c :: rest :=
            (List.dropWhile_suffix _).trans ((List.suffix_append ['i', 'n'] after).trans word)
          cases divided
          exact Piece.partOf_suffix ends offset
        · exact further divided
      · exact further divided

end Tags

end Stencil.Markup
