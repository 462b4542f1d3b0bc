import Mathlib
import Stencil.Proofs.Selection

/-! Constructs and the rest of a text. Each category is scanned over the whole text, so a match that
begins before the end of a construct may reach beyond it and take a later construct with it. Where
none does, the constructs after that one are those of the rest of the text, read for itself. -/
namespace Stencil.Markup
open Notation (scan_eq_scanFrom outerFirst_iff outerFirst_trans outerFirst_total)

/-! ### Sorting in two parts -/

section Sorting

variable {α : Type} {le : α → α → Bool} (trans : ∀ a b c, le a b → le b c → le a c)
  (total : ∀ a b, le a b || le b a)
include trans total

/-- One more item goes between those that it does not come before and those that it does. -/
theorem exists_mergeSort_cons (a : α) (items : List α) :
    ∃ before after, (a :: items).mergeSort le = before ++ a :: after ∧
      items.mergeSort le = before ++ after ∧ (∀ b ∈ before, le a b = false) ∧
      ∀ b ∈ after, le a b = true := by
  obtain ⟨before, after, whole, rest, later⟩ := List.mergeSort_cons trans total a items
  have sorted := List.pairwise_mergeSort trans total (a :: items)
  rw [whole] at sorted
  exact ⟨before, after, whole, rest, by simpa using later,
    (List.pairwise_cons.mp (List.pairwise_append.mp sorted).2.1).1⟩

theorem mergeSort_cons_of_split {a : α} {items before after : List α}
    (rest : items.mergeSort le = before ++ after) (later : ∀ b ∈ before, le a b = false)
    (first : ∀ b ∈ after, le a b = true) :
    (a :: items).mergeSort le = before ++ a :: after := by
  obtain ⟨front, back, whole, same, behind, ahead⟩ := exists_mergeSort_cons trans total a items
  have stops {ahead : List α} (first : ∀ b ∈ ahead, le a b = true) :
      ahead.takeWhile (!le a ·) = [] ∧ ahead.dropWhile (!le a ·) = ahead := by
    cases ahead with
    | nil => exact ⟨rfl, rfl⟩
    | cons b ahead => simp [first b List.mem_cons_self]
  have taken {before after : List α} (later : ∀ b ∈ before, le a b = false)
      (first : ∀ b ∈ after, le a b = true) :
      (before ++ after).takeWhile (!le a ·) = before ∧
        (before ++ after).dropWhile (!le a ·) = after := by
    rw [List.takeWhile_append_of_pos (by simpa using later), (stops first).1, List.append_nil,
      List.dropWhile_append_of_pos (by simpa using later), (stops first).2]
    exact ⟨rfl, rfl⟩
  rw [rest] at same
  have front_eq : front = before := by
    rw [← (taken behind ahead).1, ← same, (taken later first).1]
  have back_eq : back = after := by
    rw [← (taken behind ahead).2, ← same, (taken later first).2]
  rw [whole, front_eq, back_eq]

/-- Where the items of one part all come before those of the other, each part is sorted for
itself. -/
theorem mergeSort_parts (part : α → Bool) (items : List α)
    (apart : ∀ a ∈ items, ∀ b ∈ items, part a = true → part b = false →
      le a b = true ∧ le b a = false) :
    items.mergeSort le =
      (items.filter part).mergeSort le ++ (items.filter (!part ·)).mergeSort le := by
  induction items with
  | nil => simp
  | cons a items ih =>
    have rest := ih fun b first c second =>
      apart b (List.mem_cons_of_mem _ first) c (List.mem_cons_of_mem _ second)
    have here {b : α} {which : α → Bool} (member : b ∈ (items.filter which).mergeSort le) :
        b ∈ items ∧ which b = true :=
      List.mem_filter.mp (List.mem_mergeSort.mp member)
    cases side : part a with
    | true =>
      obtain ⟨before, after, whole, same, later, first⟩ :=
        exists_mergeSort_cons trans total a (items.filter part)
      rw [List.filter_cons_of_pos side, List.filter_cons_of_neg (by simp [side]), whole,
        List.append_assoc, List.cons_append]
      refine mergeSort_cons_of_split trans total (by rw [rest, same, List.append_assoc]) later ?_
      intro b member
      rcases List.mem_append.mp member with member | member
      · exact first b member
      · obtain ⟨inside, other⟩ := here member
        exact (apart a List.mem_cons_self b (List.mem_cons_of_mem _ inside) side
          (by simpa using other)).1
    | false =>
      obtain ⟨before, after, whole, same, later, first⟩ :=
        exists_mergeSort_cons trans total a (items.filter (!part ·))
      rw [List.filter_cons_of_neg (by simp [side]), List.filter_cons_of_pos (by simp [side]), whole,
        ← List.append_assoc]
      refine mergeSort_cons_of_split trans total (by rw [rest, same, List.append_assoc]) ?_ first
      intro b member
      rcases List.mem_append.mp member with member | member
      · obtain ⟨inside, other⟩ := here member
        exact (apart b (List.mem_cons_of_mem _ inside) a List.mem_cons_self other side).2
      · exact later b member

end Sorting

/-! ### Scans from an offset on -/

section Scan

variable {matcher : Matcher} {category : Category}

/-- A matcher that does not look at the character before. -/
def Matcher.Forward (matcher : Matcher) : Prop :=
  ∀ previous other text, matcher previous text = matcher other text

theorem toMatch_shift (hit : Hit) (category : Category) (text : List Char) (start base : Nat) :
    hit.toMatch category text (base + start) = (hit.toMatch category text start).shift base := by
  simp [Hit.toMatch, Match.shift, Piece.shiftAll, Piece.shift, Nat.add_assoc]

/-- The rest of a text is scanned as a text of its own. -/
theorem scanFrom_shift (forward : matcher.Forward) (previous other : Option Char)
    (base offset skip : Nat) (text : List Char) :
    scanFrom matcher category previous (base + offset) skip text =
      (scanFrom matcher category other offset skip text).map (·.shift base) := by
  induction text generalizing previous other offset skip with
  | nil => rfl
  | cons c rest ih =>
    have further (skip : Nat) := ih (some c) (some c) (offset + 1) skip
    rw [← Nat.add_assoc] at further
    cases skip with
    | succ more => exact further more
    | zero =>
      rw [scanFrom, scanFrom, forward previous other]
      cases matcher other (c :: rest) with
      | none => exact further 0
      | some hit =>
        dsimp only
        split
        · exact further 0
        · rw [List.map_cons, further, toMatch_shift]

/-- Where no match reaches out of the first text, the second is scanned for itself. -/
theorem scanFrom_append {first rest : List Char} {previous : Option Char} {offset skip : Nat}
    (full : rest ≠ []) (within : skip ≤ first.length)
    (clear : ∀ m ∈ scanFrom matcher category previous offset skip (first ++ rest),
      m.start < offset + first.length → m.stop ≤ offset + first.length) :
    ∃ found, scanFrom matcher category previous offset skip (first ++ rest) =
        found ++ scanFrom matcher category (first.getLast?.or previous) (offset + first.length) 0 rest ∧
      ∀ m ∈ found, m.start < offset + first.length := by
  -- What is left of a match never outlasts the first text, as no match reaches out of it.
  induction first generalizing previous offset skip with
  | nil =>
    obtain rfl : skip = 0 := Nat.le_zero.mp within
    exact ⟨[], rfl, fun _ member => absurd member List.not_mem_nil⟩
  | cons c first ih =>
    have length : offset + (c :: first).length = offset + 1 + first.length := by
      rw [List.length_cons]
      omega
    rw [length] at clear ⊢
    rw [getLast_or_cons]
    have further {less : Nat} (within : less ≤ first.length)
        (clear : ∀ m ∈ scanFrom matcher category (some c) (offset + 1) less (first ++ rest),
          m.start < offset + 1 + first.length → m.stop ≤ offset + 1 + first.length) :=
      ih within clear
    cases skip with
    | succ more => exact further (Nat.le_of_succ_le_succ within) clear
    | zero =>
      rw [List.cons_append, scanFrom] at clear ⊢
      cases hits : matcher previous (c :: (first ++ rest)) with
      | none =>
        simp only [hits] at clear
        exact further (Nat.zero_le _) clear
      | some hit =>
        simp only [hits] at clear ⊢
        split
        · rename_i empty
          simp only [empty, if_true] at clear
          exact further (Nat.zero_le _) clear
        · rename_i size
          simp only [size, Bool.false_eq_true, if_false] at clear
          have fits := clear _ List.mem_cons_self (by simp only [Hit.toMatch]; omega)
          have more := List.length_pos_iff.mpr full
          have reach : hit.size - 1 ≤ first.length := by
            simp only [Match.stop, Hit.toMatch, List.length_take, List.length_cons,
              List.length_append] at fits
            omega
          obtain ⟨found, same, before⟩ :=
            further reach fun m member => clear m (List.mem_cons_of_mem _ member)
          refine ⟨_ :: found, congrArg (List.cons _) same, List.forall_mem_cons.mpr ⟨?_, before⟩⟩
          simp only [Hit.toMatch]
          omega

/-- No match of a category begins before an offset and ends behind it. -/
def Clear (text : List Char) (offset : Nat) (category : Category) : Prop :=
  ∀ m ∈ scan category text 0 [], m.start < offset → m.stop ≤ offset

/-- The matches from an offset on are those of the rest of the text. -/
theorem scan_filter_drop {text : List Char} {offset : Nat} (forward : category.matcher.Forward)
    (clear : Clear text offset category) :
    (scan category text 0 []).filter (offset ≤ ·.start) =
      (scan category (text.drop offset) 0 []).map (·.shift offset) := by
  rw [Clear, scan_eq_scanFrom] at clear
  rw [scan_eq_scanFrom, scan_eq_scanFrom]
  by_cases full : text.drop offset = []
  · rw [full, scanFrom, List.map_nil, List.filter_eq_nil_iff]
    intro m member
    have occurs := occursIn_of_mem_scanFrom member
    have before := occurs.start_lt_stop
    have within := occurs.stop_le
    have short := List.drop_eq_nil_iff.mp full
    simp only [decide_eq_true_eq]
    omega
  · have length : (text.take offset).length = offset := by
      have long := mt List.drop_eq_nil_iff.mpr full
      rw [List.length_take]
      omega
    have split := List.take_append_drop offset text
    generalize text.take offset = first at split length
    generalize text.drop offset = rest at split full
    subst split length
    obtain ⟨found, same, before⟩ := scanFrom_append full (Nat.zero_le first.length)
      (by rw [Nat.zero_add]; exact clear)
    have shifted : scanFrom category.matcher category (first.getLast?.or none) (first.length + 0) 0
        rest = _ := scanFrom_shift forward _ none first.length 0 0 rest
    rw [Nat.add_zero] at shifted
    rw [same, Nat.zero_add, shifted, List.filter_append, List.filter_eq_nil_iff.mpr,
      List.filter_eq_self.mpr, List.nil_append]
    · intro m member
      obtain ⟨n, -, rfl⟩ := List.mem_map.mp member
      simp [Match.shift]
    · intro m member
      have less := before m member
      simp only [decide_eq_true_eq]
      omega

end Scan

/-! ### Constructs behind a construct -/

/-- The categories that constructs are of. -/
def Category.ofConstructs : List Category := [.interpolation, .blockStart, .blockEnd, .comment, .tag]

theorem forward_ofConstructs : ∀ category ∈ Category.ofConstructs, category.matcher.Forward := by
  intro category known previous other text
  simp only [Category.ofConstructs, List.mem_cons, List.not_mem_nil, or_false] at known
  rcases known with rfl | rfl | rfl | rfl | rfl <;> rfl

/-- The matches that constructs are selected from. -/
def candidates (text : List Char) : List Match :=
  let found := recognize text
  found.interpolations ++ found.blockStarts ++ found.blockEnds ++ found.comments ++ found.tags

theorem constructs_eq (text : List Char) :
    constructs text = Recognition.disjoint 0 ((candidates text).mergeSort Match.outerFirst) := rfl

theorem exists_scan_of_mem_candidates {text : List Char} {m : Match} (found : m ∈ candidates text) :
    ∃ category ∈ Category.ofConstructs, m ∈ scan category text 0 [] := by
  simp only [candidates, recognize, List.mem_append, List.mem_filter] at found
  rcases found with (((found | found) | found) | found) | ⟨found, -⟩
  exacts [⟨.interpolation, by decide, found⟩, ⟨.blockStart, by decide, found⟩,
    ⟨.blockEnd, by decide, found⟩, ⟨.comment, by decide, found⟩, ⟨.tag, by decide, found⟩]

/-- No match at all crosses an offset. -/
def NothingCrosses (text : List Char) (offset : Nat) : Prop :=
  ∀ category ∈ Category.ofConstructs, Clear text offset category

theorem nothingCrosses_iff {text : List Char} {offset : Nat} :
    (Category.ofConstructs.all fun category => (scan category text 0 []).all fun m =>
      offset ≤ m.start || m.stop ≤ offset) = true ↔ NothingCrosses text offset := by
  simp only [NothingCrosses, Clear, List.all_eq_true, Bool.or_eq_true, decide_eq_true_eq,
    ← Nat.not_lt, ← imp_iff_not_or]

instance (text : List Char) (offset : Nat) : Decidable (NothingCrosses text offset) :=
  decidable_of_iff _ nothingCrosses_iff

theorem interval_shift (m : Match) (base : Nat) :
    interval (m.shift base) = (base + (interval m).1, base + (interval m).2) := by
  simp [interval, Match.stop, Match.shift, Nat.add_assoc]

section Behind

variable {text : List Char} {offset : Nat} (nothing : NothingCrosses text offset)
include nothing

/-- A tag behind the offset is known as a block tag if it is known in the rest of the text. -/
theorem known_shift (m : Match) :
    interval (m.shift offset) ∈
        (scan .blockStart text 0 [] ++ scan .blockEnd text 0 []).map interval ↔
      interval m ∈ (scan .blockStart (text.drop offset) 0 [] ++
        scan .blockEnd (text.drop offset) 0 []).map interval := by
  have rest : (scan .blockStart text 0 [] ++ scan .blockEnd text 0 []).filter (offset ≤ ·.start) =
      (scan .blockStart (text.drop offset) 0 [] ++ scan .blockEnd (text.drop offset) 0 []).map
        (·.shift offset) := by
    rw [List.filter_append, List.map_append,
      scan_filter_drop (forward_ofConstructs _ (by decide)) (nothing .blockStart (by decide)),
      scan_filter_drop (forward_ofConstructs _ (by decide)) (nothing .blockEnd (by decide))]
  generalize scan .blockStart text 0 [] ++ scan .blockEnd text 0 [] = whole at rest ⊢
  generalize scan .blockStart (text.drop offset) 0 [] ++ scan .blockEnd (text.drop offset) 0 [] =
    later at rest ⊢
  rw [interval_shift]
  constructor
  · intro member
    obtain ⟨n, inside, same⟩ := List.mem_map.mp member
    have behind : offset ≤ n.start := by
      have start : n.start = offset + _ := congrArg Prod.fst same
      omega
    have shifted : n ∈ later.map (·.shift offset) :=
      rest ▸ List.mem_filter.mpr ⟨inside, decide_eq_true behind⟩
    obtain ⟨k, there, rfl⟩ := List.mem_map.mp shifted
    rw [interval_shift, Prod.mk.injEq, Nat.add_left_cancel_iff, Nat.add_left_cancel_iff] at same
    exact List.mem_map.mpr ⟨k, there, Prod.ext same.1 same.2⟩
  · intro member
    obtain ⟨n, inside, same⟩ := List.mem_map.mp member
    have shifted : n.shift offset ∈ whole.filter (offset ≤ ·.start) :=
      rest ▸ List.mem_map_of_mem inside
    exact List.mem_map.mpr ⟨_, (List.mem_filter.mp shifted).1, by rw [interval_shift, same]⟩

theorem candidates_filter_drop :
    (candidates text).filter (offset ≤ ·.start) =
      (candidates (text.drop offset)).map (·.shift offset) := by
  have each (category : Category) (known : category ∈ Category.ofConstructs) :=
    scan_filter_drop (forward_ofConstructs category known) (nothing category known)
  simp only [candidates, recognize, List.filter_append, List.map_append]
  rw [each .interpolation (by decide), each .blockStart (by decide),
    each .blockEnd (by decide), each .comment (by decide)]
  congr 1
  rw [List.filter_comm, each .tag (by decide), List.filter_map]
  congr 1
  refine List.filter_congr fun m _ => ?_
  rw [Function.comp_apply, Bool.eq_iff_iff]
  simpa using not_congr (known_shift nothing m)

end Behind

theorem disjoint_of_reached {reached : Nat} {found : List Match}
    (behind : ∀ m ∈ found, reached ≤ m.start) :
    Recognition.disjoint reached found = Recognition.disjoint 0 found := by
  cases found with
  | nil => rfl
  | cons m rest =>
    rw [Recognition.disjoint, Recognition.disjoint, if_neg (Nat.not_lt_zero _),
      if_neg (Nat.not_lt.mpr (behind m List.mem_cons_self))]

theorem disjoint_shift (base reached : Nat) (found : List Match) :
    Recognition.disjoint (base + reached) (found.map (·.shift base)) =
      (Recognition.disjoint reached found).map (·.shift base) := by
  induction found generalizing reached with
  | nil => rfl
  | cons m rest ih =>
    have stop : (m.shift base).stop = base + m.stop := by simp [Match.stop, Match.shift, Nat.add_assoc]
    rw [List.map_cons, Recognition.disjoint, Recognition.disjoint, stop, ih, ih]
    simp only [Match.shift, Nat.add_lt_add_iff_left]
    split <;> rfl

/-- Matches that end before an offset do not matter for those that start behind it. -/
theorem disjoint_append {offset reached : Nat} {first rest : List Match} (before : reached ≤ offset)
    (ends : ∀ m ∈ first, m.stop ≤ offset) (behind : ∀ m ∈ rest, offset ≤ m.start) :
    Recognition.disjoint reached (first ++ rest) =
      Recognition.disjoint reached first ++ Recognition.disjoint 0 rest := by
  induction first generalizing reached with
  | nil => exact disjoint_of_reached fun m member => before.trans (behind m member)
  | cons m first ih =>
    have later := fun n member => ends n (List.mem_cons_of_mem _ member)
    rw [List.cons_append, Recognition.disjoint, Recognition.disjoint]
    split
    · exact ih before later
    · rw [ih (ends m List.mem_cons_self) later, List.cons_append]

/-- The constructs from an offset on that no match crosses are those of the rest of the text. -/
theorem constructs_filter_drop {text : List Char} {offset : Nat}
    (nothing : NothingCrosses text offset) :
    (constructs text).filter (offset ≤ ·.start) =
      (constructs (text.drop offset)).map (·.shift offset) := by
  -- In order the candidates before the offset come first, and none of them reaches over it: what
  -- is selected of the others does not depend on them.
  have parts := mergeSort_parts outerFirst_trans outerFirst_total
    (fun m => decide (m.start < offset)) (candidates text) (by
      intro m _ n _ early late
      simp only [decide_eq_true_eq, decide_eq_false_iff_not] at early late
      rw [← Bool.not_eq_true, outerFirst_iff, outerFirst_iff]
      omega)
  have late : ((candidates text).filter fun m => !decide (m.start < offset)) =
      (candidates (text.drop offset)).map (·.shift offset) := by
    rw [← candidates_filter_drop nothing]
    exact List.filter_congr fun m _ => by rw [Bool.eq_iff_iff]; simp
  have moved : ((candidates (text.drop offset)).map (·.shift offset)).mergeSort Match.outerFirst =
      ((candidates (text.drop offset)).mergeSort Match.outerFirst).map (·.shift offset) := by
    refine (List.map_mergeSort fun m _ n _ => ?_).symm
    rw [Bool.eq_iff_iff, outerFirst_iff, outerFirst_iff]
    simp only [Match.shift, Match.stop]
    omega
  have ends : ∀ m ∈ ((candidates text).filter fun m => decide (m.start < offset)).mergeSort
      Match.outerFirst, m.start < offset ∧ m.stop ≤ offset := by
    intro m member
    obtain ⟨found, early⟩ := List.mem_filter.mp (List.mem_mergeSort.mp member)
    obtain ⟨category, known, here⟩ := exists_scan_of_mem_candidates found
    exact ⟨of_decide_eq_true early, nothing category known m here (of_decide_eq_true early)⟩
  rw [constructs_eq, parts, late, moved]
  have behind : ∀ m ∈ ((candidates (text.drop offset)).mergeSort Match.outerFirst).map
      (·.shift offset), offset ≤ m.start := by
    intro m member
    obtain ⟨n, -, rfl⟩ := List.mem_map.mp member
    exact Nat.le_add_right offset n.start
  have selected := disjoint_shift offset 0
    ((candidates (text.drop offset)).mergeSort Match.outerFirst)
  rw [Nat.add_zero, disjoint_of_reached behind, ← constructs_eq] at selected
  rw [disjoint_append (Nat.zero_le _) (fun m member => (ends m member).2) behind, selected,
    List.filter_append, List.filter_eq_nil_iff.mpr, List.filter_eq_self.mpr, List.nil_append]
  · intro m member
    obtain ⟨n, -, rfl⟩ := List.mem_map.mp member
    exact decide_eq_true (Nat.le_add_right offset n.start)
  · intro m member
    have early := (ends m (mem_of_mem_disjoint member)).1
    simp only [decide_eq_true_eq]
    omega

theorem Ascending.le_start {reached : Nat} {found : List Match} (ascending : Ascending reached found)
    (wide : ∀ m ∈ found, m.start < m.stop) : ∀ m ∈ found, reached ≤ m.start := by
  induction found generalizing reached with
  | nil => exact fun _ member => absurd member List.not_mem_nil
  | cons first rest ih =>
    obtain ⟨here, later⟩ := ascending
    obtain ⟨size, wide⟩ := List.forall_mem_cons.mp wide
    refine List.forall_mem_cons.mpr ⟨here, fun m member => ?_⟩
    have behind := ih later wide m member
    omega

/-- Of matches that ascend, those from the end of one on are those after it. -/
theorem Ascending.filter_behind {reached : Nat} {before after : List Match} {c : Match}
    (ascending : Ascending reached (before ++ c :: after))
    (wide : ∀ m ∈ before ++ c :: after, m.start < m.stop) :
    (before ++ c :: after).filter (c.stop ≤ ·.start) = after := by
  induction before generalizing reached with
  | nil =>
    obtain ⟨size, wide⟩ := List.forall_mem_cons.mp wide
    rw [List.nil_append, List.filter_cons_of_neg (by simpa using size)]
    exact List.filter_eq_self.mpr fun m member =>
      decide_eq_true (ascending.2.le_start wide m member)
  | cons first before ih =>
    obtain ⟨size, wide⟩ := List.forall_mem_cons.mp wide
    have inside : c ∈ before ++ c :: after := by simp
    have ahead := ascending.2.le_start wide c inside
    have stops := wide c inside
    rw [List.cons_append, List.filter_cons_of_neg (by simp only [decide_eq_true_eq]; omega)]
    exact ih ascending.2 wide

/-- Where no match crosses the end of a construct, the constructs after it are those of the rest of
the text, as far behind it as in that text, with the same categories and texts. -/
theorem constructs_after {text : List Char} {before after : List Match} {c : Match}
    (split : constructs text = before ++ c :: after) (nothing : NothingCrosses text c.stop) :
    after = (constructs (text.drop c.stop)).map (·.shift c.stop) := by
  have ascending := ascending_constructs text
  have wide : ∀ m ∈ constructs text, m.start < m.stop :=
    fun m member => (occursIn_of_mem_constructs member).start_lt_stop
  rw [split] at ascending wide
  rw [← constructs_filter_drop nothing, split, ascending.filter_behind wide]

/-- A comment that hides a whole interpolation and a half-open block tag. -/
def hidingComment : Match :=
  ⟨.comment, "\x7b# \x7b\x7b x \x7d\x7d \x7b% if #\x7d".toList, 0,
    .captured [⟨" \x7b\x7b x \x7d\x7d \x7b% if ".toList, 2⟩]⟩

/-- The interpolation behind it. -/
def shownInterpolation : Match :=
  ⟨.interpolation, "\x7b\x7b a \x7d\x7d".toList, 19, .captured [⟨" a ".toList, 21⟩]⟩

theorem comment_hides_what_it_holds :
    constructs (hidingComment.text ++ shownInterpolation.text) =
        [] ++ hidingComment :: [shownInterpolation] ∧
      NothingCrosses (hidingComment.text ++ shownInterpolation.text) hidingComment.stop ∧
      [shownInterpolation] =
        (constructs shownInterpolation.text).map (·.shift hidingComment.stop) := by
  have split : constructs (hidingComment.text ++ shownInterpolation.text) =
      [] ++ hidingComment :: [shownInterpolation] := by cbv
  have nothing : NothingCrosses (hidingComment.text ++ shownInterpolation.text)
      hidingComment.stop := nothingCrosses_iff.mp (by cbv)
  exact ⟨split, nothing, constructs_after split nothing⟩

/-- Not every comment does: an interpolation that is half open in one takes the interpolation behind
it along, and neither is a construct. -/
theorem comment_takes_next_interpolation :
    ¬ ∀ text before c after, constructs text = before ++ c :: after →
      after = (constructs (text.drop c.stop)).map (·.shift c.stop) := by
  intro law
  have lost := law "\x7b# \x7b\x7b #\x7d\x7b\x7b x \x7d\x7d".toList []
    ⟨.comment, "\x7b# \x7b\x7b #\x7d".toList, 0, .captured [⟨" \x7b\x7b ".toList, 2⟩]⟩ [] (by cbv)
  have kept : (constructs "\x7b\x7b x \x7d\x7d".toList).length = 1 := by cbv
  have none := congrArg List.length lost
  rw [List.length_map, List.length_nil] at none
  exact absurd (none.trans kept) (by decide)

end Stencil.Markup
