import Mathlib
import Stencil.Proofs.Characters
import Stencil.Proofs.Joining

/-! Markers in a format. Each marker is a run of a letter of its own and stands for a field of
digits, so putting in the field of one neither makes nor breaks a marker of another. Markers that
are replaced one after the other, in whatever order, are therefore replaced all at once. -/
namespace Stencil

namespace Text

/-- A mark and the field that it stands for. -/
abbrev Marker := List Char × List Char

/-! ### Replacing at once -/

section Replacing

variable {markers : List Marker} {m : Marker} {text rest : List Char}

/-- The marker that a text begins with. -/
def markerAt? (markers : List Marker) (text : List Char) : Option Marker :=
  markers.find? fun m => m.1.isPrefixOf text

/-- The next `skip` characters belong to the marker before. -/
def replaceFrom (markers : List Marker) (skip : Nat) : List Char → List Char
  | [] => []
  | c :: rest =>
    match skip with
    | more + 1 => replaceFrom markers more rest
    | 0 =>
      match markerAt? markers (c :: rest) with
      | some m => m.2 ++ replaceFrom markers (m.1.length - 1) rest
      | none => c :: replaceFrom markers 0 rest

/-- One pass from left to right that puts in the field of every marker it meets. -/
def replace (markers : List Marker) (text : List Char) : List Char := replaceFrom markers 0 text

theorem replaceFrom_skip (markers : List Marker) (skip : Nat) (text : List Char) :
    replaceFrom markers skip text = replace markers (text.drop skip) := by
  induction text generalizing skip with
  | nil => cases skip <;> rfl
  | cons c rest ih =>
    cases skip with
    | zero => rfl
    | succ more => exact ih more

theorem replace_marked (marked : m.1 ≠ []) (found : markerAt? markers (m.1 ++ rest) = some m) :
    replace markers (m.1 ++ rest) = m.2 ++ replace markers rest := by
  obtain ⟨mark, field⟩ := m
  obtain ⟨first, others, rfl⟩ := List.exists_cons_of_ne_nil marked
  rw [List.cons_append] at found ⊢
  rw [replace, replaceFrom, found]
  change field ++ replaceFrom markers others.length (others ++ rest) = _
  rw [replaceFrom_skip, List.drop_left]

theorem replace_unmarked {c : Char} (found : markerAt? markers (c :: rest) = none) :
    replace markers (c :: rest) = c :: replace markers rest := by
  rw [replace, replaceFrom, found]
  rfl

theorem mem_of_markerAt? (found : markerAt? markers text = some m) : m ∈ markers ∧ m.1 <+: text := by
  have leads := List.find?_some found
  exact ⟨List.mem_of_find?_eq_some found, List.isPrefixOf_iff_prefix.mp leads⟩

theorem markerAt?_singleton (m : Marker) (text : List Char) :
    markerAt? [m] text = if m.1 <+: text then some m else none := by
  by_cases leads : m.1 <+: text <;> simp [markerAt?, List.isPrefixOf_iff_prefix, leads]

/-- The occurrences of a single mark are those between which a text is cut. -/
theorem glueTogether_piecesFrom (m : Marker) (skip : Nat) (piece text : List Char) :
    glueTogether m.2 (piecesFrom m.1 skip piece text) =
      piece.reverse ++ replaceFrom [m] skip text := by
  induction text generalizing skip piece with
  | nil => simp [piecesFrom, replaceFrom, glueTogether]
  | cons c rest ih =>
    cases skip with
    | succ more => exact ih more piece
    | zero =>
      rw [piecesFrom, replaceFrom, markerAt?_singleton]
      by_cases leads : m.1 <+: c :: rest
      · have glued : ∀ pieces, pieces ≠ [] → glueTogether m.2 (piece.reverse :: pieces) =
            piece.reverse ++ m.2 ++ glueTogether m.2 pieces := by
          intro pieces nonempty
          rw [glueTogether]
          exact nonempty
        rw [if_pos (List.isPrefixOf_iff_prefix.mpr leads), if_pos leads, glued, ih]
        · simp
        · exact piecesFrom_ne_nil
      · rw [if_neg (by rwa [List.isPrefixOf_iff_prefix]), if_neg leads, ih]
        simp

theorem substitute_eq_replace (m : Marker) (text : List Char) :
    substitute m.1 m.2 text = replace [m] text :=
  glueTogether_piecesFrom m 0 [] text

theorem length_replace (same : ∀ m ∈ markers, m.2.length = m.1.length)
    (marked : ∀ m ∈ markers, m.1 ≠ []) (text : List Char) :
    (replace markers text).length = text.length := by
  induction length : text.length using Nat.strong_induction_on generalizing text with
  | _ size ih =>
    subst length
    cases text with
    | nil => rfl
    | cons c rest =>
      cases found : markerAt? markers (c :: rest) with
      | none =>
        rw [replace_unmarked found, List.length_cons, List.length_cons, ih rest.length (by simp) rest rfl]
      | some m =>
        obtain ⟨member, after, shape⟩ := mem_of_markerAt? found
        have shorter : 0 < m.1.length := List.length_pos_iff.mpr (marked m member)
        rw [← shape] at found ⊢
        have size := congrArg List.length shape
        rw [List.length_append] at size
        rw [replace_marked (marked m member) found, List.length_append, List.length_append,
          same m member, ih after.length (by omega) after rfl]

end Replacing

/-! ### Markers that keep apart -/

/-- A marker is a run of a letter that no other marker has and that stands in no field. -/
structure Apart (markers : List Marker) : Prop where
  run : ∀ m ∈ markers, ∃ letter size, m.1 = List.replicate (size + 1) letter
  own : ∀ m ∈ markers, ∀ k ∈ markers, ∀ letter ∈ m.1, letter ∈ k.1 → m = k
  clear : ∀ m ∈ markers, ∀ k ∈ markers, ∀ letter ∈ m.1, letter ∉ k.2
  full : ∀ m ∈ markers, m.2 ≠ []

section Apart

variable {markers order : List Marker} {m k : Marker} {text rest : List Char}

theorem Apart.of_subset (apart : Apart markers) (fewer : order ⊆ markers) : Apart order where
  run m member := apart.run m (fewer member)
  own m member k other := apart.own m (fewer member) k (fewer other)
  clear m member k other := apart.clear m (fewer member) k (fewer other)
  full m member := apart.full m (fewer member)

theorem Apart.marked (apart : Apart markers) (member : m ∈ markers) : m.1 ≠ [] := by
  obtain ⟨letter, size, run⟩ := apart.run m member
  simp [run]

/-- At most one marker stands at a place. -/
theorem Apart.markerAt?_eq_some (apart : Apart markers) :
    markerAt? markers text = some m ↔ m ∈ markers ∧ m.1 <+: text := by
  refine ⟨mem_of_markerAt?, ?_⟩
  rintro ⟨member, leads⟩
  have some : (markerAt? markers text).isSome :=
    List.find?_isSome.mpr ⟨m, member, List.isPrefixOf_iff_prefix.mpr leads⟩
  obtain ⟨k, found⟩ := Option.isSome_iff_exists.mp some
  obtain ⟨other, leads'⟩ := mem_of_markerAt? found
  -- Both begin with the first letter of the text.
  obtain ⟨letter, size, run⟩ := apart.run m member
  obtain ⟨letter', size', run'⟩ := apart.run k other
  rw [run, List.replicate_succ] at leads
  rw [run', List.replicate_succ] at leads'
  obtain ⟨tail, rfl⟩ := leads
  obtain ⟨tail', same⟩ := leads'
  obtain ⟨rfl, -⟩ := List.cons.inj same
  rw [found, apart.own m member k other letter' (by simp [run]) (by simp [run'])]

theorem markerAt?_eq_none : markerAt? markers text = none ↔ ∀ m ∈ markers, ¬ m.1 <+: text := by
  simp [markerAt?, List.isPrefixOf_iff_prefix]

/-- The order in which markers are listed does not matter. -/
theorem Apart.replace_eq_of_perm (apart : Apart markers) (same : order.Perm markers)
    (text : List Char) : replace order text = replace markers text := by
  have apart' : Apart order := apart.of_subset same.subset
  have found : markerAt? order = markerAt? markers := by
    funext text
    apply Option.ext
    intro m
    rw [apart'.markerAt?_eq_some, apart.markerAt?_eq_some, same.mem_iff]
  have each (skip : Nat) : replaceFrom order skip text = replaceFrom markers skip text := by
    induction text generalizing skip with
    | nil => rfl
    | cons c rest ih =>
      cases skip with
      | succ more => exact ih more
      | zero =>
        rw [replaceFrom, replaceFrom, found]
        cases markerAt? markers (c :: rest) with
        | none => exact congrArg (c :: ·) (ih 0)
        | some m => exact congrArg (m.2 ++ ·) (ih _)
  exact each 0

/-- A text without a letter of a marker stays as it is. -/
theorem replace_append_of_clear {field : List Char}
    (clear : ∀ k ∈ markers, ∀ letter ∈ k.1, letter ∉ field) (marked : ∀ k ∈ markers, k.1 ≠ [])
    (rest : List Char) : replace markers (field ++ rest) = field ++ replace markers rest := by
  induction field with
  | nil => rfl
  | cons c field ih =>
    have none : markerAt? markers (c :: (field ++ rest)) = none := by
      refine List.find?_eq_none.mpr fun k member => ?_
      rw [List.isPrefixOf_iff_prefix]
      obtain ⟨first, others, shape⟩ := List.exists_cons_of_ne_nil (marked k member)
      rw [shape, List.cons_prefix_cons]
      rintro ⟨rfl, -⟩
      exact clear k member first (by simp [shape]) List.mem_cons_self
    rw [List.cons_append, replace_unmarked none, ih, List.cons_append]
    intro k member letter inside within
    exact clear k member letter inside (List.mem_cons_of_mem c within)

/-- Replacing a marker makes no run of a letter that stands neither in it nor in its field. -/
theorem run_of_replace {letter : Char} {size : Nat} (foreign : letter ∉ m.2) (full : m.2 ≠ [])
    (marked : m.1 ≠ []) (leads : List.replicate size letter <+: replace [m] text) :
    List.replicate size letter <+: text := by
  induction size generalizing text with
  | zero => exact List.nil_prefix
  | succ size ih =>
    rw [List.replicate_succ] at leads ⊢
    cases text with
    | nil => exact absurd (List.prefix_nil.mp leads) (List.cons_ne_nil _ _)
    | cons c rest =>
      by_cases begins : m.1 <+: c :: rest
      · obtain ⟨after, shape⟩ := begins
        have found : markerAt? [m] (m.1 ++ after) = some m := by simp [markerAt?_singleton]
        obtain ⟨first, others, field⟩ := List.exists_cons_of_ne_nil full
        rw [← shape, replace_marked marked found, field, List.cons_append,
          List.cons_prefix_cons] at leads
        exact absurd (by simp [field, leads.1]) foreign
      · have found : markerAt? [m] (c :: rest) = none := by rw [markerAt?_singleton, if_neg begins]
        rw [replace_unmarked found, List.cons_prefix_cons] at leads
        exact List.cons_prefix_cons.mpr ⟨leads.1, ih leads.2⟩

/-- To replace one marker first and the others at once afterwards is to replace all at once. -/
theorem Apart.replace_replace (apart : Apart (m :: markers)) (fresh : m ∉ markers)
    (text : List Char) :
    replace markers (replace [m] text) = replace (m :: markers) text := by
  have here : m ∈ m :: markers := List.mem_cons_self
  have later : ∀ k ∈ markers, k ∈ m :: markers := fun _ => List.mem_cons_of_mem m
  have others : Apart markers := apart.of_subset later
  have marked : ∀ k ∈ markers, k.1 ≠ [] := fun k member => others.marked member
  have foreign : ∀ k ∈ markers, ∀ letter ∈ k.1, letter ∉ m.1 := by
    intro k member letter inside within
    exact fresh (apart.own k (later k member) m here letter inside within ▸ member)
  -- By length: a marker is passed over at once. Either `m` begins here, or another marker, whose
  -- letters are not in `m`, or none, and then none begins here after the replacement either.
  induction length : text.length using Nat.strong_induction_on generalizing text with
  | _ size ih =>
    subst length
    have shorter {k : Marker} {rest : List Char} (full : k.1 ≠ []) :
        rest.length < (k.1 ++ rest).length := by
      have := List.length_pos_iff.mpr full
      rw [List.length_append]
      omega
    cases found : markerAt? (m :: markers) text with
    | some k =>
      obtain ⟨member, rest, rfl⟩ := apart.markerAt?_eq_some.mp found
      have smaller := ih rest.length (shorter (apart.marked member)) rest rfl
      rw [replace_marked (apart.marked member) found]
      rcases List.mem_cons.mp member with rfl | member
      · have alone : markerAt? [k] (k.1 ++ rest) = some k := by simp [markerAt?_singleton]
        rw [replace_marked (apart.marked here) alone, replace_append_of_clear ?_ marked, smaller]
        intro other inside letter
        exact apart.clear other (later other inside) k here letter
      · have passed : replace [m] (k.1 ++ rest) = k.1 ++ replace [m] rest := by
          refine replace_append_of_clear ?_ ?_ rest
          · rw [List.forall_mem_singleton]
            exact fun letter inside within => foreign k member letter within inside
          · rw [List.forall_mem_singleton]
            exact apart.marked here
        have kept : markerAt? markers (k.1 ++ replace [m] rest) = some k :=
          others.markerAt?_eq_some.mpr ⟨member, List.prefix_append _ _⟩
        rw [passed, replace_marked (marked k member) kept, smaller]
    | none =>
      have none := markerAt?_eq_none.mp found
      cases text with
      | nil => rfl
      | cons c rest =>
        have alone : markerAt? [m] (c :: rest) = Option.none := by
          rw [markerAt?_singleton, if_neg (none m here)]
        have after : markerAt? markers (c :: replace [m] rest) = Option.none := by
          refine markerAt?_eq_none.mpr fun k member leads => none k (later k member) ?_
          obtain ⟨letter, size, run⟩ := others.run k member
          rw [← replace_unmarked alone, run] at leads
          rw [run]
          refine run_of_replace ?_ (apart.full m here) (apart.marked here) leads
          exact apart.clear k (later k member) m here letter (by simp [run])
        rw [replace_unmarked alone, replace_unmarked after, replace_unmarked found,
          ih rest.length (by simp) rest rfl]

/-- Markers that are replaced one after the other are replaced at once. -/
theorem Apart.foldl_substitute (apart : Apart markers) (distinct : markers.Nodup)
    (text : List Char) :
    markers.foldl (fun text m => substitute m.1 m.2 text) text = replace markers text := by
  induction markers generalizing text with
  | nil =>
    have same : text = replace [] (text ++ []) := by
      rw [replace_append_of_clear (by simp) (by simp)]
      simp [replace, replaceFrom]
    rwa [List.append_nil] at same
  | cons m markers ih =>
    obtain ⟨fresh, distinct⟩ := List.nodup_cons.mp distinct
    rw [List.foldl_cons, ih (apart.of_subset (List.subset_cons_self m markers)) distinct,
      substitute_eq_replace, apart.replace_replace fresh]

end Apart

end Text

/-! ### Dates -/

namespace Calendar

variable {width n : Nat}

theorem not_mem_padded {c : Char} (letter : Text.isDigit c = false) : c ∉ padded width n := by
  have zero : c ≠ '0' := by
    rintro rfl
    exact absurd letter (by decide)
  simp [padded, List.mem_replicate, zero, Text.not_mem_toDigits letter]

theorem length_padded (pos : 0 < width) (short : n < 10 ^ width) :
    (padded width n).length = width := by
  have digits := (Nat.length_toDigits_le_iff (by decide) pos).mpr short
  simp [padded, digits]

theorem padded_ne_nil : padded width n ≠ [] := by simp [padded, Nat.toDigits_ne_nil]

/-- The fields of a proper moment have at most as many digits as their markers have letters. -/
theorem bounds_of_valid {t : DateTime} (proper : valid t = true) :
    t.date.year < 10 ^ 4 ∧ t.date.month < 10 ^ 2 ∧ t.date.day < 10 ^ 2 ∧ t.hour < 10 ^ 2 ∧
      t.minute < 10 ^ 2 ∧ t.second < 10 ^ 2 := by
  simp only [valid, validDate, Bool.and_eq_true, decide_eq_true_eq, Option.any_eq_true] at proper
  obtain ⟨⟨⟨⟨⟨⟨⟨-, year⟩, -⟩, -⟩, days, listed, least⟩, hour⟩, minute⟩, second⟩ := proper
  obtain ⟨inside, size⟩ := List.getElem?_eq_some_iff.mp listed
  have month : t.date.month - 1 < 12 := inside
  have long : ∀ days ∈ monthLengths t.date.year, days ≤ 31 := by
    cases leap : isLeap t.date.year <;> simp [monthLengths, leap]
  have day := long days (size ▸ List.getElem_mem inside)
  rw [lastYear] at year
  omega

end Calendar

namespace Filters
open Text Calendar Value

theorem apart_dateMarkers (t : DateTime) : Apart (dateMarkers t) := by
  have runs : ∀ m ∈ dateMarkers t, ∃ letter size, m.1 = List.replicate (size + 1) letter ∧
      isDigit letter = false ∧ ∃ width n, m.2 = padded width n := by
    simp only [dateMarkers, List.forall_mem_cons]
    refine ⟨⟨'Y', 3, ?_⟩, ⟨'M', 1, ?_⟩, ⟨'D', 1, ?_⟩, ⟨'H', 1, ?_⟩, ⟨'m', 1, ?_⟩, ⟨'s', 1, ?_⟩, by simp⟩ <;>
      exact ⟨rfl, by decide, _, _, rfl⟩
  refine ⟨?_, ?_, ?_, ?_⟩
  · intro m member
    obtain ⟨letter, size, run, -⟩ := runs m member
    exact ⟨letter, size, run⟩
  · simp [dateMarkers]
  · intro m member k other c inside within
    obtain ⟨letter, size, run, apart, -⟩ := runs m member
    obtain ⟨-, -, -, -, width, n, field⟩ := runs k other
    rw [run] at inside
    rw [List.eq_of_mem_replicate inside, field] at within
    exact not_mem_padded apart within
  · intro m member
    obtain ⟨-, -, -, -, width, n, field⟩ := runs m member
    exact field ▸ padded_ne_nil

theorem length_dateMarkers {t : DateTime} (proper : valid t = true) :
    ∀ m ∈ dateMarkers t, m.2.length = m.1.length := by
  obtain ⟨year, month, day, hour, minute, second⟩ := bounds_of_valid proper
  simp only [dateMarkers, List.forall_mem_cons]
  exact ⟨length_padded (by decide) year, length_padded (by decide) month,
    length_padded (by decide) day, length_padded (by decide) hour,
    length_padded (by decide) minute, length_padded (by decide) second, by simp⟩

/-- A moment is written into a format in one pass that puts a field of the same length in the place
of each marker, and replacing the markers one after the other comes to the same in every order. -/
theorem date_is_written_at_once {value format : Value} {t : DateTime} {shown : String}
    (stands : moment? value = some t) (proper : valid t = true) (shows : format.toText = .ok shown) :
    ∃ written, formatted value format = .ok (ofChars written) ∧
      written.length = shown.toList.length ∧
      written = replace (dateMarkers t) shown.toList ∧
      ∀ order : List Marker, order.Perm (dateMarkers t) →
        order.foldl (fun text m => substitute m.1 m.2 text) shown.toList = written := by
  have apart := apart_dateMarkers t
  have distinct : (dateMarkers t).Nodup := by simp [dateMarkers]
  have once (order : List Marker) (same : order.Perm (dateMarkers t)) :
      order.foldl (fun text m => substitute m.1 m.2 text) shown.toList =
        replace (dateMarkers t) shown.toList := by
    rw [(apart.of_subset same.subset).foldl_substitute (same.nodup_iff.mpr distinct),
      apart.replace_eq_of_perm same]
  refine ⟨_, ?_, length_replace (length_dateMarkers proper) (fun m => apart.marked) _, rfl, once⟩
  rw [← once _ (List.Perm.refl _), formatted, stands]
  change onText (formatDate t) format = _
  rw [onText, shows]
  rfl

/-- Letters that are left over from a marker stay. -/
theorem date_is_written_at_once_around_leftovers :
    let t : DateTime := ⟨⟨2024, 2, 29⟩, 23, 5, 9, 0⟩
    let format := "YYYYYMM-MMmmsDDss"
    (moment? (.datetime t) = some t ∧ valid t = true ∧ toText (.text format) = .ok format) ∧
      formatted (.datetime t) (.text format) = .ok (.text "2024Y02-0205s2909") ∧
      (dateMarkers t).reverse.foldl (fun text m => substitute m.1 m.2 text) format.toList =
        "2024Y02-0205s2909".toList := by
  intro t format
  have stands : moment? (.datetime t) = some t := rfl
  have proper : valid t = true := by decide
  have shows : toText (.text format) = .ok format := rfl
  obtain ⟨written, gives, -, once, same⟩ := date_is_written_at_once stands proper shows
  have text : replace (dateMarkers t) format.toList = "2024Y02-0205s2909".toList := by cbv
  rw [text] at once
  subst once
  exact ⟨⟨rfl, proper, rfl⟩, gives, same _ (List.reverse_perm _)⟩

end Filters
end Stencil
