import Mathlib
import Stencil.Operator
import Stencil.Proofs.Dictionaries
import Stencil.Proofs.Faults

/-! Comparisons of values. Two values that are in order, texts or numbers, have one place relative to
each other, and all operators read it: so they agree with each other. Equality of other values does not
depend on the side they stand on, as no dictionary has a key twice. -/
namespace Stencil

/-! ### Numbers -/

namespace Number

variable {a b : Number} {order : Ordering}

theorem Rank.compare_swap (x y : Rank) : (x.compare y).swap = y.compare x := by
  rw [Rank.compare, Rank.compare, Ordering.swap_then, Std.OrientedOrd.eq_swap (a := y.tier),
    Std.OrientedOrd.eq_swap (a := y.units)]

theorem compare?_swap (a b : Number) : compare? b a = (compare? a b).map Ordering.swap := by
  unfold compare?
  cases a.rank? <;> cases b.rank? <;> simp [Rank.compare_swap]

theorem eq_comm (a b : Number) : a.eq b = b.eq a := by
  rw [eq, eq, compare?_swap a b]
  cases a.compare? b with
  | none => rfl
  | some order => cases order <;> rfl

/-- A double that is no number. -/
def IsNan (a : Number) : Prop := ∃ source, a = real (.nan source)

theorem rank?_eq_none_iff : a.rank? = none ↔ a.IsNan := by
  cases a with
  | int n => exact iff_of_false (Option.some_ne_none _) fun ⟨_, same⟩ => nomatch same
  | real x => cases x <;> simp [rank?, IsNan]

theorem compare?_isSome_iff : (compare? a b).isSome = true ↔ ¬ a.IsNan ∧ ¬ b.IsNan := by
  rw [← rank?_eq_none_iff, ← rank?_eq_none_iff, compare?]
  cases a.rank? <;> cases b.rank? <;> simp

end Number

/-! ### Equality -/

namespace Value

variable {a b : Value}

mutual
/-- No dictionary in a value has a key twice. -/
def KeyedOnce : Value → Prop
  | list items => AllKeyedOnce items
  | dict entries => (Dict.keys entries).Nodup ∧ EntriesKeyedOnce entries
  | _ => True
termination_by structural v => v
def AllKeyedOnce : List Value → Prop
  | [] => True
  | item :: rest => item.KeyedOnce ∧ AllKeyedOnce rest
termination_by structural items => items
def EntriesKeyedOnce : List (String × Value) → Prop
  | [] => True
  | (_, item) :: rest => item.KeyedOnce ∧ EntriesKeyedOnce rest
termination_by structural entries => entries
end

theorem EntriesKeyedOnce.of_mem {entries : List (String × Value)} (once : EntriesKeyedOnce entries)
    {key : String} {item : Value} (member : (key, item) ∈ entries) : item.KeyedOnce := by
  induction entries with
  | nil => contradiction
  | cons first rest ih =>
    obtain ⟨k, v⟩ := first
    rcases List.mem_cons.mp member with same | later
    · cases same
      exact once.1
    · exact ih once.2 later

theorem sameEntries_iff {entries others : List (String × Value)} :
    sameEntries entries others = true ↔
      ∀ key item, (key, item) ∈ entries →
        ∃ other, Dict.get? others key = some other ∧ same item other = true := by
  induction entries with
  | nil => simp [sameEntries]
  | cons first rest ih =>
    obtain ⟨k, v⟩ := first
    have found : others.lookup k = Dict.get? others k := rfl
    rw [sameEntries, Bool.and_eq_true, ih, found]
    constructor
    · rintro ⟨here, later⟩ key item member
      rcases List.mem_cons.mp member with same | member
      · cases same
        cases there : Dict.get? others k with
        | none => simp [there] at here
        | some other => exact ⟨other, rfl, by simpa [there] using here⟩
      · exact later key item member
    · intro each
      obtain ⟨other, there, same⟩ := each k v List.mem_cons_self
      refine ⟨by simpa [there] using same, fun key item member => ?_⟩
      exact each key item (List.mem_cons_of_mem _ member)

/-- In dictionaries of as many keys the same items stand under the same keys, from whichever of them
they are looked up in the other. -/
theorem sameEntries_flip {entries others : List (String × Value)}
    (size : entries.length = others.length) (once : (Dict.keys entries).Nodup)
    (once' : (Dict.keys others).Nodup)
    (flips : ∀ key item, (key, item) ∈ entries → ∀ other, (key, other) ∈ others →
      same item other = same other item)
    (same : sameEntries entries others = true) : sameEntries others entries = true := by
  rw [sameEntries_iff] at same ⊢
  have fewer : Dict.keys entries ⊆ Dict.keys others := by
    intro key member
    obtain ⟨⟨_, item⟩, inside, rfl⟩ := List.mem_map.mp member
    obtain ⟨other, there, -⟩ := same _ item inside
    exact Dict.mem_keys_iff.mpr (by rw [there]; rfl)
  have keys : (Dict.keys entries).Perm (Dict.keys others) := by
    refine (once.subperm fewer).perm_of_length_le ?_
    simp [Dict.keys, size]
  intro key other member
  have here : key ∈ Dict.keys entries := keys.mem_iff.mpr (List.mem_map_of_mem member)
  obtain ⟨⟨_, item⟩, inside, rfl⟩ := List.mem_map.mp here
  obtain ⟨found, there, alike⟩ := same _ item inside
  rw [Dict.get?_eq_some_of_mem once' member] at there
  cases there
  refine ⟨item, Dict.get?_eq_some_of_mem once inside, ?_⟩
  rw [← flips _ item inside other member]
  exact alike

theorem isSameNan_comm (x y : Double) : x.isSameNan y = y.isSameNan x := by
  cases x <;> cases y <;> try rfl
  rw [Bool.eq_iff_iff]
  simp only [Double.isSameNan, Bool.and_eq_true, beq_iff_eq, bne_iff_ne]
  constructor <;> exact fun ⟨same, known⟩ => ⟨same.symm, same ▸ known⟩

mutual
/-- Equality does not depend on the side. -/
theorem same_comm : (a : Value) → a.KeyedOnce → (b : Value) → b.KeyedOnce → same a b = same b a
  | undefined, _, b, _ => by cases b <;> rfl
  | null, _, b, _ => by cases b <;> rfl
  | bool _, _, b, _ => by cases b <;> simp [same, numeric?, isSameNan, asText?, Number.eq_comm]
  | int _, _, b, _ => by cases b <;> simp [same, numeric?, isSameNan, asText?, Number.eq_comm]
  | float _, _, b, _ => by
    cases b <;> simp [same, numeric?, isSameNan, asText?, Number.eq_comm, isSameNan_comm]
  | text _, _, b, _ => by cases b <;> simp [same, numeric?, isSameNan, asText?, eq_comm]
  | safe _, _, b, _ => by cases b <;> simp [same, numeric?, isSameNan, asText?, eq_comm]
  | list items, once, b, once' => by
    cases b with
    | list others => exact sameItems_comm items once others once'
    | _ => rfl
  | dict entries, once, b, once' => by
    cases b with
    | dict others =>
      obtain ⟨keys, each⟩ := once
      obtain ⟨keys', each'⟩ := once'
      have flips := entries_comm entries each
      rw [same, same, Bool.eq_iff_iff]
      simp only [Bool.and_eq_true, beq_iff_eq]
      constructor
      · rintro ⟨size, alike⟩
        refine ⟨size.symm, sameEntries_flip size keys keys' ?_ alike⟩
        exact fun key item member other there => flips key item member other (each'.of_mem there)
      · rintro ⟨size, alike⟩
        refine ⟨size.symm, sameEntries_flip size keys' keys ?_ alike⟩
        exact fun key other there item member => (flips key item member other (each'.of_mem there)).symm
    | _ => rfl
  | date _, _, b, _ => by cases b <;> simp [same, numeric?, isSameNan, asText?, Bool.beq_comm]
  | datetime _, _, b, _ => by cases b <;> simp [same, numeric?, isSameNan, asText?, Bool.beq_comm]
  | duration _, _, b, _ => by cases b <;> simp [same, numeric?, isSameNan, asText?, Bool.beq_comm]
  | method _, _, b, _ => by cases b <;> simp [same, numeric?, isSameNan, asText?, Bool.beq_comm]
theorem sameItems_comm : (items : List Value) → AllKeyedOnce items →
    (others : List Value) → AllKeyedOnce others → sameItems items others = sameItems others items
  | [], _, others, _ => by cases others <;> rfl
  | item :: rest, once, others, once' => by
    cases others with
    | nil => rfl
    | cons other more =>
      rw [sameItems, sameItems, same_comm item once.1 other once'.1,
        sameItems_comm rest once.2 more once'.2]
theorem entries_comm : (entries : List (String × Value)) → EntriesKeyedOnce entries →
    ∀ key item, (key, item) ∈ entries → ∀ other, other.KeyedOnce → same item other = same other item
  | [], _, _, _, member => nomatch member
  | (_, first) :: rest, once, key, item, member => by
    intro other once'
    rcases List.mem_cons.mp member with equal | later
    · cases equal
      exact same_comm first once.1 other once'
    · exact entries_comm rest once.2 key item later other once'
end

end Value
/-! ### Places relative to each other -/

namespace Operator
open Value

variable {a b : Value} {order : Ordering}

/-- The place of the first of two texts or numbers relative to the second: texts are ordered by code
points, numbers by what they stand for. -/
def Comparable.order? : Comparable → Option Ordering
  | texts left right => some (cmp left right)
  | numbers left right => left.compare? right

/-- The place of a text tells how it compares. -/
theorem cmp_texts (s t : List Char) :
    (cmp s t = .lt ↔ s < t) ∧ (cmp s t = .eq ↔ s = t) ∧ (cmp s t = .gt ↔ t < s) := by
  unfold cmp cmpUsing
  rcases lt_trichotomy s t with before | same | behind
  · simp [before, before.ne, before.not_gt]
  · simp [same]
  · simp [behind, behind.ne', behind.not_gt]

/-- The place of a value relative to another. -/
def order? (a b : Value) : Option Ordering := (comparable? a b).bind Comparable.order?

theorem texts_or_mixed (a b : Value) :
    (∃ s t, a.asText? = some s ∧ b.asText? = some t) ∨ a.asText? = none ∨ b.asText? = none := by
  cases a.asText? <;> cases b.asText? <;> simp

section Texts

variable {s t : String} (left : a.asText? = some s) (right : b.asText? = some t)
include left right

theorem order?_of_texts : order? a b = some (cmp s.toList t.toList) := by
  rw [order?, comparable?, left, right]
  rfl

theorem looseEqual_of_texts : looseEqual a b = (s == t) := by
  have present : a.isMissing = false ∧ b.isMissing = false := by
    cases a <;> cases b <;> simp_all [asText?, isMissing]
  rw [looseEqual, present.1, present.2, left, right]
  rfl

end Texts

section Mixed

variable (mixed : a.asText? = none ∨ b.asText? = none)
include mixed

/-- Values of which one is no text are placed as numbers, unless one is missing. -/
theorem order?_of_mixed :
    order? a b = if a.isMissing || b.isMissing then none
      else a.toNumber.bind fun x => b.toNumber.bind x.compare? := by
  have numbers : comparable? a b = if a.isMissing || b.isMissing then none
      else a.toNumber.bind fun x => b.toNumber.map (.numbers x) := by
    unfold comparable?
    split
    · simp_all
    · cases a.toNumber <;> cases b.toNumber <;> rfl
  rw [order?, numbers]
  split
  · rfl
  · cases a.toNumber <;> cases b.toNumber <;> rfl

theorem looseEqual_of_mixed :
    looseEqual a b = if a.isMissing || b.isMissing then a.isMissing && b.isMissing
      else if a.numeric?.isSome || b.numeric?.isSome then
        ((a.toNumber.bind fun x => b.toNumber.map x.eq).getD (a.same b))
      else a.same b := by
  unfold looseEqual
  split
  · rfl
  · split
    · simp_all
    · cases a.toNumber <;> cases b.toNumber <;> rfl

end Mixed

theorem order?_swap (a b : Value) : order? b a = (order? a b).map Ordering.swap := by
  rcases texts_or_mixed a b with ⟨s, t, left, right⟩ | mixed
  · rw [order?_of_texts left right, order?_of_texts right left, Option.map_some, cmp_swap]
  · rw [order?_of_mixed mixed, order?_of_mixed mixed.symm, Bool.or_comm]
    split
    · rfl
    · cases a.toNumber with
      | none => cases b.toNumber <;> rfl
      | some x =>
        cases b.toNumber with
        | none => rfl
        | some y => exact Number.compare?_swap x y

/-- Two values are in order: texts, or numbers, none of them missing or a double that is none. -/
def InOrder (a b : Value) : Prop :=
  (a.asText?.isSome = true ∧ b.asText?.isSome = true) ∨
  (a.isMissing = false ∧ b.isMissing = false ∧ ∃ x y,
    a.toNumber = some x ∧ b.toNumber = some y ∧ ¬ x.IsNan ∧ ¬ y.IsNan)

theorem order?_isSome_iff : (order? a b).isSome = true ↔ InOrder a b := by
  rcases texts_or_mixed a b with ⟨s, t, left, right⟩ | mixed
  · simp [order?_of_texts left right, InOrder, left, right]
  · have apart : ¬ (a.asText?.isSome = true ∧ b.asText?.isSome = true) := by
      rcases mixed with none | none <;> simp [none]
    rw [order?_of_mixed mixed, InOrder, or_iff_right apart]
    cases a.isMissing <;> cases b.isMissing <;> cases a.toNumber <;> cases b.toNumber <;>
      simp [Number.compare?_isSome_iff]

/-- What stands for a number and is neither missing nor a text is a number or a truth value. -/
theorem numeric?_isSome {x : Number} (stands : a.toNumber = some x) (present : a.isMissing = false)
    (plain : a.asText? = none) : a.numeric?.isSome = true := by
  cases a <;> simp_all [toNumber, isMissing, asText?, numeric?]

/-- Values that are in order are equal if neither comes before the other. -/
theorem looseEqual_of_order (placed : order? a b = some order) : looseEqual a b = (order == .eq) := by
  rcases texts_or_mixed a b with ⟨s, t, left, right⟩ | mixed
  · rw [order?_of_texts left right] at placed
    obtain rfl := Option.some.inj placed
    rw [looseEqual_of_texts left right, Bool.eq_iff_iff, beq_iff_eq, beq_iff_eq, (cmp_texts _ _).2.1,
      String.toList_inj]
  · rw [order?_of_mixed mixed] at placed
    rw [looseEqual_of_mixed mixed]
    split at placed
    · contradiction
    · rename_i present
      obtain ⟨x, first, placed⟩ := Option.bind_eq_some_iff.mp placed
      obtain ⟨y, second, compared⟩ := Option.bind_eq_some_iff.mp placed
      have missing := Bool.or_eq_false_iff.mp (Bool.eq_false_iff.mpr present)
      have numeric : (a.numeric?.isSome || b.numeric?.isSome) = true := by
        rw [Bool.or_eq_true]
        exact mixed.imp (numeric?_isSome first missing.1) (numeric?_isSome second missing.2)
      rw [if_neg present, if_pos numeric, first, second]
      simp [Number.eq, compared]

theorem looseEqual_comm (once : a.KeyedOnce) (once' : b.KeyedOnce) :
    looseEqual a b = looseEqual b a := by
  rcases texts_or_mixed a b with ⟨s, t, left, right⟩ | mixed
  · rw [looseEqual_of_texts left right, looseEqual_of_texts right left, Bool.beq_comm]
  · rw [looseEqual_of_mixed mixed, looseEqual_of_mixed mixed.symm, same_comm a once b once',
      Bool.or_comm, Bool.and_comm, Bool.or_comm a.numeric?.isSome]
    cases a.toNumber <;> cases b.toNumber <;> simp [Number.eq_comm]

/-! ### Operators -/

theorem compareBy_eq (a b : Value) : compareBy "==" a b = .ok (looseEqual a b) := rfl

theorem compareBy_ne (a b : Value) : compareBy "!=" a b = .ok !(looseEqual a b) := rfl

/-- The verdicts on two texts or numbers are read off their place. -/
theorem Comparable.order?_spec (pair : Comparable) :
    pair.lt = pair.order?.any (· == .lt) ∧ pair.gt = pair.order?.any (· == .gt) ∧
    pair.le = pair.order?.any (· != .gt) ∧ pair.ge = pair.order?.any (· != .lt) := by
  cases pair with
  | texts s t =>
    obtain ⟨before, -, behind⟩ := cmp_texts s t
    simp only [lt, gt, le, ge, order?, Option.any_some, ← before, ← behind]
    cases cmp s t <;> simp
  | numbers x y =>
    have flipped := Number.compare?_swap x y
    simp only [lt, gt, le, ge, order?, Number.lt, Number.le, Number.eq, flipped]
    cases x.compare? y with
    | none => simp
    | some order => cases order <;> simp

theorem compareBy_of_ordered (op : Operator) {part : Ordering → Bool}
    (reads : ∀ pair, ordered? op pair = some (pair.order?.any part)) (a b : Value) :
    compareBy op.symbol a b = .ok ((order? a b).any part) := by
  rw [compareBy, ofSymbol?_symbol, order?]
  cases op with
  | lt | gt | le | ge =>
    cases comparable? a b with
    | none => rfl
    | some pair => simp [reads]
  | or | and | eq | ne | add | sub | mul | div | mod => cases reads (.texts [] [])

theorem compareBy_lt (a b : Value) : compareBy "<" a b = .ok ((order? a b).any (· == .lt)) :=
  compareBy_of_ordered lt (fun pair => congrArg some pair.order?_spec.1) a b

theorem compareBy_gt (a b : Value) : compareBy ">" a b = .ok ((order? a b).any (· == .gt)) :=
  compareBy_of_ordered gt (fun pair => congrArg some pair.order?_spec.2.1) a b

theorem compareBy_le (a b : Value) : compareBy "<=" a b = .ok ((order? a b).any (· != .gt)) :=
  compareBy_of_ordered le (fun pair => congrArg some pair.order?_spec.2.2.1) a b

theorem compareBy_ge (a b : Value) : compareBy ">=" a b = .ok ((order? a b).any (· != .lt)) :=
  compareBy_of_ordered ge (fun pair => congrArg some pair.order?_spec.2.2.2) a b

/-- A comparison holds. -/
def Holds (symbol : String) (a b : Value) : Prop := compareBy symbol a b = .ok true

/-- Of values with a place relative to each other one of three comparisons holds. -/
theorem existsUnique_holds (placed : order? a b = some order) :
    ∃! symbol, symbol ∈ ["<", "==", ">"] ∧ Holds symbol a b := by
  have less : Holds "<" a b ↔ order = .lt := by simp [Holds, compareBy_lt, placed]
  have same : Holds "==" a b ↔ order = .eq := by
    simp [Holds, compareBy_eq, looseEqual_of_order placed]
  have greater : Holds ">" a b ↔ order = .gt := by simp [Holds, compareBy_gt, placed]
  cases order with
  | lt => exact ⟨"<", by simp [less], by simp [same, greater]⟩
  | eq => exact ⟨"==", by simp [same], by simp [less, greater]⟩
  | gt => exact ⟨">", by simp [greater], by simp [less, same]⟩

/-- Each comparison has a verdict. Equality does not depend on the side, and inequality is its
negation; to be less is to be greater seen from the other side. Of two values that are in order one
is less, or they are equal, or it is greater, and no two of these; it is less or equal just if it is
not greater. Of other values none is less or greater, nor less or equal. -/
theorem comparisons_are_consistent (once : a.KeyedOnce) (once' : b.KeyedOnce) :
    (∀ symbol ∈ ["==", "!=", "<", ">", "<=", ">="], ∃ verdict,
      compareBy symbol a b = .ok verdict) ∧
    (Holds "==" a b ↔ Holds "==" b a) ∧ (Holds "!=" a b ↔ ¬ Holds "==" a b) ∧
    (Holds "<" a b ↔ Holds ">" b a) ∧ (Holds "<=" a b ↔ Holds ">=" b a) ∧
    (InOrder a b → (∃! symbol, symbol ∈ ["<", "==", ">"] ∧ Holds symbol a b) ∧
      (Holds "<=" a b ↔ ¬ Holds ">" a b)) ∧
    (¬ InOrder a b → ∀ symbol ∈ ["<", ">", "<=", ">="], ¬ Holds symbol a b) := by
  have flipped := order?_swap a b
  refine ⟨?verdicts, ?equality, ?inequality, ?less, ?atMost, ?inOrder, ?others⟩
  case verdicts =>
    simp only [List.forall_mem_cons]
    exact ⟨⟨_, rfl⟩, ⟨_, rfl⟩, ⟨_, compareBy_lt a b⟩, ⟨_, compareBy_gt a b⟩, ⟨_, compareBy_le a b⟩,
      ⟨_, compareBy_ge a b⟩, nofun⟩
  case equality => rw [Holds, Holds, compareBy_eq, compareBy_eq, looseEqual_comm once once']
  case inequality =>
    rw [Holds, Holds, compareBy_eq, compareBy_ne]
    cases looseEqual a b <;> simp
  case less =>
    rw [Holds, Holds, compareBy_lt, compareBy_gt, flipped]
    rcases order? a b with _ | _ | _ | _ <;> simp
  case atMost =>
    rw [Holds, Holds, compareBy_le, compareBy_ge, flipped]
    rcases order? a b with _ | _ | _ | _ <;> simp
  case inOrder =>
    intro placed
    obtain ⟨order, placed⟩ := Option.isSome_iff_exists.mp (order?_isSome_iff.mpr placed)
    refine ⟨existsUnique_holds placed, ?_⟩
    rw [Holds, Holds, compareBy_le, compareBy_gt, placed]
    cases order <;> simp
  case others =>
    intro apart
    have unplaced : order? a b = none := by simpa using mt order?_isSome_iff.mp apart
    simp [Holds, compareBy_lt, compareBy_gt, compareBy_le, compareBy_ge, unplaced]

/-- A dictionary, and one of the same entries in another order. -/
def pairing : Value := .dict [("a", .list [.null]), ("b", .int 1)]
def mirrored : Value := .dict [("b", .bool true), ("a", .list [.null])]

/-- The dictionaries are equal and not in order; a numeral is greater than a truth value. -/
theorem numeral_compares_with_truth_value :
    pairing.KeyedOnce ∧ mirrored.KeyedOnce ∧ ¬ InOrder pairing mirrored ∧
    Holds "==" mirrored pairing ∧ ¬ Holds "<=" pairing mirrored ∧
    KeyedOnce (.text "10") ∧ KeyedOnce (.bool true) ∧ InOrder (.text "10") (.bool true) ∧
    Holds "<" (.bool true) (.text "10") ∧ ¬ Holds "<=" (.text "10") (.bool true) ∧
    ¬ Holds "==" (.text "10") (.bool true) := by
  have once : pairing.KeyedOnce := ⟨by decide, ⟨trivial, trivial⟩, trivial, trivial⟩
  have once' : mirrored.KeyedOnce := ⟨by decide, trivial, ⟨trivial, trivial⟩, trivial⟩
  have equal : Holds "==" pairing mirrored := by unfold Holds; decide +kernel
  have apart : ¬ InOrder pairing mirrored := by
    simp [InOrder, pairing, mirrored, asText?, toNumber]
  have numeral : toNumber (.text "10") = some (.int 10) := by decide +kernel
  have placed : InOrder (.text "10") (.bool true) :=
    .inr ⟨rfl, rfl, .int 10, .int 1, numeral, by simp [toNumber], nofun, nofun⟩
  have greater : Holds ">" (.text "10") (.bool true) := by unfold Holds; decide +kernel
  obtain ⟨-, sides, -, -, -, -, others⟩ := comparisons_are_consistent once once'
  obtain ⟨-, -, -, -, -, inOrder, -⟩ :=
    comparisons_are_consistent (a := .text "10") (b := .bool true) trivial trivial
  obtain ⟨-, -, -, less, -⟩ :=
    comparisons_are_consistent (a := .bool true) (b := .text "10") trivial trivial
  obtain ⟨single, atMost⟩ := inOrder placed
  refine ⟨once, once', apart, sides.mp equal, others apart "<=" (by simp), trivial, trivial, placed,
    less.mpr greater, fun below => atMost.mp below greater, fun same => ?_⟩
  exact absurd (single.unique ⟨by simp, same⟩ ⟨by simp, greater⟩) (by decide)

end Operator
end Stencil
