import Mathlib.Data.List.Lex
import Mathlib.Data.Char
import Stencil.Library.Filters
import Stencil.Proofs.Numerals

/-! Sorting. Numbers and truth values are sorted by what they count as, texts by their code points, and
items of both kinds or with null among them by the text they render to. All three are a stable sort by
a key that is in linear order, and the sorted items are of the same kinds: so sorting them again changes
nothing. -/
namespace Stencil

namespace Number

theorem lt_int (m n : Int) : lt (int m) (int n) = true ↔ m < n := by
  have unit : (0 : Int) < Double.one := Int.natCast_pos.mpr Double.one_pos
  have ranks : lt (int m) (int n) = (compare (m * Double.one) (n * Double.one) == .lt) := rfl
  rw [ranks, beq_iff_eq, compare_lt_iff_lt]
  exact Int.mul_lt_mul_right unit

end Number

namespace Value

/-! ### Sorting by a key -/

section Key

variable {α : Type} [LinearOrder α] (key : Value → α) {items : List Value}

def atMost (a b : Value) : Bool := decide (key a ≤ key b)

theorem atMost_iff {a b : Value} : atMost key a b = true ↔ key a ≤ key b := decide_eq_true_iff

theorem atMost_trans (a b c : Value) (first : atMost key a b = true) (second : atMost key b c = true) :
    atMost key a c = true := by
  rw [atMost_iff] at *
  exact le_trans first second

theorem atMost_total (a b : Value) : (atMost key a b || atMost key b a) = true := by
  rw [Bool.or_eq_true, atMost_iff, atMost_iff]
  exact le_total (key a) (key b)

/-- The items by their key. -/
def sortedBy (items : List Value) : List Value := items.mergeSort (atMost key)

theorem sortedBy_perm (items : List Value) : (sortedBy key items).Perm items :=
  List.mergeSort_perm ..

theorem pairwise_sortedBy (items : List Value) :
    (sortedBy key items).Pairwise fun a b => key a ≤ key b :=
  (List.pairwise_mergeSort (atMost_trans key) (atMost_total key) items).imp (atMost_iff key).mp

theorem sortedBy_of_pairwise (sorted : items.Pairwise fun a b => key a ≤ key b) :
    sortedBy key items = items :=
  List.mergeSort_of_pairwise (sorted.imp (atMost_iff key).mpr)

/-- Items of one key keep their order. -/
theorem filter_sortedBy (k : α) (items : List Value) :
    (sortedBy key items).filter (key · = k) = items.filter (key · = k) := by
  have level : (items.filter (key · = k)).Pairwise fun a b => atMost key a b = true :=
    List.pairwise_filter.mpr (List.pairwise_of_forall fun a b here there => by
      rw [decide_eq_true_eq] at here there
      exact (atMost_iff key).mpr (here.trans there.symm).le)
  have kept := (List.sublist_mergeSort (atMost_trans key) (atMost_total key) level
    List.filter_sublist).filter (key · = k)
  rw [List.filter_filter] at kept
  simp only [Bool.and_self] at kept
  exact (kept.eq_of_length ((sortedBy_perm key items).filter _).length_eq.symm).symm

/-- The filter sorts items by a key: it permutes them, their keys do not decrease, items of one key
keep their order, and the sorted items are sorted to themselves. -/
def SortsBy (items : List Value) : Prop :=
  ∃ sorted, Filters.sort (list items) = .ok (list sorted) ∧ sorted.Perm items ∧
    sorted.Pairwise (fun a b => key a ≤ key b) ∧
    (∀ k, sorted.filter (key · = k) = items.filter (key · = k)) ∧
    Filters.sort (list sorted) = .ok (list sorted)

/-- What sorts every arrangement of the items by their key leaves the sorted ones as they are. -/
theorem sortsBy_of_perms
    (computes : ∀ others, others.Perm items → Value.sort others = .ok (sortedBy key others)) :
    SortsBy key items := by
  have perm := sortedBy_perm key items
  have again : Value.sort (sortedBy key items) = .ok (sortedBy key items) := by
    rw [computes _ perm, sortedBy_of_pairwise key (pairwise_sortedBy key items)]
  refine ⟨sortedBy key items, ?first, perm, pairwise_sortedBy key items,
    fun k => filter_sortedBy key k items, ?again⟩
  case first =>
    rw [Filters.sort, computes items (.refl items)]
    rfl
  case again =>
    rw [Filters.sort, again]
    rfl

/-- Two values are in order, and in that of their keys. -/
def Placed (a b : Value) : Prop := (before? a b).isSome = true ∧ (before a b = true ↔ key a < key b)

/-- Items that are in the order of their keys are sorted by them. -/
theorem sort_of_placed (calm : anyNan items = false) (placed : ∀ a ∈ items, ∀ b ∈ items, Placed key a b) :
    Value.sort items = .ok (sortedBy key items) := by
  have ordered (others : List Value) (inside : ∀ a ∈ others, a ∈ items) :
      allInOrder others = true := by
    induction others with
    | nil => rfl
    | cons a rest ih =>
      obtain ⟨member, members⟩ := List.forall_mem_cons.mp inside
      have all : rest.all (fun b => (before? a b).isSome) = true :=
        List.all_eq_true.mpr fun b other => (placed a member b (members b other)).1
      rw [allInOrder, all, ih members]
      rfl
  have same : sortInOrder items = sortedBy key items := by
    have compared := List.map_mergeSort (f := id) (l := items) (r := fun a b => !before b a)
      (s := atMost key) fun a here b there => by
        rw [Bool.eq_iff_iff, Bool.not_eq_true', ← Bool.not_eq_true, (placed b there a here).2, not_lt]
        exact (atMost_iff key).symm
    rw [List.map_id, List.map_id] at compared
    exact compared
  have inOrdered : inOrder items = true := by
    rw [inOrder, ordered items fun _ member => member, Bool.or_true]
  rw [Value.sort, sorted?, calm, if_neg Bool.false_ne_true, if_pos inOrdered, same]

end Key

/-! ### Kinds of items -/

/-- What an integer or a truth value counts as. -/
def count? : Value → Option Int
  | bool b => some (if b then 1 else 0)
  | int n => some n
  | _ => none

/-- An integer, a truth value, a text or null. -/
def IsScalar (item : Value) : Prop :=
  item.count?.isSome = true ∨ item.asText?.isSome = true ∨ item = null

variable {items : List Value} {a b : Value}

def AllCounts (items : List Value) : Prop := ∀ item ∈ items, item.count?.isSome = true

def AllTexts (items : List Value) : Prop := ∀ item ∈ items, item.asText?.isSome = true

/-- Neither all numbers and truth values nor all texts. -/
def Mixed (items : List Value) : Prop := ¬ AllCounts items ∧ ¬ AllTexts items

/-- No integer is too long to be written. -/
def Legible (items : List Value) : Prop :=
  ∀ n, int n ∈ items → (decimalDigits n).length ≤ Fault.digitLimit

def count (item : Value) : Int := item.count?.getD 0

def codes (item : Value) : List Char := (item.asText?.getD "").toList

/-- The characters that an item renders to. -/
def rendering (item : Value) : List Char := (item.toText.toOption.getD "").toList

theorem anyNan_of_scalars (scalars : ∀ item ∈ items, IsScalar item) : anyNan items = false := by
  induction items with
  | nil => rfl
  | cons item rest ih =>
    obtain ⟨scalar, scalars⟩ := List.forall_mem_cons.mp scalars
    have calm : hasNan item = false := by
      cases item <;> first | rfl | simp [IsScalar, count?, asText?] at scalar
    rw [anyNan, calm, ih scalars]
    rfl

/-! ### Numbers and truth values, texts -/

theorem placed_of_counts (left : a.count?.isSome = true) (right : b.count?.isSome = true) :
    Placed count a b := by
  cases a <;> cases b <;> simp_all [Placed, count?, count, before, before?, numeric?, Number.lt_int]

theorem placed_of_texts (left : a.asText?.isSome = true) (right : b.asText?.isSome = true) :
    Placed codes a b := by
  cases a <;> cases b <;> simp_all [Placed, asText?, codes, before, before?, charsLt]

theorem sort_counts (counts : AllCounts items) : SortsBy count items := by
  refine sortsBy_of_perms count fun others perm => sort_of_placed count ?_ ?_
  · exact anyNan_of_scalars fun item member => .inl (counts item (perm.mem_iff.mp member))
  · exact fun a here b there => placed_of_counts (counts a (perm.mem_iff.mp here))
      (counts b (perm.mem_iff.mp there))

theorem sort_texts (texts : AllTexts items) : SortsBy codes items := by
  refine sortsBy_of_perms codes fun others perm => sort_of_placed codes ?_ ?_
  · exact anyNan_of_scalars fun item member => .inr (.inl (texts item (perm.mem_iff.mp member)))
  · exact fun a here b there => placed_of_texts (texts a (perm.mem_iff.mp here))
      (texts b (perm.mem_iff.mp there))

/-! ### Items of several kinds -/

/-- Two scalars are in order if both are numbers or truth values, or both texts. -/
theorem alike_of_before? (left : IsScalar a) (right : IsScalar b) (placed : (before? a b).isSome = true) :
    (a.count?.isSome = true ∧ b.count?.isSome = true) ∨
      (a.asText?.isSome = true ∧ b.asText?.isSome = true) := by
  cases a <;> cases b <;> simp_all [IsScalar, count?, asText?, before?, numeric?]

theorem inOrder_of_mixed (scalars : ∀ item ∈ a :: b :: items, IsScalar item) (mixed : Mixed (a :: b :: items)) :
    inOrder (a :: b :: items) = false := by
  rw [← Bool.not_eq_true, inOrder, uniform, Bool.or_eq_true, Bool.or_eq_true, List.all_eq_true,
    List.all_eq_true]
  rintro ((counts | texts) | ordered)
  · refine mixed.1 fun item member => ?_
    have number := counts item member
    rcases scalars item member with count | text | rfl
    · exact count
    · cases item <;> simp_all [asText?, numeric?]
    · simp [numeric?] at number
  · exact mixed.2 texts
  · rw [allInOrder, Bool.and_eq_true, List.all_eq_true] at ordered
    have alike (item) (member : item ∈ b :: items) :=
      alike_of_before? (scalars a (by simp)) (scalars item (List.mem_cons_of_mem a member))
        (ordered.1 item member)
    rcases alike b (by simp) with ⟨count, -⟩ | ⟨text, -⟩
    · refine mixed.1 (List.forall_mem_cons.mpr ⟨count, fun item member => ?_⟩)
      rcases alike item member with both | both
      · exact both.2
      · cases a <;> simp_all [asText?, count?]
    · refine mixed.2 (List.forall_mem_cons.mpr ⟨text, fun item member => ?_⟩)
      rcases alike item member with both | both
      · cases a <;> simp_all [asText?, count?]
      · exact both.2

/-- An item that is written is rendered as its text. -/
theorem toText_of_legible (scalar : IsScalar a)
    (legible : ∀ n, a = int n → (decimalDigits n).length ≤ Fault.digitLimit) :
    a.toText = .ok (String.ofList a.rendering) := by
  have written : ∃ t, a.toText = .ok t := by
    cases a with
    | int n => exact ⟨_, by rw [toText, intText, if_neg (Nat.not_lt.mpr (legible n rfl))]⟩
    | null | bool | text | safe => exact ⟨_, rfl⟩
    | undefined | float | list | dict | date | datetime | duration | method =>
      simp [IsScalar, count?, asText?] at scalar
  obtain ⟨t, written⟩ := written
  simp [rendering, written, Except.toOption]

theorem itemTexts_of_legible (scalars : ∀ item ∈ items, IsScalar item) (legible : Legible items) :
    itemTexts items = .ok (items.map fun item => String.ofList item.rendering) := by
  induction items with
  | nil => rfl
  | cons item rest ih =>
    obtain ⟨scalar, scalars⟩ := List.forall_mem_cons.mp scalars
    have written := toText_of_legible scalar fun n same => legible n (same ▸ List.mem_cons_self)
    rw [itemTexts, written, ih scalars fun n member => legible n (List.mem_cons_of_mem _ member)]
    rfl

theorem itemTexts_of_not_legible (scalars : ∀ item ∈ items, IsScalar item) (long : ¬ Legible items) :
    itemTexts items = .error (.tooManyDigits none) := by
  induction items with
  | nil => exact absurd (fun _ member => absurd member List.not_mem_nil) long
  | cons item rest ih =>
    obtain ⟨scalar, scalars⟩ := List.forall_mem_cons.mp scalars
    by_cases short : ∀ n, item = int n → (decimalDigits n).length ≤ Fault.digitLimit
    · have later : ¬ Legible rest := fun legible => long fun n member => by
        rcases List.mem_cons.mp member with same | other
        · exact short n same.symm
        · exact legible n other
      rw [itemTexts, toText_of_legible scalar short, ih scalars later]
      rfl
    · simp only [not_forall, not_le] at short
      obtain ⟨n, rfl, beyond⟩ := short
      rw [itemTexts, toText, intText, if_pos beyond]
      rfl

theorem sortByText_of_legible (scalars : ∀ item ∈ items, IsScalar item) (legible : Legible items) :
    sortByText items = .ok (sortedBy rendering items) := by
  let keyed (item : Value) : String × Value := (String.ofList item.rendering, item)
  have sorted := List.map_mergeSort (f := keyed) (l := items) (r := atMost rendering)
    (s := fun a b => !charsLt b.1 a.1) fun a _ b _ => by
      rw [Bool.eq_iff_iff, atMost_iff, ← not_lt]
      simp [charsLt, keyed]
  have zipped : (items.map fun item => String.ofList item.rendering).zip items = items.map keyed := by
    rw [← List.map_prod_right_eq_zip]
  rw [sortByText, itemTexts_of_legible scalars legible]
  change Except.ok ((((items.map _).zip items).mergeSort _).map (·.2)) = _
  rw [zipped, ← sorted, List.map_map]
  exact congrArg Except.ok (List.map_id _)

theorem sort_of_mixed (scalars : ∀ item ∈ a :: b :: items, IsScalar item)
    (mixed : Mixed (a :: b :: items)) : Value.sort (a :: b :: items) = sortByText (a :: b :: items) := by
  rw [Value.sort, sorted?, anyNan_of_scalars scalars, if_neg Bool.false_ne_true,
    inOrder_of_mixed scalars mixed, if_neg Bool.false_ne_true]

theorem Mixed.of_perm {others : List Value} (perm : others.Perm items) (mixed : Mixed items) :
    Mixed others :=
  ⟨fun counts => mixed.1 fun item member => counts item (perm.mem_iff.mpr member),
    fun texts => mixed.2 fun item member => texts item (perm.mem_iff.mpr member)⟩

theorem sort_mixed (scalars : ∀ item ∈ items, IsScalar item) (mixed : Mixed items)
    (legible : Legible items) : SortsBy rendering items := by
  refine sortsBy_of_perms rendering fun others perm => ?_
  have scalars' : ∀ item ∈ others, IsScalar item :=
    fun item member => scalars item (perm.mem_iff.mp member)
  have mixed' := mixed.of_perm perm
  match others with
  | [] => exact absurd (fun _ member => absurd member List.not_mem_nil) mixed'.1
  | [item] =>
    rw [Value.sort, sorted?, anyNan_of_scalars scalars']
    simp [inOrder, allInOrder, sortInOrder, sortedBy]
  | a :: b :: rest =>
    rw [sort_of_mixed scalars' mixed']
    exact sortByText_of_legible scalars' fun n member => legible n (perm.mem_iff.mp member)

theorem sort_not_legible (scalars : ∀ item ∈ items, IsScalar item) (mixed : Mixed items)
    (long : ¬ Legible items) : Filters.sort (list items) = .error (.tooManyDigits none) := by
  match items with
  | [] => exact absurd (fun _ member => absurd member List.not_mem_nil) mixed.1
  | [item] =>
    refine absurd (fun other member => ?_) mixed.1
    obtain rfl := List.mem_singleton.mp member
    by_contra none
    refine long fun n found => ?_
    obtain rfl := List.mem_singleton.mp found
    exact absurd rfl none
  | a :: b :: rest =>
    rw [Filters.sort, sort_of_mixed scalars mixed, sortByText, itemTexts_of_not_legible scalars long]
    rfl

/-- Items of all kinds, some of which render alike. -/
def shelf : List Value := [.text "b", .int 10, .safe "1", .bool true, .null, .int 1, .text ""]

/-- The least integer that has no text. -/
def overlong : Int := 10 ^ Fault.digitLimit

theorem not_legible_of_overlong (rest : List Value) : ¬ Legible (.int overlong :: rest) := by
  intro legible
  have short := legible overlong List.mem_cons_self
  have ten : overlong.natAbs = 10 ^ Fault.digitLimit := by simp [overlong, Int.natAbs_pow]
  have some : 0 < Fault.digitLimit := by decide
  rw [decimalDigits, ten, Nat.length_toDigits_le_iff (by decide) some] at short
  exact Nat.lt_irrefl _ short

theorem mixed_beside_text (n : Int) (t : String) : Mixed [.int n, .text t] := by
  constructor
  · exact fun counts => absurd (counts (.text t) (by simp)) (by simp [count?])
  · exact fun texts => absurd (texts (.int n) (by simp)) (by simp [asText?])

end Value
end Stencil
