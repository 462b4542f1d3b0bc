import Stencil.Proofs.Presence
import Stencil.Token.Lexing

/-! Of the elements of a printed expression exactly those of its parts find a place, and every
character that is not blank belongs to one of them. -/
namespace Stencil.Lexeme
open Text Markup

/-! ### Claims -/

section Claims

variable {good : Match → Prop} {claimed : List Match}

/-- A candidate is claimed if it is good; one that is not is passed over when it overlaps what is
claimed. -/
theorem exists_claim_cons (apart : ∀ m n, good m → good n → overlaps m n = true → m = n)
    (self : ∀ m, good m → overlaps m m = true) (sound : ∀ m ∈ claimed, good m)
    (once : claimed.Nodup) {first : Match}
    (covered : ¬ good first → ∃ n ∈ claimed, overlaps first n = true) (rest : List Match) :
    ∃ next, claim claimed (first :: rest) = claim next rest ∧ next.Nodup ∧
      ∀ m, m ∈ next ↔ m ∈ claimed ∨ m = first ∧ good first := by
  rw [claim]
  by_cases taken : claimed.any (overlaps first) = true
  · rw [if_pos taken]
    refine ⟨claimed, rfl, once, fun m => ⟨.inl, ?_⟩⟩
    rintro (inside | ⟨rfl, fits⟩)
    · exact inside
    · obtain ⟨n, member, overlap⟩ := List.any_eq_true.mp taken
      rwa [apart m n fits (sound n member) overlap]
  · rw [if_neg taken]
    have fits : good first := by
      by_contra other
      obtain ⟨n, member, overlap⟩ := covered other
      exact taken (List.any_eq_true.mpr ⟨n, member, overlap⟩)
    have fresh : first ∉ claimed :=
      fun member => taken (List.any_eq_true.mpr ⟨first, member, self first fits⟩)
    refine ⟨claimed ++ [first], rfl, ?_, fun m => ?_⟩
    · exact List.nodup_append.mpr ⟨once, by simp, by
        intro m member n single
        rw [List.mem_singleton.mp single]
        rintro rfl
        exact fresh member⟩
    · simp [fits]

/-- Matches that do not overlap each other claim their places when each of the others overlaps one
of them that comes before it. -/
theorem claim_spec (apart : ∀ m n, good m → good n → overlaps m n = true → m = n)
    (self : ∀ m, good m → overlaps m m = true) {candidates : List Match}
    (sound : ∀ m ∈ claimed, good m) (once : claimed.Nodup)
    (covered : ∀ before m after, candidates = before ++ m :: after → ¬ good m →
      ∃ n, good n ∧ overlaps m n = true ∧ (n ∈ claimed ∨ n ∈ before)) :
    (claim claimed candidates).Nodup ∧
      ∀ m, m ∈ claim claimed candidates ↔ m ∈ claimed ∨ m ∈ candidates ∧ good m := by
  induction candidates generalizing claimed with
  | nil => exact ⟨once, by simp [claim]⟩
  | cons first rest ih =>
    have passed : ¬ good first → ∃ n ∈ claimed, overlaps first n = true := by
      intro other
      obtain ⟨n, -, overlap, inside | inside⟩ := covered [] first rest rfl other
      · exact ⟨n, inside, overlap⟩
      · contradiction
    obtain ⟨next, same, single, iff⟩ := exists_claim_cons apart self sound once passed rest
    have fine : ∀ m ∈ next, good m := by
      intro m member
      rcases (iff m).mp member with inside | ⟨rfl, fits⟩
      · exact sound m inside
      · exact fits
    -- What the others overlap is claimed by now if it came first.
    have later : ∀ before m after, rest = before ++ m :: after → ¬ good m →
        ∃ n, good n ∧ overlaps m n = true ∧ (n ∈ next ∨ n ∈ before) := by
      intro before m after shape other
      obtain ⟨n, fits, overlap, place⟩ :=
        covered (first :: before) m after (by rw [shape, List.cons_append]) other
      refine ⟨n, fits, overlap, ?_⟩
      rcases place with inside | inside
      · exact .inl ((iff n).mpr (.inl inside))
      · rcases List.mem_cons.mp inside with rfl | earlier
        · exact .inl ((iff n).mpr (.inr ⟨rfl, fits⟩))
        · exact .inr earlier
    obtain ⟨once, member⟩ := ih fine single later
    rw [same]
    refine ⟨once, fun m => (member m).trans ?_⟩
    rw [iff, List.mem_cons]
    constructor
    · rintro ((inside | ⟨rfl, fits⟩) | ⟨inside, fits⟩)
      · exact .inl inside
      · exact .inr ⟨.inl rfl, fits⟩
      · exact .inr ⟨.inr inside, fits⟩
    · rintro (inside | ⟨rfl | inside, fits⟩)
      · exact .inl (.inl inside)
      · exact .inl (.inr ⟨rfl, fits⟩)
      · exact .inr ⟨inside, fits⟩

end Claims

theorem sorted_selected (piece : Piece) : (selected piece).Pairwise fun m n => m.start ≤ n.start := by
  refine (List.pairwise_mergeSort ?_ ?_ _).imp fun earlier => of_decide_eq_true earlier
  · simp only [decide_eq_true_eq]
    omega
  · simp only [Bool.or_eq_true, decide_eq_true_eq]
    omega

end Stencil.Lexeme

namespace Stencil.Notation
open Text Markup

/-! ### Elements of parts -/

/-- The elements of parts that start at an offset. -/
def elementsOf (offset : Nat) : List Part → List Match
  | [] => []
  | part :: rest =>
    (part.element? offset).toList ++ elementsOf (offset + part.text.length) rest

theorem mem_elementsOf {offset : Nat} {parts : List Part} {e : Match} :
    e ∈ elementsOf offset parts ↔ ∃ before part after, parts = before ++ part :: after ∧
      part.element? (offset + (textOf before).length) = some e := by
  induction parts generalizing offset with
  | nil => simp [elementsOf]
  | cons first rest ih =>
    rw [elementsOf, List.mem_append, ih, Option.mem_toList]
    constructor
    · rintro (here | ⟨before, part, after, rfl, element⟩)
      · exact ⟨[], first, rest, rfl, here⟩
      · refine ⟨first :: before, part, after, rfl, ?_⟩
        rwa [textOf_cons, List.length_append, ← Nat.add_assoc]
    · rintro ⟨before, part, after, shape, element⟩
      cases before with
      | nil =>
        obtain ⟨rfl, rfl⟩ := List.cons.inj shape
        exact .inl element
      | cons other before =>
        obtain ⟨rfl, rfl⟩ := List.cons.inj shape
        refine .inr ⟨before, part, after, rfl, ?_⟩
        rwa [textOf_cons, List.length_append, ← Nat.add_assoc] at element

theorem start_of_mem_elementsOf {offset : Nat} {parts : List Part} {e : Match}
    (member : e ∈ elementsOf offset parts) : offset ≤ e.start ∧ e.start < e.stop := by
  obtain ⟨before, part, after, -, element⟩ := mem_elementsOf.mp member
  obtain ⟨start, stop⟩ := element_start element
  have positive := List.length_pos_iff.mpr part.nonempty
  omega

theorem pairwise_elementsOf (offset : Nat) (parts : List Part) :
    (elementsOf offset parts).Pairwise fun m n => m.stop ≤ n.start := by
  induction parts generalizing offset with
  | nil => exact .nil
  | cons first rest ih =>
    rw [elementsOf]
    refine List.pairwise_append.mpr ⟨?_, ih _, ?_⟩
    · cases first.element? offset <;> simp
    · intro m here n later
      obtain ⟨-, stop⟩ := element_start (Option.mem_toList.mp here)
      have start := (start_of_mem_elementsOf later).1
      omega

/-! ### Order of the candidates -/

section Order

variable {text : List Char} {base : Nat}

theorem rank_of_mem_nested {exclude : List (Nat × Nat)} {m : Match}
    (found : m ∈ scan .string text base [] ++ calls text base exclude ++ paths text base exclude) :
    m.category.rank = 0 := by
  simp only [List.mem_append] at found
  rcases found with (found | found) | found
  · rw [category_of_mem_scan found]
    rfl
  · obtain ⟨head, member, built⟩ := mem_of_mem_outermost found
    have kind := category_of_mem_scan member
    have grown : grow text base head = some m := by simp only [grow, kind, built]
    rw [(start_of_grow grown).1, kind]
    rfl
  · obtain ⟨head, member, built⟩ := mem_of_mem_outermost found
    have kind := category_of_mem_scan member
    have grown : grow text base head = some m := by simp only [grow, kind, built]
    rw [(start_of_grow grown).1, kind]
    rfl

theorem outerFirst_iff {m n : Match} :
    Match.outerFirst m n = true ↔ m.start < n.start ∨ m.start = n.start ∧ n.stop ≤ m.stop := by
  simp [Match.outerFirst]

theorem outerFirst_trans (a b c : Match) (first : Match.outerFirst a b = true)
    (second : Match.outerFirst b c = true) : Match.outerFirst a c = true := by
  rw [outerFirst_iff] at first second ⊢
  omega

theorem outerFirst_total (a b : Match) : (Match.outerFirst a b || Match.outerFirst b a) = true := by
  rw [Bool.or_eq_true, outerFirst_iff, outerFirst_iff]
  omega

theorem pairwise_outerFirst (found : List Match) :
    (found.mergeSort Match.outerFirst).Pairwise fun m n => m.start ≤ n.start := by
  refine (List.pairwise_mergeSort outerFirst_trans outerFirst_total found).imp ?_
  intro m n first
  rw [outerFirst_iff] at first
  omega

/-- The categories of the candidates that do not nest. -/
def plainCategories : List Category := [.keywordLiteral, .number, .operator, .identifier]

theorem rank_of_plain : ∀ category ∈ plainCategories, 0 < category.rank := by decide

theorem pairwise_elements (text : List Char) (base : Nat) :
    (elements text base).Pairwise fun m n => ¬ Precedes n m := by
  rw [elements]
  refine List.pairwise_append.mpr ⟨?_, ?_, ?_⟩
  · refine (pairwise_outerFirst _).imp_of_mem ?_
    intro m n first second before
    have zero := rank_of_mem_nested (List.mem_mergeSort.mp first)
    have also := rank_of_mem_nested (List.mem_mergeSort.mp second)
    rintro (lower | ⟨-, -, earlier⟩) <;> omega
  · have ranks : plainCategories.Pairwise fun a b => 0 < a.rank ∧ a.rank < b.rank := by decide
    refine List.pairwise_flatMap.mpr ⟨?_, ranks.imp ?_⟩
    · intro category member
      have positive := rank_of_plain category member
      refine (pairwise_scan text base _).imp_of_mem ?_
      intro m n first second before
      have one := category_of_mem_scan first
      have two := category_of_mem_scan second
      rintro (lower | ⟨zero, -, -⟩)
      · rw [one, two] at lower
        omega
      · rw [two] at zero
        omega
    · intro a b order m first n second
      rw [← category_of_mem_scan first, ← category_of_mem_scan second] at order
      rintro (lower | ⟨zero, -, -⟩) <;> omega
  · intro m first n second
    obtain ⟨category, member, found⟩ := List.mem_flatMap.mp second
    have positive := rank_of_plain category member
    have zero := rank_of_mem_nested (List.mem_mergeSort.mp first)
    rw [← category_of_mem_scan found] at positive
    rintro (lower | ⟨also, -, -⟩) <;> omega

end Order

/-! ### Selection -/

section Selection

variable {parts : List Part} {base : Nat}

theorem eq_of_overlaps {m n : Match} (first : m ∈ elementsOf base parts)
    (second : n ∈ elementsOf base parts) (overlap : Lexeme.overlaps m n = true) : m = n := by
  have clash : (elementsOf base parts).Pairwise fun m n => Lexeme.overlaps m n = true → m = n := by
    refine (pairwise_elementsOf base parts).imp ?_
    intro m n apart overlap
    simp only [Lexeme.overlaps, Bool.and_eq_true, decide_eq_true_eq] at overlap
    omega
  have symm : Std.Symm fun m n => Lexeme.overlaps m n = true → m = n := by
    refine ⟨fun m n equal overlap => (equal ?_).symm⟩
    simpa [Lexeme.overlaps, and_comm] using overlap
  exact clash.forall_of_forall (fun m _ _ => rfl) first second overlap

theorem covered_of_mem_elements (laid : Laid none parts) {before after : List Match} {m : Match}
    (shape : elements (textOf parts) base = before ++ m :: after)
    (other : m ∉ elementsOf base parts) :
    ∃ n ∈ elementsOf base parts, Lexeme.overlaps m n = true ∧ n ∈ before := by
  have member : m ∈ elements (textOf parts) base := by
    rw [shape]
    simp
  have candidate := isCandidate_of_mem_elements member
  obtain ⟨front, part, back, n, split, element, start, stop, place⟩ :=
    candidate_in_part laid candidate
  have fits : n ∈ elementsOf base parts := mem_elementsOf.mpr ⟨front, part, back, split, element⟩
  have precedes : Precedes n m := by
    rcases place with rfl | precedes
    · contradiction
    · exact precedes
  have overlap : Lexeme.overlaps m n = true := by
    simp only [Lexeme.overlaps, Bool.and_eq_true, decide_eq_true_eq]
    refine ⟨stop, ?_⟩
    rcases precedes with lower | ⟨-, -, earlier⟩
    · have span := nonempty_of_isCandidate candidate (by omega)
      omega
    · unfold Match.stop
      omega
  refine ⟨n, fits, overlap, ?_⟩
  subst split
  have found : n ∈ before ++ m :: after := shape ▸ element_mem_elements laid element
  have order := pairwise_elements (textOf (front ++ part :: back)) base
  rw [shape, List.pairwise_append, List.pairwise_cons] at order
  rcases List.mem_append.mp found with inside | inside
  · exact inside
  · rcases List.mem_cons.mp inside with rfl | later
    · contradiction
    · exact absurd precedes (order.2.1.1 n later)

/-- The elements that find a place are those of the parts. -/
theorem selected_textOf (laid : Laid none parts) (base : Nat) :
    Lexeme.selected ⟨textOf parts, base⟩ = elementsOf base parts := by
  have spans (m : Match) (member : m ∈ elementsOf base parts) : m.start < m.stop :=
    (start_of_mem_elementsOf member).2
  have before : (elementsOf base parts).Pairwise fun m n => m.start < n.start := by
    refine (pairwise_elementsOf base parts).imp_of_mem ?_
    intro m n first second apart
    exact Nat.lt_of_lt_of_le (spans m first) apart
  have claims : (Lexeme.claim [] (elements (textOf parts) base)).Nodup ∧
      ∀ m, m ∈ Lexeme.claim [] (elements (textOf parts) base) ↔
        m ∈ [] ∨ m ∈ elements (textOf parts) base ∧ m ∈ elementsOf base parts := by
    refine Lexeme.claim_spec (fun m n => eq_of_overlaps) ?_ (by simp) .nil ?_
    · intro m member
      simpa [Lexeme.overlaps] using spans m member
    · intro before m after shape other
      obtain ⟨n, fits, overlap, earlier⟩ := covered_of_mem_elements laid shape other
      exact ⟨n, fits, overlap, .inr earlier⟩
  have single : (elementsOf base parts).Nodup := before.imp fun earlier same => by
    rw [same] at earlier
    omega
  have same : (Lexeme.claim [] (elements (textOf parts) base)).Perm (elementsOf base parts) := by
    refine (List.perm_ext_iff_of_nodup claims.1 single).mpr fun m => (claims.2 m).trans ?_
    constructor
    · rintro (inside | ⟨-, inside⟩)
      · contradiction
      · exact inside
    · intro inside
      obtain ⟨front, part, back, rfl, element⟩ := mem_elementsOf.mp inside
      exact .inr ⟨element_mem_elements laid element, inside⟩
  have perm : (Lexeme.selected ⟨textOf parts, base⟩).Perm (elementsOf base parts) :=
    (List.mergeSort_perm _ _).trans same
  refine List.Perm.eq_of_pairwise ?_ (Lexeme.sorted_selected _) (before.imp Nat.le_of_lt) perm
  intro m n first second one two
  refine eq_of_overlaps (perm.mem_iff.mp first) second ?_
  have left := spans m (perm.mem_iff.mp first)
  have right := spans n second
  simp only [Lexeme.overlaps, Bool.and_eq_true, decide_eq_true_eq]
  omega

theorem unclaimed_span {found : List Match} {m : Match} (member : m ∈ found) {text : List Char}
    {offset : Nat} (start : m.start ≤ offset) (stop : offset + text.length ≤ m.stop)
    (rest : List Char) : Lexeme.unclaimed found offset (text ++ rest) =
      Lexeme.unclaimed found (offset + text.length) rest := by
  induction text generalizing offset with
  | nil => rfl
  | cons c text ih =>
    rw [List.length_cons] at stop
    have covered : inside offset (found.map interval) = true := by
      refine List.any_eq_true.mpr ⟨interval m, List.mem_map_of_mem member, ?_⟩
      rw [interval, Bool.and_eq_true, decide_eq_true_eq, decide_eq_true_eq]
      omega
    rw [List.cons_append, Lexeme.unclaimed, covered, Bool.or_true, if_pos rfl,
      ih (by omega) (by omega), List.length_cons]
    congr 1
    omega

/-- Every character that is not blank belongs to an element. -/
theorem unclaimed_textOf {found : List Match} {base : Nat} {parts : List Part}
    (all : ∀ m ∈ elementsOf base parts, m ∈ found) :
    Lexeme.unclaimed found base (textOf parts) = [] := by
  induction parts generalizing base with
  | nil => rfl
  | cons part rest ih =>
    have later : Lexeme.unclaimed found (base + part.text.length) (textOf rest) = [] := by
      refine ih fun m member => all m ?_
      rw [elementsOf]
      exact List.mem_append_right _ member
    rw [textOf_cons]
    cases element : part.element? base with
    | none =>
      cases part with
      | blank =>
        rw [Part.text, List.singleton_append, Lexeme.unclaimed, isBlank_space, Bool.true_or,
          if_pos rfl]
        exact later
      | mark op => contradiction
      | atom a => contradiction
    | some e =>
      have member : e ∈ found := by
        refine all e ?_
        rw [elementsOf, element]
        simp
      obtain ⟨start, stop⟩ := element_start element
      rw [unclaimed_span member (Nat.le_of_eq start) (Nat.le_of_eq stop.symm), later]

end Selection

end Stencil.Notation
