import Stencil.Proofs.Merging

/-! Merging is a union of lists of diagnostics. Of every key the first one is kept, the offsets
increase, and diagnostics of one offset stand as their keys first came up. A list in order of offset
is determined by what it has at each offset, and there sorting changes nothing: so it does not matter
which groups were merged before. -/
namespace Stencil.Diagnostic

/-! ### Order of offsets -/

section Order

variable {a b c : Diagnostic} {diagnostics others : List Diagnostic}

/-- What comes before a known offset has a known one, which is not greater. -/
theorem notAfter_iff : notAfter a b = true ↔ ∀ n, b.offset = some n → ∃ m ≤ n, a.offset = some m := by
  unfold notAfter
  cases a.offset <;> cases b.offset <;> simp

theorem notAfter_of_eq (same : a.offset = b.offset) : notAfter a b = true :=
  notAfter_iff.mpr fun n known => ⟨n, Nat.le_refl n, same.trans known⟩

theorem offset_eq_of_notAfter (before : notAfter a b = true) (behind : notAfter b a = true) :
    a.offset = b.offset := by
  rw [notAfter_iff] at before behind
  cases here : a.offset with
  | some m =>
    obtain ⟨n, below, known⟩ := behind m here
    obtain ⟨k, above, same⟩ := before n known
    obtain rfl : m = k := Option.some.inj (here.symm.trans same)
    rw [known, Nat.le_antisymm above below]
  | none =>
    cases there : b.offset with
    | none => rfl
    | some n =>
      obtain ⟨m, -, known⟩ := before n there
      rw [here] at known
      contradiction

theorem notAfter_trans (a b c : Diagnostic) (first : notAfter a b = true)
    (second : notAfter b c = true) : notAfter a c = true := by
  rw [notAfter_iff] at *
  intro n known
  obtain ⟨m, below, here⟩ := second n known
  obtain ⟨k, under, start⟩ := first m here
  exact ⟨k, Nat.le_trans under below, start⟩

theorem notAfter_total (a b : Diagnostic) : (notAfter a b || notAfter b a) = true := by
  unfold notAfter
  cases a.offset <;> cases b.offset <;> simp [Nat.le_total]

/-- Sorting keeps the order of diagnostics that are at one offset. -/
theorem filter_mergeSort {part : Diagnostic → Bool}
    (level : ∀ a b, part a = true → part b = true → a.offset = b.offset)
    (diagnostics : List Diagnostic) :
    (diagnostics.mergeSort notAfter).filter part = diagnostics.filter part := by
  have sorted : (diagnostics.filter part).Pairwise fun a b => notAfter a b = true :=
    List.pairwise_filter.mpr (List.pairwise_of_forall fun a b here there =>
      notAfter_of_eq (level a b here there))
  have kept := (List.sublist_mergeSort notAfter_trans notAfter_total sorted
    List.filter_sublist).filter part
  rw [List.filter_filter] at kept
  simp only [Bool.and_self] at kept
  exact (kept.eq_of_length ((List.mergeSort_perm diagnostics notAfter).filter part).length_eq.symm).symm

/-- A list in order of offset is determined by what it has at each. -/
theorem eq_of_filters (sorted : diagnostics.Pairwise fun a b => notAfter a b = true)
    (sorted' : others.Pairwise fun a b => notAfter a b = true)
    (same : ∀ offset, diagnostics.filter (·.offset == offset) = others.filter (·.offset == offset)) :
    diagnostics = others := by
  induction diagnostics generalizing others with
  | nil =>
    cases others with
    | nil => rfl
    | cons d rest => exact absurd (same d.offset) (by simp)
  | cons a rest ih =>
    cases others with
    | nil => exact absurd (same a.offset) (by simp)
    | cons b rest' =>
      obtain ⟨least, later⟩ := List.pairwise_cons.mp sorted
      obtain ⟨least', later'⟩ := List.pairwise_cons.mp sorted'
      -- Each first one is in the other list, so neither comes after the other.
      have here : a ∈ b :: rest' := (List.mem_filter (p := (·.offset == a.offset)).mp
        (same a.offset ▸ List.mem_filter.mpr ⟨List.mem_cons_self, beq_self_eq_true _⟩)).1
      have there : b ∈ a :: rest := (List.mem_filter (p := (·.offset == b.offset)).mp
        (same b.offset ▸ List.mem_filter.mpr ⟨List.mem_cons_self, beq_self_eq_true _⟩)).1
      have level : a.offset = b.offset := by
        rcases List.mem_cons.mp here with rfl | here
        · rfl
        rcases List.mem_cons.mp there with rfl | there
        · rfl
        exact offset_eq_of_notAfter (least b there) (least' a here)
      have heads := same a.offset
      simp only [List.filter_cons, level, beq_self_eq_true, if_true] at heads
      obtain rfl : a = b := (List.cons.inj heads).1
      refine congrArg (a :: ·) (ih later later' fun offset => ?_)
      have tails := same offset
      rw [List.filter_cons, List.filter_cons] at tails
      split at tails
      · exact (List.cons.inj tails).2
      · exact tails

/-- What holds between the diagnostics at each offset holds between those that share one. -/
theorem pairwise_of_filters {rel : Diagnostic → Diagnostic → Prop}
    (each : ∀ offset, (diagnostics.filter (·.offset == offset)).Pairwise rel) :
    diagnostics.Pairwise fun a b => a.offset = b.offset → rel a b := by
  rw [List.pairwise_iff_forall_sublist]
  intro a b pair level
  have both : [a, b].filter (·.offset == a.offset) = [a, b] := by simp [level]
  have inside := pair.filter (·.offset == a.offset)
  rw [both] at inside
  exact List.pairwise_iff_forall_sublist.mp (each a.offset) inside

end Order

/-! ### First diagnostics -/

section Firsts

variable {seen known : List (DiagnosticKind × Option Nat)} {diagnostics others : List Diagnostic}

/-- The first diagnostic of a key is kept, and no other. -/
theorem filter_firsts_key (diagnostics : List Diagnostic) (key : DiagnosticKind × Option Nat) :
    (firsts [] diagnostics).filter (·.key == key) =
      (diagnostics.find? (·.key == key)).toList := by
  rw [filter_firsts (· == key) fun _ _ => Iff.rfl, ← List.head?_filter]
  cases found : diagnostics.filter (·.key == key) with
  | nil => rfl
  | cons d rest =>
    have repeated : ∀ other ∈ rest, other.key ∈ [d.key] := by
      intro other member
      have each (e : Diagnostic) (inside : e ∈ d :: rest) : e.key = key := by
        rw [← found] at inside
        exact eq_of_beq (List.mem_filter.mp inside).2
      rw [each other (List.mem_cons_of_mem _ member), each d List.mem_cons_self]
      exact List.mem_singleton_self key
    rw [firsts, if_neg (by simp), firsts_eq_nil repeated]
    rfl

theorem not_mem_of_mem_firsts {d : Diagnostic} (member : d ∈ firsts seen diagnostics) :
    d.key ∉ seen := by
  induction diagnostics generalizing seen with
  | nil => cases member
  | cons first rest ih =>
    rw [firsts] at member
    split at member
    · exact ih member
    · rename_i fresh
      rcases List.mem_cons.mp member with rfl | later
      · simpa using fresh
      · exact fun before => ih later (List.mem_cons_of_mem _ before)

/-- The diagnostics that are kept stand as their keys first came up. -/
theorem pairwise_firsts (seen : List (DiagnosticKind × Option Nat)) (diagnostics : List Diagnostic) :
    (firsts seen diagnostics).Pairwise fun a b =>
      (diagnostics.map key).idxOf a.key < (diagnostics.map key).idxOf b.key := by
  induction diagnostics generalizing seen with
  | nil => exact .nil
  | cons d rest ih =>
    have shifted {a : Diagnostic} (apart : a.key ≠ d.key) :
        ((d :: rest).map key).idxOf a.key = (rest.map key).idxOf a.key + 1 :=
      List.idxOf_cons_ne _ apart.symm
    have later {seen : List (DiagnosticKind × Option Nat)} (before : d.key ∈ seen) :
        (firsts seen rest).Pairwise fun a b =>
          ((d :: rest).map key).idxOf a.key < ((d :: rest).map key).idxOf b.key := by
      refine (ih seen).imp_of_mem fun here there order => ?_
      have apart {a : Diagnostic} (member : a ∈ firsts seen rest) : a.key ≠ d.key :=
        fun same => not_mem_of_mem_firsts member (same ▸ before)
      rw [shifted (apart here), shifted (apart there)]
      exact Nat.succ_lt_succ order
    rw [firsts]
    split
    · rename_i before
      exact later (by simpa using before)
    · refine List.pairwise_cons.mpr ⟨fun b member => ?_, later List.mem_cons_self⟩
      have apart : b.key ≠ d.key :=
        fun same => not_mem_of_mem_firsts member (same ▸ List.mem_cons_self)
      rw [shifted apart, List.map_cons, List.idxOf_cons_self]
      exact Nat.succ_pos _

/-- To drop later diagnostics of a key beforehand changes nothing. -/
theorem firsts_firsts_append (fewer : known ⊆ seen) (diagnostics others : List Diagnostic) :
    firsts seen (firsts known diagnostics ++ others) = firsts seen (diagnostics ++ others) := by
  induction diagnostics generalizing seen known with
  | nil => rfl
  | cons d rest ih =>
    rw [List.cons_append]
    by_cases before : d.key ∈ known
    · rw [firsts, if_pos (by simpa using before), ih fewer, firsts,
        if_pos (by simpa using fewer before)]
    · rw [firsts, if_neg (by simpa using before), List.cons_append, firsts, firsts]
      by_cases reported : d.key ∈ seen
      · rw [if_pos (by simpa using reported), if_pos (by simpa using reported)]
        exact ih (List.cons_subset.mpr ⟨reported, fewer⟩)
      · rw [if_neg (by simpa using reported), if_neg (by simpa using reported)]
        exact congrArg (d :: ·) (ih (List.cons_subset_cons _ fewer))

theorem firsts_append_congr (same : ∀ seen, firsts seen diagnostics = firsts seen others)
    (before : List Diagnostic) (seen : List (DiagnosticKind × Option Nat)) :
    firsts seen (before ++ diagnostics) = firsts seen (before ++ others) := by
  induction before generalizing seen with
  | nil => exact same seen
  | cons d rest ih => simp only [List.cons_append, firsts, ih]

theorem firsts_absorbs (before inner after : List Diagnostic) :
    firsts [] (before ++ (firsts [] inner ++ after)) = firsts [] (before ++ (inner ++ after)) :=
  firsts_append_congr (fun _ => firsts_firsts_append (List.nil_subset _) inner after) before []

end Firsts

/-! ### Merged groups -/

/-- At keys of one offset a merged list has the first diagnostics of all groups. -/
theorem filter_merge (part : DiagnosticKind × Option Nat → Bool)
    (level : ∀ key key', part key = true → part key' = true → key.2 = key'.2)
    (groups : List (List Diagnostic)) :
    (merge groups).filter (part ·.key) = firsts [] (groups.flatten.filter (part ·.key)) := by
  rw [merge, filter_mergeSort fun a b => level a.key b.key, filter_firsts part fun _ _ => Iff.rfl]

theorem sorted_merge (groups : List (List Diagnostic)) :
    (merge groups).Pairwise fun a b => notAfter a b = true :=
  List.pairwise_mergeSort notAfter_trans notAfter_total _

/-- What is merged may have been merged in part before. -/
theorem merge_absorbs (before inner after : List (List Diagnostic)) :
    merge (before ++ merge inner :: after) = merge (before ++ inner ++ after) := by
  refine eq_of_filters (sorted_merge _) (sorted_merge _) fun offset => ?_
  have at_offset (groups : List (List Diagnostic)) :
      (merge groups).filter (·.offset == offset) =
        firsts [] (groups.flatten.filter (·.offset == offset)) :=
    filter_merge (·.2 == offset)
      (fun _ _ here there => (eq_of_beq here).trans (eq_of_beq there).symm) groups
  rw [at_offset, at_offset]
  simp only [List.flatten_append, List.flatten_cons, List.filter_append, List.append_assoc, at_offset]
  exact firsts_absorbs _ _ _

/-- Merging is a union: of every key that comes up it keeps one diagnostic, the first of all groups.
The offsets increase, with the unknown ones last, and diagnostics of one offset stand as their keys
first came up. Groups may be merged before; so merging again changes nothing, and it is
associative. -/
theorem merge_is_stable_union (groups : List (List Diagnostic)) :
    (∀ key, (merge groups).filter (·.key == key) =
      (groups.flatten.find? (·.key == key)).toList) ∧
    (merge groups).Pairwise (fun a b =>
      (∀ n, b.offset = some n → ∃ m ≤ n, a.offset = some m) ∧
      (a.offset = b.offset →
        (groups.flatten.map key).idxOf a.key < (groups.flatten.map key).idxOf b.key)) ∧
    merge [merge groups] = merge groups ∧
    (∀ before after, merge (before ++ merge groups :: after) = merge (before ++ groups ++ after)) ∧
    ∀ a b c : List Diagnostic,
      merge [merge [a, b], c] = merge [a, b, c] ∧ merge [a, merge [b, c]] = merge [a, b, c] := by
  refine ⟨fun key => ?_, ?_, ?_, (merge_absorbs · groups ·), fun a b c => ⟨?_, ?_⟩⟩
  · rw [merge, filter_mergeSort, filter_firsts_key]
    intro a b here there
    exact congrArg Prod.snd ((eq_of_beq here).trans (eq_of_beq there).symm)
  · have stable : (merge groups).Pairwise fun a b => a.offset = b.offset →
        (groups.flatten.map key).idxOf a.key < (groups.flatten.map key).idxOf b.key := by
      refine pairwise_of_filters fun offset => ?_
      rw [merge, filter_mergeSort fun _ _ here there => (eq_of_beq here).trans (eq_of_beq there).symm]
      exact (pairwise_firsts [] groups.flatten).filter _
    exact ((sorted_merge groups).imp notAfter_iff.mp).and stable
  · simpa using merge_absorbs [] groups []
  · exact merge_absorbs [] [a, b] [c]
  · exact merge_absorbs [a] [b, c] []

end Stencil.Diagnostic
