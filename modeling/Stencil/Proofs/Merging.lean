import Stencil.Proofs.Calm

/-! Merging keeps the first diagnostic of every key. Diagnostics of some keys do not compete with those
of others, so what the structural ones are merged to depends on them alone. -/
namespace Stencil.Diagnostic

variable {seen : List (DiagnosticKind × Option Nat)} {diagnostics later : List Diagnostic}

/-- What is kept of the diagnostics of some keys is what is kept if there are no others. -/
theorem filter_firsts (part : DiagnosticKind × Option Nat → Bool)
    {known : List (DiagnosticKind × Option Nat)}
    (same : ∀ key, part key = true → (key ∈ seen ↔ key ∈ known)) :
    (firsts seen diagnostics).filter (part ·.key) =
      firsts known (diagnostics.filter (part ·.key)) := by
  induction diagnostics generalizing seen known with
  | nil => rfl
  | cons d rest ih =>
    have extended : ∀ key, part key = true → (key ∈ d.key :: seen ↔ key ∈ d.key :: known) := by
      intro key inside
      rw [List.mem_cons, List.mem_cons, same key inside]
    cases inside : part d.key with
    | true =>
      have found := same d.key inside
      have keeps (tail : List Diagnostic) : (d :: tail).filter (part ·.key) =
          d :: tail.filter (part ·.key) := by
        simp [inside]
      rw [firsts, keeps, firsts]
      by_cases before : d.key ∈ seen
      · rw [if_pos (by simpa using before), if_pos (by simpa using found.mp before)]
        exact ih same
      · rw [if_neg (by simpa using before), if_neg (by simpa using mt found.mpr before),
          keeps, ih extended]
    | false =>
      have drops (tail : List Diagnostic) : (d :: tail).filter (part ·.key) =
          tail.filter (part ·.key) := by
        simp [inside]
      rw [firsts, drops]
      split
      · exact ih same
      · rw [drops]
        refine ih fun key other => ?_
        rw [List.mem_cons, same key other, or_iff_right]
        intro equal
        rw [equal, inside] at other
        contradiction

theorem firsts_eq_nil (repeated : ∀ d ∈ later, d.key ∈ seen) : firsts seen later = [] := by
  induction later with
  | nil => rfl
  | cons d rest ih =>
    rw [firsts, if_pos (by simpa using repeated d (by simp))]
    exact ih fun other member => repeated other (by simp [member])

/-- Diagnostics of keys of their own are all kept, and later ones of the same keys are not. -/
theorem firsts_append (fresh : ∀ d ∈ diagnostics, d.key ∉ seen)
    (once : (diagnostics.map key).Nodup)
    (repeated : ∀ d ∈ later, d.key ∈ seen ∨ d.key ∈ diagnostics.map key) :
    firsts seen (diagnostics ++ later) = diagnostics := by
  induction diagnostics generalizing seen with
  | nil =>
    refine firsts_eq_nil fun d member => ?_
    simpa using repeated d member
  | cons d rest ih =>
    rw [List.map_cons, List.nodup_cons] at once
    rw [List.cons_append, firsts, if_neg (by simpa using fresh d (by simp))]
    congr 1
    refine ih ?_ once.2 ?_
    · intro other member inside
      rcases List.mem_cons.mp inside with same | before
      · exact once.1 (List.mem_map.mpr ⟨other, member, same⟩)
      · exact fresh other (by simp [member]) before
    · intro other member
      rcases repeated other member with before | inside
      · exact .inl (List.mem_cons_of_mem _ before)
      · rcases List.mem_cons.mp inside with same | inside
        · exact .inl (by simp [same])
        · exact .inr inside

/-- Where two stages find the same structural problems, each once, and a third finds none, the
merged diagnostics report each of them once. -/
theorem merge_structural {first second third : List Diagnostic}
    (silent : second.filter (·.kind.isStructural) = [])
    (once : ((first.filter (·.kind.isStructural)).map key).Nodup)
    (same : ∀ d ∈ third.filter (·.kind.isStructural),
      d.key ∈ (first.filter (·.kind.isStructural)).map key) :
    ((merge [first, second, third]).filter (·.kind.isStructural)).Perm
      (first.filter (·.kind.isStructural)) := by
  refine ((List.mergeSort_perm _ _).filter _).trans (.of_eq ?_)
  have kept : (firsts [] [first, second, third].flatten).filter (·.kind.isStructural) =
      firsts [] ([first, second, third].flatten.filter (·.kind.isStructural)) :=
    filter_firsts (fun key => key.1.isStructural) fun _ _ => Iff.rfl
  rw [kept]
  simp only [List.flatten_cons, List.flatten_nil, List.filter_append, silent, List.nil_append,
    List.append_nil]
  exact firsts_append (by simp) once fun d member => .inr (same d member)

theorem exists_mem_firsts {d : Diagnostic} (member : d ∈ diagnostics) :
    d.key ∈ seen ∨ ∃ kept ∈ firsts seen diagnostics, kept.key = d.key := by
  induction diagnostics generalizing seen with
  | nil => cases member
  | cons first rest ih =>
    rw [firsts]
    by_cases before : first.key ∈ seen
    · rw [if_pos (by simpa using before)]
      rcases List.mem_cons.mp member with rfl | later
      · exact .inl before
      · exact ih later
    · rw [if_neg (by simpa using before)]
      rcases List.mem_cons.mp member with rfl | later
      · exact .inr ⟨d, List.mem_cons_self, rfl⟩
      · rcases ih later with known | ⟨kept, inside, same⟩
        · rcases List.mem_cons.mp known with same | known
          · exact .inr ⟨first, List.mem_cons_self, same.symm⟩
          · exact .inl known
        · exact .inr ⟨kept, List.mem_cons_of_mem _ inside, same⟩

/-- Merging keeps a diagnostic of every key. -/
theorem exists_mem_merge {groups : List (List Diagnostic)} {group : List Diagnostic}
    (listed : group ∈ groups) {d : Diagnostic} (member : d ∈ group) :
    ∃ kept ∈ merge groups, kept.key = d.key := by
  have found : d.key ∈ [] ∨ ∃ kept ∈ firsts [] groups.flatten, kept.key = d.key :=
    exists_mem_firsts (List.mem_flatten.mpr ⟨group, listed, member⟩)
  rcases found with impossible | ⟨kept, inside, same⟩
  · cases impossible
  · exact ⟨kept, List.mem_mergeSort.mpr inside, same⟩

theorem firsts_sublist (seen : List (DiagnosticKind × Option Nat)) (diagnostics : List Diagnostic) :
    (firsts seen diagnostics).Sublist diagnostics := by
  induction diagnostics generalizing seen with
  | nil => exact .slnil
  | cons d rest ih =>
    rw [firsts]
    split
    · exact (ih seen).cons d
    · exact (ih (d.key :: seen)).cons_cons d

/-- Merging adds nothing. -/
theorem exists_mem_of_mem_merge {groups : List (List Diagnostic)} {d : Diagnostic}
    (member : d ∈ merge groups) : ∃ group ∈ groups, d ∈ group :=
  List.mem_flatten.mp ((firsts_sublist [] _).subset (List.mem_mergeSort.mp member))

end Stencil.Diagnostic
