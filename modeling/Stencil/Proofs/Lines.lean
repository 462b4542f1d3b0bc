import Mathlib.Data.List.Induction
import Mathlib.Data.List.TakeWhile
import Stencil.Text.Walk

/-! The table of line starts and the count of line ends give every offset of a text the same line
and column, and so does a walk over the lines, in whatever order it is asked for offsets. -/
namespace Stencil.Text

namespace Lines

variable {starts : List Nat} {offset : Nat}

theorem collect_append (starts : List Nat) (offset : Nat) (front back : List Char) :
    collect starts offset (front ++ back) =
      collect (collect starts offset front) (offset + front.length) back := by
  induction front generalizing starts offset with
  | nil => rfl
  | cons c rest ih =>
    rw [List.cons_append, collect, ih, collect, List.length_cons, Nat.add_right_comm, Nat.add_assoc]

theorem collect_snoc (starts : List Nat) (offset : Nat) (front : List Char) (c : Char) :
    collect starts offset (front ++ [c]) =
      if c == '\n' then (offset + front.length + 1) :: collect starts offset front
      else collect starts offset front := by
  rw [collect_append, collect, collect]

/-- Lines that start beyond an offset do not count for it. -/
theorem dropWhile_collect {reached : Nat} (text : List Char) (beyond : offset ≤ reached) :
    (collect starts reached text).dropWhile (offset < ·) = starts.dropWhile (offset < ·) := by
  induction text generalizing starts reached with
  | nil => rfl
  | cons c rest ih =>
    rw [collect, ih (by omega)]
    split
    · rw [List.dropWhile_cons_of_pos (by simp; omega)]
    · rfl

/-- The line starts of a text: one more than its line ends, the last of them where its last line
starts. -/
theorem collect_spec (front : List Char) :
    (collect [0] 0 front).length = front.count '\n' + 1 ∧
      (collect [0] 0 front).headD 0 + (front.reverse.takeWhile (· != '\n')).length =
        front.length := by
  induction front using List.reverseRecOn with
  | nil => exact ⟨rfl, rfl⟩
  | append_singleton front c ih =>
    obtain ⟨count, place⟩ := ih
    rw [collect_snoc]
    by_cases ends : c = '\n'
    · subst ends
      simp [count]
    · rw [if_neg (by simp [ends]), List.reverse_append]
      rw [List.headD_eq_head?_getD] at place
      simp [count, ends]
      omega

theorem upTo_ofText (text : List Char) (offset : Nat) :
    (ofText text).upTo offset = collect [0] 0 (text.take offset) := by
  have reached : ∀ start ∈ (collect [0] 0 (text.take offset)).head?, start ≤ offset := by
    intro start first
    have place := (collect_spec (text.take offset)).2
    have short := List.length_take_le offset text
    rw [List.headD_eq_head?_getD, Option.mem_def.mp first] at place
    simp only [Option.getD_some] at place
    omega
  have front : (collect [0] 0 (text.take offset)).dropWhile (offset < ·) =
      collect [0] 0 (text.take offset) := by
    cases starts : collect [0] 0 (text.take offset) with
    | nil => rfl
    | cons start rest =>
      rw [starts] at reached
      exact List.dropWhile_cons_of_neg (by simpa using reached start rfl)
  change (collect [0] 0 text).dropWhile (offset < ·) = _
  rcases Nat.le_total text.length offset with beyond | inside
  · rw [List.take_of_length_le beyond] at front ⊢
    exact front
  · have length : (text.take offset).length = offset := by simp [inside]
    conv_lhs => rw [← List.take_append_drop offset text]
    rw [collect_append, length, Nat.zero_add, dropWhile_collect _ (Nat.le_refl offset), front]

/-- The table of line starts agrees with counting. -/
theorem locate_ofText (text : List Char) (offset : Nat) :
    (ofText text).locate offset = position text offset := by
  obtain ⟨count, place⟩ := collect_spec (text.take offset)
  have short := List.length_take_le offset text
  rw [locate, upTo_ofText, position]
  simp only [Position.mk.injEq]
  refine ⟨count, ?_⟩
  omega

theorem le_of_mem_collect (front : List Char) :
    ∀ start ∈ collect [0] 0 front, start ≤ front.length := by
  induction front using List.reverseRecOn with
  | nil => simp [collect]
  | append_singleton front c ih =>
    have earlier : ∀ start ∈ collect [0] 0 front, start ≤ (front ++ [c]).length :=
      fun start member => Nat.le_trans (ih start member) (by simp)
    rw [collect_snoc]
    split
    · exact List.forall_mem_cons.mpr ⟨by simp, earlier⟩
    · exact earlier

theorem upTo_pos (text : List Char) (offset : Nat) : 0 < ((ofText text).upTo offset).length := by
  rw [upTo_ofText, (collect_spec _).1]
  exact Nat.succ_pos _

/-- In ascending order the lines up to an offset come first. -/
theorem reverse_starts (text : List Char) (offset : Nat) : ∃ later,
    (ofText text).starts.reverse = ((ofText text).upTo offset).reverse ++ later ∧
      (∀ start ∈ (ofText text).upTo offset, start ≤ offset) ∧ ∀ start ∈ later, offset < start := by
  refine ⟨((ofText text).starts.takeWhile (offset < ·)).reverse, ?_, ?_, ?_⟩
  · rw [← List.reverse_append]
    exact congrArg List.reverse List.takeWhile_append_dropWhile.symm
  · intro start member
    rw [upTo_ofText] at member
    exact Nat.le_trans (le_of_mem_collect _ start member) (List.length_take_le offset text)
  · intro start member
    simpa using List.mem_takeWhile_imp (List.mem_reverse.mp member)

end Lines

/-! ### Walks -/

namespace Walk

variable {starts : List Nat} {offset line : Nat}

/-- Halving finds the place below which a property holds and from which on it does not. -/
theorem halve_eq {holds : Sorting.Asked} {place : Nat} {low high : Nat} (above : low ≤ place)
    (below : place ≤ high) (parts : ∀ i < high, holds i = some (decide (i < place))) :
    Sorting.halve holds low high = some place := by
  fun_induction Sorting.halve holds low high with
  | case1 low high within middle upper lower =>
    rw [parts middle (by omega)]
    by_cases before : middle < place
    · simpa [before] using upper (by omega) below parts
    · simpa [before] using lower above (by omega) fun i small => parts i (by omega)
  | case2 low high stops =>
    rw [show low = place by omega]

/-- The first `line` lines, and no others, start at or before the offset. -/
def Reaches (starts : List Nat) (offset line : Nat) : Prop :=
  line ≤ starts.length ∧
    ∀ i, (within : i < starts.length) → (starts[i] ≤ offset ↔ i < line)

theorem reaches_ofText (text : List Char) (offset : Nat) :
    Reaches (ofText text).starts offset ((Lines.ofText text).upTo offset).length := by
  obtain ⟨later, whole, before, beyond⟩ := Lines.reverse_starts text offset
  change Reaches (Lines.ofText text).starts.reverse _ _
  rw [whole]
  generalize (Lines.ofText text).upTo offset = lines at before
  refine ⟨by simp, fun i within => ?_⟩
  rcases Nat.lt_or_ge i lines.length with inside | outside
  · have first : i < lines.reverse.length := by simpa using inside
    rw [List.getElem_append_left first]
    exact iff_of_true (before _ (List.mem_reverse.mp (List.getElem_mem first))) inside
  · rw [List.getElem_append_right (by simpa using outside)]
    exact iff_of_false (Nat.not_le.mpr (beyond _ (List.getElem_mem _))) (Nat.not_lt.mpr outside)

theorem search_eq (reaches : Reaches starts offset line) : search starts offset = line := by
  have found :
      Sorting.halve (fun i => starts[i]?.map (· ≤ offset)) 0 starts.length = some line := by
    refine halve_eq (Nat.zero_le _) reaches.1 fun i within => ?_
    simp [within, reaches.2 i within]
  rw [search, found, Option.getD_some]

theorem advance_eq (reaches : Reaches starts offset line) {current : Nat}
    (earlier : current ≤ line) : advance starts offset current = line := by
  fun_induction advance starts offset current with
  | case1 current within before ih => exact ih ((reaches.2 current within).mp before)
  | case2 current within beyond =>
    have last := mt (reaches.2 current within).mpr beyond
    omega
  | case3 current beyond =>
    have bounded := reaches.1
    omega

/-- An earlier offset is on an earlier line, or on the same one. -/
theorem Reaches.mono {other line' : Nat} (reaches : Reaches starts offset line)
    (later : Reaches starts other line') (ordered : offset ≤ other) : line ≤ line' := by
  by_contra behind
  have within : line' < starts.length := Nat.lt_of_lt_of_le (by omega) reaches.1
  have small := (reaches.2 line' within).mpr (by omega)
  have large := (later.2 line' within).mp (by omega)
  omega

/-- The walk is on the line of its offset. -/
structure On (text : List Char) (walk : Walk) : Prop where
  starts : walk.starts = (ofText text).starts
  line : walk.line = ((Lines.ofText text).upTo walk.offset).length

theorem on_ofText (text : List Char) : (ofText text).On text := by
  refine ⟨rfl, ?_⟩
  change 1 = ((Lines.ofText text).upTo 0).length
  rw [Lines.upTo_ofText]
  rfl

/-- The start of the line of an offset. -/
theorem getD_starts (text : List Char) (offset : Nat) :
    (ofText text).starts.getD (((Lines.ofText text).upTo offset).length - 1) 0 =
      ((Lines.ofText text).upTo offset).headD 0 := by
  obtain ⟨later, whole, -, -⟩ := Lines.reverse_starts text offset
  have positive := Lines.upTo_pos text offset
  rw [ofText, whole]
  cases lines : (Lines.ofText text).upTo offset with
  | nil => simp [lines] at positive
  | cons first rest => simp

/-- Asked for any offset, the walk gives its line and column and goes there. -/
theorem On.locate {text : List Char} {walk : Walk} (on : walk.On text) (offset : Nat) :
    (walk.locate offset).1 = position text offset ∧ (walk.locate offset).2.On text := by
  have here := reaches_ofText text walk.offset
  have there := reaches_ofText text offset
  have line : (if offset < walk.offset then search walk.starts offset
      else advance walk.starts offset walk.line) = ((Lines.ofText text).upTo offset).length := by
    rw [on.starts, on.line]
    split
    · exact search_eq there
    · exact advance_eq there (here.mono there (by omega))
  rw [← Lines.locate_ofText]
  simp only [Walk.locate, line]
  refine ⟨?_, on.starts, rfl⟩
  rw [on.starts, getD_starts, Lines.locate]

/-- For every sequence of offsets the walk gives the lines and columns that counting gives. -/
theorem On.locateAll {text : List Char} {walk : Walk} (on : walk.On text) (offsets : List Nat) :
    walk.locateAll offsets = offsets.map (position text) := by
  induction offsets generalizing walk with
  | nil => rfl
  | cons offset rest ih =>
    obtain ⟨here, next⟩ := on.locate offset
    rw [Walk.locateAll, List.map_cons, ← ih next, ← here]

end Walk
end Stencil.Text
