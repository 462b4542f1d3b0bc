import Stencil.Markup.Construct

/-! Scans report occurrences: every match stands in the text where it says, at a place where its
matcher hits, and constructs follow each other without overlap. -/
namespace Stencil.Markup

/-- The match is a part of the text, and not an empty one. -/
structure Match.OccursIn (m : Match) (text : List Char) : Prop where
  nonempty : m.text ≠ []
  here : m.text <+: text.drop m.start

theorem Match.OccursIn.start_lt_stop {m : Match} {text : List Char} (occurs : m.OccursIn text) :
    m.start < m.stop := by
  have positive := List.length_pos_iff.mpr occurs.nonempty
  unfold Match.stop
  omega

theorem Match.OccursIn.stop_le {m : Match} {text : List Char} (occurs : m.OccursIn text) :
    m.stop ≤ text.length := by
  have positive := List.length_pos_iff.mpr occurs.nonempty
  have fits := occurs.here.length_le
  rw [List.length_drop] at fits
  unfold Match.stop
  omega

section Scan

variable {matcher : Matcher} {category : Category}

/-- Where a match comes from: the text before it, the rest of the text, and a hit of the matcher
there that is not empty. -/
theorem mem_scanFrom {previous : Option Char} {offset skip : Nat} {text : List Char} {m : Match}
    (found : m ∈ scanFrom matcher category previous offset skip text) :
    ∃ before rest hit, text = before ++ rest ∧ rest ≠ [] ∧ skip ≤ before.length ∧
      matcher (before.getLast?.or previous) rest = some hit ∧ hit.size ≠ 0 ∧
      m = hit.toMatch category rest (offset + before.length) := by
  induction text generalizing previous offset skip with
  | nil => simp [scanFrom] at found
  | cons c rest ih =>
    -- What is found further on is found behind one more character.
    have further (less : Nat) (bound : skip ≤ less + 1)
        (later : m ∈ scanFrom matcher category (some c) (offset + 1) less rest) :
        ∃ before after hit, c :: rest = before ++ after ∧ after ≠ [] ∧ skip ≤ before.length ∧
          matcher (before.getLast?.or previous) after = some hit ∧ hit.size ≠ 0 ∧
          m = hit.toMatch category after (offset + before.length) := by
      obtain ⟨before, after, hit, split, here, skipped, hits, size, same⟩ := ih later
      refine ⟨c :: before, after, hit, by simp [split], here, ?_, ?_, size, ?_⟩
      · simp only [List.length_cons]
        omega
      · rw [List.getLast?_cons]
        cases last : before.getLast? <;> simpa [last] using hits
      · rw [same, List.length_cons, Nat.add_right_comm, Nat.add_assoc]
    cases skip with
    | succ more => exact further more (by omega) (by simpa only [scanFrom] using found)
    | zero =>
      rw [scanFrom] at found
      split at found
      · exact further 0 (by omega) found
      · rename_i hit hits
        split at found
        · exact further 0 (by omega) found
        · rename_i size
          rcases List.mem_cons.mp found with same | later
          · exact ⟨[], c :: rest, hit, by simp, by simp, by simp, by simpa using hits,
              by simpa using size, by simpa using same⟩
          · exact further (hit.size - 1) (by omega) later

theorem occursIn_of_mem_scanFrom {text : List Char} {m : Match}
    (found : m ∈ scanFrom matcher category none 0 0 text) : m.OccursIn text := by
  obtain ⟨before, rest, hit, split, here, -, -, size, same⟩ := mem_scanFrom found
  have dropped : text.drop m.start = rest := by simp [split, same, Hit.toMatch]
  constructor
  · simp [same, Hit.toMatch, size, here]
  · rw [dropped, same]
    exact List.take_prefix hit.size rest

theorem occursIn_of_mem_scan {text : List Char} {exclude : List (Nat × Nat)} {m : Match}
    (found : m ∈ scan category text 0 exclude) : m.OccursIn text := by
  simp only [scan, scanWith, List.mem_map, List.mem_filter] at found
  obtain ⟨n, ⟨member, -⟩, rfl⟩ := found
  have occurs := occursIn_of_mem_scanFrom member
  exact ⟨occurs.nonempty, by simpa [Match.shift] using occurs.here⟩

end Scan

/-- Matches of which each starts where the one before has ended or later. -/
def Ascending (reached : Nat) : List Match → Prop
  | [] => True
  | m :: rest => reached ≤ m.start ∧ Ascending m.stop rest

theorem ascending_disjoint (reached : Nat) (found : List Match) :
    Ascending reached (Recognition.disjoint reached found) := by
  induction found generalizing reached with
  | nil => trivial
  | cons m rest ih =>
    rw [Recognition.disjoint]
    split
    · exact ih reached
    · rename_i after
      exact ⟨Nat.not_lt.mp after, ih m.stop⟩

theorem mem_of_mem_disjoint {reached : Nat} {found : List Match} {m : Match}
    (kept : m ∈ Recognition.disjoint reached found) : m ∈ found := by
  induction found generalizing reached with
  | nil => simp [Recognition.disjoint] at kept
  | cons first rest ih =>
    rw [Recognition.disjoint] at kept
    split at kept
    · exact List.mem_cons_of_mem first (ih kept)
    · rcases List.mem_cons.mp kept with same | later
      · exact same ▸ List.mem_cons_self
      · exact List.mem_cons_of_mem first (ih later)

theorem ascending_constructs (text : List Char) : Ascending 0 (constructs text) :=
  ascending_disjoint 0 _

theorem occursIn_of_mem_constructs {text : List Char} {m : Match} (found : m ∈ constructs text) :
    m.OccursIn text := by
  have member := mem_of_mem_disjoint found
  simp only [List.mem_mergeSort, recognize, List.mem_append, List.mem_filter] at member
  rcases member with (((found | found) | found) | found) | ⟨found, -⟩ <;>
    exact occursIn_of_mem_scan found

end Stencil.Markup
