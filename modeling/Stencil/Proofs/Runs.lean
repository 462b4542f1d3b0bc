import Stencil.Sorting

/-! Sorting by runs makes up no items: whatever is known of every item is known of every item of the
result, also where the comparison is no order. -/
namespace Stencil.Sorting

variable {α β γ : Type} {known : α → Prop}

/-- Something is known of every item. -/
abbrev All (known : α → Prop) (items : List α) : Prop := ∀ item ∈ items, known item

theorem all_take {items : List α} (all : All known items) (count : Nat) :
    All known (items.take count) :=
  fun item member => all item (List.mem_of_mem_take member)

theorem all_drop {items : List α} (all : All known items) (count : Nat) :
    All known (items.drop count) :=
  fun item member => all item (List.mem_of_mem_drop member)

theorem all_append {first second : List α} (here : All known first) (there : All known second) :
    All known (first ++ second) :=
  fun item member => (List.mem_append.mp member).elim (here item) (there item)

theorem all_reverse {items : List α} (all : All known items) : All known items.reverse :=
  fun item member => all item (List.mem_reverse.mp member)

theorem all_cons {item : α} {rest : List α} (first : known item) (later : All known rest) :
    All known (item :: rest) :=
  fun _ member => (List.mem_cons.mp member).elim (fun same => same ▸ first) (later _)

/-! ### Merging -/

structure Merging.Of (known : α → Prop) (merging : Merging α) : Prop where
  taken : All known merging.taken
  short : All known merging.short
  long : All known merging.long

theorem Merging.Of.take {merging : Merging α} (of : merging.Of known) (fromShort : Bool)
    (count : Nat) : (merging.take fromShort count).Of known := by
  cases fromShort with
  | true =>
    exact ⟨all_append (all_reverse (all_take of.short count)) of.taken, all_drop of.short count,
      of.long⟩
  | false =>
    exact ⟨all_append (all_reverse (all_take of.long count)) of.taken, of.short,
      all_drop of.long count⟩

theorem Merging.Of.decided {merging : Merging α} (of : merging.Of known) {items : List α}
    (decided : merging.decided? = some items) : All known items := by
  unfold decided? at decided
  split at decided
  · cases decided
    exact all_append (all_reverse of.taken) of.short
  · cases decided
    exact all_append (all_reverse of.taken) of.long
  · rename_i last long short_is long_is
    cases decided
    exact all_append (all_append (all_reverse of.taken) of.long) (short_is ▸ of.short)
  · contradiction

/-- A part of a merge that is of known items, whether it goes on or is left early. -/
def PartOf (known : α → Prop) (good : β → Prop) (part : Part α β) : Prop :=
  ∀ result, part.run = some result → match result with
    | .ok b => good b
    | .error merged => All known merged.items

variable {good : β → Prop} {fine : γ → Prop}

theorem partOf_pure {b : β} (known_good : good b) : PartOf known good (pure b : Part α β) := by
  intro result same
  cases same
  exact known_good

theorem partOf_bind {part : Part α β} {next : β → Part α γ} (first : PartOf known good part)
    (later : ∀ b, good b → PartOf known fine (next b)) : PartOf known fine (part >>= next) := by
  intro result same
  rw [ExceptT.run_bind] at same
  cases run : part.run with
  | none =>
    rw [run] at same
    cases same
  | some outcome =>
    rw [run] at same
    cases outcome with
    | ok b => exact later b (first _ run) result same
    | error merged =>
      cases same
      exact first _ run

theorem partOf_lift (answer : Option β) :
    PartOf known (fun _ => True) (liftM answer : Part α β) := by
  intro result same
  cases answer with
  | none => cases same
  | some b =>
    cases same
    trivial

theorem goOn_of (patience : Nat) {merging : Merging α} (of : merging.Of known) :
    PartOf known (Merging.Of known) (goOn patience merging) := by
  unfold goOn
  split
  · rename_i items decided
    intro result same
    cases same
    exact of.decided decided
  · exact partOf_pure of

section
variable (before : Comparison α) (mirrored : Bool)

theorem leap_of (fromShort : Bool) (patience : Nat) {merging : Merging α} (of : merging.Of known) :
    PartOf known (fun result => result.2.Of known)
      (leap before mirrored fromShort patience merging) := by
  refine partOf_bind (partOf_lift _) fun count _ => ?_
  refine partOf_bind (goOn_of patience (of.take fromShort count)) fun leaped here => ?_
  exact partOf_bind (goOn_of patience (here.take (!fromShort) 1)) fun next there => partOf_pure there

theorem all_remaining {merging : Merging α} (of : merging.Of known) :
    All known (merging.taken.reverse ++ merging.short ++ merging.long) :=
  all_append (all_append (all_reverse of.taken) of.short) of.long

theorem through_of (fuel : Nat) :
    (∀ patience shortWon streak merging, Merging.Of known merging →
      PartOf known (fun merged => All known merged.items)
        (stepThrough before mirrored fuel patience shortWon streak merging)) ∧
    ∀ patience merging, Merging.Of known merging →
      PartOf known (fun merged => All known merged.items)
        (leapThrough before mirrored fuel patience merging) := by
  -- Each of the two goes over to the other, so they share the induction.
  induction fuel with
  | zero =>
    constructor
    · intro patience shortWon streak merging of
      exact partOf_pure (all_remaining of)
    · intro patience merging of
      exact partOf_pure (all_remaining of)
  | succ fuel ih =>
    obtain ⟨steps, leaps⟩ := ih
    constructor
    · intro patience shortWon streak merging of
      refine partOf_bind (partOf_lift _) fun overtaken _ => ?_
      refine partOf_bind (goOn_of patience (of.take (!overtaken) 1)) fun next here => ?_
      generalize (if shortWon == !overtaken then streak + 1 else 1) = wins
      dsimp only
      split
      · exact leaps _ next here
      · exact steps _ _ _ next here
    · intro patience merging of
      refine partOf_bind (leap_of before mirrored (!mirrored) _ of) fun ⟨first, halfway⟩ here => ?_
      refine partOf_bind (leap_of before mirrored mirrored _ here) fun ⟨second, next⟩ there => ?_
      dsimp only
      split
      · exact leaps _ next there
      · exact steps _ _ _ next there

theorem mergeInto_of {patience : Nat} {short long : List α} {merged : Merged α}
    (shorts : All known short) (longs : All known long)
    (same : mergeInto before mirrored patience short long = some merged) : All known merged.items := by
  have nothing : All known ([] : List α) := fun _ member => nomatch member
  have start : Merging.Of known ⟨[], short, long⟩ := ⟨nothing, shorts, longs⟩
  have part := partOf_bind (goOn_of patience (start.take false 1)) fun merging here =>
    (through_of before mirrored (short.length + long.length)).1 patience false 0 merging here
  obtain ⟨outcome, run, same⟩ := Option.bind_eq_some_iff.mp same
  have all := part outcome run
  cases outcome with
  | ok _ =>
    cases same
    exact all
  | error _ =>
    cases same
    exact all

end

variable {before : Comparison α}

theorem mergeRest_of {patience : Nat} {first second : List α} {merged : Merged α}
    (firsts : All known first) (seconds : All known second)
    (same : mergeRest before patience first second = some merged) : All known merged.items := by
  unfold mergeRest at same
  split at same
  · cases same
    exact firsts
  · split at same
    · exact mergeInto_of before false firsts seconds same
    · obtain ⟨result, run, rfl⟩ := Option.map_eq_some_iff.mp same
      exact all_reverse (mergeInto_of before true (all_reverse seconds) (all_reverse firsts) run)

theorem mergeRuns_of {patience : Nat} {first second : List α} {merged : Merged α}
    (firsts : All known first) (seconds : All known second)
    (same : mergeRuns before patience first second = some merged) : All known merged.items := by
  obtain ⟨head, -, same⟩ := Option.bind_eq_some_iff.mp same
  obtain ⟨kept, -, same⟩ := Option.bind_eq_some_iff.mp same
  dsimp only at same
  split at same
  · cases same
    exact all_append firsts seconds
  · obtain ⟨count, -, same⟩ := Option.bind_eq_some_iff.mp same
    obtain ⟨rest, run, same⟩ := Option.bind_eq_some_iff.mp same
    cases same
    have middle := mergeRest_of (all_drop firsts kept) (all_take seconds count) run
    exact all_append (all_append (all_take firsts kept) middle) (all_drop seconds count)

/-! ### Runs -/

theorem firstRun_of {items run rest : List α} (all : All known items)
    (same : firstRun before items = some (run, rest)) : All known run ∧ All known rest := by
  unfold firstRun at same
  split at same
  · rename_i first second rest
    obtain ⟨falling, -, same⟩ := Option.bind_eq_some_iff.mp same
    obtain ⟨count, -, same⟩ := Option.bind_eq_some_iff.mp same
    cases same
    refine ⟨?_, all_drop all _⟩
    split
    · exact all_reverse (all_take all _)
    · exact all_take all _
  · cases same
    exact ⟨all, fun _ member => by cases member⟩

theorem insert_of {run result : List α} {item : α} (all : All known run) (one : known item)
    (same : insert before run item = some result) : All known result := by
  obtain ⟨place, -, same⟩ := Option.bind_eq_some_iff.mp same
  cases same
  exact all_append (all_take all place) (all_cons one (all_drop all place))

theorem insertAll_of {items run result : List α} (all : All known run) (others : All known items)
    (same : items.foldlM (insert before) run = some result) : All known result := by
  induction items generalizing run with
  | nil =>
    cases same
    exact all
  | cons item rest ih =>
    obtain ⟨next, here, same⟩ := Option.bind_eq_some_iff.mp same
    exact ih (insert_of all (others item List.mem_cons_self) here)
      (fun other member => others other (List.mem_cons_of_mem _ member)) same

abbrev AllRuns (known : α → Prop) (runs : List (Run α)) : Prop :=
  All (fun run : Run α => All known run.items) runs

theorem joinRuns_of {patience : Nat} {older newer : Run α} {result : Run α × Nat}
    (olders : All known older.items) (newers : All known newer.items)
    (same : joinRuns before patience older newer = some result) : All known result.1.items := by
  obtain ⟨merged, run, same⟩ := Option.bind_eq_some_iff.mp same
  cases same
  exact mergeRuns_of olders newers run

theorem mergeDeeper_of {power patience : Nat} {newest : Run α} {runs : List (Run α)} {pile : Pile α}
    (newests : All known newest.items) (all : AllRuns known runs)
    (same : mergeDeeper before power patience newest runs = some pile) : AllRuns known pile.runs := by
  induction runs generalizing patience newest with
  | nil =>
    cases same
    exact all_cons newests all
  | cons older rest ih =>
    have later : AllRuns known rest := fun run member => all run (List.mem_cons_of_mem _ member)
    rw [mergeDeeper] at same
    split at same
    · obtain ⟨⟨joined, patience⟩, run, same⟩ := Option.bind_eq_some_iff.mp same
      exact ih (joinRuns_of (all older List.mem_cons_self) newests run) later same
    · cases same
      exact all_cons newests all

theorem add_of {size : Nat} {pile result : Pile α} {run : Run α} (all : AllRuns known pile.runs)
    (one : All known run.items) (same : pile.add before size run = some result) :
    AllRuns known result.runs := by
  unfold Pile.add at same
  split at same
  · cases same
    exact all_cons one fun _ member => by cases member
  · rename_i newest rest runs
    rw [runs] at all
    obtain ⟨merged, deeper, same⟩ := Option.bind_eq_some_iff.mp same
    cases same
    refine all_cons one (mergeDeeper_of (all newest List.mem_cons_self) ?_ deeper)
    exact fun run member => all run (List.mem_cons_of_mem _ member)

theorem mergeAll_of {patience : Nat} {runs : List (Run α)} {result : List α}
    (all : AllRuns known runs) (same : mergeAll before patience runs = some result) :
    All known result := by
  fun_induction mergeAll before patience runs with
  | case1 =>
    cases same
    exact fun _ member => by cases member
  | case2 _ run =>
    cases same
    exact all run List.mem_cons_self
  | case3 patience newest older =>
    obtain ⟨joined, run, same⟩ := Option.bind_eq_some_iff.mp same
    cases same
    exact joinRuns_of (all older (by simp)) (all newest (by simp)) run
  | case4 patience newest older oldest rest shorter ih =>
    obtain ⟨joined, run, same⟩ := Option.bind_eq_some_iff.mp same
    have middle := joinRuns_of (all oldest (by simp)) (all older (by simp)) run
    refine ih _ _ (all_cons (all newest (by simp)) (all_cons middle fun other member => ?_)) same
    exact all other (by simp [member])
  | case5 patience newest older oldest rest longer ih =>
    obtain ⟨joined, run, same⟩ := Option.bind_eq_some_iff.mp same
    have middle := joinRuns_of (all older (by simp)) (all newest (by simp)) run
    refine ih _ _ (all_cons middle (all_cons (all oldest (by simp)) fun other member => ?_)) same
    exact all other (by simp [member])

theorem pileUp_of {size fuel start : Nat} {pile result : Pile α} {items : List α}
    (piled : AllRuns known pile.runs) (all : All known items)
    (same : pileUp before size fuel start pile items = some result) : AllRuns known result.runs := by
  induction fuel generalizing start pile items with
  | zero =>
    cases same
    exact piled
  | succ fuel ih =>
    cases items with
    | nil =>
      cases same
      exact piled
    | cons first rest =>
      obtain ⟨⟨found, rest⟩, split, same⟩ := Option.bind_eq_some_iff.mp same
      obtain ⟨here, later⟩ := firstRun_of all split
      obtain ⟨run, lengthened, same⟩ := Option.bind_eq_some_iff.mp same
      obtain ⟨next, added, same⟩ := Option.bind_eq_some_iff.mp same
      have one : All known run := insertAll_of here (all_take later _) lengthened
      exact ih (add_of piled one added) (all_drop later _) same

/-- What is known of all items is known of the sorted ones. -/
theorem byRuns_of {items result : List α} (all : All known items)
    (same : byRuns before items = some result) : All known result := by
  obtain ⟨pile, piled, same⟩ := Option.bind_eq_some_iff.mp same
  exact mergeAll_of (pileUp_of (fun _ member => by cases member) all piled) same

end Stencil.Sorting
