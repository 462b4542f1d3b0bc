import Stencil.Sorting

/-! Sorting by runs looks at items only through the comparison. Images of items that compare as the
items do are sorted as the items are, also where the comparison is no order. -/
namespace Stencil

variable {α β γ γ' δ δ' : Type}

section Steps
variable {m : Type → Type} [Monad m] [LawfulMonad m] {f : δ → δ'}

/-- A computation on images: each step gives the image of what it gives on the items. -/
theorem bind_image {e : γ → γ'} {first : m γ} {other : m γ'} {next : γ → m δ} {further : γ' → m δ'}
    (here : other = e <$> first) (later : ∀ c, further (e c) = f <$> next c) :
    (other >>= further) = f <$> (first >>= next) := by
  rw [here, map_bind, bind_map_left]
  exact bind_congr later

theorem bind_same (first : m γ) {next : γ → m δ} {further : γ → m δ'}
    (later : ∀ c, further c = f <$> next c) : (first >>= further) = f <$> (first >>= next) := by
  rw [map_bind]
  exact bind_congr later

end Steps

namespace Sorting

variable (image : α → β) (before : Comparison β)

/-- Items compared by their images. -/
def byImages : Comparison α := fun a b => before (image a) (image b)

/-! ### Runs -/

theorem runLength_image (falling : Bool) (previous : α) (items : List α) :
    runLength before falling (image previous) (items.map image) =
      runLength (byImages image before) falling previous items := by
  induction items generalizing previous with
  | nil => rfl
  | cons item rest ih => simp only [List.map_cons, runLength, ih, byImages]

theorem firstRun_image (items : List α) :
    firstRun before (items.map image) =
      (firstRun (byImages image before) items).map (Prod.map (List.map image) (List.map image)) := by
  match items with
  | [] | [_] => rfl
  | first :: second :: rest =>
    refine bind_same _ fun falling => ?_
    rw [runLength_image]
    refine bind_same _ fun count => ?_
    cases falling <;> simp [← List.map_cons, ← List.map_take, ← List.map_drop]

/-- What is asked of the image at a position is asked of the item there. -/
theorem asked_image (goes : β → Option Bool) (items : List α) (i : Nat) :
    ((items.map image)[i]? >>= goes) = (items[i]? >>= fun a => goes (image a)) := by
  rw [List.getElem?_map]
  cases items[i]? <;> rfl

theorem insert_image (run : List α) (item : α) :
    insert before (run.map image) (image item) =
      (insert (byImages image before) run item).map (List.map image) := by
  unfold insert
  simp only [asked_image, List.length_map]
  refine bind_same _ fun place => ?_
  simp [← List.map_take, ← List.map_drop]

/-! ### Merging -/

namespace Merging

def map (m : Merging α) : Merging β :=
  ⟨m.taken.map image, m.short.map image, m.long.map image⟩

variable (m : Merging α)

theorem take_map (fromShort : Bool) (count : Nat) :
    (m.map image).take fromShort count = (m.take fromShort count).map image := by
  cases fromShort <;> simp [take, map]

theorem decided?_map : (m.map image).decided? = m.decided?.map (List.map image) := by
  obtain ⟨taken, short, long⟩ := m
  match short, long with
  | _, [] => simp [decided?, map]
  | [], _ :: _ => simp [decided?, map]
  | [_], _ :: _ => simp [decided?, map]
  | _ :: _ :: _, _ :: _ => simp [decided?, map]

end Merging

def Merged.map (merged : Merged α) : Merged β := ⟨merged.items.map image, merged.patience⟩

namespace Part

/-- A part with its result, or with what it is left with. -/
def map (f : γ → γ') (part : Part α γ) : Part β γ' :=
  ExceptT.mk (part.run.map fun
    | .ok c => .ok (f c)
    | .error merged => .error (merged.map image))

theorem map_bind {e : γ → γ'} {f : δ → δ'} {first : Part α γ} {other : Part β γ'}
    {next : γ → Part α δ} {further : γ' → Part β δ'} (here : other = first.map image e)
    (later : ∀ c, further (e c) = (next c).map image f) :
    (other >>= further) = Part.map image f (first >>= next) := by
  subst here
  apply ExceptT.ext
  have goal (result : Option (Except (Merged α) γ)) (run : first.run = result) :
      (first.map image e >>= further).run = (Part.map image f (first >>= next)).run := by
    simp only [Part.map, ExceptT.run_bind, ExceptT.run_mk, run]
    cases result with
    | none => rfl
    | some outcome =>
      cases outcome with
      | ok c => exact congrArg ExceptT.run (later c)
      | error merged => rfl
  exact goal _ rfl

theorem map_pure (f : γ → γ') (c : γ) : Part.map image f (pure c) = pure (f c) := rfl

theorem map_lift (answer : Option γ) :
    (liftM answer : Part β γ) = Part.map image id (liftM answer : Part α γ) := by
  cases answer <;> rfl

theorem map_bind_lift {f : δ → δ'} {answer other : Option γ} {next : γ → Part α δ}
    {further : γ → Part β δ'} (here : other = answer)
    (later : ∀ c, further c = (next c).map image f) :
    ((liftM other : Part β γ) >>= further) =
      Part.map image f ((liftM answer : Part α γ) >>= next) := by
  subst here
  exact map_bind image (map_lift image other) later

end Part

theorem goOn_image (patience : Nat) (m : Merging α) :
    goOn patience (m.map image) = (goOn patience m).map image (Merging.map image) := by
  unfold goOn
  rw [Merging.decided?_map]
  cases m.decided? <;> rfl

theorem leading_image (mirrored : Bool) {goes : α → Option Bool} {goes' : β → Option Bool}
    (same : ∀ a, goes' (image a) = goes a) (run : List α) :
    leading mirrored goes' (run.map image) = leading mirrored goes run := by
  simp only [leading, List.length_map, asked_image, same]

section
variable (mirrored : Bool)

theorem leap_image (fromShort : Bool) (patience : Nat) (m : Merging α) :
    leap before mirrored fromShort patience (m.map image) =
      (leap (byImages image before) mirrored fromShort patience m).map image
        (Prod.map id (Merging.map image)) := by
  have run : (if fromShort then (m.map image).short else (m.map image).long) =
      (if fromShort then m.short else m.long).map image := by cases fromShort <;> rfl
  have head (items : List α) : (items.map image).head? = items.head?.map image := List.head?_map
  unfold leap
  dsimp only
  rw [run]
  refine Part.map_bind_lift image (leading_image image mirrored (fun a => ?_) _) fun count => ?_
  · simp only [Merging.map, head]
    split
    · cases m.long.head? <;> rfl
    · cases m.short.head? <;> rfl
  · rw [Merging.take_map]
    refine Part.map_bind image (goOn_image image patience _) fun leaped => ?_
    rw [Merging.take_map]
    exact Part.map_bind image (goOn_image image patience _) fun next => rfl

theorem through_image (fuel : Nat) :
    (∀ patience shortWon streak (m : Merging α),
      stepThrough before mirrored fuel patience shortWon streak (m.map image) =
        (stepThrough (byImages image before) mirrored fuel patience shortWon streak m).map image
          (Merged.map image)) ∧
    ∀ patience (m : Merging α), leapThrough before mirrored fuel patience (m.map image) =
      (leapThrough (byImages image before) mirrored fuel patience m).map image
        (Merged.map image) := by
  have rest (patience : Nat) (m : Merging α) :
      (pure ⟨(m.map image).taken.reverse ++ (m.map image).short ++ (m.map image).long, patience⟩ :
        Part β (Merged β)) = Part.map image (Merged.map image)
          (pure ⟨m.taken.reverse ++ m.short ++ m.long, patience⟩) := by
    simp [Part.map_pure, Merged.map, Merging.map]
  -- Each of the two goes over to the other, so they share the induction.
  induction fuel with
  | zero => exact ⟨fun patience _ _ m => rest patience m, rest⟩
  | succ fuel ih =>
    obtain ⟨steps, leaps⟩ := ih
    constructor
    · intro patience shortWon streak m
      refine Part.map_bind_lift image ?_ fun overtaken => ?_
      · simp only [Merging.map, List.head?_map]
        cases m.short.head? with
        | none => rfl
        | some => cases m.long.head? <;> rfl
      · rw [Merging.take_map]
        refine Part.map_bind image (goOn_image image patience _) fun next => ?_
        generalize (if shortWon == !overtaken then streak + 1 else 1) = wins
        dsimp only
        split
        · exact leaps _ next
        · exact steps _ _ _ next
    · intro patience m
      refine Part.map_bind image (leap_image image before mirrored _ _ m) fun ⟨first, halfway⟩ => ?_
      refine Part.map_bind image (leap_image image before mirrored _ _ halfway) fun ⟨second, next⟩ => ?_
      dsimp only [Prod.map, id]
      split
      · exact leaps _ next
      · exact steps _ _ _ next

theorem mergeInto_image (patience : Nat) (short long : List α) :
    mergeInto before mirrored patience (short.map image) (long.map image) =
      (mergeInto (byImages image before) mirrored patience short long).map (Merged.map image) := by
  have start : Merging.take ⟨[], short.map image, long.map image⟩ false 1 =
      (Merging.take ⟨[], short, long⟩ false 1).map image := Merging.take_map image ⟨[], short, long⟩ _ _
  have merge := Part.map_bind image (goOn_image image patience
    (Merging.take ⟨[], short, long⟩ false 1)) fun m =>
      (through_image image before mirrored (short.length + long.length)).1 patience false 0 m
  unfold mergeInto
  rw [start, List.length_map, List.length_map]
  refine bind_image (congrArg ExceptT.run merge) fun outcome => ?_
  cases outcome <;> rfl

end

theorem mergeRest_image (patience : Nat) (first second : List α) :
    mergeRest before patience (first.map image) (second.map image) =
      (mergeRest (byImages image before) patience first second).map (Merged.map image) := by
  unfold mergeRest
  simp only [List.isEmpty_map, List.length_map, ← List.map_reverse, mergeInto_image]
  split
  · rfl
  · split
    · rfl
    · simp [Option.map_map, Function.comp_def, Merged.map]

theorem mergeRuns_image (patience : Nat) (first second : List α) :
    mergeRuns before patience (first.map image) (second.map image) =
      (mergeRuns (byImages image before) patience first second).map (Merged.map image) := by
  refine bind_image List.head?_map fun head => ?_
  simp only [asked_image, List.length_map, ← List.map_drop, List.getLast?_map]
  refine bind_same _ fun kept => ?_
  cases (first.drop kept).getLast? with
  | none => simp [Merged.map]
  | some last =>
    simp only [Option.map_some, ← List.map_take]
    refine bind_same _ fun count => ?_
    refine bind_image (mergeRest_image image before patience _ _) fun merged => ?_
    simp [Merged.map]

/-! ### Piles -/

def Run.map (run : Run α) : Run β := ⟨run.start, run.items.map image, run.power⟩

def Pile.map (pile : Pile α) : Pile β := ⟨pile.runs.map (Run.map image), pile.patience⟩

theorem joinRuns_image (patience : Nat) (older newer : Run α) :
    joinRuns before patience (older.map image) (newer.map image) =
      (joinRuns (byImages image before) patience older newer).map (Prod.map (Run.map image) id) :=
  bind_image (mergeRuns_image image before patience _ _) fun _ => rfl

theorem mergeDeeper_image (power patience : Nat) (newest : Run α) (runs : List (Run α)) :
    mergeDeeper before power patience (newest.map image) (runs.map (Run.map image)) =
      (mergeDeeper (byImages image before) power patience newest runs).map (Pile.map image) := by
  induction runs generalizing patience newest with
  | nil => rfl
  | cons older rest ih =>
    rw [List.map_cons, mergeDeeper, mergeDeeper]
    have power_eq : (older.map image).power = older.power := rfl
    rw [power_eq]
    split
    · exact bind_image (joinRuns_image image before patience _ _) fun ⟨joined, patience⟩ => ih _ joined
    · rfl

theorem add_image (size : Nat) (pile : Pile α) (run : Run α) :
    (pile.map image).add before size (run.map image) =
      (pile.add (byImages image before) size run).map (Pile.map image) := by
  obtain ⟨runs, patience⟩ := pile
  cases runs with
  | nil => rfl
  | cons newest rest =>
    have lengths (run : Run α) : (run.map image).items.length = run.items.length := List.length_map _
    simp only [Pile.map, List.map_cons, Pile.add, lengths]
    exact bind_image (mergeDeeper_image image before _ patience newest rest) fun _ => rfl

theorem mergeAll_image (patience : Nat) (runs : List (Run α)) :
    mergeAll before patience (runs.map (Run.map image)) =
      (mergeAll (byImages image before) patience runs).map (List.map image) := by
  have join := joinRuns_image image before
  have size (run : Run α) : (run.map image).items.length = run.items.length := List.length_map _
  fun_induction mergeAll (byImages image before) patience runs with
  | case1 patience => simp [mergeAll]
  | case2 patience run => simp [mergeAll, Run.map]
  | case3 patience newest older =>
    simp only [List.map_cons, List.map_nil, mergeAll]
    exact bind_image (join patience older newest) fun _ => rfl
  | case4 patience newest older oldest rest less ih =>
    rw [List.map_cons, List.map_cons, List.map_cons, mergeAll, size, size, if_pos less]
    exact bind_image (join patience oldest older) fun ⟨joined, patience⟩ => ih joined patience
  | case5 patience newest older oldest rest more ih =>
    rw [List.map_cons, List.map_cons, List.map_cons, mergeAll, size, size, if_neg more]
    exact bind_image (join patience older newest) fun ⟨joined, patience⟩ => ih joined patience

theorem insertAll_image (items run : List α) :
    (items.map image).foldlM (insert before) (run.map image) =
      (items.foldlM (insert (byImages image before)) run).map (List.map image) := by
  induction items generalizing run with
  | nil => rfl
  | cons item rest ih =>
    rw [List.map_cons, List.foldlM_cons, List.foldlM_cons]
    exact bind_image (insert_image image before run item) ih

theorem pileUp_image (size fuel start : Nat) (pile : Pile α) (items : List α) :
    pileUp before size fuel start (pile.map image) (items.map image) =
      (pileUp (byImages image before) size fuel start pile items).map (Pile.map image) := by
  induction fuel generalizing start pile items with
  | zero => rfl
  | succ fuel ih =>
    match items with
    | [] => rfl
    | first :: rest =>
      refine bind_image (firstRun_image image before (first :: rest)) fun ⟨found, rest⟩ => ?_
      simp only [Prod.map, List.length_map, ← List.map_take, ← List.map_drop]
      refine bind_image (insertAll_image image before _ found) fun run => ?_
      rw [List.length_map]
      exact bind_image (add_image image before size pile ⟨start, run, 0⟩) fun next =>
        ih (start + run.length) next _

/-- Images of items are sorted as the items are. -/
theorem byRuns_image (items : List α) :
    byRuns before (items.map image) =
      (byRuns (byImages image before) items).map (List.map image) := by
  unfold byRuns
  rw [List.length_map]
  exact bind_image (pileUp_image image before _ _ 0 ⟨[], worthwhile⟩ items) fun pile =>
    mergeAll_image image before pile.patience pile.runs

end Sorting
end Stencil
