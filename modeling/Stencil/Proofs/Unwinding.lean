import Mathlib.Data.List.TakeWhile
import Stencil.Scope

/-! Blocks under a frame of their own. Whatever is done to a scope inside one, the frame of the
block either stays where it was pushed, with the stack of the entry under it, or it is gone for
good; leaving the block restores the stack in the first case and takes nothing away in the
second. -/
namespace Stencil.Scope

/-! ### Programs on a scope -/

/-- A thing done to a scope. -/
inductive Step (ε : Type)
  | push (bindings : Dict Value)
  | pop
  | clear
  | set (name : String) (value : Value)
  | setGlobal (name : String) (value : Value)
  /-- Raises an exception. -/
  | raise (exception : ε)
  /-- Steps under a frame of their own. -/
  | frame (bindings : Dict Value) (body : List (Step ε))
  /-- Steps whose exception is caught. -/
  | guarded (body : List (Step ε))

/-- Writes to the global frame, the oldest first. -/
abbrev Writes := Dict Value

section Run

variable {ε : Type} (wrap : Fault → ε)

mutual
/-- What a step ends with, the scope that it leaves and the writes to the global frame so far. -/
def Step.run : Step ε → Scope → Writes → Except ε Unit × Scope × Writes
  | push bindings, scope, writes => (.ok (), scope.push bindings, writes)
  | pop, scope, writes =>
    match scope.pop with
    | .ok (_, outer) => (.ok (), outer, writes)
    | .error fault => (.error (wrap fault), scope, writes)
  | clear, scope, writes => (.ok (), scope.clear, writes)
  | set name value, scope, writes => (.ok (), scope.set name value, writes)
  | setGlobal name value, scope, writes =>
    (.ok (), scope.setGlobal name value, writes ++ [(name, value)])
  | raise exception, scope, writes => (.error exception, scope, writes)
  | frame bindings body, scope, writes => scope.within wrap bindings (Step.runAll body) writes
  | guarded body, scope, writes => (.ok (), (Step.runAll body scope writes).2)
termination_by structural step => step
/-- Steps one after the other, up to the first that raises an exception. -/
def Step.runAll : List (Step ε) → Scope → Writes → Except ε Unit × Scope × Writes
  | [], scope, writes => (.ok (), scope, writes)
  | step :: rest, scope, writes =>
    match step.run scope writes with
    | (.ok _, next, more) => Step.runAll rest next more
    | (.error exception, next, more) => (.error exception, next, more)
termination_by structural steps => steps
end

end Run

/-! ### Leaving a block -/

/-- The frame of a number is on the stack. -/
def Holds (scope : Scope) (number : Nat) : Prop := ∃ layer ∈ scope.layers, layer.number = number

/-- All frames were pushed before the one that is pushed next. -/
def Numbered (scope : Scope) : Prop := ∀ layer ∈ scope.layers, layer.number < scope.fresh

section Leave

variable {scope : Scope} {number : Nat} {above below : List Layer} {own : Layer}

theorem passed_iff {layers : List Layer} :
    (∀ layer ∈ layers, (layer.number != number) = true) ↔
      ∀ layer ∈ layers, layer.number ≠ number := by
  simp

theorem unwind_of_not_holds (gone : ¬ scope.Holds number) : scope.unwind number = scope := by
  have passed : scope.layers.dropWhile (·.number != number) = [] :=
    List.dropWhile_eq_nil_iff.mpr (passed_iff.mpr fun layer member same =>
      gone ⟨layer, member, same⟩)
  rw [unwind, passed]

/-- The frames below the one that is unwound to stay, and so do all below which there is none. -/
theorem unwind_append (number : Nat) (stack : scope.layers = above ++ below)
    (passed : ∀ layer ∈ below, layer.number ≠ number) :
    ∃ rest, rest ⊆ above ∧ (scope.unwind number).layers = rest ++ below := by
  have nothing : below.dropWhile (·.number != number) = [] :=
    List.dropWhile_eq_nil_iff.mpr (passed_iff.mpr passed)
  have suffix := List.dropWhile_suffix (l := above) (·.number != number)
  have dropped : (above ++ below).dropWhile (·.number != number) = _ := List.dropWhile_append
  rw [nothing] at dropped
  unfold unwind
  rw [stack, dropped]
  cases left : above.dropWhile (·.number != number) with
  | nil => exact ⟨above, List.Subset.refl _, stack⟩
  | cons layer rest =>
    rw [left] at suffix
    exact ⟨rest, fun other member => suffix.subset (List.mem_cons_of_mem _ member), rfl⟩

/-- The frame that is unwound to goes with all above it. -/
theorem unwind_own (stack : scope.layers = above ++ own :: below) (same : own.number = number)
    (passed : ∀ layer ∈ above, layer.number ≠ number) :
    scope.unwind number = { scope with layers := below } := by
  have stops : (own.number != number) = false := by simp [same]
  have dropped : scope.layers.dropWhile (·.number != number) = own :: below := by
    rw [stack, List.dropWhile_append_of_pos (passed_iff.mpr passed), List.dropWhile_cons, stops]
    rfl
  rw [unwind, dropped]

/-- Leaving a block unwinds to its frame, however its body ended. -/
theorem within_leaves {τ ε α : Type} (wrap : Fault → ε) (bindings : Dict Value)
    (body : Scope → τ → Except ε α × Scope × τ) (scope : Scope) (state : τ) :
    (scope.within wrap bindings body state).2 =
      ((body (scope.push bindings) state).2.1.unwind scope.fresh,
        (body (scope.push bindings) state).2.2) := by
  rcases run : body (scope.push bindings) state with ⟨result, left, after⟩
  simp only [within, run, leave]
  cases result with
  | error e => rfl
  | ok a => cases left.isTop scope.fresh <;> rfl

/-- An exception of the body passes through. -/
theorem within_of_error {τ ε α : Type} {wrap : Fault → ε} {bindings : Dict Value}
    {body : Scope → τ → Except ε α × Scope × τ} {scope : Scope} {state : τ} {exception : ε}
    (raised : (body (scope.push bindings) state).1 = .error exception) :
    (scope.within wrap bindings body state).1 = .error exception := by
  rcases run : body (scope.push bindings) state with ⟨result, left, after⟩
  obtain rfl : result = .error exception := by rw [← raised, run]
  simp only [within, run, leave]

/-- After a body without an exception its frame has to be on top. -/
theorem within_of_ok {τ ε α : Type} {wrap : Fault → ε} {bindings : Dict Value}
    {body : Scope → τ → Except ε α × Scope × τ} {scope : Scope} {state : τ} {a : α}
    (normal : (body (scope.push bindings) state).1 = .ok a) :
    (scope.within wrap bindings body state).1 =
      if (body (scope.push bindings) state).2.1.isTop scope.fresh then .ok a
      else .error (wrap .framesOutOfOrder) := by
  rcases run : body (scope.push bindings) state with ⟨result, left, after⟩
  obtain rfl : result = .ok a := by rw [← normal, run]
  simp only [within, run, leave]
  cases left.isTop scope.fresh <;> rfl

end Leave

/-! ### Inside a block -/

section Numbered

variable {scope outer : Scope}

theorem numbered_ofGlobals (globals : Dict Value) : (ofGlobals globals).Numbered :=
  fun _ member => nomatch member

theorem Numbered.push (numbered : scope.Numbered) (bindings : Dict Value) :
    (scope.push bindings).Numbered :=
  List.forall_mem_cons.mpr ⟨Nat.lt_succ_self _, fun layer member =>
    Nat.lt_succ_of_lt (numbered layer member)⟩

theorem Numbered.of_subset (numbered : scope.Numbered) (subset : outer.layers ⊆ scope.layers)
    (same : outer.fresh = scope.fresh) : outer.Numbered :=
  fun layer member => same ▸ numbered layer (subset member)

theorem unwind_rests (scope : Scope) (number : Nat) :
    (scope.unwind number).layers ⊆ scope.layers ∧ (scope.unwind number).fresh = scope.fresh ∧
      (scope.unwind number).globals = scope.globals := by
  obtain ⟨rest, subset, left⟩ := unwind_append number (List.append_nil scope.layers).symm
    fun _ member => nomatch member
  rw [List.append_nil] at left
  refine ⟨left ▸ subset, ?_⟩
  unfold unwind
  split <;> exact ⟨rfl, rfl⟩

end Numbered

/-- The frame that was pushed at the entry lies on the stack of the entry, of which nothing has
changed but the global frame, and that by the writes alone. -/
structure Kept (entry scope : Scope) (writes : Writes) : Prop where
  stack : ∃ above own, scope.layers = above ++ own :: entry.layers ∧ own.number = entry.fresh ∧
    ∀ layer ∈ above, layer.number ≠ entry.fresh
  globals : scope.globals = entry.globals.update writes

/-- A scope on the way through a block, which was entered with `entry`. -/
structure Inside (entry scope : Scope) (writes : Writes) : Prop where
  numbered : scope.Numbered
  later : entry.fresh < scope.fresh
  frame : Kept entry scope writes ∨ ¬ scope.Holds entry.fresh

section Inside

variable {entry scope : Scope} {writes : Writes}

theorem Kept.holds (kept : Kept entry scope writes) : scope.Holds entry.fresh := by
  obtain ⟨above, own, stack, same, -⟩ := kept.stack
  exact ⟨own, by simp [stack], same⟩

theorem inside_push (numbered : entry.Numbered) (bindings : Dict Value) :
    Inside entry (entry.push bindings) [] where
  numbered := numbered.push bindings
  later := Nat.lt_succ_self _
  frame := .inl ⟨⟨[], _, rfl, rfl, fun _ member => nomatch member⟩, rfl⟩

theorem Inside.push (inside : Inside entry scope writes) (bindings : Dict Value) :
    Inside entry (scope.push bindings) writes where
  numbered := inside.numbered.push bindings
  later := Nat.lt_succ_of_lt inside.later
  frame := by
    have other : scope.fresh ≠ entry.fresh := Nat.ne_of_gt inside.later
    rcases inside.frame with ⟨⟨above, own, stack, same, apart⟩, globals⟩ | gone
    · refine .inl ⟨⟨_ :: above, own, congrArg _ stack, same, ?_⟩, globals⟩
      exact List.forall_mem_cons.mpr ⟨other, apart⟩
    · refine .inr ?_
      rintro ⟨layer, member, same⟩
      rcases List.mem_cons.mp member with rfl | member
      · exact other same
      · exact gone ⟨layer, member, same⟩

/-- Only a frame of its own is popped. -/
theorem exists_of_pop {top : Dict Value} {outer : Scope} (popped : scope.pop = .ok (top, outer)) :
    ∃ first rest, scope.layers = first :: rest ∧ outer = { scope with layers := rest } := by
  unfold Scope.pop at popped
  cases layers : scope.layers with
  | nil => simp [layers] at popped
  | cons first rest =>
    simp only [layers, Except.ok.injEq, Prod.mk.injEq] at popped
    exact ⟨first, rest, rfl, popped.2.symm⟩

theorem Inside.pop (numbered : entry.Numbered) (inside : Inside entry scope writes)
    {top : Dict Value} {outer : Scope} (popped : scope.pop = .ok (top, outer)) :
    Inside entry outer writes := by
  obtain ⟨first, rest, layers, rfl⟩ := exists_of_pop popped
  have subset : rest ⊆ scope.layers := layers ▸ List.subset_cons_self first rest
  refine ⟨inside.numbered.of_subset subset rfl, inside.later, ?_⟩
  rcases inside.frame with ⟨⟨above, own, stack, same, apart⟩, globals⟩ | gone
  · rw [layers] at stack
    cases above with
    | nil =>
      -- The own frame was on top, and no frame of the entry has its number.
      cases stack
      exact .inr fun ⟨layer, member, clash⟩ => Nat.ne_of_lt (numbered layer member) clash
    | cons layer above =>
      cases stack
      exact .inl ⟨⟨above, own, rfl, same, fun other member =>
        apart other (List.mem_cons_of_mem _ member)⟩, globals⟩
  · exact .inr fun ⟨layer, member, same⟩ => gone ⟨layer, subset member, same⟩

theorem Inside.clear (inside : Inside entry scope writes) : Inside entry scope.clear writes where
  numbered _ member := nomatch member
  later := inside.later
  frame := .inr fun ⟨_, member, _⟩ => nomatch member

theorem Inside.set (inside : Inside entry scope writes) (name : String) (value : Value) :
    Inside entry (scope.set name value) writes := by
  unfold Scope.set
  cases layers : scope.layers with
  | nil =>
    exact ⟨(fun _ member => nomatch member), inside.later, .inr fun ⟨_, member, _⟩ => nomatch member⟩
  | cons first rest =>
    have numbered := inside.numbered
    rw [Numbered, layers] at numbered
    obtain ⟨top, below⟩ := List.forall_mem_cons.mp numbered
    refine ⟨List.forall_mem_cons.mpr ⟨top, below⟩, inside.later, ?_⟩
    rcases inside.frame with ⟨⟨above, own, stack, same, apart⟩, globals⟩ | gone
    · rw [layers] at stack
      cases above with
      | nil =>
        cases stack
        exact .inl ⟨⟨[], _, rfl, same, apart⟩, globals⟩
      | cons layer above =>
        cases stack
        obtain ⟨here, further⟩ := List.forall_mem_cons.mp apart
        exact .inl ⟨⟨_ :: above, own, rfl, same, List.forall_mem_cons.mpr ⟨here, further⟩⟩, globals⟩
    · refine .inr fun ⟨layer, member, same⟩ => ?_
      rcases List.mem_cons.mp member with rfl | member
      · exact gone ⟨first, by simp [layers], same⟩
      · exact gone ⟨layer, by simp [layers, member], same⟩

theorem Inside.setGlobal (inside : Inside entry scope writes) (name : String) (value : Value) :
    Inside entry (scope.setGlobal name value) (writes ++ [(name, value)]) where
  numbered := inside.numbered
  later := inside.later
  frame := by
    refine inside.frame.imp_left fun ⟨stack, globals⟩ => ⟨stack, ?_⟩
    rw [Dict.update, List.foldl_append, Scope.setGlobal, globals]
    rfl

/-- To unwind to a frame that was pushed inside the block leaves the frame of the block alone. -/
theorem Inside.unwind (numbered : entry.Numbered) (inside : Inside entry scope writes)
    {number : Nat} (later : entry.fresh < number) :
    Inside entry (scope.unwind number) writes := by
  obtain ⟨fewer, fresh, globals_eq⟩ := unwind_rests scope number
  refine ⟨inside.numbered.of_subset fewer fresh, fresh ▸ inside.later, ?_⟩
  rcases inside.frame with ⟨⟨above, own, stack, same, apart⟩, globals⟩ | gone
  · have passed : ∀ layer ∈ own :: entry.layers, layer.number ≠ number := by
      refine List.forall_mem_cons.mpr ⟨by omega, fun layer member => ?_⟩
      have before := numbered layer member
      omega
    obtain ⟨rest, subset, left⟩ := unwind_append number stack passed
    exact .inl ⟨⟨rest, own, left, same, fun layer member => apart layer (subset member)⟩,
      globals_eq.trans globals⟩
  · exact .inr fun ⟨layer, member, same⟩ => gone ⟨layer, fewer member, same⟩

end Inside

section Run

variable {ε : Type} {wrap : Fault → ε} {entry : Scope}

mutual
theorem Step.run_inside (numbered : entry.Numbered) : (step : Step ε) → (scope : Scope) →
    (writes : Writes) → Inside entry scope writes →
      Inside entry (step.run wrap scope writes).2.1 (step.run wrap scope writes).2.2
  | push bindings, _, _, inside => inside.push bindings
  | pop, scope, writes, inside => by
    rw [Step.run]
    cases popped : scope.pop with
    | ok result => exact inside.pop numbered popped
    | error fault => exact inside
  | clear, _, _, inside => inside.clear
  | set name value, _, _, inside => inside.set name value
  | setGlobal name value, _, _, inside => inside.setGlobal name value
  | raise _, _, _, inside => inside
  | frame bindings body, scope, writes, inside => by
    rw [Step.run, within_leaves]
    have ended := Step.runAll_inside numbered body _ _ (inside.push bindings)
    exact ended.unwind numbered inside.later
  | guarded body, scope, writes, inside => Step.runAll_inside numbered body scope writes inside
/-- The frame of a block stays where it was pushed until it is gone for good. -/
theorem Step.runAll_inside (numbered : entry.Numbered) : (steps : List (Step ε)) →
    (scope : Scope) → (writes : Writes) → Inside entry scope writes →
      Inside entry (Step.runAll wrap steps scope writes).2.1 (Step.runAll wrap steps scope writes).2.2
  | [], _, _, inside => inside
  | step :: rest, scope, writes, inside => by
    have next := step.run_inside numbered scope writes inside
    rw [Step.runAll]
    rcases run : step.run wrap scope writes with ⟨result, after, more⟩
    rw [run] at next
    cases result with
    | ok _ => exact Step.runAll_inside numbered rest after more next
    | error exception => exact next
end

end Run

/-! ### After a block -/

section After

variable {ε : Type} {entry scope : Scope} {writes : Writes}

/-- The frame of a block goes with all above it, or nothing goes. -/
theorem Inside.left (inside : Inside entry scope writes) :
    (scope.Holds entry.fresh → (scope.unwind entry.fresh).layers = entry.layers ∧
      (scope.unwind entry.fresh).globals = entry.globals.update writes) ∧
    (¬ scope.Holds entry.fresh → scope.unwind entry.fresh = scope) := by
  refine ⟨fun holds => ?_, unwind_of_not_holds⟩
  obtain ⟨⟨above, own, stack, same, apart⟩, globals⟩ :=
    inside.frame.resolve_right fun gone => gone holds
  rw [unwind_own stack same apart]
  exact ⟨rfl, globals⟩

theorem holds_of_isTop {number : Nat} (top : scope.isTop number = true) : scope.Holds number := by
  unfold isTop at top
  cases layers : scope.layers with
  | nil => simp [layers] at top
  | cons layer rest => exact ⟨layer, by simp [layers], by simpa [layers] using top⟩

/-- A block whose frame is still on the stack when it is left restores the stack of the entry, up to
the writes to the global frame; one whose frame is gone takes nothing away. Leaving raises the
complaint about the order of frames exactly if the body ended without an exception and the frame
is not on top, and an exception of the body passes as it is. -/
theorem frame_restores_unless_popped (wrap : Fault → ε) (numbered : entry.Numbered)
    (bindings : Dict Value) (body : List (Step ε)) :
    let ended := Step.runAll wrap body (entry.push bindings) []
    let left := entry.within wrap bindings (Step.runAll wrap body) []
    (ended.2.1.Holds entry.fresh → left.2.1.layers = entry.layers ∧
      left.2.1.globals = entry.globals.update ended.2.2) ∧
    (¬ ended.2.1.Holds entry.fresh → left.2.1 = ended.2.1) ∧
    (left.1 = .error (wrap .framesOutOfOrder) ∧ left.1 ≠ ended.1 ↔
      ended.1 = .ok () ∧ ended.2.1.isTop entry.fresh = false) ∧
    (ended.1 = .ok () ∧ ended.2.1.isTop entry.fresh = true → left.1 = .ok ()) ∧
    (∀ exception, ended.1 = .error exception → left.1 = .error exception) ∧
    left.2.1.Numbered := by
  intro ended left
  have inside : Inside entry ended.2.1 ended.2.2 :=
    Step.runAll_inside numbered body _ _ (inside_push numbered bindings)
  have scope : left.2.1 = ended.2.1.unwind entry.fresh := congrArg Prod.fst (within_leaves ..)
  have normal (same : ended.1 = .ok ()) : left.1 =
      if ended.2.1.isTop entry.fresh then .ok () else .error (wrap .framesOutOfOrder) :=
    within_of_ok same
  have raised (exception : ε) (same : ended.1 = .error exception) : left.1 = .error exception :=
    within_of_error same
  obtain ⟨fewer, fresh, -⟩ := unwind_rests ended.2.1 entry.fresh
  rw [scope]
  refine ⟨inside.left.1, inside.left.2, ?_, ?_, raised, inside.numbered.of_subset fewer fresh⟩
  · cases same : ended.1 with
    | error exception => simp [raised exception same]
    | ok _ => cases top : ended.2.1.isTop entry.fresh <;> simp [normal same, top]
  · rintro ⟨same, top⟩
    rw [normal same, top, if_pos rfl]

/-- One frame over a global one. -/
def paired : Scope := (ofGlobals [("x", .int 1)]).push [("y", .int 2)]

theorem numbered_paired : paired.Numbered := (numbered_ofGlobals _).push _

/-- The frame of the block gets a variable, another frame above it, a block inside that loses its
own frame, and a new global variable. -/
def untidy : List (Step Fault) :=
  [.set "z" (.int 3), .push [("z", .int 4)], .guarded [.frame [] [.pop, .push [], .pop]],
    .setGlobal "x" (.int 5)]

/-- The frame of the block is still there, but not on top. -/
theorem untidy_block_is_restored :
    paired.Numbered ∧
      (paired.within id [("w", .null)] (Step.runAll id untidy) []).2.1.layers = paired.layers ∧
      (paired.within id [("w", .null)] (Step.runAll id untidy) []).2.1.globals = [("x", .int 5)] ∧
      (paired.within id [("w", .null)] (Step.runAll id untidy) []).1 = .error .framesOutOfOrder := by
  have whole := frame_restores_unless_popped id numbered_paired [("w", .null)] untidy
  obtain ⟨restored, -, complains, -⟩ := whole
  obtain ⟨layers, globals⟩ := restored ⟨⟨1, [("w", .null), ("z", .int 3)]⟩, by
    refine ⟨?_, rfl⟩
    exact List.mem_cons_of_mem _ List.mem_cons_self⟩
  exact ⟨numbered_paired, layers, globals, (complains.mpr ⟨rfl, rfl⟩).1⟩

/-! ### Frames that outlive a block -/

/-- After a block there are no more frames than before, and none that was pushed inside, unless the
frame of the block was popped inside it. Then leaving takes nothing away and raises an exception:
the complaint about the order of frames, or that of the body. -/
theorem frames_outlive_popped_block_only (wrap : Fault → ε) (numbered : entry.Numbered)
    (bindings : Dict Value) (body : List (Step ε)) :
    let ended := Step.runAll wrap body (entry.push bindings) []
    let left := entry.within wrap bindings (Step.runAll wrap body) []
    (left.2.1.depth ≤ entry.depth ∧ ∀ layer ∈ left.2.1.layers, layer.number < entry.fresh) ∨
      ¬ ended.2.1.Holds entry.fresh ∧ left.2.1 = ended.2.1 ∧
        ((ended.1 = .ok () ∧ left.1 = .error (wrap .framesOutOfOrder)) ∨
          ∃ exception, ended.1 = .error exception ∧ left.1 = .error exception) := by
  intro ended left
  have inside : Inside entry ended.2.1 ended.2.2 :=
    Step.runAll_inside numbered body _ _ (inside_push numbered bindings)
  have scope : left.2.1 = ended.2.1.unwind entry.fresh := congrArg Prod.fst (within_leaves ..)
  by_cases holds : ended.2.1.Holds entry.fresh
  · have layers := (inside.left.1 holds).1
    rw [scope, depth, depth, layers]
    exact .inl ⟨Nat.le_refl _, numbered⟩
  · refine .inr ⟨holds, scope.trans (inside.left.2 holds), ?_⟩
    cases same : ended.1 with
    | error exception => exact .inr ⟨exception, rfl, within_of_error same⟩
    | ok _ =>
      have other : ended.2.1.isTop entry.fresh = false :=
        Bool.eq_false_iff.mpr fun top => holds (holds_of_isTop top)
      have complaint : left.1 = _ := within_of_ok same
      exact .inl ⟨rfl, complaint.trans (by rw [other]; rfl)⟩

/-- The frame of the block is popped, and two others are pushed. -/
def swapped : List (Step Fault) := [.pop, .push [("a", .int 1)], .push [("b", .int 2)]]

theorem swapped_frames_are_left :
    paired.Numbered ∧
      ¬ (Step.runAll id swapped (paired.push []) []).2.1.Holds paired.fresh ∧
      (paired.within id [] (Step.runAll id swapped) []).2.1 =
        (Step.runAll id swapped (paired.push []) []).2.1 ∧
      (paired.within id [] (Step.runAll id swapped) []).1 = .error .framesOutOfOrder := by
  rcases frames_outlive_popped_block_only id numbered_paired [] swapped with
    ⟨fewer, -⟩ | ⟨gone, same, ⟨-, complaint⟩ | ⟨_, raised, -⟩⟩
  · exact absurd fewer (by decide)
  · exact ⟨numbered_paired, gone, same, complaint⟩
  · cases raised

/-- More frames are left than there were. -/
theorem swapped_frames_outlive_block :
    ¬ ∀ (entry : Scope), entry.Numbered → ∀ (bindings : Dict Value) (body : List (Step Fault)),
      (entry.within id bindings (Step.runAll id body) []).2.1.depth ≤ entry.depth := by
  intro bounded
  have fewer := bounded empty (numbered_ofGlobals []) [] swapped
  exact absurd fewer (by decide)

end After

end Stencil.Scope
