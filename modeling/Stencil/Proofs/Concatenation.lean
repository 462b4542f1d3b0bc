import Stencil.Proofs.Inheritance
import Stencil.Proofs.Repetition

/-! Loops over lists that are put together. The loop over two lists, one behind the other, puts out
what the loops over each put out: a body that names neither the state of the loop nor the list cannot
tell which of the loops it is in. Only the frames are counted on, and the items stand at later places;
so what is no number came up elsewhere, which the rendering does not show. -/
namespace Stencil

open Rendering

variable {σ : Type}

/-! ### Later frames and places -/

namespace Renaming

/-- A place within the items, behind further items. -/
def behind (count : Nat) (place : List Nat) : List Nat :=
  (place.reverse.modifyHead (count + ·)).reverse

theorem behind_append (count : Nat) (inner : List Nat) (index : Nat) :
    behind count (inner ++ [index]) = inner ++ [count + index] := by
  simp [behind]

theorem behind_injective (count : Nat) : Function.Injective (behind count) := by
  intro place other same
  have heads := List.reverse_injective same
  apply List.reverse_injective
  generalize place.reverse = first at heads ⊢
  generalize other.reverse = second at heads ⊢
  cases first <;> cases second <;> simp_all

/-- A frame with a place: the items bound in one frame stand behind further items, and the frames
after it have numbers that are greater by `shift`. -/
def moved (frame count shift : Nat) (spot : Nat × List Nat) : Nat × List Nat :=
  if spot.1 < frame then spot
  else if spot.1 = frame then (frame, behind count spot.2)
  else (spot.1 + shift, spot.2)

theorem moved_injective (frame count shift : Nat) :
    Function.Injective (moved frame count shift) := by
  rintro ⟨first, place⟩ ⟨second, other⟩ same
  unfold moved at same
  dsimp only at same
  split_ifs at same <;> simp_all [(behind_injective count).eq_iff] <;> omega

def later (frame count shift : Nat) : Renaming where
  source
    | .looped other place =>
      .looped (moved frame count shift (other, place)).1 (moved frame count shift (other, place)).2
    | source => source
  injective first second same := by
    cases first <;> cases second <;> simp_all
    have spots := moved_injective frame count shift (Prod.ext same.1 same.2)
    exact Prod.mk.inj spots
  elsewhere {given} unlooped := by
    cases given with
    | looped => exact absurd unlooped (Nat.not_lt_zero _)
    | _ => rfl

section Later

variable {frame count shift : Nat}

theorem later_of_before {source : NanSource} (before : source.Before frame) :
    (later frame count shift).source source = source := by
  cases source with
  | looped other place =>
    have earlier : other < frame := before
    simp [later, moved, earlier]
  | _ => rfl

theorem later_shifts : (later frame count shift).Shifts (frame + 1) shift := by
  intro other after place
  have beyond : ¬ other < frame ∧ other ≠ frame := by omega
  simp [later, moved, beyond]

theorem later_takes (index : Nat) :
    (later frame count shift).Takes frame frame [index] [count + index] := by
  intro inner
  simp [later, moved, behind_append]

end Later

end Renaming

/-! ### Values from before -/

theorem Value.Before.kept {frame count shift : Nat} {value : Value} (before : value.Before frame) :
    value.renamed (.later frame count shift) = value :=
  renamed_eq_self _ value fun source member => Renaming.later_of_before (before source member)

theorem Value.itemNans_append (items others : List Value) :
    itemNans (items ++ others) = itemNans items ++ itemNans others := by
  induction items with
  | nil => rfl
  | cons item rest ih => rw [List.cons_append, itemNans, itemNans, ih, List.append_assoc]

theorem Value.settledItems_append (frame index : Nat) (place : List Nat) (items others : List Value) :
    settledItems frame place index (items ++ others) =
      settledItems frame place index items ++
        settledItems frame place (index + items.length) others := by
  induction items generalizing index with
  | nil => rfl
  | cons item rest ih =>
    rw [List.cons_append, settledItems, settledItems, ih, List.cons_append, List.length_cons,
      Nat.add_assoc, Nat.add_comm 1]

theorem Value.length_settledItems (frame index : Nat) (place : List Nat) (items : List Value) :
    (settledItems frame place index items).length = items.length := by
  induction items generalizing index with
  | nil => rfl
  | cons item rest ih => rw [settledItems, List.length_cons, List.length_cons, ih]

/-- What is no number in a value that a name stands for came up in a frame that the scope has had. -/
def Scope.Settled (scope : Scope) : Prop := ∀ name, (scope.get name).Before scope.fresh

theorem NanSource.Before.of_unlooped {source : NanSource} (unlooped : source.Before 0) (frame : Nat) :
    source.Before frame := by
  cases source with
  | looped => exact absurd unlooped (Nat.not_lt_zero _)
  | _ => trivial

/-- Values that are handed in come from no loop. -/
theorem Scope.settled_of_unlooped {scope : Scope}
    (unlooped : ∀ bindings ∈ scope.frames, ∀ entry ∈ bindings, entry.2.Before 0) :
    scope.Settled := by
  intro name source member
  refine NanSource.Before.of_unlooped ?_ _
  rw [get] at member
  cases found : scope.find? name with
  | some value =>
    obtain ⟨bindings, inside, bound⟩ := List.exists_of_findSome?_eq_some found
    rw [found] at member
    exact unlooped bindings inside _ (Dict.mem_of_get? bound) source member
  | none =>
    rw [found, Option.getD_none] at member
    cases literal : Dict.get? literals name with
    | none =>
      rw [literal] at member
      cases member
    | some value =>
      have plain : ∀ entry ∈ literals, entry.2.nans = [] := by simp [literals, Value.nans]
      rw [literal, Option.getD_some, plain _ (Dict.mem_of_get? literal)] at member
      cases member

/-! ### Loops -/

/-- All names but that of the loop's state and a further one, and the functions that do not look at
the time or draw a number. -/
def Likeness.aside (name : String) : Likeness :=
  ⟨fun other => other ≠ "loop" ∧ other ≠ name,
    fun function => function ≠ "now" ∧ function ≠ "random", fun _ => True, False, False⟩

namespace Node

theorem renderItems_append (body : Rendering σ String) (binding : LoopBinding) (length index : Nat)
    (items others : List Value) :
    renderItems body binding length index (items ++ others) = do
      let first ← renderItems body binding length index items
      return first ++ (← renderItems body binding length (index + items.length) others) := by
  induction items generalizing index with
  | nil => simp only [List.nil_append, renderItems, pure_bind, String.empty_append, bind_pure,
      List.length_nil, Nat.add_zero]
  | cons item rest ih =>
    rw [List.cons_append, renderItems, renderItems, ih]
    simp only [bind_assoc, pure_bind, String.append_assoc, List.length_cons]
    rw [Nat.add_assoc, Nat.add_comm 1]

variable {setting : Setting σ} {l : Likeness} {nodes : List Node} {binding : LoopBinding}
  {world other : World σ} {shift : Nat}

/-- Items that stand behind others put out what they put out in a loop of their own, where the known
names stand for the same and more frames have been pushed. -/
theorem renderItems_later (library : ∀ r : Renaming, setting.library.Natural r l.functions)
    (unlooped : ¬ l.names "loop") (plain : Plain l nodes) (unnumbered : binding.index = none)
    (door : Door σ) (place : Place) {frame : Nat} (counted : world.scope.fresh = frame)
    (ahead : World.Renamed .none l frame shift world other)
    (settled : ∀ name, l.names name → (world.scope.get name).Before frame) {items : List Value}
    (given : ∀ source ∈ Value.itemNans items, source.Before frame) (length length' count : Nat) :
    let rendering (length count : Nat) : Rendering σ String :=
      renderItems (renderAll setting door place nodes) binding length count
        (Value.settledItems frame [] count items)
    (rendering length 0 world).1 = (rendering length' count other).1 ∧
      other.scope.fresh ≤ (rendering length' count other).2.scope.fresh := by
  intro rendering
  let r : Renaming := .later frame count shift
  have tidy : Tidy (renderAll setting door place nodes) := renderAll_tidy_of_plain plain
  have takes (i : Nat) : r.Takes frame frame [0 + i] [count + i] := by
    rw [Nat.zero_add]
    exact Renaming.later_takes i
  have moved : (Value.settledItems frame [] 0 items).map (Value.renamed r) =
      Value.settledItems frame [] count items := by
    have settled := Value.settledItems_renamed r takes items
    rw [Value.renamedItems_eq_self r items fun source member =>
      Renaming.later_of_before (given source member), Value.renamedItems_eq] at settled
    exact settled.symm
  have mirrors : Mirrors False (World.Renamed r l frame shift) Eq (rendering length 0)
      (renderItems (renderAll setting door place nodes) binding length' count
        ((Value.settledItems frame [] 0 items).map (Value.renamed r))) :=
    renderItems_renamed unlooped tidy tidy (Nat.le_succ _) (Nat.le_refl _)
      (renderAll_renamed (library r) Renaming.later_shifts unlooped plain) binding _ _
      (.inl unnumbered) _
  rw [moved] at mirrors
  have related : World.Renamed r l frame shift world other :=
    ⟨fun {name} known => by rw [ahead.names known, Value.renamed_none, (settled name known).kept],
      ahead.fresh, ahead.least⟩
  have ended := (mirrors _ _ related).after
  refine ⟨(mirrors.accord related).eq, ?_⟩
  calc other.scope.fresh = frame + shift := counted ▸ ahead.fresh
    _ ≤ (rendering length 0 world).2.scope.fresh + shift := Nat.add_le_add_right ended.least shift
    _ = (rendering length' count other).2.scope.fresh := ended.fresh.symm

theorem run_joined (first second : Rendering σ String) (world : World σ) :
    ((do return (← first) ++ (← second)) world).1 = do
      let one ← (first world).1
      let other ← (second (first world).2).1
      return one ++ other :=
  (result_bind first _ world).trans (bind_congr fun _ => result_bind second _ _)

/-- The items of two loops in one: from worlds that bind the known names alike, the loop over all of
them puts out what the loops over each put out. -/
theorem renderItems_concatenated
    (library : ∀ r : Renaming, setting.library.Natural r l.functions) (unlooped : ¬ l.names "loop")
    (plain : Plain l nodes) (unnumbered : binding.index = none) (door : Door σ) (place : Place)
    {frame : Nat} {first second : World σ} (alike : World.Renamed .none l frame 0 first world)
    (alike' : World.Renamed .none l frame 0 second world) (counted : world.scope.fresh = frame)
    (settled : ∀ name, l.names name → (world.scope.get name).Before frame) {xs ys : List Value}
    (given : ∀ source ∈ Value.itemNans (xs ++ ys), source.Before frame) :
    let body := renderAll setting door place nodes
    let result (items : List Value) (world : World σ) : Except Failure String :=
      (renderItems body binding items.length 0 (Value.settledItems frame [] 0 items) world).1
    result (xs ++ ys) world = do
      let one ← result xs first
      let other ← result ys second
      return one ++ other := by
  intro body result
  let whole := (xs ++ ys).length
  let part := renderItems body binding whole 0 (Value.settledItems frame [] 0 xs)
  let rest := renderItems body binding whole xs.length (Value.settledItems frame [] xs.length ys)
  have split : renderItems body binding whole 0 (Value.settledItems frame [] 0 (xs ++ ys)) =
      (do return (← part) ++ (← rest)) := by
    simp only [part, rest, Value.settledItems_append, renderItems_append, Value.length_settledItems,
      Nat.zero_add]
  rw [Value.itemNans_append] at given
  have settles {own : World σ} (alike : World.Renamed .none l frame 0 own world) (name : String)
      (known : l.names name) : (own.scope.get name).Before frame := by
    have before := settled name known
    rwa [alike.names known, Value.renamed_none] at before
  have here : result xs first = (part world).1 ∧ world.scope.fresh ≤ (part world).2.scope.fresh :=
    renderItems_later library unlooped plain unnumbered door place (alike.fresh.symm.trans counted)
      alike (settles alike) (fun source member => given source (List.mem_append_left _ member)) _ _ _
  -- Behind the first items frames are counted on from where these have ended.
  have ahead : World.Renamed .none l frame ((part world).2.scope.fresh - frame) second
      (part world).2 := by
    have tidy : Tidy part := renderItems_steady (renderAll_tidy_of_plain plain) _ _ _ _
    have rhymes := World.rhymes_of_held (steady_iff.mp tidy world).1
    have same := alike'.fresh
    refine ⟨fun known => (rhymes _).trans (alike'.names known), ?_, alike'.least⟩
    omega
  have there : result ys second = (rest (part world).2).1 :=
    (renderItems_later library unlooped plain unnumbered door place
      (alike'.fresh.symm.trans counted) ahead (settles alike')
      (fun source member => given source (List.mem_append_right _ member)) _ _ _).1
  calc result (xs ++ ys) world = _ := congrArg (fun rendering => (rendering world).1) split
    _ = _ := run_joined part rest world
    _ = _ := by rw [← here.1, ← there]

end Node

/-! ### Templates -/

theorem Rendering.annotated_result {α : Type} (amend : TemplateError → TemplateError)
    (body : Rendering σ α) (world : World σ) :
    (annotated amend body world).1 = (body world).1.mapError (Failure.annotate amend) := by
  rcases returns_or_fails body world with ⟨a, after, run⟩ | ⟨failure, after, run⟩
  · have kept : annotated amend body world = _ := returns_annotated.mpr run
    rw [kept, show body world = _ from run]
    rfl
  · have failed : annotated amend body world = _ := fails_annotated.mpr ⟨failure, run, rfl⟩
    rw [failed, show body world = _ from run]
    rfl

/-- Failures are amended in the same way whichever of two computations they come from. -/
theorem mapError_join {ε ε' : Type} (amend : ε → ε') (first second : Except ε String) :
    (do let one ← first
        let other ← second
        return one ++ other).mapError amend = do
      let one ← first.mapError amend
      let other ← second.mapError amend
      return one ++ other := by
  cases first <;> cases second <;> rfl

/-- A template that consists of a loop over a name renders the items of the list, in a frame of the
context, and amends what fails there. -/
theorem Template.render_loop (setting : Setting σ) {template : Template} {span spot : Span}
    {binding : LoopBinding} {name : String} {body : List Node}
    (loops : template.nodes = [.loop span binding (.name spot name) body])
    (context : Dict Value) (world : World σ) :
    ∃ (door : Door σ) (place : Place) (amend : Failure → Failure), ∀ items : List Value,
      let inner := world.framed (Dict.set context name (.list items))
      (template.render setting (Dict.set context name (.list items)) world).1 =
        (Node.renderItems (Node.renderAll setting door place body) binding items.length 0
          (Value.settledItems inner.scope.fresh [] 0 items) inner).1.mapError amend := by
  let moment := Moment.start setting Node.nestingLimit template [] world
  let door := moment.door setting Node.nestingLimit
  let node := Node.loop span binding (.name spot name) body
  let outer := Failure.annotate (·.inTemplate template.name)
  let inside := Failure.annotate (Node.annotate moment.place node)
  refine ⟨door, moment.place, outer ∘ inside, fun items => ?_⟩
  intro inner
  have bound : inner.scope.get name = .list items := by
    change (world.scope.push _).get name = _
    rw [Scope.get_push, Dict.get?_set, if_pos rfl, Option.getD_some]
  have asked : Returns ((Expression.name spot name).evaluate setting) inner (.list items) inner := by
    rw [← bound]
    rfl
  have content : node.content setting door moment.place inner =
      Node.renderItems (Node.renderAll setting door moment.place body) binding items.length 0
        (Value.settledItems inner.scope.fresh [] 0 items) inner := by
    change ((Expression.name spot name).evaluate setting >>= _).run.run inner = _
    rw [run_bind, show ((Expression.name spot name).evaluate setting).run.run inner = _ from asked]
    rfl
  have rendering : (Moment.start setting Node.nestingLimit template
      (Dict.set context name (.list items)) world).rendering setting Node.nestingLimit =
      annotated (Node.annotate moment.place node) (node.content setting door moment.place) := by
    rw [Moment.rendering, Moment.start, Moment.entered, loops]
    exact renderAll_single ..
  rw [template.render_eq, template.renderUpTo_eq setting _ _ world,
    withFrame_run (template.annotated_tidy _), rendering, annotated_result, annotated_result]
  change ((node.content setting door moment.place inner).1.mapError inside).mapError outer = _
  rw [content]
  cases (Node.renderItems _ _ _ _ _ inner).1 <;> rfl

/-- Puts out `x`. -/
def showItem : List Node :=
  [.output ⟨17, 24, ⟨1, 18⟩⟩ "\x7b\x7b x \x7d\x7d" (some (.name ⟨20, 21, ⟨1, 21⟩⟩ "x")) []]

def eachBinding : LoopBinding := ⟨"for", "x", none, "s"⟩

/-- Puts out every `x` of `s`. -/
def eachItem : Template :=
  ⟨0, none, "", [.loop ⟨0, 17, ⟨1, 1⟩⟩ eachBinding (.name ⟨12, 13, ⟨1, 13⟩⟩ "s") showItem], []⟩

end Stencil
