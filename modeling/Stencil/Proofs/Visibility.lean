import Stencil.Proofs.Dictionaries
import Stencil.Proofs.Unwinding

/-! What is visible in a scope. The names of a scope are looked up from the innermost frame out and
listed from the literals in; as no frame binds a name twice, both come to the same. -/
namespace Stencil.Scope

/-! ### How scopes come about -/

/-- Scopes that come about by operations one after the other. A block under a frame of its own
pushes it and, whatever was done in between, unwinds to it; a child begins with the frames of its
scope. -/
inductive Arises : Scope → Prop
  | ofGlobals {globals : Dict Value} (once : globals.keys.Nodup) : Arises (ofGlobals globals)
  | push {scope : Scope} {bindings : Dict Value} (before : Arises scope)
      (once : bindings.keys.Nodup) : Arises (scope.push bindings)
  | pop {scope outer : Scope} {top : Dict Value} (before : Arises scope)
      (popped : scope.pop = .ok (top, outer)) : Arises outer
  | clear {scope : Scope} (before : Arises scope) : Arises scope.clear
  | set {scope : Scope} (before : Arises scope) (name : String) (value : Value) :
      Arises (scope.set name value)
  | setGlobal {scope : Scope} (before : Arises scope) (name : String) (value : Value) :
      Arises (scope.setGlobal name value)
  | leave {scope : Scope} (before : Arises scope) (number : Nat) : Arises (scope.leave number).1
  | child {scope : Scope} {bindings : Dict Value} (before : Arises scope)
      (once : bindings.keys.Nodup) : Arises (scope.child bindings)

/-- No frame binds a name twice. -/
structure Once (scope : Scope) : Prop where
  layers : ∀ layer ∈ scope.layers, layer.bindings.keys.Nodup
  globals : scope.globals.keys.Nodup

section Once

variable {scope outer : Scope} {bindings : Dict Value}

theorem Once.of_subset (once : scope.Once) (fewer : outer.layers ⊆ scope.layers)
    (same : outer.globals = scope.globals) : outer.Once :=
  ⟨fun layer member => once.layers layer (fewer member), same ▸ once.globals⟩

theorem Once.push (once : scope.Once) (fresh : bindings.keys.Nodup) : (scope.push bindings).Once :=
  ⟨List.forall_mem_cons.mpr ⟨fresh, once.layers⟩, once.globals⟩

theorem Once.pop {top : Dict Value} (once : scope.Once) (popped : scope.pop = .ok (top, outer)) :
    outer.Once := by
  obtain ⟨first, rest, layers, rfl⟩ := exists_of_pop popped
  exact once.of_subset (layers ▸ List.subset_cons_self first rest) rfl

theorem Once.set (once : scope.Once) (name : String) (value : Value) :
    (scope.set name value).Once := by
  unfold Scope.set
  cases layers : scope.layers with
  | nil => exact ⟨(fun _ member => nomatch member), Dict.nodup_set once.globals name value⟩
  | cons first rest =>
    have each := once.layers
    rw [layers, List.forall_mem_cons] at each
    exact ⟨List.forall_mem_cons.mpr ⟨Dict.nodup_set each.1 name value, each.2⟩, once.globals⟩

theorem Once.leave (once : scope.Once) (number : Nat) : (scope.leave number).1.Once :=
  have ⟨fewer, _, same⟩ := unwind_rests scope number
  once.of_subset fewer same

theorem Once.child (once : scope.Once) (fresh : bindings.keys.Nodup) :
    (scope.child bindings).Once := by
  unfold Scope.child
  split
  · exact once
  · exact once.push fresh

theorem Arises.once (arises : Arises scope) : scope.Once := by
  induction arises with
  | ofGlobals once => exact ⟨(fun _ member => nomatch member), once⟩
  | push before fresh ih => exact ih.push fresh
  | pop before popped ih => exact ih.pop popped
  | clear before ih => exact ih.of_subset (List.nil_subset _) rfl
  | set before name value ih => exact ih.set name value
  | setGlobal before name value ih => exact ⟨ih.layers, Dict.nodup_set ih.globals name value⟩
  | leave before number ih => exact ih.leave number
  | child before fresh ih => exact ih.child fresh

end Once

/-! ### Programs -/

section Programs

variable {ε : Type} {wrap : Fault → ε}

mutual
/-- The bindings that a step pushes have every name once. -/
def Step.BindsOnce : Step ε → Prop
  | push bindings => bindings.keys.Nodup
  | frame bindings body => bindings.keys.Nodup ∧ Step.AllBindOnce body
  | guarded body => Step.AllBindOnce body
  | pop | clear | set .. | setGlobal .. | raise _ => True
termination_by structural step => step
def Step.AllBindOnce : List (Step ε) → Prop
  | [] => True
  | step :: rest => step.BindsOnce ∧ Step.AllBindOnce rest
termination_by structural steps => steps
end

mutual
theorem Step.run_arises : (step : Step ε) → step.BindsOnce → (scope : Scope) → (writes : Writes) →
    Arises scope → Arises (step.run wrap scope writes).2.1
  | push _, once, _, _, before => before.push once
  | pop, _, scope, writes, before => by
    rw [Step.run]
    cases popped : scope.pop with
    | ok result => exact before.pop popped
    | error fault => exact before
  | clear, _, _, _, before => before.clear
  | set name value, _, _, _, before => before.set name value
  | setGlobal name value, _, _, _, before => before.setGlobal name value
  | raise _, _, _, _, before => before
  | frame bindings body, once, scope, writes, before => by
    rw [Step.run, within_leaves]
    exact (Step.runAll_arises body once.2 _ _ (before.push once.1)).leave scope.fresh
  | guarded body, once, scope, writes, before => Step.runAll_arises body once scope writes before
/-- What a program leaves, with blocks within blocks and however it ends, has come about by
operations one after the other. -/
theorem Step.runAll_arises : (steps : List (Step ε)) → Step.AllBindOnce steps → (scope : Scope) →
    (writes : Writes) → Arises scope → Arises (Step.runAll wrap steps scope writes).2.1
  | [], _, _, _, before => before
  | step :: rest, once, scope, writes, before => by
    have next := step.run_arises once.1 scope writes before
    rw [Step.runAll]
    rcases run : step.run wrap scope writes with ⟨result, after, more⟩
    rw [run] at next
    cases result with
    | ok _ => exact Step.runAll_arises rest once.2 after more next
    | error exception => exact next
end

end Programs

/-! ### Looking up and listing -/

section Listing

variable {scope : Scope} {frames : List (Dict Value)}

/-- Frames that are laid over each other from the outside in show the innermost binding. -/
theorem get?_foldl_update (once : ∀ frame ∈ frames, (Dict.keys frame).Nodup) (base : Dict Value)
    (name : String) :
    Dict.get? (frames.reverse.foldl Dict.update base) name =
      (frames.findSome? fun frame => Dict.get? frame name).or (Dict.get? base name) := by
  rw [List.foldl_reverse]
  induction frames with
  | nil => rfl
  | cons frame outer ih =>
    obtain ⟨here, later⟩ := List.forall_mem_cons.mp once
    rw [List.foldr_cons, Dict.get?_update here, ih later, List.findSome?_cons]
    cases Dict.get? frame name <;> rfl

theorem nodup_foldl_update (frames : List (Dict Value)) {base : Dict Value}
    (once : base.keys.Nodup) : (frames.foldl Dict.update base).keys.Nodup := by
  induction frames generalizing base with
  | nil => exact once
  | cons frame rest ih => exact ih (Dict.nodup_update once frame)

theorem nodup_all (scope : Scope) : scope.all.keys.Nodup :=
  nodup_foldl_update scope.frames.reverse (show literals.keys.Nodup by decide)

theorem get?_all (once : scope.Once) (name : String) :
    Dict.get? scope.all name = (scope.find? name).or (Dict.get? literals name) := by
  refine get?_foldl_update (fun frame member => ?_) literals name
  rw [frames, List.mem_append, List.mem_map, List.mem_singleton] at member
  rcases member with ⟨layer, inside, rfl⟩ | rfl
  · exact once.layers layer inside
  · exact once.globals

theorem get_eq_all (once : scope.Once) (name : String) :
    scope.get name = (Dict.get? scope.all name).getD .undefined := by
  rw [get?_all once, get]
  cases scope.find? name <;> rfl

theorem has_eq_all (once : scope.Once) (name : String) :
    scope.has name = (Dict.get? scope.all name).isSome := by
  have bound : scope.frames.any (fun frame => Dict.has frame name) = (scope.find? name).isSome := by
    rw [Bool.eq_iff_iff, List.any_eq_true, find?, List.findSome?_isSome_iff]
    rfl
  rw [get?_all once, has, bound, Option.isSome_or, Bool.or_comm]
  rfl

/-- The names that a scope has are those that it lists, each once; looking one up gives the value
that is listed under it, and a name that is not listed is undefined. -/
theorem lookup_agrees_with_listing (arises : Arises scope) (name : String) :
    scope.all.keys.Nodup ∧
    (scope.has name = true ↔ name ∈ scope.all.keys) ∧
    (∀ value, (name, value) ∈ scope.all → scope.get name = value) ∧
    (name ∉ scope.all.keys → scope.get name = .undefined) := by
  have once := arises.once
  refine ⟨nodup_all scope, ?_, fun value listed => ?_, fun absent => ?_⟩
  · rw [has_eq_all once, Dict.mem_keys_iff]
  · rw [get_eq_all once, Dict.get?_eq_some_of_mem (nodup_all scope) listed]
    rfl
  · rw [get_eq_all once, Dict.get?_eq_none absent]
    rfl

/-- The child of what an untidy block leaves, with a literal and a name of an outer frame bound
anew. -/
def shadowed : Scope :=
  (paired.within id [("w", .null)] (Step.runAll id untidy) []).2.1.child
    [("true", .int 0), ("y", .int 9)]

theorem shadowed_names_agree :
    Arises shadowed ∧ shadowed.all.keys = ["true", "false", "null", "undefined", "x", "y"] ∧
      shadowed.get "true" = .int 0 ∧ shadowed.get "x" = .int 5 ∧ shadowed.get "y" = .int 9 ∧
      shadowed.get "w" = .undefined ∧ shadowed.has "w" = false := by
  have block : Arises (paired.within id [("w", .null)] (Step.runAll id untidy) []).2.1 :=
    @Step.run_arises Fault id (.frame [("w", .null)] untidy)
      (by simp [Step.BindsOnce, Step.AllBindOnce, untidy, Dict.keys]) paired []
      ((Arises.ofGlobals (by decide)).push (by decide))
  have arises : Arises shadowed := block.child (by decide)
  have listed : shadowed.all = [("true", .int 0), ("false", .bool false), ("null", .null),
    ("undefined", .undefined), ("x", .int 5), ("y", .int 9)] := rfl
  have agree := lookup_agrees_with_listing arises
  have found {name : String} {value : Value} (member : (name, value) ∈ shadowed.all) :
      shadowed.get name = value :=
    (agree name).2.2.1 value member
  have absent : "w" ∉ shadowed.all.keys := by simp [listed, Dict.keys]
  refine ⟨arises, by simp [listed, Dict.keys], found ?_, found ?_, found ?_,
    (agree "w").2.2.2 absent, Bool.eq_false_iff.mpr fun has => absent ((agree "w").2.1.mp has)⟩ <;>
    simp [listed]

end Listing

end Stencil.Scope
