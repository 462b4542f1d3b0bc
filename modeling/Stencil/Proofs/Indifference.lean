import Stencil.Proofs.Companions
import Stencil.Proofs.Dictionaries
import Stencil.Proofs.Equivariance
import Stencil.Proofs.Overriding

/-! Rendering is indifferent to where what is no number came up. On worlds whose known names stand
for renamed values nodes render the same, with loops that count their frames from different numbers
and tell different states. -/
namespace Stencil

variable {σ α β : Type}

/-! ### Expressions of nodes -/

namespace Expression

mutual
def literals : Expression → List Literal
  | literal _ value => [value]
  | name .. => []
  | property _ object _ => object.literals
  | element _ array index => array.literals ++ index.literals
  | binary _ _ left right => left.literals ++ right.literals
  | call _ _ args => allLiterals args
termination_by structural expression => expression
def allLiterals : List Expression → List Literal
  | [] => []
  | expression :: rest => expression.literals ++ allLiterals rest
termination_by structural expressions => expressions
end

/-- What is no number in a literal came up in no loop. -/
def Unlooped (expression : Expression) : Prop :=
  ∀ literal ∈ expression.literals, literal.value.Before 0

end Expression

/-- Nodes that enter no other template and replace nothing, with expressions that use known names and
functions, and literals from no loop. -/
abbrev Node.Plain (l : Likeness) : List Node → Prop :=
  Throughout fun node => (node.entersOther = false ∧ node.isBlock = false) ∧
    ∀ e ∈ node.expressions, e.Uses l ∧ e.Unlooped

/-! ### Evaluation -/

open Rendering

/-- The renaming changes no literal. -/
def Renaming.Keeps (r : Renaming) (literals : List Literal) : Prop :=
  ∀ literal ∈ literals, literal.value.renamed r = literal.value

theorem Expression.Unlooped.kept {expression : Expression} (unlooped : expression.Unlooped)
    (r : Renaming) : r.Keeps expression.literals :=
  fun literal member => Value.renamed_of_unlooped r (unlooped literal member)

theorem Renaming.Keeps.append {r : Renaming} {literals others : List Literal}
    (keeps : r.Keeps (literals ++ others)) : r.Keeps literals ∧ r.Keeps others :=
  ⟨fun literal member => keeps literal (List.mem_append_left _ member),
    fun literal member => keeps literal (List.mem_append_right _ member)⟩

/-- The second step gives the value of the first, renamed. -/
abbrev Renaming.Follows (r : Renaming) (states : World σ → World σ → Prop)
    (first second : Rendering σ Value) : Prop :=
  Mirrors False states (fun v w => w = v.renamed r) first second

section Evaluation

variable {r : Renaming} {l : Likeness} {states : World σ → World σ → Prop} {setting : Setting σ}

theorem Rendering.ofResult_renamed {result other : Except Failure Value}
    (same : other = result.map (Value.renamed r)) :
    r.Follows states (ofResult result) (ofResult other) := by
  refine mirrors_lift ?_
  subst same
  cases result with
  | error e => exact .inr (.inl ⟨e, rfl, rfl⟩)
  | ok v => exact .inl ⟨v, v.renamed r, rfl, rfl, rfl⟩

theorem Rendering.ofResult_same (result : Except Failure α) :
    Mirrors False states Eq (ofResult result) (ofResult result) :=
  mirrors_lift (.refl result)

theorem Rendering.call_renamed {routine : Routine σ} (natural : routine.Natural r)
    (args : List Value) :
    r.Follows states (Rendering.call routine args)
      (Rendering.call routine (args.map (Value.renamed r))) := by
  obtain ⟨compute, runs, same⟩ := natural
  have step (args : List Value) : (Rendering.call routine args : Rendering σ Value) =
      ofResult (compute args) := by
    funext world
    simp only [Rendering.call, runs]
    rfl
  rw [step, step]
  exact ofResult_renamed (same args)

/-- What evaluation on two worlds needs: known names stand for renamed values, and the library
computes with them. -/
structure Renaming.Serves (r : Renaming) (l : Likeness) (states : World σ → World σ → Prop)
    (setting : Setting σ) : Prop where
  names {world other : World σ} (related : states world other) {name : String}
    (known : l.names name) : other.scope.get name = (world.scope.get name).renamed r
  library : setting.library.Natural r l.functions

theorem Operator.evaluate_renamed (op : Operator) (left : Value) {right other : Rendering σ Value}
    (follows : r.Follows states right other) :
    r.Follows states (op.evaluate setting left right)
      (op.evaluate setting (left.renamed r) other) := by
  unfold evaluate
  rw [shortCut?_renamed]
  cases op.shortCut? left with
  | some value => exact mirrors_pure rfl
  | none =>
    refine follows.bind fun v w same => ofResult_renamed ?_
    rw [same, apply_renamed]

namespace Expression

mutual
theorem evaluate_renamed (serves : r.Serves l states setting) :
    (expression : Expression) → expression.Uses l → r.Keeps expression.literals →
      r.Follows states (expression.evaluate setting) (expression.evaluate setting)
  | literal _ value, _, keeps => mirrors_pure (keeps value List.mem_cons_self).symm
  | name _ _, known, _ =>
    mirrors_get.bind fun _ _ related => mirrors_pure (serves.names related known)
  | property _ object key, known, keeps =>
    (evaluate_renamed serves object known.1 keeps).bind fun v _ same =>
      mirrors_pure (same ▸ Value.property_renamed r _ v key)
  | element _ array index, known, keeps =>
    (evaluate_renamed serves array known.1 keeps.append.1).bind fun v _ same =>
      (evaluate_renamed serves index known.2 keeps.append.2).bind fun key _ also =>
        ofResult_renamed (by rw [same, also, Value.index_renamed, liftFault_map])
  | binary _ op left right, known, keeps =>
    (evaluate_renamed serves left known.1 keeps.append.1).bind fun v _ same =>
      same ▸ op.evaluate_renamed v (evaluate_renamed serves right known.2 keeps.append.2)
  | call _ _ args, known, keeps =>
    (evaluateAll_renamed serves args known.2 keeps).bind fun values _ same =>
      same ▸ call_renamed (serves.library.call known.1) values
theorem evaluateAll_renamed (serves : r.Serves l states setting) :
    (expressions : List Expression) → AllUse l expressions → r.Keeps (allLiterals expressions) →
      Mirrors False states (fun values others => others = values.map (Value.renamed r))
        (evaluateAll setting expressions) (evaluateAll setting expressions)
  | [], _, _ => mirrors_pure rfl
  | expression :: rest, known, keeps =>
    (evaluate_renamed serves expression known.1 keeps.append.1).bind fun _ _ same =>
      (evaluateAll_renamed serves rest known.2 keeps.append.2).bind fun _ _ also =>
        mirrors_pure (by rw [same, also, List.map_cons])
end

theorem evaluateAll_plain (serves : r.Serves l states setting) {expressions : List Expression}
    (plain : ∀ e ∈ expressions, e.Uses l ∧ e.Unlooped) :
    Mirrors False states (fun values others => others = values.map (Value.renamed r))
      (evaluateAll setting expressions) (evaluateAll setting expressions) := by
  induction expressions with
  | nil => exact mirrors_pure rfl
  | cons expression rest ih =>
    obtain ⟨known, apart⟩ := plain expression List.mem_cons_self
    refine (evaluate_renamed serves expression known (apart.kept r)).bind fun _ _ same => ?_
    refine (ih fun e member => plain e (List.mem_cons_of_mem _ member)).bind fun _ _ also => ?_
    exact mirrors_pure (by rw [same, also, List.map_cons])

end Expression

theorem FilterUse.applyAll_renamed (serves : r.Serves l states setting) (value : Value)
    {filters : List FilterUse}
    (plain : ∀ e ∈ filters.flatMap (·.args), e.Uses l ∧ e.Unlooped) :
    r.Follows states (applyAll setting value filters)
      (applyAll setting (value.renamed r) filters) := by
  induction filters generalizing value with
  | nil => exact mirrors_pure rfl
  | cons filter rest ih =>
    rw [List.flatMap_cons] at plain
    have args := Expression.evaluateAll_plain serves fun e member =>
      plain e (List.mem_append_left _ member)
    refine args.bind fun values _ same => ?_
    subst same
    refine (call_renamed (serves.library.applyFilter filter.name) (value :: values)).bind
      fun next _ also => ?_
    subst also
    exact ih next fun e member => plain e (List.mem_append_right _ member)

namespace Node

theorem display_renamed (serves : r.Serves l states setting) (value : Value) :
    Mirrors False states Eq (display setting value) (display setting (value.renamed r)) := by
  unfold display
  rw [Value.isSafe_renamed, Value.toText_renamed]
  split
  · split
    · refine (call_renamed (serves.library.applyFilter "escape") [value]).bind fun v _ same => ?_
      subst same
      rw [Value.toText_renamed]
      exact ofResult_same _
    · exact (ofResult_same _).bind_eq fun _ => mirrors_pure rfl
  · exact ofResult_same _

theorem renderOutput_renamed (serves : r.Serves l states setting)
    {expression : Option Expression} {filters : List FilterUse}
    (plain : ∀ e ∈ expression.toList ++ filters.flatMap (·.args), e.Uses l ∧ e.Unlooped) :
    Mirrors False states Eq (renderOutput setting expression filters)
      (renderOutput setting expression filters) := by
  have shown (value : Value) : Mirrors False states Eq
      (FilterUse.applyAll setting value filters >>= display setting)
      (FilterUse.applyAll setting (value.renamed r) filters >>= display setting) :=
    (FilterUse.applyAll_renamed serves value fun e member =>
      plain e (List.mem_append_right _ member)).bind fun v _ same => same ▸ display_renamed serves v
  cases expression with
  | none =>
    have absent : r.Follows states (pure .undefined) (pure .undefined) := mirrors_pure rfl
    exact absent.bind fun v _ same => same ▸ shown v
  | some e =>
    obtain ⟨known, apart⟩ := plain e List.mem_cons_self
    exact (e.evaluate_renamed serves known (apart.kept r)).bind fun v _ same => same ▸ shown v

end Node

end Evaluation

/-! ### Frames -/

theorem Scope.get_push (scope : Scope) (bindings : Dict Value) (name : String) :
    (scope.push bindings).get name = (Dict.get? bindings name).getD (scope.get name) := by
  have found : (scope.push bindings).find? name =
      (Dict.get? bindings name).or (scope.find? name) := by
    simp only [find?, frames, push, List.map_cons, List.cons_append, List.findSome?_cons]
    cases Dict.get? bindings name <;> rfl
  rw [get, get, found]
  cases Dict.get? bindings name <;> rfl

/-- Frames from `least` on have numbers that are greater by `shift`. -/
def Renaming.Shifts (r : Renaming) (least shift : Nat) : Prop :=
  ∀ frame, least ≤ frame → ∀ place,
    r.source (.looped frame place) = .looped (frame + shift) place

/-- The known names stand for renamed values, and the frames to come have numbers that are greater by
`shift`. -/
structure World.Renamed (r : Renaming) (l : Likeness) (least shift : Nat) (world other : World σ) :
    Prop where
  names {name : String} (known : l.names name) :
    other.scope.get name = (world.scope.get name).renamed r
  fresh : other.scope.fresh = world.scope.fresh + shift
  least : least ≤ world.scope.fresh

section Rendering

variable {r : Renaming} {l : Likeness} {setting : Setting σ} {least shift : Nat}

theorem Library.Natural.serves {library : setting.library.Natural r l.functions} :
    r.Serves l (World.Renamed r l least shift) setting :=
  ⟨fun related _ known => related.names known, library⟩

/-- The known names of a frame stand for renamed values. -/
def Renaming.Binds (r : Renaming) (l : Likeness) (bindings others : Dict Value) : Prop :=
  ∀ name, l.names name → Dict.get? others name = (Dict.get? bindings name).map (Value.renamed r)

theorem World.Renamed.framed {world other : World σ} {inner : Nat}
    (related : World.Renamed r l least shift world other) (near : inner ≤ least + 1)
    {bindings others : Dict Value} (binds : r.Binds l bindings others) :
    World.Renamed r l inner shift (world.framed bindings) (other.framed others) where
  names {name} known := by
    rw [World.framed, World.framed, Scope.get_push, Scope.get_push, binds name known,
      related.names known, Option.getD_map]
  fresh := by
    have fresh := related.fresh
    simp only [World.framed, Scope.push]
    omega
  least := Nat.le_trans near (Nat.succ_le_succ related.least)

theorem World.get_restored {world after : World σ} {bindings : Dict Value}
    (held : after.held = (world.framed bindings).held) (name : String) :
    (after.withLayers world.scope.layers).scope.get name = world.scope.get name := by
  have globals : after.scope.globals = world.scope.globals := congrArg Held.globals held
  simp only [World.withLayers, Scope.get, Scope.find?, Scope.frames, globals]

theorem World.Renamed.restored {world other after after' : World σ} {inner : Nat}
    (related : World.Renamed r l least shift world other)
    (inside : World.Renamed r l inner shift after after') (beyond : least ≤ inner)
    {bindings others : Dict Value} (held : after.held = (world.framed bindings).held)
    (held' : after'.held = (other.framed others).held) :
    World.Renamed r l least shift (after.withLayers world.scope.layers)
      (after'.withLayers other.scope.layers) where
  names known := by
    rw [World.get_restored held, World.get_restored held', related.names known]
  fresh := inside.fresh
  least := Nat.le_trans beyond inside.least

/-- Tidy bodies under frames of their own. -/
theorem withFrame_renamed {first second : Rendering σ α} {inner : Nat} (tidy : Node.Tidy first)
    (tidy' : Node.Tidy second) (beyond : least ≤ inner) (near : inner ≤ least + 1)
    (mirrors : Mirrors False (World.Renamed r l inner shift) Eq first second)
    {bindings others : Dict Value} (binds : r.Binds l bindings others) :
    Mirrors False (World.Renamed r l least shift) Eq (withFrame bindings first)
      (withFrame others second) := by
  intro world other related
  have run := withFrame_run tidy bindings world
  have run' := withFrame_run tidy' others other
  have held := (steady_iff.mp tidy (world.framed bindings)).1
  have held' := (steady_iff.mp tidy' (other.framed others)).1
  rcases mirrors _ _ (related.framed near binds) with ⟨a, after, b, after', here, there, same, kept⟩ |
    ⟨e, after, after', here, there, kept⟩ | ⟨impossible, -⟩
  · rw [show first _ = _ from here] at run held
    rw [show second _ = _ from there] at run' held'
    exact .inl ⟨a, _, b, _, run, run', same, related.restored kept beyond held held'⟩
  · rw [show first _ = _ from here] at run held
    rw [show second _ = _ from there] at run' held'
    exact .inr (.inl ⟨e, _, _, run, run', related.restored kept beyond held held'⟩)
  · exact impossible.elim

/-! ### Loops -/

namespace Node

theorem get?_loopBindings (binding : LoopBinding) (item : Value) (index length : Nat)
    {name : String} (other : name ≠ "loop") :
    Dict.get? (loopBindings binding item index length) name =
      if binding.index = some name then some (.ofNat index)
      else if binding.item = name then some item else none := by
  have told : Dict.get? (Dict.set [(binding.item, item)] "loop" (loopState index length)) name =
      if binding.item = name then some item else none := by
    rw [Dict.get?_set, Dict.get?_cons, if_neg fun same => other same.symm]
    rfl
  unfold loopBindings
  cases binding.index with
  | none =>
    rw [if_neg (by simp)]
    exact told
  | some word =>
    have counted := Dict.get?_set (Dict.set [(binding.item, item)] "loop" (loopState index length))
      word (.ofNat index) name
    rw [told] at counted
    simp only [Option.some.injEq]
    exact counted

/-- What a loop tells about its state is not known; its alias for the index is known where the
indices are the same. -/
theorem loopBindings_renamed (unlooped : ¬ l.names "loop") (binding : LoopBinding) (item : Value)
    {index index' : Nat} (same : binding.index = none ∨ index = index') (length length' : Nat) :
    r.Binds l (loopBindings binding item index length)
      (loopBindings binding (item.renamed r) index' length') := by
  intro name known
  have other : name ≠ "loop" := fun same => unlooped (same ▸ known)
  rw [get?_loopBindings _ _ _ _ other, get?_loopBindings _ _ _ _ other]
  rcases same with unnamed | rfl
  · rw [unnamed]
    simp only [reduceCtorEq, if_false]
    split <;> rfl
  · split
    · rfl
    · split <;> rfl

theorem renderItems_renamed (unlooped : ¬ l.names "loop") {first second : Rendering σ String}
    {inner : Nat} (tidy : Tidy first) (tidy' : Tidy second) (beyond : least ≤ inner)
    (near : inner ≤ least + 1)
    (mirrors : Mirrors False (World.Renamed r l inner shift) Eq first second)
    (binding : LoopBinding) (length length' : Nat) {index index' : Nat}
    (same : binding.index = none ∨ index = index') (items : List Value) :
    Mirrors False (World.Renamed r l least shift) Eq
      (renderItems first binding length index items)
      (renderItems second binding length' index' (items.map (Value.renamed r))) := by
  induction items generalizing index index' with
  | nil => exact mirrors_pure rfl
  | cons item rest ih =>
    have here := withFrame_renamed tidy tidy' beyond near mirrors
      (loopBindings_renamed (r := r) unlooped binding item same length length')
    refine here.bind_eq fun _ => ?_
    have later := ih (same.imp_right (congrArg (· + 1)))
    exact later.bind_eq fun _ => mirrors_pure rfl

theorem renderWhile_renamed {states : World σ → World σ → Prop} {condition : Rendering σ Value}
    (asks : r.Follows states condition condition) {body : Rendering σ String}
    (mirrors : Mirrors False states Eq body body) (remaining : Nat) :
    Mirrors False states Eq (renderWhile setting condition body remaining)
      (renderWhile setting condition body remaining) := by
  induction remaining with
  | zero =>
    refine asks.bind fun v w same => ?_
    rw [same, Value.truthy_renamed]
    split
    · exact ofResult_same _
    · exact mirrors_pure rfl
  | succ remaining ih =>
    refine asks.bind fun v w same => ?_
    rw [same, Value.truthy_renamed]
    split
    · exact mirrors.bind_eq fun _ => ih.bind_eq fun _ => mirrors_pure rfl
    · exact mirrors_pure rfl

/-! ### Nodes -/

variable {door : Door σ} {place : Place}

theorem renderClauses_renamed {states : World σ → World σ → Prop} (serves : r.Serves l states setting)
    {otherwise : Rendering σ String} (last : Mirrors False states Eq otherwise otherwise)
    (clauses : List Clause)
    (plain : ∀ e ∈ clauses.map Clause.condition, e.Uses l ∧ e.Unlooped)
    (bodies : ∀ clause ∈ clauses, Mirrors False states Eq (renderAll setting door place clause.body)
      (renderAll setting door place clause.body)) :
    Mirrors False states Eq (renderClauses setting door place otherwise clauses)
      (renderClauses setting door place otherwise clauses) := by
  induction clauses with
  | nil => exact last
  | cons clause rest ih =>
    obtain ⟨span, condition, body⟩ := clause
    obtain ⟨known, apart⟩ := plain condition List.mem_cons_self
    refine (condition.evaluate_renamed serves known (apart.kept r)).bind fun v w same => ?_
    rw [same, Value.truthy_renamed]
    split
    · exact bodies (.mk span condition body) List.mem_cons_self
    · exact ih (fun e member => plain e (List.mem_cons_of_mem _ member)) fun clause member =>
        bodies clause (List.mem_cons_of_mem _ member)

/-- Nodes that lead nowhere else render tidily, whatever the doors. -/
theorem renderAll_tidy_of_plain {nodes : List Node} (plain : Plain l nodes) :
    Tidy (renderAll setting door place nodes) := by
  let closed : Door σ := ⟨fun _ _ => pure "", fun _ _ => pure ""⟩
  have same : renderAll setting door place nodes = renderAll setting closed place nodes :=
    renderAll_plain rfl fun node within => (plain node within).1
  rw [same]
  exact renderAll_tidy (fun _ _ => quiet_pure _) (fun _ _ => quiet_pure _) nodes

theorem content_renamed (library : setting.library.Natural r l.functions)
    (shifts : r.Shifts least shift) (unlooped : ¬ l.names "loop") {node : Node}
    (settled : node.entersOther = false) (kept : node.isBlock = false)
    (reads : ∀ e ∈ node.expressions, e.Uses l ∧ e.Unlooped)
    (tidy : ∀ body ∈ node.inner, Tidy (renderAll setting door place body))
    (bodies : ∀ body ∈ node.inner, Mirrors False (World.Renamed r l least shift) Eq
      (renderAll setting door place body) (renderAll setting door place body)) :
    Mirrors False (World.Renamed r l least shift) Eq (node.content setting door place)
      (node.content setting door place) := by
  have serves : r.Serves l (World.Renamed r l least shift) setting := library.serves
  cases node with
  | text | comment => exact mirrors_pure rfl
  | output span source expression filters => exact renderOutput_renamed serves reads
  | conditional span condition body clauses otherwise =>
    refine renderClauses_renamed serves (bodies _ (by simp [inner])) _ reads fun clause member => ?_
    rcases List.mem_cons.mp member with rfl | member
    · exact bodies _ List.mem_cons_self
    · exact bodies _ (List.mem_cons_of_mem _ (List.mem_cons_of_mem _ (List.mem_map_of_mem member)))
  | loop span binding iterable body =>
    obtain ⟨known, apart⟩ := reads iterable List.mem_cons_self
    refine (iterable.evaluate_renamed serves known (apart.kept r)).bind fun v w same => ?_
    subst same
    cases v with
    | list items =>
      rw [Value.renamed_list]
      refine mirrors_get.bind fun world other related => ?_
      -- Items that are no numbers are numbered by the frame of the loop, which is shifted too.
      have settled : Value.settledItems other.scope.fresh [] 0 (items.map (Value.renamed r)) =
          (Value.settledItems world.scope.fresh [] 0 items).map (Value.renamed r) := by
        rw [← Value.renamedItems_eq, ← Value.renamedItems_eq, related.fresh]
        exact Value.settledItems_renamed r (fun i inner => shifts _ related.least _) items
      dsimp only
      rw [settled]
      have body := tidy body List.mem_cons_self
      exact renderItems_renamed unlooped body body (Nat.le_refl _) (Nat.le_succ _)
        (bodies _ List.mem_cons_self) binding _ _ (.inr rfl) _
    | _ => exact mirrors_pure rfl
  | repetition span condition body =>
    obtain ⟨known, apart⟩ := reads condition List.mem_cons_self
    exact renderWhile_renamed (condition.evaluate_renamed serves known (apart.kept r))
      (bodies body List.mem_cons_self) _
  | exception span condition body =>
    obtain ⟨known, apart⟩ := reads condition List.mem_cons_self
    refine (condition.evaluate_renamed serves known (apart.kept r)).bind fun v w same => ?_
    rw [same, Value.truthy_renamed]
    split
    · exact mirrors_pure rfl
    · exact bodies body List.mem_cons_self
  | block | inclusion | extension => contradiction

/-- Plain nodes render the same on worlds whose known names stand for renamed values. -/
theorem renderAll_renamed (library : setting.library.Natural r l.functions)
    (shifts : r.Shifts least shift) (unlooped : ¬ l.names "loop") {nodes : List Node}
    (plain : Plain l nodes) :
    Mirrors False (World.Renamed r l least shift) Eq (renderAll setting door place nodes)
      (renderAll setting door place nodes) := by
  induction nodes using list_induction with
  | nil => exact mirrors_pure rfl
  | cons node rest parts later =>
    obtain ⟨⟨⟨settled, kept⟩, reads⟩, inside, behind⟩ := throughout_cons.mp plain
    have contents : Mirrors False (World.Renamed r l least shift) Eq
        (node.content setting door place) (node.content setting door place) :=
      content_renamed library shifts unlooped settled kept reads
        (fun body part => renderAll_tidy_of_plain (inside body (inner_subset_parts part)))
        fun body part => parts body (inner_subset_parts part) (inside body (inner_subset_parts part))
    rw [renderAll_cons]
    exact (mirrors_annotated _ contents).bind_eq fun _ =>
      (later behind).bind_eq fun _ => mirrors_pure rfl

end Node

end Rendering

end Stencil
