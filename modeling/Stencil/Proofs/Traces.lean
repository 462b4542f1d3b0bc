import Stencil.Proofs.Moments

/-! What renderings are made of. The text that a moment yields is put together from the texts of
the leaves it visits; if it breaks, then some node that it visits raised the failure itself, and
failures that lists inside a node raise are the failures of the node. -/
namespace Stencil

variable {σ : Type}

/-! ### Annotations -/

/-- A failure as an annotation leaves it. -/
def Failure.annotate (amend : TemplateError → TemplateError) : Failure → Failure
  | template error => template (amend error)
  | fault f => fault f

/-- What is set in an error is set in another one too, and their causes agree. -/
structure TemplateError.Keeps (inner outer : TemplateError) : Prop where
  cause : outer.cause = inner.cause
  construct (construct : Construct) (set : inner.construct = some construct) :
    outer.construct = some construct
  template (name : String) (set : inner.template = some name) : outer.template = some name

theorem TemplateError.Keeps.refl (error : TemplateError) : error.Keeps error :=
  ⟨rfl, fun _ => id, fun _ => id⟩

theorem TemplateError.Keeps.trans {a b c : TemplateError} (first : a.Keeps b) (second : b.Keeps c) :
    a.Keeps c :=
  ⟨second.cause.trans first.cause, fun _ set => second.construct _ (first.construct _ set),
    fun _ set => second.template _ (first.template _ set)⟩

theorem TemplateError.keeps_inTemplate (error : TemplateError) (name : Option String) :
    error.Keeps (error.inTemplate name) :=
  ⟨rfl, fun _ => id, fun _ set => by rw [inTemplate, set]; rfl⟩

theorem Node.keeps_annotate (place : Place) (node : Node) (error : TemplateError) :
    error.Keeps (node.annotate place error) := by
  refine (error.keeps_inTemplate place.template).trans ⟨rfl, fun construct set => ?_, fun _ => id⟩
  change (error.inTemplate place.template).construct.or _ = _
  rw [set]
  rfl

/-- A failure is carried outward as another one: a fault as it is, an error with what is set. -/
inductive Failure.Keeps : Failure → Failure → Prop
  | template {inner outer : TemplateError} (keeps : inner.Keeps outer) :
      Keeps (.template inner) (.template outer)
  | fault (fault : Fault) : Keeps (.fault fault) (.fault fault)

theorem Failure.Keeps.refl (failure : Failure) : failure.Keeps failure := by
  cases failure with
  | template error => exact .template (.refl error)
  | fault f => exact .fault f

theorem Failure.Keeps.trans {a b c : Failure} (first : a.Keeps b) (second : b.Keeps c) :
    a.Keeps c := by
  cases first with
  | template keeps =>
    cases second with
    | template more => exact .template (keeps.trans more)
  | fault f => exact second

theorem Failure.Keeps.annotate {failure : Failure} {amend : TemplateError → TemplateError}
    (keeps : ∀ error : TemplateError, error.Keeps (amend error)) :
    failure.Keeps (failure.annotate amend) := by
  cases failure with
  | template error => exact .template (keeps error)
  | fault f => exact .fault f

namespace Rendering

variable {α : Type} {amend : TemplateError → TemplateError} {body : Rendering σ α}
  {world after : World σ}

theorem returns_annotated {a : α} :
    Returns (annotated amend body) world a after ↔ Returns body world a after := by
  change annotated amend body world = _ ↔ body world = _
  unfold annotated
  split
  · rename_i failed
    rw [failed]
    constructor
    · intro impossible
      cases impossible
    · intro impossible
      cases impossible
  · exact Iff.rfl

theorem fails_annotated {e : Failure} :
    Fails (annotated amend body) world e after ↔
      ∃ raised, Fails body world raised after ∧ e = raised.annotate amend := by
  change annotated amend body world = _ ↔ ∃ raised, body world = _ ∧ _
  unfold annotated
  split
  · rename_i failed
    rw [failed]
    constructor
    · rintro ⟨rfl, rfl⟩
      exact ⟨_, rfl, rfl⟩
    · rintro ⟨raised, ⟨rfl, rfl⟩, rfl⟩
      rfl
  · rename_i other
    constructor
    · intro failed
      cases e with
      | template error => exact absurd failed (other error after)
      | fault f => exact ⟨.fault f, failed, rfl⟩
    · rintro ⟨raised, failed, rfl⟩
      cases raised with
      | template error => exact absurd failed (other error after)
      | fault f => exact failed

variable {expected : Failure → Prop}

/-- A step under a frame of its own ends as the step does, and then the frame is gone. -/
theorem withFrame_eq_iff (steady : Steady expected body) {bindings : Dict Value}
    {result : Except Failure α} :
    withFrame bindings body world = (result, after) ↔
      ∃ inner, body (world.framed bindings) = (result, inner) ∧
        after = inner.withLayers world.scope.layers := by
  rw [withFrame_run steady]
  rcases body (world.framed bindings) with ⟨other, inner⟩
  constructor
  · rintro ⟨rfl, rfl⟩
    exact ⟨inner, rfl, rfl⟩
  · rintro ⟨inner, ⟨rfl, rfl⟩, rfl⟩
    rfl

theorem returns_withFrame (steady : Steady expected body) {bindings : Dict Value} {a : α} :
    Returns (withFrame bindings body) world a after ↔
      ∃ inner, Returns body (world.framed bindings) a inner ∧
        after = inner.withLayers world.scope.layers :=
  withFrame_eq_iff steady

theorem fails_withFrame (steady : Steady expected body) {bindings : Dict Value} {e : Failure} :
    Fails (withFrame bindings body) world e after ↔
      ∃ inner, Fails body (world.framed bindings) e inner ∧
        after = inner.withLayers world.scope.layers :=
  withFrame_eq_iff steady

end Rendering

/-! ### Texts put together -/

section Pieced

variable {β γ : Type} {known : β → String → Prop} {more : γ → String → Prop} {text other : String}

/-- A text is put together from pieces, and it is known where each of them comes from. -/
def Pieced (known : β → String → Prop) (text : String) : Prop :=
  ∃ pieces : List (β × String),
    (∀ piece ∈ pieces, known piece.1 piece.2) ∧ text = String.join (pieces.map (·.2))

theorem pieced_empty : Pieced known "" := ⟨[], by simp, rfl⟩

theorem pieced_single {source : β} (one : known source text) : Pieced known text :=
  ⟨[(source, text)], by simpa using one, by simp [String.join]⟩

theorem Pieced.append (first : Pieced known text) (second : Pieced known other) :
    Pieced known (text ++ other) := by
  obtain ⟨pieces, all, rfl⟩ := first
  obtain ⟨others, others_all, rfl⟩ := second
  refine ⟨pieces ++ others, fun piece member => ?_, by rw [List.map_append, String.join_append]⟩
  exact (List.mem_append.mp member).elim (all piece) (others_all piece)

/-- Pieces that are put together themselves. -/
theorem Pieced.refine (pieced : Pieced known text)
    (each : ∀ source piece, known source piece → Pieced more piece) : Pieced more text := by
  obtain ⟨pieces, all, rfl⟩ := pieced
  induction pieces with
  | nil => exact pieced_empty
  | cons piece rest ih =>
    rw [List.map_cons, String.join_cons]
    exact (each _ _ (all piece List.mem_cons_self)).append
      (ih fun other member => all other (List.mem_cons_of_mem _ member))

theorem Pieced.mono {others : β → String → Prop} (pieced : Pieced known text)
    (weaker : ∀ source piece, known source piece → others source piece) : Pieced others text :=
  pieced.refine fun source piece one => pieced_single (weaker source piece one)

end Pieced

/-! ### Steps made of moments -/

namespace Moment

variable (setting : Setting σ) (limit : Nat)

/-- A step of rendering made of the moments it opens: its text is put together from theirs, it
fails as one of them does or with a failure of its own, and it fails if one of them does. -/
structure MadeOf (opens : Moment σ → Prop) (own : Failure → Prop) (step : Rendering σ String)
    (world : World σ) : Prop where
  joined (text : String) (after : World σ) (done : Returns step world text after) :
    Pieced (fun inner piece => opens inner ∧ inner.Yields setting limit piece) text
  blamed (failure : Failure) (after : World σ) (failed : Fails step world failure after) :
    own failure ∨ ∃ inner, opens inner ∧ inner.Breaks setting limit failure
  broken (inner : Moment σ) (opened : opens inner) (failure : Failure)
    (breaks : inner.Breaks setting limit failure) : ∃ after, Fails step world failure after

variable {setting : Setting σ} {limit : Nat} {opens : Moment σ → Prop} {own : Failure → Prop}
  {world : World σ}

theorem madeOf_moment (inner : Moment σ) :
    MadeOf setting limit (· = inner) own (inner.rendering setting limit) inner.world where
  joined text after done := pieced_single ⟨rfl, after, done⟩
  blamed failure after failed := .inr ⟨inner, rfl, after, failed⟩
  broken _ opened failure breaks := by
    subst opened
    exact breaks

/-- A step that opens nothing has no text. -/
theorem madeOf_empty (none : ∀ inner, ¬ opens inner) :
    MadeOf setting limit opens own (pure "") world where
  joined text after done := by
    rw [(returns_pure.mp done).1]
    exact pieced_empty
  blamed failure after failed := by cases failed
  broken inner opened := absurd opened (none inner)

/-- A step that only fails, and opens nothing. -/
theorem madeOf_raised {failure : Failure} (known : own failure) (none : ∀ inner, ¬ opens inner) :
    MadeOf setting limit opens own (Rendering.ofResult (.error failure)) world where
  joined text after done := by cases done
  blamed _ after failed := by
    cases failed
    exact .inl known
  broken inner opened := absurd opened (none inner)

theorem madeOf_bind {α : Type} {first : Rendering σ α} {next : α → Rendering σ String}
    (steady : Steady own first)
    (later : ∀ a after, Returns first world a after → MadeOf setting limit opens own (next a) after)
    (none : ∀ e after, Fails first world e after → ∀ inner, ¬ opens inner) :
    MadeOf setting limit opens own (first >>= next) world where
  joined text after done := by
    obtain ⟨a, middle, here, there⟩ := returns_bind.mp done
    exact (later a middle here).joined text after there
  blamed failure after failed := by
    rcases fails_bind.mp failed with here | ⟨a, middle, here, there⟩
    · exact .inl ((steady world).2 _ _ here).2
    · exact (later a middle here).blamed failure after there
  broken inner opened failure breaks := by
    rcases returns_or_fails first world with ⟨a, middle, here⟩ | ⟨e, middle, here⟩
    · obtain ⟨after, there⟩ := (later a middle here).broken inner opened failure breaks
      exact ⟨after, fails_bind.mpr (.inr ⟨a, middle, here, there⟩)⟩
    · exact absurd opened (none e middle here inner)

theorem madeOf_append {first rest : Rendering σ String} {left : Moment σ → Prop}
    {right : World σ → Moment σ → Prop} (here : MadeOf setting limit left own first world)
    (there : ∀ text after, Returns first world text after →
      MadeOf setting limit (right after) own rest after)
    (all : ∀ inner, opens inner ↔
      left inner ∨ ∃ text after, Returns first world text after ∧ right after inner) :
    MadeOf setting limit opens own (do return (← first) ++ (← rest)) world where
  joined text after done := by
    obtain ⟨a, middle, before, done⟩ := returns_bind.mp done
    obtain ⟨b, last, later, same⟩ := returns_bind.mp done
    obtain ⟨rfl, rfl⟩ := returns_pure.mp same
    refine ((here.joined a middle before).mono ?_).append
      (((there a middle before).joined b _ later).mono ?_)
    · rintro inner piece ⟨opened, yields⟩
      exact ⟨(all inner).mpr (.inl opened), yields⟩
    · rintro inner piece ⟨opened, yields⟩
      exact ⟨(all inner).mpr (.inr ⟨a, middle, before, opened⟩), yields⟩
  blamed failure after failed := by
    rcases fails_bind.mp failed with before | ⟨a, middle, before, failed⟩
    · rcases here.blamed failure after before with known | ⟨inner, opened, breaks⟩
      · exact .inl known
      · exact .inr ⟨inner, (all _).mpr (.inl opened), breaks⟩
    · rcases fails_bind.mp failed with later | ⟨b, last, later, impossible⟩
      · rcases (there a middle before).blamed failure after later with known | ⟨inner, opened, breaks⟩
        · exact .inl known
        · exact .inr ⟨inner, (all _).mpr (.inr ⟨_, _, before, opened⟩), breaks⟩
      · cases impossible
  broken inner opened failure breaks := by
    rcases (all inner).mp opened with opened | ⟨a, middle, before, opened⟩
    · obtain ⟨after, failed⟩ := here.broken inner opened failure breaks
      exact ⟨after, fails_bind.mpr (.inl failed)⟩
    · obtain ⟨after, failed⟩ := (there a middle before).broken inner opened failure breaks
      exact ⟨after, fails_bind.mpr (.inr ⟨a, middle, before, fails_bind.mpr (.inl failed)⟩)⟩

theorem MadeOf.congr {others : Moment σ → Prop} {step : Rendering σ String}
    (made : MadeOf setting limit others own step world) (same : ∀ inner, opens inner ↔ others inner) :
    MadeOf setting limit opens own step world := by
  rwa [show opens = others from funext fun inner => propext (same inner)]

theorem MadeOf.mono {more : Failure → Prop} {step : Rendering σ String}
    (made : MadeOf setting limit opens own step world) (weaker : ∀ e, own e → more e) :
    MadeOf setting limit opens more step world where
  joined := made.joined
  blamed failure after failed := (made.blamed failure after failed).imp_left (weaker failure)
  broken := made.broken

/-! ### Contents of nodes -/

variable {moment : Moment σ}

theorem madeOf_framed (body : List Node) (bindings : Dict Value) :
    MadeOf setting limit (· = moment.inside body (world.framed bindings)) own
      (Rendering.withFrame bindings ((moment.inside body world).rendering setting limit)) world where
  joined text after framed := by
    obtain ⟨inner, done, -⟩ := (Rendering.returns_withFrame (rendering_tidy _ _ _)).mp framed
    exact pieced_single ⟨rfl, inner, done⟩
  blamed failure after framed := by
    obtain ⟨inner, failed, -⟩ := (Rendering.fails_withFrame (rendering_tidy _ _ _)).mp framed
    exact .inr ⟨_, rfl, inner, failed⟩
  broken inner opened failure breaks := by
    subst opened
    obtain ⟨after, failed⟩ := breaks
    exact ⟨_, (Rendering.fails_withFrame (rendering_tidy _ _ _)).mpr ⟨after, failed, rfl⟩⟩

theorem madeOf_items (binding : LoopBinding) (length index : Nat) (body : List Node)
    (items : List Value) (world : World σ) :
    MadeOf setting limit (ItemTurn setting limit moment body binding length index items world) own
      (Node.renderItems ((moment.inside body world).rendering setting limit) binding length index
        items) world := by
  induction items generalizing index world with
  | nil => exact madeOf_empty fun inner turn => by cases turn
  | cons item rest ih =>
    refine madeOf_append (madeOf_framed body _) (fun text after _ => ih (index + 1) after)
      fun inner => ?_
    constructor
    · intro turn
      cases turn with
      | first => exact .inl rfl
      | later done later => exact .inr ⟨_, _, done, later⟩
    · rintro (rfl | ⟨text, after, done, later⟩)
      · exact .first
      · exact .later done later

theorem madeOf_while (tolerates : Tolerates setting own) (condition : Expression)
    (body : List Node) (remaining : Nat) (world : World σ) :
    MadeOf setting limit (WhileTurn setting limit moment condition body remaining world) own
      (Node.renderWhile setting (condition.evaluate setting)
        ((moment.inside body world).rendering setting limit) remaining) world := by
  have steady := condition.evaluate_steady tolerates
  induction remaining generalizing world with
  | zero =>
    refine madeOf_bind steady (fun value after asked => ?_)
      fun e after failed inner turn => by cases turn
    split
    · exact madeOf_raised (tolerates.cause _) fun inner turn => by cases turn
    · exact madeOf_empty fun inner turn => by cases turn
  | succ remaining ih =>
    refine madeOf_bind steady (fun value after asked => ?_) fun e after failed inner turn => ?_
    · split
      · rename_i holds
        refine madeOf_append (madeOf_moment (moment.inside body after))
          (fun text middle _ => ih middle) fun inner => ?_
        constructor
        · intro turn
          cases turn with
          | first other _ =>
            obtain ⟨-, rfl⟩ := asked.unique other
            exact .inl rfl
          | later other _ done later =>
            obtain ⟨-, rfl⟩ := asked.unique other
            exact .inr ⟨_, _, done, later⟩
        · rintro (rfl | ⟨text, middle, done, later⟩)
          · exact .first asked holds
          · exact .later asked holds done later
      · rename_i fails
        refine madeOf_empty fun inner turn => fails ?_
        cases turn with
        | first other holds | later other holds =>
          rw [(asked.unique other).1]
          exact holds
    · cases turn with
      | first asked | later asked => exact failed.not_returns asked

theorem madeOf_clauses (tolerates : Tolerates setting own) (otherwise : List Node)
    (clauses : List Clause) (world : World σ) :
    MadeOf setting limit
      (fun inner => ∃ nodes after, Chooses setting otherwise clauses world nodes after ∧
        inner = moment.inside nodes after) own
      (Node.renderClauses setting (moment.door setting limit) moment.place
        ((moment.inside otherwise world).rendering setting limit) clauses) world := by
  induction clauses generalizing world with
  | nil =>
    refine (madeOf_moment (moment.inside otherwise world)).congr fun inner => ?_
    constructor
    · rintro ⟨nodes, after, chooses, rfl⟩
      cases chooses
      rfl
    · rintro rfl
      exact ⟨otherwise, world, .last, rfl⟩
  | cons clause rest ih =>
    obtain ⟨span, condition, body⟩ := clause
    refine madeOf_bind (condition.evaluate_steady tolerates) (fun value after asked => ?_) ?_
    · split
      · rename_i holds
        refine (madeOf_moment (moment.inside body after)).congr fun inner => ?_
        constructor
        · rintro ⟨nodes, last, chooses, rfl⟩
          cases chooses with
          | holds other _ => rw [(asked.unique other).2]
          | later other fails =>
            rw [(asked.unique other).1, fails] at holds
            contradiction
        · rintro rfl
          exact ⟨body, after, .holds asked holds, rfl⟩
      · rename_i fails
        refine (ih after).congr fun inner => ?_
        constructor
        · rintro ⟨nodes, last, chooses, rfl⟩
          cases chooses with
          | holds other holds =>
            rw [(asked.unique other).1] at fails
            exact absurd holds fails
          | later other _ chooses =>
            obtain ⟨-, rfl⟩ := asked.unique other
            exact ⟨nodes, last, chooses, rfl⟩
        · rintro ⟨nodes, last, chooses, rfl⟩
          exact ⟨nodes, last, .later asked (by simpa using fails) chooses, rfl⟩
    · rintro e after failed inner ⟨nodes, last, chooses, -⟩
      cases chooses with
      | holds asked | later asked => exact failed.not_returns asked

theorem madeOf_entered (tolerant : Tolerant own) (template : Template)
    (replacements : Dict (List Node)) (world : World σ) :
    MadeOf setting limit
      (fun inner => ∃ levels, moment.levels = levels + 1 ∧
        inner = entered limit levels template replacements world) own
      ((moment.door setting limit).enter ⟨template.name, replacements⟩ template.nodes) world := by
  obtain ⟨levels, _, _, _, _, _⟩ := moment
  cases levels with
  | zero => exact madeOf_raised (tolerant.cause _) fun inner ⟨levels, room, _⟩ => by cases room
  | succ levels =>
    refine (madeOf_moment (entered limit levels template replacements world)).congr fun inner => ?_
    constructor
    · rintro ⟨_, ⟨rfl⟩, rfl⟩
      rfl
    · rintro rfl
      exact ⟨levels, rfl, rfl⟩

theorem madeOf_found (tolerates : Tolerates setting own) (path : Expression)
    (replacements : Dict (List Node)) :
    MadeOf setting limit
      (fun inner => ∃ template after levels,
        Returns (Node.named setting path) moment.world template after ∧
          moment.levels = levels + 1 ∧ inner = entered limit levels template replacements after) own
      (do let template ← Node.named setting path
          (moment.door setting limit).enter ⟨template.name, replacements⟩ template.nodes)
      moment.world := by
  refine madeOf_bind (Node.named_steady tolerates path) (fun template after found => ?_) ?_
  · refine (madeOf_entered tolerates.toTolerant template replacements after).congr fun inner => ?_
    constructor
    · rintro ⟨other, last, levels, again, room, rfl⟩
      obtain ⟨rfl, rfl⟩ := found.unique again
      exact ⟨levels, room, rfl⟩
    · rintro ⟨levels, room, rfl⟩
      exact ⟨template, after, levels, found, room, rfl⟩
  · rintro e after failed inner ⟨template, last, levels, found, -⟩
    exact failed.not_returns found

/-- A block whose replacement there is no room for. -/
def Exhausted (moment : Moment σ) (node : Node) : Prop :=
  moment.replacements = 0 ∧
    ∃ named other, node = .block named ∧
      Dict.get? moment.place.replacements named.name = some other

/-- The nodes that have a text of their own. -/
def Leaf : Node → Prop
  | .text .. | .output .. => True
  | _ => False

theorem madeOf_loop (tolerates : Tolerates setting own) (span : Span) (binding : LoopBinding)
    (iterable : Expression) (body : List Node) :
    MadeOf setting limit (Opens setting limit moment (.loop span binding iterable body)) own
      (moment.content setting limit (.loop span binding iterable body)) moment.world := by
  refine madeOf_bind (iterable.evaluate_steady tolerates) (fun value after found => ?_) ?_
  · split
    · rename_i items
      refine madeOf_bind quiet_get (fun world same got => ?_) fun e after failed => by cases failed
      cases got
      refine (madeOf_items binding _ _ body _ after).congr fun inner => ⟨fun opened => ?_, .item found⟩
      cases opened with
      | item other turn =>
        obtain ⟨⟨rfl⟩, rfl⟩ := found.unique other
        exact turn
    · rename_i other
      refine madeOf_empty fun inner opened => ?_
      cases opened with
      | item again turn => exact other _ (found.unique again).1
  · intro e after failed inner opened
    cases opened with
    | item found turn => exact failed.not_returns found

theorem madeOf_exception (tolerates : Tolerates setting own) (span : Span) (condition : Expression)
    (body : List Node) :
    MadeOf setting limit (Opens setting limit moment (.exception span condition body)) own
      (moment.content setting limit (.exception span condition body)) moment.world := by
  refine madeOf_bind (condition.evaluate_steady tolerates) (fun value after asked => ?_) ?_
  · split
    · rename_i holds
      refine madeOf_empty fun inner opened => ?_
      cases opened with
      | fails other fails =>
        rw [(asked.unique other).1, fails] at holds
        contradiction
    · rename_i fails
      refine (madeOf_moment (moment.inside body after)).congr fun inner => ⟨fun opened => ?_, ?_⟩
      · cases opened with
        | fails other _ => rw [(asked.unique other).2]
      · rintro rfl
        exact .fails asked (by simpa using fails)
  · intro e after failed inner opened
    cases opened with
    | fails asked fails => exact failed.not_returns asked

section Block

variable {named : Block} {other : List Node}

theorem madeOf_kept (none : Dict.get? moment.place.replacements named.name = none) :
    MadeOf setting limit (Opens setting limit moment (.block named)) own
      (moment.content setting limit (.block named)) moment.world := by
  rw [content, Node.content, Node.renderBlock_kept _ _ _ none]
  refine (madeOf_moment (moment.inside named.body moment.world)).congr fun inner =>
    ⟨fun opened => ?_, fun same => same ▸ .kept none⟩
  cases opened with
  | kept => rfl
  | replaced some =>
    rw [none] at some
    contradiction

theorem madeOf_replaced {replacements : Nat}
    (found : Dict.get? moment.place.replacements named.name = some other)
    (room : moment.replacements = replacements + 1) :
    MadeOf setting limit (Opens setting limit moment (.block named)) own
      (moment.content setting limit (.block named)) moment.world := by
  rw [content, Node.content, Node.renderBlock_replaced _ _ _ found, door, room]
  refine (madeOf_moment (moment.replaced replacements other)).congr fun inner =>
    ⟨fun opened => ?_, fun same => same ▸ .replaced found room⟩
  cases opened with
  | kept none =>
    rw [found] at none
    contradiction
  | replaced again more =>
    cases found.symm.trans again
    cases room.symm.trans more
    rfl

/-- Without room for it a replacement fails with the fault of endless rendering. -/
theorem madeOf_exhausted (found : Dict.get? moment.place.replacements named.name = some other)
    (room : moment.replacements = 0) (known : own (.fault .stackExhausted)) :
    MadeOf setting limit (Opens setting limit moment (.block named)) own
      (moment.content setting limit (.block named)) moment.world := by
  rw [content, Node.content, Node.renderBlock_replaced _ _ _ found, door, room]
  refine madeOf_raised known fun inner opened => ?_
  cases opened with
  | kept none =>
    rw [found] at none
    contradiction
  | replaced _ some =>
    rw [room] at some
    contradiction

end Block

/-- A node that is no leaf is made of the moments it opens. -/
theorem content_madeOf (tolerates : Tolerates setting own) {node : Node} (branch : ¬ Leaf node) :
    MadeOf setting limit (Opens setting limit moment node)
      (fun e => own e ∨ moment.Exhausted node ∧ e = .fault .stackExhausted)
      (moment.content setting limit node) moment.world := by
  have weaker (e : Failure) (known : own e) :
      own e ∨ moment.Exhausted node ∧ e = .fault .stackExhausted := .inl known
  cases node with
  | text | output => exact absurd trivial branch
  | comment => exact madeOf_empty fun inner opened => by cases opened
  | conditional span condition body clauses otherwise =>
    refine ((madeOf_clauses tolerates otherwise _ moment.world).congr fun inner => ?_).mono weaker
    constructor
    · intro opened
      cases opened with
      | clause chooses => exact ⟨_, _, chooses, rfl⟩
    · rintro ⟨nodes, after, chooses, rfl⟩
      exact .clause chooses
  | loop span binding iterable body =>
    exact (madeOf_loop tolerates span binding iterable body).mono weaker
  | repetition span condition body =>
    refine ((madeOf_while tolerates condition body _ moment.world).congr fun inner => ?_).mono weaker
    constructor
    · intro opened
      cases opened with
      | again turn => exact turn
    · exact .again
  | exception span condition body =>
    exact (madeOf_exception tolerates span condition body).mono weaker
  | block named =>
    cases found : Dict.get? moment.place.replacements named.name with
    | none => exact (madeOf_kept found).mono weaker
    | some other =>
      cases room : moment.replacements with
      | zero => exact madeOf_exhausted found room (.inr ⟨⟨room, named, other, rfl, found⟩, rfl⟩)
      | succ replacements => exact (madeOf_replaced found room).mono weaker
  | inclusion span path =>
    refine ((madeOf_found tolerates path []).congr fun inner => ?_).mono weaker
    constructor
    · intro opened
      cases opened with
      | inclusion found room => exact ⟨_, _, _, found, room, rfl⟩
    · rintro ⟨template, after, levels, found, room, rfl⟩
      exact .inclusion found room
  | extension span parent blocks =>
    refine ((madeOf_found tolerates parent _).congr fun inner => ?_).mono weaker
    constructor
    · intro opened
      cases opened with
      | extension found room => exact ⟨_, _, _, found, room, rfl⟩
    · rintro ⟨template, after, levels, found, room, rfl⟩
      exact .extension found room

/-! ### Renderings of moments -/

theorem rendering_nil (nodes : moment.nodes = []) : moment.rendering setting limit = pure "" := by
  rw [rendering, nodes, Node.renderAll]

theorem rendering_cons {node : Node} {rest : List Node} (nodes : moment.nodes = node :: rest)
    (world : World σ) :
    moment.rendering setting limit = do
      let first ← Rendering.annotated (node.annotate moment.place)
        (moment.content setting limit node)
      return first ++ (← (moment.inside rest world).rendering setting limit) := by
  rw [rendering, nodes, Node.renderAll_cons]
  rfl

variable (setting limit)

/-- The first node of a moment is a leaf and renders to a text. -/
def Puts (moment : Moment σ) (text : String) : Prop :=
  ∃ node rest, moment.nodes = node :: rest ∧ Leaf node ∧
    ∃ after, Returns (moment.content setting limit node) moment.world text after

/-- A node of a moment fails, and no list of nodes that it opens does: the failure is its own. -/
structure Originates (own : Failure → Prop) (moment : Moment σ) (node : Node) (failure : Failure) :
    Prop where
  fails : ∃ after, Fails (moment.content setting limit node) moment.world failure after
  innermost (inner : Moment σ) (opens : Opens setting limit moment node inner) (e : Failure) :
    ¬ inner.Breaks setting limit e
  raised : own failure ∨ moment.Exhausted node ∧ failure = .fault .stackExhausted

variable {setting limit}

/-- The text of a moment is put together from the texts of the leaves that it visits. -/
theorem yields_of_leaves (moment : Moment σ) : ∀ text, moment.Yields setting limit text →
    Pieced (fun reached piece => moment.Visits setting limit reached ∧
      reached.Puts setting limit piece) text := by
  induction moment using induction setting limit with
  | step moment ih =>
  rintro text ⟨after, done⟩
  have deeper {inner : Moment σ} {piece : String} (starts : Starts setting limit moment inner)
      (yields : inner.Yields setting limit piece) :
      Pieced (fun reached piece => moment.Visits setting limit reached ∧
        reached.Puts setting limit piece) piece :=
    (ih inner starts piece yields).mono fun reached leaf ⟨visits, puts⟩ =>
      ⟨Relation.ReflTransGen.head starts visits, puts⟩
  cases nodes : moment.nodes with
  | nil =>
    rw [rendering_nil nodes] at done
    rw [(returns_pure.mp done).1]
    exact pieced_empty
  | cons node rest =>
    rw [rendering_cons nodes moment.world] at done
    obtain ⟨first, middle, here, done⟩ := returns_bind.mp done
    obtain ⟨second, last, there, same⟩ := returns_bind.mp done
    obtain ⟨rfl, rfl⟩ := returns_pure.mp same
    have here := Rendering.returns_annotated.mp here
    refine Pieced.append ?_ (deeper (.next nodes here) ⟨after, there⟩)
    by_cases leaf : Leaf node
    · exact pieced_single ⟨.refl, node, rest, nodes, leaf, middle, here⟩
    · refine ((content_madeOf (tolerates_any setting) leaf).joined first middle here).refine ?_
      rintro inner piece ⟨opens, yields⟩
      exact deeper (.inner nodes opens) yields

theorem leaf_opens_nothing {node : Node} (leaf : Leaf node) (inner : Moment σ) :
    ¬ Opens setting limit moment node inner := by
  intro opens
  cases opens <;> exact leaf

theorem leaf_steady (tolerates : Tolerates setting own) {node : Node} (leaf : Leaf node) :
    Steady own (moment.content setting limit node) := by
  cases node with
  | text => exact quiet_pure _
  | output span source expression filters => exact Node.renderOutput_steady tolerates _ _
  | _ => contradiction

/-- A failure of a node is its own, or that of a list of nodes which it opens. -/
theorem originates_or_inner (tolerates : Tolerates setting own) {node : Node} {failure : Failure}
    {after : World σ} (failed : Fails (moment.content setting limit node) moment.world failure after) :
    Originates setting limit own moment node failure ∨
      ∃ inner, Opens setting limit moment node inner ∧ inner.Breaks setting limit failure := by
  by_cases leaf : Leaf node
  · have known := ((leaf_steady tolerates leaf moment.world).2 failure after failed).2
    exact .inl ⟨⟨after, failed⟩, fun inner opens => absurd opens (leaf_opens_nothing leaf inner),
      .inl known⟩
  · have made : MadeOf setting limit (Opens setting limit moment node) _ _ moment.world :=
      content_madeOf tolerates leaf
    rcases made.blamed failure after failed with raised | deeper
    · by_cases broken : ∃ inner e, Opens setting limit moment node inner ∧ inner.Breaks setting limit e
      · obtain ⟨inner, e, opens, breaks⟩ := broken
        obtain ⟨last, other⟩ := made.broken inner opens e breaks
        cases failed.symm.trans other
        exact .inr ⟨inner, opens, breaks⟩
      · exact .inl ⟨⟨after, failed⟩, fun inner opens e breaks => broken ⟨inner, e, opens, breaks⟩,
          raised⟩
    · exact .inr deeper

/-- If a moment breaks, then a node that it visits raised the failure, and the first annotation it
took is that of this node. -/
theorem breaks_of_origin (tolerates : Tolerates setting own) (moment : Moment σ) :
    ∀ failure, moment.Breaks setting limit failure →
      ∃ reached node rest raised, moment.Visits setting limit reached ∧
        reached.nodes = node :: rest ∧ Originates setting limit own reached node raised ∧
        (raised.annotate (node.annotate reached.place)).Keeps failure := by
  induction moment using induction setting limit with
  | step moment ih =>
  rintro failure ⟨after, failed⟩
  have deeper {inner : Moment σ} {e : Failure} (starts : Starts setting limit moment inner)
      (breaks : inner.Breaks setting limit e) (keeps : e.Keeps failure) :
      ∃ reached node rest raised, moment.Visits setting limit reached ∧
        reached.nodes = node :: rest ∧ Originates setting limit own reached node raised ∧
        (raised.annotate (node.annotate reached.place)).Keeps failure := by
    obtain ⟨reached, node, rest, raised, visits, nodes, origin, kept⟩ := ih inner starts e breaks
    exact ⟨reached, node, rest, raised, .head starts visits, nodes, origin, kept.trans keeps⟩
  cases nodes : moment.nodes with
  | nil =>
    rw [rendering_nil nodes] at failed
    cases failed
  | cons node rest =>
    rw [rendering_cons nodes moment.world] at failed
    rcases fails_bind.mp failed with here | ⟨first, middle, here, failed⟩
    · obtain ⟨raised, inside, rfl⟩ := Rendering.fails_annotated.mp here
      rcases originates_or_inner tolerates inside with origin | ⟨inner, opens, breaks⟩
      · exact ⟨moment, node, rest, raised, .refl, nodes, origin, .refl _⟩
      · exact deeper (.inner nodes opens) breaks (.annotate (node.keeps_annotate moment.place))
    · rcases fails_bind.mp failed with there | ⟨second, last, there, impossible⟩
      · have here := Rendering.returns_annotated.mp here
        exact deeper (.next nodes here) ⟨after, there⟩ (.refl failure)
      · cases impossible

end Moment

/-! ### Renderings of templates -/

open Moment

variable {setting : Setting σ} {limit : Nat} {template : Template} {context : Dict Value}
  {world after : World σ}

theorem Template.renderUpTo_eq (setting : Setting σ) (limit : Nat) (template : Template)
    (context : Dict Value) (world : World σ) :
    template.renderUpTo setting limit context =
      Rendering.withFrame context (Rendering.annotated (·.inTemplate template.name)
        ((start setting limit template context world).rendering setting limit)) :=
  rfl

theorem Template.annotated_tidy (template : Template) (moment : Moment σ) :
    Node.Tidy (Rendering.annotated (·.inTemplate template.name) (moment.rendering setting limit)) :=
  Rendering.annotated_steady (fun _ _ => trivial) (rendering_tidy setting limit moment)

theorem Template.yields_of_returns {text : String}
    (done : Returns (template.renderUpTo setting limit context) world text after) :
    (start setting limit template context world).Yields setting limit text := by
  rw [renderUpTo_eq setting limit template context world] at done
  obtain ⟨inner, done, -⟩ := (Rendering.returns_withFrame (annotated_tidy template _)).mp done
  exact ⟨inner, Rendering.returns_annotated.mp done⟩

theorem Template.breaks_of_fails {failure : Failure}
    (failed : Fails (template.renderUpTo setting limit context) world failure after) :
    ∃ raised, (start setting limit template context world).Breaks setting limit raised ∧
      failure = raised.annotate (·.inTemplate template.name) := by
  rw [renderUpTo_eq setting limit template context world] at failed
  obtain ⟨inner, framed, -⟩ := (Rendering.fails_withFrame (annotated_tidy template _)).mp failed
  obtain ⟨raised, failed, same⟩ := Rendering.fails_annotated.mp framed
  exact ⟨raised, ⟨inner, failed⟩, same⟩

theorem Failure.Keeps.of_fault {failure : Failure} {f : Fault} (keeps : failure.Keeps (.fault f)) :
    failure = .fault f := by
  cases keeps
  rfl

theorem Failure.annotate_eq_fault {failure : Failure} {amend : TemplateError → TemplateError}
    {f : Fault} (same : failure.annotate amend = .fault f) : failure = .fault f := by
  cases failure with
  | template error => cases same
  | fault f => exact same

/-- A fault that ends a rendering is that of a node it comes to. -/
theorem Template.fault_of_node {own : Failure → Prop} (tolerates : Tolerates setting own) {f : Fault}
    (failed : Fails (template.renderUpTo setting limit context) world (.fault f) after) :
    ∃ reached node rest, (start setting limit template context world).Visits setting limit reached ∧
      reached.nodes = node :: rest ∧ Originates setting limit own reached node (.fault f) := by
  obtain ⟨raised, breaks, same⟩ := Template.breaks_of_fails failed
  obtain ⟨reached, node, rest, origin, visits, nodes, originates, keeps⟩ :=
    breaks_of_origin tolerates _ raised breaks
  rw [Failure.annotate_eq_fault same.symm] at keeps
  obtain rfl := Failure.annotate_eq_fault keeps.of_fault
  exact ⟨reached, node, rest, visits, nodes, originates⟩

end Stencil
