import Mathlib.Logic.Relation
import Stencil.Proofs.Steadiness

/-! Moments of a rendering. A moment is a list of nodes that is about to be rendered, with all that
its rendering depends on; rendering goes from moment to moment, into the lists that a node opens
and on to its next sibling. That one body opens inside another is bounded by a limit which is a
parameter here: the library renders under one of its limits. -/
namespace Stencil

variable {σ : Type}

namespace Node

/-- As `renderEntered`, with room for `limit` replacements that open inside each other. -/
def renderEnteredUpTo (setting : Setting σ) (limit : Nat) :
    (levels : Nat) → Place → List Node → Rendering σ String
  | 0, _, _ => Rendering.fail (.includeDepth setting.options.maxDepth)
  | levels + 1, place, nodes =>
    renderWithin setting (renderEnteredUpTo setting limit levels) (limit + 1) place nodes

theorem renderEnteredUpTo_tidy (setting : Setting σ) (limit levels : Nat) (place : Place)
    (nodes : List Node) : Tidy (renderEnteredUpTo setting limit levels place nodes) := by
  induction levels generalizing place nodes with
  | zero => exact Rendering.ofResult_steady fun _ _ => trivial
  | succ levels ih => exact renderWithin_tidy ih (limit + 1) place nodes

/-- The limit under which the library renders: of the levels up to `replacementLimit`, one is that
of the nodes into which the first replacement opens. -/
def nestingLimit : Nat := replacementLimit - 1

theorem replacementLimit_eq : replacementLimit = nestingLimit + 1 := rfl

theorem renderEntered_eq (setting : Setting σ) (levels : Nat) :
    renderEntered setting levels = renderEnteredUpTo setting nestingLimit levels := by
  induction levels with
  | zero => rfl
  | succ levels ih =>
    funext place nodes
    rw [renderEntered, renderEnteredUpTo, ih, replacementLimit_eq]

end Node

/-- As `Template.render`, with room for `limit` replacements that open inside each other. -/
def Template.renderUpTo (setting : Setting σ) (limit : Nat) (template : Template)
    (context : Dict Value) : Rendering σ String :=
  Rendering.withFrame context
    (Rendering.annotated (·.inTemplate template.name)
      (Node.renderWithin setting (Node.renderEnteredUpTo setting limit setting.options.maxDepth)
        (limit + 1) ⟨template.name, []⟩ template.nodes))

theorem Template.render_eq (setting : Setting σ) (template : Template) (context : Dict Value) :
    template.render setting context =
      template.renderUpTo setting Node.nestingLimit context := by
  rw [Template.render, Template.renderUpTo, Node.renderTop, Node.renderEntered_eq,
    Node.replacementLimit_eq]

/-! ### Moments -/

/-- Nodes about to be rendered. `levels` more templates may be entered, and `replacements` more
bodies that replace blocks may open inside each other. -/
structure Moment (σ : Type) where
  levels : Nat
  replacements : Nat
  place : Place
  /-- The nodes replace a block of the template that the place names. -/
  borrowed : Bool
  nodes : List Node
  world : World σ

namespace Moment

variable (setting : Setting σ) (limit : Nat)

def door (moment : Moment σ) : Door σ :=
  ⟨Node.renderEnteredUpTo setting limit moment.levels,
    Node.renderWithin setting (Node.renderEnteredUpTo setting limit moment.levels)
      moment.replacements⟩

def rendering (moment : Moment σ) : Rendering σ String :=
  Node.renderAll setting (moment.door setting limit) moment.place moment.nodes

/-- The rendering of one node at a moment, before its failures are annotated. -/
def content (moment : Moment σ) (node : Node) : Rendering σ String :=
  node.content setting (moment.door setting limit) moment.place

/-- Other nodes at the same place. -/
def inside (moment : Moment σ) (nodes : List Node) (world : World σ) : Moment σ :=
  { moment with nodes, world }

theorem door_tidy (moment : Moment σ) (place : Place) (nodes : List Node) :
    Node.Tidy ((moment.door setting limit).enter place nodes) ∧
      Node.Tidy ((moment.door setting limit).replace place nodes) :=
  have tidy := Node.renderEnteredUpTo_tidy setting limit moment.levels
  ⟨tidy place nodes, Node.renderWithin_tidy tidy moment.replacements place nodes⟩

theorem rendering_tidy (moment : Moment σ) : Node.Tidy (moment.rendering setting limit) :=
  Node.renderAll_tidy (fun place nodes => (moment.door_tidy setting limit place nodes).1)
    (fun place nodes => (moment.door_tidy setting limit place nodes).2) moment.nodes

theorem content_tidy (moment : Moment σ) (node : Node) :
    Node.Tidy (moment.content setting limit node) :=
  Node.content_tidy (fun place nodes => (moment.door_tidy setting limit place nodes).1)
    (fun place nodes => (moment.door_tidy setting limit place nodes).2) node
    fun body _ => rendering_tidy setting limit (moment.inside body moment.world)

/-- The nodes of a moment render to a text. -/
def Yields (moment : Moment σ) (text : String) : Prop :=
  ∃ after, Returns (moment.rendering setting limit) moment.world text after

/-- The rendering of the nodes of a moment ends with a failure. -/
def Breaks (moment : Moment σ) (failure : Failure) : Prop :=
  ∃ after, Fails (moment.rendering setting limit) moment.world failure after

/-- The nodes of a body that replaces a block. -/
def replaced (moment : Moment σ) (replacements : Nat) (nodes : List Node) : Moment σ :=
  { moment with replacements, borrowed := true, nodes }

/-- The nodes of a template that is entered. -/
def entered (levels : Nat) (template : Template) (replacements : Dict (List Node))
    (world : World σ) : Moment σ :=
  ⟨levels, limit, ⟨template.name, replacements⟩, false, template.nodes, world⟩

/-- The nodes of a template that is rendered on its own, with its context in a frame. -/
def start (template : Template) (context : Dict Value) (world : World σ) : Moment σ :=
  entered limit setting.options.maxDepth template [] (world.framed context)

/-! ### Steps -/

/-- The body that a chain of clauses chooses, and the world after their conditions. -/
inductive Chooses (otherwise : List Node) : List Clause → World σ → List Node → World σ → Prop
  | last {world : World σ} : Chooses otherwise [] world otherwise world
  | holds {span : Span} {condition : Expression} {body : List Node} {clauses : List Clause}
      {value : Value} {world after : World σ}
      (asked : Returns (condition.evaluate setting) world value after)
      (holds : value.truthy = true) :
      Chooses otherwise (.mk span condition body :: clauses) world body after
  | later {span : Span} {condition : Expression} {body : List Node} {clauses : List Clause}
      {value : Value} {world after : World σ} {nodes : List Node} {last : World σ}
      (asked : Returns (condition.evaluate setting) world value after)
      (fails : value.truthy = false) (chooses : Chooses otherwise clauses after nodes last) :
      Chooses otherwise (.mk span condition body :: clauses) world nodes last

/-- A turn of a loop over items, from an index on. -/
inductive ItemTurn (moment : Moment σ) (body : List Node) (binding : LoopBinding) (length : Nat) :
    Nat → List Value → World σ → Moment σ → Prop
  | first {index : Nat} {item : Value} {rest : List Value} {world : World σ} :
      ItemTurn moment body binding length index (item :: rest) world
        (moment.inside body (world.framed (Node.loopBindings binding item index length)))
  | later {index : Nat} {item : Value} {rest : List Value} {world after : World σ} {text : String}
      {turn : Moment σ}
      (done : Returns (Rendering.withFrame (Node.loopBindings binding item index length)
        ((moment.inside body world).rendering setting limit)) world text after)
      (later : ItemTurn moment body binding length (index + 1) rest after turn) :
      ItemTurn moment body binding length index (item :: rest) world turn

/-- A turn of a loop with a condition, of which some remain. -/
inductive WhileTurn (moment : Moment σ) (condition : Expression) (body : List Node) :
    Nat → World σ → Moment σ → Prop
  | first {remaining : Nat} {value : Value} {world after : World σ}
      (asked : Returns (condition.evaluate setting) world value after)
      (holds : value.truthy = true) :
      WhileTurn moment condition body (remaining + 1) world (moment.inside body after)
  | later {remaining : Nat} {value : Value} {world middle after : World σ} {text : String}
      {turn : Moment σ}
      (asked : Returns (condition.evaluate setting) world value middle)
      (holds : value.truthy = true)
      (done : Returns ((moment.inside body middle).rendering setting limit) middle text after)
      (later : WhileTurn moment condition body remaining after turn) :
      WhileTurn moment condition body (remaining + 1) world turn

/-- The moments that a node opens when it is rendered at a moment. -/
inductive Opens (moment : Moment σ) : Node → Moment σ → Prop
  | clause {span : Span} {condition : Expression} {body : List Node} {clauses : List Clause}
      {otherwise nodes : List Node} {after : World σ}
      (chooses : Chooses setting otherwise (.mk span condition body :: clauses) moment.world nodes
        after) :
      Opens moment (.conditional span condition body clauses otherwise) (moment.inside nodes after)
  | item {span : Span} {binding : LoopBinding} {iterable : Expression} {body : List Node}
      {items : List Value} {after : World σ} {opened : Moment σ}
      (found : Returns (iterable.evaluate setting) moment.world (.list items) after)
      (turn : ItemTurn setting limit moment body binding items.length 0
        (Value.settledItems after.scope.fresh [] 0 items) after opened) :
      Opens moment (.loop span binding iterable body) opened
  | again {span : Span} {condition : Expression} {body : List Node} {opened : Moment σ}
      (turn : WhileTurn setting limit moment condition body setting.options.maxLoopIterations
        moment.world opened) :
      Opens moment (.repetition span condition body) opened
  | fails {span : Span} {condition : Expression} {body : List Node} {value : Value}
      {after : World σ}
      (asked : Returns (condition.evaluate setting) moment.world value after)
      (fails : value.truthy = false) :
      Opens moment (.exception span condition body) (moment.inside body after)
  | kept {named : Block} (kept : Dict.get? moment.place.replacements named.name = none) :
      Opens moment (.block named) (moment.inside named.body moment.world)
  | replaced {named : Block} {other : List Node} {replacements : Nat}
      (replaced : Dict.get? moment.place.replacements named.name = some other)
      (room : moment.replacements = replacements + 1) :
      Opens moment (.block named) (moment.replaced replacements other)
  | inclusion {span : Span} {path : Expression} {template : Template} {after : World σ}
      {levels : Nat} (found : Returns (Node.named setting path) moment.world template after)
      (room : moment.levels = levels + 1) :
      Opens moment (.inclusion span path) (entered limit levels template [] after)
  | extension {span : Span} {parent : Expression} {blocks : List Block} {template : Template}
      {after : World σ} {levels : Nat}
      (found : Returns (Node.named setting parent) moment.world template after)
      (room : moment.levels = levels + 1) :
      Opens moment (.extension span parent blocks)
        (entered limit levels template
          (Dict.update (Node.bodies blocks) moment.place.replacements) after)

/-- What is rendered as part of a moment: a list that its first node opens, or the siblings of
that node once it is done. -/
inductive Starts (moment : Moment σ) : Moment σ → Prop
  | inner {node : Node} {rest : List Node} {opened : Moment σ} (nodes : moment.nodes = node :: rest)
      (opens : Opens setting limit moment node opened) : Starts moment opened
  | next {node : Node} {rest : List Node} {text : String} {after : World σ}
      (nodes : moment.nodes = node :: rest)
      (done : Returns (moment.content setting limit node) moment.world text after) :
      Starts moment (moment.inside rest after)

/-- A moment that is reached in the course of another. -/
abbrev Visits (moment reached : Moment σ) : Prop :=
  Relation.ReflTransGen (Starts setting limit) moment reached

/-! ### What a node can open -/

variable {setting : Setting σ} {limit : Nat} {moment opened : Moment σ} {node : Node}

theorem Chooses.body {otherwise : List Node} {clauses : List Clause} {world after : World σ}
    {nodes : List Node} (chooses : Chooses setting otherwise clauses world nodes after) :
    nodes = otherwise ∨ nodes ∈ clauses.map Clause.body := by
  induction chooses with
  | last => exact .inl rfl
  | holds asked holds => exact .inr List.mem_cons_self
  | later asked fails chooses ih => exact ih.imp_right (List.mem_cons_of_mem _)

theorem ItemTurn.inside {body : List Node} {binding : LoopBinding} {length index : Nat}
    {items : List Value} {world : World σ}
    (turn : ItemTurn setting limit moment body binding length index items world opened) :
    ∃ world, opened = moment.inside body world := by
  induction turn with
  | first => exact ⟨_, rfl⟩
  | later done later ih => exact ih

theorem WhileTurn.inside {condition : Expression} {body : List Node} {remaining : Nat}
    {world : World σ}
    (turn : WhileTurn setting limit moment condition body remaining world opened) :
    ∃ world, opened = moment.inside body world := by
  induction turn with
  | first asked holds => exact ⟨_, rfl⟩
  | later asked holds done later ih => exact ih

/-- What a node opens is one of its inner lists, the body that replaces it, or a template with
replacements that the place or the node itself gives. -/
inductive Opening (setting : Setting σ) (limit : Nat) (moment : Moment σ) (node : Node) :
    Moment σ → Prop
  | inner {body : List Node} {world : World σ} (part : body ∈ node.inner) :
      Opening setting limit moment node (moment.inside body world)
  | replaced {named : Block} {other : List Node} {replacements : Nat} (same : node = .block named)
      (replaced : Dict.get? moment.place.replacements named.name = some other)
      (room : moment.replacements = replacements + 1) :
      Opening setting limit moment node (moment.replaced replacements other)
  | entered {levels : Nat} {path : Expression} {template : Template}
      {replacements : Dict (List Node)} {after : World σ} (room : moment.levels = levels + 1)
      (found : Returns (Node.named setting path) moment.world template after)
      (given : ∀ entry ∈ replacements, entry ∈ moment.place.replacements ∨
        ∃ span parent blocks named, node = .extension span parent blocks ∧ named ∈ blocks ∧
          entry = (named.name, named.body)) :
      Opening setting limit moment node (entered limit levels template replacements after)

theorem Opens.opening (opens : Opens setting limit moment node opened) :
    Opening setting limit moment node opened := by
  cases opens with
  | clause chooses =>
    refine .inner ?_
    rcases chooses.body with rfl | member
    · simp [Node.inner]
    · rcases List.mem_cons.mp member with rfl | member
      · exact List.mem_cons_self
      · exact List.mem_cons_of_mem _ (List.mem_cons_of_mem _ member)
  | item found turn =>
    obtain ⟨world, rfl⟩ := turn.inside
    exact .inner List.mem_cons_self
  | again turn =>
    obtain ⟨world, rfl⟩ := turn.inside
    exact .inner List.mem_cons_self
  | fails => exact .inner List.mem_cons_self
  | kept => exact .inner List.mem_cons_self
  | replaced replaced room => exact .replaced rfl replaced room
  | inclusion found room =>
    exact .entered room found fun entry member => absurd member List.not_mem_nil
  | extension found room =>
    refine .entered room found fun entry member => ?_
    rcases Dict.mem_of_mem_update member with member | member
    · obtain ⟨named, listed, rfl⟩ := List.mem_map.mp (Dict.mem_of_mem_ofList member)
      exact .inr ⟨_, _, _, named, rfl, listed, rfl⟩
    · exact .inl member

/-! ### Every rendering comes to an end -/

/-- What bounds the renderings inside a moment: templates that may be entered, then bodies that may
replace blocks, then the nodes. -/
def before (a b : Moment σ) : Prop :=
  Prod.Lex (· < ·) (Prod.Lex (· < ·) (· < ·)) (a.levels, a.replacements, sizeOf a.nodes)
    (b.levels, b.replacements, sizeOf b.nodes)

theorem inside_before {nodes : List Node} {world : World σ}
    (less : sizeOf nodes < sizeOf moment.nodes) : (moment.inside nodes world).before moment :=
  .right _ (.right _ less)

theorem Opens.before {rest : List Node} (nodes : moment.nodes = node :: rest)
    (opens : Opens setting limit moment node opened) : opened.before moment := by
  cases opens.opening with
  | inner part =>
    refine inside_before ?_
    have less := Node.sizeOf_lt_of_mem_parts (Node.inner_subset_parts part)
    rw [nodes, List.cons.sizeOf_spec]
    omega
  | replaced same replaced room => exact .right _ (.left _ _ (by simp [Moment.replaced, room]))
  | entered room found given => exact .left _ _ (by simp [Moment.entered, room])

theorem Starts.before (starts : Starts setting limit moment opened) : opened.before moment := by
  cases starts with
  | inner nodes opens => exact opens.before nodes
  | next nodes done =>
    refine inside_before ?_
    rw [nodes, List.cons.sizeOf_spec]
    omega

/-- Induction over the moments of a rendering, the inner ones first. -/
theorem induction (setting : Setting σ) (limit : Nat) {motive : Moment σ → Prop}
    (step : ∀ moment, (∀ opened, Starts setting limit moment opened → motive opened) →
      motive moment) (moment : Moment σ) : motive moment :=
  step moment fun opened _ => induction setting limit step opened
termination_by (moment.levels, moment.replacements, sizeOf moment.nodes)
decreasing_by
  rename_i starts
  exact starts.before

/-! ### Worlds -/

/-- A property of worlds that depends on what rendering leaves alone, and holds under the frames of
loops. -/
structure Lasting (setting : Setting σ) (property : World σ → Prop) : Prop where
  held {world after : World σ} (same : after.held = world.held) (now : property world) :
    property after
  framed {iterable : Expression} {world after turn : World σ} {items : List Value} {item : Value}
    (now : property world) (found : Returns (iterable.evaluate setting) world (.list items) after)
    (member : item ∈ Value.settledItems after.scope.fresh [] 0 items) (later : property turn)
    (binding : LoopBinding) (index : Nat) :
    property (turn.framed (Node.loopBindings binding item index items.length))

variable {property : World σ → Prop} (lasting : Lasting setting property)
include lasting

theorem Lasting.evaluated {expression : Expression} {value : Value} {world after : World σ}
    (run : Returns (expression.evaluate setting) world value after) (now : property world) :
    property after :=
  lasting.held ((expression.evaluate_steady (tolerates_any setting)).view_eq run) now

theorem Lasting.named {path : Expression} {template : Template} {world after : World σ}
    (run : Returns (Node.named setting path) world template after) (now : property world) :
    property after :=
  lasting.held ((Node.named_steady (tolerates_any setting) path).view_eq run) now

theorem Lasting.chooses {otherwise nodes : List Node} {clauses : List Clause}
    {world after : World σ} (chooses : Chooses setting otherwise clauses world nodes after)
    (now : property world) : property after := by
  induction chooses with
  | last => exact now
  | holds asked _ => exact lasting.evaluated asked now
  | later asked _ _ ih => exact ih (lasting.evaluated asked now)

theorem Lasting.itemTurn {iterable : Expression} {world middle : World σ} {items : List Value}
    (found : Returns (iterable.evaluate setting) world (.list items) middle) (now : property world)
    {body : List Node} {binding : LoopBinding} {index : Nat} {rest : List Value}
    (subset : rest ⊆ Value.settledItems middle.scope.fresh [] 0 items) {turnWorld : World σ}
    (turn : ItemTurn setting limit moment body binding items.length index rest turnWorld opened)
    (later : property turnWorld) : property opened.world := by
  induction turn with
  | first => exact lasting.framed now found (subset List.mem_cons_self) later binding _
  | later done _ ih =>
    have tidy := fun turn : Moment σ => rendering_tidy setting limit turn
    exact ih (fun other member => subset (List.mem_cons_of_mem _ member))
      (lasting.held ((Rendering.withFrame_steady (tidy _) _).view_eq done) later)

theorem Lasting.whileTurn {condition : Expression} {body : List Node} {remaining : Nat}
    {world : World σ}
    (turn : WhileTurn setting limit moment condition body remaining world opened)
    (now : property world) : property opened.world := by
  induction turn with
  | first asked _ => exact lasting.evaluated asked now
  | later asked _ done _ ih =>
    exact ih (lasting.held ((rendering_tidy setting limit _).view_eq done)
      (lasting.evaluated asked now))

theorem Lasting.starts (starts : Starts setting limit moment opened)
    (now : property moment.world) : property opened.world := by
  cases starts with
  | inner nodes opens =>
    cases opens with
    | clause chooses => exact lasting.chooses chooses now
    | item found turn =>
      exact lasting.itemTurn found now (List.Subset.refl _) turn (lasting.evaluated found now)
    | again turn => exact lasting.whileTurn turn now
    | fails asked _ => exact lasting.evaluated asked now
    | kept | replaced => exact now
    | inclusion found _ | extension found _ => exact lasting.named found now
  | next nodes done =>
    exact lasting.held ((content_tidy setting limit moment _).view_eq done) now

/-- What lasts holds at every moment that is reached. -/
theorem Lasting.visits (visits : Visits setting limit moment opened)
    (now : property moment.world) : property opened.world := by
  induction visits with
  | refl => exact now
  | tail _ starts ih => exact lasting.starts starts ih

end Moment
end Stencil
