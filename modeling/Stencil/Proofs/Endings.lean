import Mathlib.Data.Set.Card
import Mathlib.Data.Set.Finite.Lattice
import Stencil.Proofs.Sources

/-! When rendering ends. Includes and parents are bounded by a depth and loops by their turns, but
a body that replaces a block may ask for that block again: nothing but the room for replacements
ends this. With more room a rendering that did not run out of it has the same outcome, and if no
body asks for itself, not even by way of others, then a fixed room is enough. -/
namespace Stencil

variable {σ α β : Type}

/-- There is no room for a further replacement. -/
def Failure.exhausted : Failure := .fault .stackExhausted

/-- Another step does the same unless this one runs out of room. -/
def Extends (step more : Rendering σ α) : Prop :=
  ∀ world, more world = step world ∨ ∃ after, Fails step world .exhausted after

theorem extends_refl (step : Rendering σ α) : Extends step step := fun _ => .inl rfl

theorem Extends.bind {step more : Rendering σ α} {next other : α → Rendering σ β}
    (first : Extends step more) (later : ∀ a, Extends (next a) (other a)) :
    Extends (step >>= next) (more >>= other) := by
  intro world
  have run : (step >>= next) world = _ := run_bind step next world
  have run_more : (more >>= other) world = _ := run_bind more other world
  rcases first world with same | ⟨after, out⟩
  · rcases returns_or_fails step world with ⟨a, middle, here⟩ | ⟨e, middle, here⟩
    · have there : more.run.run world = (.ok a, middle) := same.trans here
      rw [show step.run.run world = _ from here] at run
      rw [there] at run_more
      rcases later a middle with same | ⟨after, out⟩
      · left
        rw [run, run_more]
        exact same
      · exact .inr ⟨after, fails_bind.mpr (.inr ⟨a, middle, here, out⟩)⟩
    · have there : more.run.run world = (.error e, middle) := same.trans here
      rw [show step.run.run world = _ from here] at run
      rw [there] at run_more
      exact .inl (run_more.trans run.symm)
  · exact .inr ⟨after, fails_bind.mpr (.inl out)⟩

namespace Rendering

variable {step more : Rendering σ α}

theorem annotated_extends (amend : TemplateError → TemplateError) (first : Extends step more) :
    Extends (annotated amend step) (annotated amend more) := by
  intro world
  rcases first world with same | ⟨after, out⟩
  · left
    unfold annotated
    rw [same]
  · exact .inr ⟨after, fails_annotated.mpr ⟨.exhausted, out, rfl⟩⟩

theorem withFrame_extends (tidy : Node.Tidy step) (tidy_more : Node.Tidy more)
    (bindings : Dict Value) (first : Extends step more) :
    Extends (withFrame bindings step) (withFrame bindings more) := by
  intro world
  rcases first (world.framed bindings) with same | ⟨after, out⟩
  · left
    rw [withFrame_run tidy, withFrame_run tidy_more, same]
  · exact .inr ⟨_, (fails_withFrame tidy).mpr ⟨after, out, rfl⟩⟩

end Rendering

/-! ### Nodes -/

namespace Node

variable {setting : Setting σ} {body other : Rendering σ String}

theorem renderItems_extends (tidy : Tidy body) (tidy_other : Tidy other)
    (first : Extends body other) (binding : LoopBinding) (length index : Nat) (items : List Value) :
    Extends (renderItems body binding length index items)
      (renderItems other binding length index items) := by
  induction items generalizing index with
  | nil => exact extends_refl _
  | cons item rest ih =>
    exact (Rendering.withFrame_extends tidy tidy_other _ first).bind fun _ =>
      (ih (index + 1)).bind fun _ => extends_refl _

theorem renderWhile_extends (condition : Rendering σ Value) (first : Extends body other)
    (remaining : Nat) :
    Extends (renderWhile setting condition body remaining)
      (renderWhile setting condition other remaining) := by
  induction remaining with
  | zero => exact extends_refl _
  | succ remaining ih =>
    refine (extends_refl condition).bind fun value => ?_
    split
    · exact first.bind fun _ => ih.bind fun _ => extends_refl _
    · exact extends_refl _

/-- A door through which the same is rendered as through another, with more room. -/
structure Widens (door wider : Door σ) : Prop where
  enter (place : Place) (nodes : List Node) :
    Extends (door.enter place nodes) (wider.enter place nodes)
  replace (place : Place) (nodes : List Node) :
    Extends (door.replace place nodes) (wider.replace place nodes)

variable {door wider : Door σ} {place : Place}

theorem renderClauses_extends {otherwise others : Rendering σ String}
    (last : Extends otherwise others) (clauses : List Clause)
    (bodies : ∀ clause ∈ clauses, Extends (renderAll setting door place clause.body)
      (renderAll setting wider place clause.body)) :
    Extends (renderClauses setting door place otherwise clauses)
      (renderClauses setting wider place others clauses) := by
  induction clauses with
  | nil => exact last
  | cons clause rest ih =>
    obtain ⟨span, condition, body⟩ := clause
    refine (extends_refl (condition.evaluate setting)).bind fun value => ?_
    split
    · exact bodies (.mk span condition body) List.mem_cons_self
    · exact ih fun clause member => bodies clause (List.mem_cons_of_mem _ member)

theorem content_extends (widens : Widens door wider) (node : Node)
    (tidy : ∀ body, Tidy (renderAll setting door place body))
    (tidy_wider : ∀ body, Tidy (renderAll setting wider place body))
    (bodies : ∀ body ∈ node.inner, Extends (renderAll setting door place body)
      (renderAll setting wider place body)) :
    Extends (node.content setting door place) (node.content setting wider place) := by
  cases node with
  | text | comment | output => exact extends_refl _
  | conditional span condition body clauses otherwise =>
    refine renderClauses_extends (bodies _ (by simp [inner])) _ fun clause member => bodies _ ?_
    rcases List.mem_cons.mp member with rfl | member
    · simp [inner, Clause.body]
    · exact List.mem_cons_of_mem _ (List.mem_cons_of_mem _ (List.mem_map_of_mem member))
  | loop span binding iterable body =>
    refine (extends_refl (iterable.evaluate setting)).bind fun value => ?_
    split
    · exact (extends_refl get).bind fun _ =>
        renderItems_extends (tidy body) (tidy_wider body) (bodies _ List.mem_cons_self) binding _ _ _
    · exact extends_refl _
  | repetition span condition body =>
    exact renderWhile_extends _ (bodies _ List.mem_cons_self) _
  | exception span condition body =>
    refine (extends_refl (condition.evaluate setting)).bind fun value => ?_
    split
    · exact extends_refl _
    · exact bodies _ List.mem_cons_self
  | block named =>
    rw [content, content]
    cases replaced : Dict.get? place.replacements named.name with
    | none =>
      rw [renderBlock_kept _ _ _ replaced, renderBlock_kept _ _ _ replaced]
      exact bodies _ List.mem_cons_self
    | some other =>
      rw [renderBlock_replaced _ _ _ replaced, renderBlock_replaced _ _ _ replaced]
      exact widens.replace place other
  | inclusion span path =>
    exact (extends_refl (named setting path)).bind fun _ => widens.enter _ _
  | extension span parent blocks =>
    exact (extends_refl (named setting parent)).bind fun _ => widens.enter _ _

theorem renderAll_extends (widens : Widens door wider)
    (tidy : ∀ body, Tidy (renderAll setting door place body))
    (tidy_wider : ∀ body, Tidy (renderAll setting wider place body)) (nodes : List Node) :
    Extends (renderAll setting door place nodes) (renderAll setting wider place nodes) := by
  induction nodes using list_induction with
  | nil => exact extends_refl _
  | cons node rest parts later =>
    rw [renderAll_cons, renderAll_cons]
    have content := content_extends widens node tidy tidy_wider fun body part =>
      parts body (inner_subset_parts part)
    exact (Rendering.annotated_extends _ content).bind fun _ => later.bind fun _ => extends_refl _

theorem renderWithin_extends {enter wide : Place → List Node → Rendering σ String}
    (tidy : ∀ place nodes, Tidy (enter place nodes)) (tidy_wide : ∀ place nodes, Tidy (wide place nodes))
    (entered : ∀ place nodes, Extends (enter place nodes) (wide place nodes))
    {replacements more : Nat} (room : replacements ≤ more) (place : Place) (nodes : List Node) :
    Extends (renderWithin setting enter replacements place nodes)
      (renderWithin setting wide more place nodes) := by
  induction replacements generalizing more place nodes with
  | zero => exact fun world => .inr ⟨world, rfl⟩
  | succ replacements ih =>
    obtain ⟨more, rfl⟩ : ∃ less, more = less + 1 := ⟨more - 1, by omega⟩
    exact renderAll_extends ⟨entered, fun place nodes => ih (by omega) place nodes⟩
      (renderAll_tidy tidy (renderWithin_tidy tidy replacements))
      (renderAll_tidy tidy_wide (renderWithin_tidy tidy_wide _)) nodes

theorem renderEnteredUpTo_extends {limit more : Nat} (room : limit ≤ more) (levels : Nat)
    (place : Place) (nodes : List Node) :
    Extends (renderEnteredUpTo setting limit levels place nodes)
      (renderEnteredUpTo setting more levels place nodes) := by
  induction levels generalizing place nodes with
  | zero => exact extends_refl _
  | succ levels ih =>
    exact renderWithin_extends (renderEnteredUpTo_tidy setting limit levels)
      (renderEnteredUpTo_tidy setting more levels) ih (by omega) place nodes

end Node

/-- More room does not change the outcome of a rendering that did not run out of it. -/
theorem Template.renderUpTo_extends (setting : Setting σ) {limit more : Nat} (room : limit ≤ more)
    (template : Template) (context : Dict Value) :
    Extends (template.renderUpTo setting limit context)
      (template.renderUpTo setting more context) := by
  have tidy (limit : Nat) :=
    Node.renderEnteredUpTo_tidy setting limit setting.options.maxDepth
  refine Rendering.withFrame_extends ?_ ?_ _ (Rendering.annotated_extends _ ?_)
  · exact Rendering.annotated_steady (fun _ _ => trivial) (Node.renderWithin_tidy (tidy limit) _ _ _)
  · exact Rendering.annotated_steady (fun _ _ => trivial) (Node.renderWithin_tidy (tidy more) _ _ _)
  · exact Node.renderWithin_extends (tidy limit) (tidy more)
      (Node.renderEnteredUpTo_extends room setting.options.maxDepth) (by omega) _ _

/-! ### Bodies that do not ask for themselves -/

namespace Moment

variable {setting : Setting σ} {limit : Nat} {stored : Dict (Option Template)} {root : Template}
  {moment opened : Moment σ} {rank : String → Nat} {bound : Nat}

/-- A body that is given for a block asks for another block, for which a body is given too. -/
def AsksFor (setting : Setting σ) (stored : Dict (Option Template)) (root : Template)
    (asked name : String) : Prop :=
  ∃ body, Given setting stored root (name, body) ∧ Node.Asks body asked ∧
    ∃ other, Given setting stored root (asked, other)

/-- Ranks below a bound, of which blocks that are asked for have lower ones. -/
structure Ranking (setting : Setting σ) (stored : Dict (Option Template)) (root : Template)
    (rank : String → Nat) (bound : Nat) : Prop where
  below {name : String} {body : List Node} (given : Given setting stored root (name, body)) :
    rank name < bound
  lower {asked name : String} (asks : AsksFor setting stored root asked name) :
    rank asked < rank name

/-- Blocks that are asked for at a moment and replaced have ranks below the room that is left. -/
def Roomy (rank : String → Nat) (moment : Moment σ) : Prop :=
  ∀ name other, Node.Asks moment.nodes name →
    Dict.get? moment.place.replacements name = some other → rank name < moment.replacements

theorem Roomy.starts (ranking : Ranking setting stored root rank bound) (enough : bound ≤ limit)
    (sourced : Sourced setting stored root moment) (starts : Starts setting limit moment opened)
    (roomy : Roomy rank moment) : Roomy rank opened := by
  have later := sourced.starts starts
  cases starts with
  | inner nodes opens =>
    cases opens.opening with
    | inner part =>
      intro name other asks replaced
      exact roomy name other (nodes ▸ asks.of_inner part) replaced
    | replaced same replaced room =>
      rename_i named body replacements
      intro name other asks again
      have given := sourced.replacements _ (Dict.mem_of_get? replaced)
      have lower := ranking.lower
        ⟨body, given, asks, other, later.replacements _ (Dict.mem_of_get? again)⟩
      have now := roomy named.name body (nodes ▸ same ▸ Node.asks_block named _) replaced
      change rank name < replacements
      omega
    | entered room found given =>
      intro name other asks replaced
      have below := ranking.below (later.replacements _ (Dict.mem_of_get? replaced))
      exact Nat.lt_of_lt_of_le below enough
  | next nodes done =>
    intro name other asks replaced
    exact roomy name other (nodes ▸ asks.of_rest) replaced

theorem Roomy.visits (ranking : Ranking setting stored root rank bound) (enough : bound ≤ limit)
    (sourced : Sourced setting stored root moment) (visits : Visits setting limit moment opened)
    (roomy : Roomy rank moment) : Roomy rank opened := by
  induction visits with
  | refl => exact roomy
  | tail reached starts ih => exact ih.starts ranking enough (sourced.visits reached) starts

end Moment

theorem Failure.OfRoutine.ne_exhausted {failure : Failure} (known : failure.OfRoutine) :
    failure ≠ .exhausted := by
  rintro rfl
  cases known

theorem tolerates_not_exhausted (setting : Setting σ) : Tolerates setting (· ≠ .exhausted) where
  cause _ same := by cases same
  numbers fault known same := by
    cases same
    exact known
  call name args state :=
    (setting.library.call_raises name args state).mono fun _ known => known.ne_exhausted
  applyFilter name args state :=
    (setting.library.applyFilter_raises name args state).mono fun _ known => known.ne_exhausted

/-- Every function and every filter returns a value or raises an error. -/
def Library.Answers (library : Library σ) : Prop :=
  ∀ name args state, (library.call name args state).1 ≠ .error (.fault .endless) ∧
    (library.applyFilter name args state).1 ≠ .error (.fault .endless)

theorem Library.Answers.tolerates {setting : Setting σ} (answers : setting.library.Answers) :
    Tolerates setting (· ≠ .fault .endless) where
  cause _ same := by cases same
  numbers fault known same := by
    cases same
    exact known
  call name args state := by
    rintro _ failed rfl
    exact (answers name args state).1 failed
  applyFilter name args state := by
    rintro _ failed rfl
    exact (answers name args state).2 failed

theorem Template.not_exhausted {setting : Setting σ} {root : Template} {context : Dict Value}
    {world after : World σ} {rank : String → Nat} {bound limit : Nat}
    (ranking : Moment.Ranking setting world.store.entries root rank bound) (enough : bound ≤ limit) :
    ¬ Fails (root.renderUpTo setting limit context) world .exhausted after := by
  intro failed
  obtain ⟨reached, node, rest, visits, nodes, originates⟩ :=
    Template.fault_of_node (tolerates_not_exhausted setting) failed
  rcases originates.raised with known | ⟨⟨full, named, other, rfl, replaced⟩, -⟩
  · exact known rfl
  · have start := Moment.start_sourced setting limit root context world
    have roomy : Moment.Roomy rank (Moment.start setting limit root context world) :=
      fun name other asks replaced => by cases replaced
    have less := roomy.visits ranking enough start visits named.name other
      (nodes ▸ Node.asks_block named rest) replaced
    omega

/-- What never ends in a rendering is a function or a filter. -/
theorem Template.not_endless {setting : Setting σ} {root : Template} {context : Dict Value}
    {world after : World σ} {limit : Nat} (answers : setting.library.Answers) :
    ¬ Fails (root.renderUpTo setting limit context) world (.fault .endless) after := by
  intro failed
  obtain ⟨reached, node, rest, -, -, originates⟩ := Template.fault_of_node answers.tolerates failed
  rcases originates.raised with known | ⟨-, impossible⟩
  · exact known rfl
  · cases impossible

/-! ### Ranks -/

/-- The bodies that extensions among nodes give for blocks. -/
def Node.givenAmong (nodes : List Node) : Set (String × List Node) :=
  {entry | ∃ span parent blocks named, Within parts (extension span parent blocks) nodes ∧
    named ∈ blocks ∧ entry = (named.name, named.body)}

theorem Node.finite_givenAmong (nodes : List Node) : (givenAmong nodes).Finite := by
  induction nodes using list_induction with
  | nil =>
    refine Set.finite_empty.subset ?_
    rintro entry ⟨_, _, _, _, within, -, -⟩
    exact within_nil within
  | cons node rest parts later =>
    have own : {entry | ∃ span parent blocks named, node = extension span parent blocks ∧
        named ∈ blocks ∧ entry = (named.name, named.body)}.Finite := by
      cases node with
      | extension span parent blocks =>
        refine (List.finite_toSet (blocks.map fun named => (named.name, named.body))).subset ?_
        rintro entry ⟨_, _, _, named, ⟨rfl⟩, member, rfl⟩
        exact List.mem_map.mpr ⟨named, member, rfl⟩
      | _ =>
        refine Set.finite_empty.subset ?_
        rintro entry ⟨_, _, _, _, impossible, -, -⟩
        cases impossible
    have inside := Set.Finite.biUnion (List.finite_toSet node.parts) parts
    refine ((own.union inside).union later).subset ?_
    rintro entry ⟨span, parent, blocks, named, within, member, rfl⟩
    rcases within_cons.mp within with rfl | ⟨body, part, deeper⟩ | found
    · exact .inl (.inl ⟨span, parent, blocks, named, rfl, member, rfl⟩)
    · exact .inl (.inr (Set.mem_biUnion part ⟨span, parent, blocks, named, deeper, member, rfl⟩))
    · exact .inr ⟨span, parent, blocks, named, found, member, rfl⟩

theorem finite_known (setting : Setting σ) (stored : Dict (Option Template)) (root : Template) :
    {template | Known setting stored root template}.Finite := by
  refine (List.finite_toSet (root :: ((setting.catalogue.getD []).map (·.2) ++
    stored.filterMap (·.2)))).subset ?_
  rintro template (rfl | ⟨name, resolves⟩)
  · exact List.mem_cons_self
  · refine List.mem_cons_of_mem _ (List.mem_append.mpr ?_)
    cases resolves with
    | listed present found =>
      rw [present]
      exact .inl (List.mem_map_of_mem (Dict.mem_of_get? found))
    | kept present missing found =>
      exact .inr (List.mem_filterMap.mpr ⟨_, Dict.mem_of_get? found, rfl⟩)

namespace Moment

variable {setting : Setting σ} {stored : Dict (Option Template)} {root : Template}

theorem finite_given (setting : Setting σ) (stored : Dict (Option Template)) (root : Template) :
    {entry | Given setting stored root entry}.Finite := by
  refine (Set.Finite.biUnion (finite_known setting stored root) fun template _ =>
    Node.finite_givenAmong template.nodes).subset ?_
  rintro entry ⟨template, known, given⟩
  exact Set.mem_biUnion known given

theorem Ranking.apart {rank : String → Nat} {bound : Nat}
    (ranking : Ranking setting stored root rank bound) (name : String) :
    ¬ Relation.TransGen (AsksFor setting stored root) name name := by
  have falls {asked name : String} (chain : Relation.TransGen (AsksFor setting stored root) asked name) :
      rank asked < rank name := by
    induction chain with
    | single asks => exact ranking.lower asks
    | tail _ asks ih => exact ih.trans (ranking.lower asks)
  exact fun chain => Nat.lt_irrefl _ (falls chain)

/-- The rank of a block: how many others are asked for on its behalf. -/
theorem exists_ranking
    (apart : ∀ name, ¬ Relation.TransGen (AsksFor setting stored root) name name) :
    ∃ rank bound, Ranking setting stored root rank bound := by
  let names := Prod.fst '' {entry | Given setting stored root entry}
  have finite : names.Finite := (finite_given setting stored root).image _
  let behalf (name : String) := {asked | Relation.TransGen (AsksFor setting stored root) asked name}
  have among (name : String) : behalf name ⊆ names := by
    intro asked chain
    obtain ⟨next, ⟨body, -, -, other, given⟩, -⟩ := Relation.TransGen.head'_iff.mp chain
    exact ⟨_, given, rfl⟩
  refine ⟨fun name => (behalf name).ncard, names.ncard, fun given => ?_, fun asks => ?_⟩
  · refine Set.ncard_lt_ncard ⟨among _, fun all => apart _ (all ⟨_, given, rfl⟩)⟩ finite
  · refine Set.ncard_lt_ncard ⟨fun other chain => chain.tail asks, fun all => ?_⟩
      (finite.subset (among _))
    exact apart _ (all (.single asks))

end Moment

/-- If no body that is given for a block asks for that block again, not even by way of others, then
every rendering comes to an end where all functions and filters do: with enough room for replacements
inside each other it never runs out of it, and more room does not change what it returns or fails
with. -/
theorem Template.rendering_settles (setting : Setting σ) (root : Template) (context : Dict Value)
    (world : World σ)
    (apart : ∀ name, ¬ Relation.TransGen (Moment.AsksFor setting world.store.entries root) name name) :
    ∃ result after room, result ≠ .error .exhausted ∧
      (setting.library.Answers → result ≠ .error (.fault .endless)) ∧
      (∀ limit, room ≤ limit → root.renderUpTo setting limit context world = (result, after)) ∧
      (room ≤ Node.nestingLimit → root.render setting context world = (result, after)) := by
  obtain ⟨rank, room, ranking⟩ := Moment.exists_ranking apart
  rcases settled : root.renderUpTo setting room context world with ⟨result, after⟩
  have settles (limit : Nat) (enough : room ≤ limit) :
      root.renderUpTo setting limit context world = (result, after) := by
    rcases Template.renderUpTo_extends setting enough root context world with same | ⟨after, out⟩
    · exact same.trans settled
    · exact absurd out (Template.not_exhausted ranking (Nat.le_refl room))
  refine ⟨result, after, room, fun out => ?_, fun answers endless => ?_, settles, fun enough => ?_⟩
  · rw [out] at settled
    exact Template.not_exhausted ranking (Nat.le_refl room) settled
  · rw [endless] at settled
    exact Template.not_endless answers settled
  · rw [root.render_eq]
    exact settles _ enough

/-! ### Examples -/

namespace OneBlock

/-- It extends the template by a body for the block that asks for another block, and by one for
that other block. -/
def chained : Template :=
  ⟨1, none, "\x7b% extends \"base\" %\x7d\x7b% block a %\x7d\x7b% block b %\x7d\x7b% endblock %\x7d\x7b% endblock %\x7d\x7b% block b %\x7dx\x7b% endblock %\x7d",
    [.extension ⟨0, 20, ⟨1, 1⟩⟩ (.literal (some ⟨11, 17, ⟨1, 12⟩⟩) (.text "base"))
      [.mk ⟨20, 33, ⟨1, 21⟩⟩ "a" [.block (.mk ⟨33, 46, ⟨1, 34⟩⟩ "b" [])],
        .mk ⟨72, 85, ⟨1, 73⟩⟩ "b" [.text ⟨85, 86, ⟨1, 86⟩⟩ "x"]]], []⟩

theorem chained_given {entry : String × List Node} (given : Moment.Given baseOnly [] chained entry) :
    entry = ("a", [.block (.mk ⟨33, 46, ⟨1, 34⟩⟩ "b" [])]) ∨
      entry = ("b", [.text ⟨85, 86, ⟨1, 86⟩⟩ "x"]) := by
  obtain ⟨template, known, span, parent, blocks, named, within, member, rfl⟩ := given
  rcases known_cases known with rfl | rfl
  · simp [chained, Node.within_cons, Node.within_nil, Node.parts, Node.inner, Node.replacing,
      Block.body] at within
    obtain ⟨-, -, rfl⟩ := within
    rcases List.mem_cons.mp member with rfl | member
    · exact .inl rfl
    · cases List.mem_singleton.mp member
      exact .inr rfl
  · simp [base, Node.within_cons, Node.within_nil, Node.parts, Node.inner, Node.replacing,
      Block.body] at within

theorem chained_ranking :
    Moment.Ranking baseOnly [] chained (fun name => if name = "a" then 1 else 0) 2 where
  below _ := by
    split <;> omega
  lower := by
    rintro asked name ⟨body, given, ⟨named, within, rfl⟩, -⟩
    rcases chained_given given with ⟨rfl, rfl⟩ | ⟨rfl, rfl⟩
    · simp [Node.within_cons, Node.within_nil, Node.inner, Block.body] at within
      subst within
      decide
    · simp [Node.within_cons, Node.within_nil, Node.inner] at within

/-- It extends the template by a body that begins with the block it is for. -/
def selfAsking : Template :=
  ⟨1, none, "\x7b% extends \"base\" %\x7d\x7b% block a %\x7d\x7b% block a %\x7dx\x7b% endblock %\x7d\x7b% endblock %\x7d",
    [.extension ⟨0, 20, ⟨1, 1⟩⟩ (.literal (some ⟨11, 17, ⟨1, 12⟩⟩) (.text "base"))
      [.mk ⟨20, 33, ⟨1, 21⟩⟩ "a"
        [.block (.mk ⟨33, 46, ⟨1, 34⟩⟩ "a" [.text ⟨46, 47, ⟨1, 47⟩⟩ "x"])]]], []⟩

end OneBlock

/-- A body that begins with the block it replaces is replaced again, as long as there is room. -/
theorem Node.renderWithin_exhausts (setting : Setting σ)
    (enter : Place → List Node → Rendering σ String) (place : Place) (named again : Block)
    (rest others : List Node)
    (replaced : Dict.get? place.replacements named.name = some (.block again :: others))
    (same : again.name = named.name) (replacements : Nat) (world : World σ) :
    ∃ after, Fails (renderWithin setting enter replacements place (.block named :: rest)) world
      .exhausted after := by
  induction replacements generalizing named rest with
  | zero => exact ⟨world, rfl⟩
  | succ replacements ih =>
    obtain ⟨after, out⟩ := ih again others (same ▸ replaced) rfl
    refine ⟨after, ?_⟩
    rw [renderWithin, renderAll_cons]
    refine fails_bind.mpr (.inl (Rendering.fails_annotated.mpr ⟨.exhausted, ?_, rfl⟩))
    rw [content, renderBlock_replaced _ _ _ replaced]
    exact out

namespace OneBlock

/-- Blocks that ask for each other without a circle. -/
theorem chained_settles :
    (∀ name, ¬ Relation.TransGen (Moment.AsksFor baseOnly emptyWorld.store.entries chained) name name) ∧
    ∃ result after room, result ≠ .error .exhausted ∧
      (baseOnly.library.Answers → result ≠ .error (.fault .endless)) ∧
      (∀ limit, room ≤ limit → chained.renderUpTo baseOnly limit [] emptyWorld = (result, after)) ∧
      (room ≤ Node.nestingLimit → chained.render baseOnly [] emptyWorld = (result, after)) :=
  ⟨chained_ranking.apart,
    Template.rendering_settles baseOnly chained [] emptyWorld chained_ranking.apart⟩

theorem selfAsking_exhausts (limit : Nat) :
    ∃ after, Fails (selfAsking.renderUpTo baseOnly limit []) emptyWorld .exhausted after := by
  let again : Block := .mk ⟨33, 46, ⟨1, 34⟩⟩ "a" [.text ⟨46, 47, ⟨1, 47⟩⟩ "x"]
  let start := Moment.start baseOnly limit selfAsking [] emptyWorld
  obtain ⟨after, out⟩ := Node.renderWithin_exhausts baseOnly
    (Node.renderEnteredUpTo baseOnly limit 99) ⟨some "base", [("a", [.block again])]⟩
    (.mk ⟨0, 13, ⟨1, 1⟩⟩ "a" []) again [] [] rfl rfl (limit + 1) (emptyWorld.framed [])
  have inside : Fails (start.rendering baseOnly limit) (emptyWorld.framed []) .exhausted after := by
    rw [Moment.rendering, show start.nodes = selfAsking.nodes from rfl, selfAsking, Node.renderAll_cons]
    refine fails_bind.mpr (.inl (Rendering.fails_annotated.mpr ⟨.exhausted, ?_, rfl⟩))
    exact fails_bind.mpr (.inr ⟨base, _, named_base _ _, out⟩)
  rw [Template.renderUpTo_eq baseOnly limit selfAsking [] emptyWorld]
  exact ⟨_, (Rendering.fails_withFrame (selfAsking.annotated_tidy start)).mpr
    ⟨after, Rendering.fails_annotated.mpr ⟨.exhausted, inside, rfl⟩, rfl⟩⟩

/-- However much room there is, the rendering of a body that asks for itself takes all of it: no
limit on the depth of includes ends it. -/
theorem selfAsking_never_settles :
    ¬ ∃ limit result after, result ≠ .error .exhausted ∧
      selfAsking.renderUpTo baseOnly limit [] emptyWorld = (result, after) := by
  rintro ⟨limit, result, after, ends, settled⟩
  obtain ⟨last, out⟩ := selfAsking_exhausts limit
  cases settled.symm.trans out
  exact ends rfl

end OneBlock
end Stencil
