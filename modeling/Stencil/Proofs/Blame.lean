import Mathlib
import Stencil.Proofs.Engines

/-! What an error of a rendering names. It is annotated with the innermost node whose rendering
raised it and with the template whose place that node was rendered at: the template it stands in,
unless it came to this place as part of a body that replaces a block. -/
namespace Stencil

variable {σ : Type}

/-- A fault, or an error that has no annotation yet. -/
def Failure.Plain (failure : Failure) : Prop :=
  (∃ cause, failure = .ofCause cause) ∨ ∃ fault, failure = .fault fault

namespace Library

theorem guarded_plain (wrap : String → Trouble) {routine : Routine σ} {args : List Value}
    {state : σ} (plain : Raises Failure.Plain (routine args state).1) :
    Raises Failure.Plain (guarded wrap routine args state).1 := by
  rw [guarded]
  generalize routine args state = outcome at plain ⊢
  obtain ⟨failure | value, next⟩ := outcome
  · rw [raises_error] at plain
    refine raises_error.mpr ?_
    unfold wrapped
    split
    · exact plain
    · exact plain
    · exact .inl ⟨_, rfl⟩
  · exact raises_ok value

theorem builtin_plain (builtin : Builtin) (args : List Value) (state : σ) :
    Raises Failure.Plain (builtin.routine args state).1 :=
  raises_liftFault fun fault _ => .inr ⟨fault, rfl⟩

theorem entries_plain {builtins : List Builtin} {name : String} {routine : Routine σ}
    (found : Dict.get? (entries builtins) name = some routine) (args : List Value) (state : σ) :
    Raises Failure.Plain (routine args state).1 := by
  obtain ⟨builtin, -, -, rfl⟩ := exists_builtin found
  exact builtin_plain builtin args state

/-- The built-in functions and filters annotate nothing. -/
theorem standard_tolerates {setting : Setting σ} {surroundings : Surroundings}
    (standard : setting.library = .standard surroundings) : Tolerates setting Failure.Plain where
  cause cause := .inl ⟨cause, rfl⟩
  numbers fault _ := .inr ⟨fault, rfl⟩
  call name args state := by
    rw [standard, call]
    cases found : (Library.standard surroundings).functions.get? name with
    | none => exact raises_error.mpr (.inl ⟨_, rfl⟩)
    | some routine => exact guarded_plain _ (entries_plain found args state)
  applyFilter name args state := by
    rw [standard, applyFilter]
    cases found : (Library.standard surroundings).filters.get? name with
    | none => exact raises_error.mpr (.inl ⟨_, rfl⟩)
    | some routine => exact guarded_plain _ (entries_plain found args state)

end Library

/-- The error of a cause, as it is annotated by a node of the template of this name. -/
def TemplateError.at (cause : Cause) (name : String) (node : Node) : TemplateError :=
  ⟨cause, some name, some ⟨node.describe, some node.span.position⟩⟩

theorem TemplateError.keeps_at {cause : Cause} {name : String} {node : Node} {place : Place}
    {error : TemplateError} (placed : place.template = some name) (some : name ≠ "")
    (keeps : (node.annotate place (.ofCause cause)).Keeps error) : error = .at cause name node := by
  have named : (node.annotate place (.ofCause cause)).template = .some name := by
    simp [Node.annotate, inTemplate, inConstruct, ofCause, placed, Option.filter, some]
  have template := keeps.template name named
  have construct := keeps.construct _ rfl
  have same := keeps.cause
  obtain ⟨_, _, _⟩ := error
  subst template construct same
  rfl

variable {setting : Setting σ} {limit : Nat} {root : Template} {context : Dict Value}
  {world after : World σ} {error : TemplateError}

/-- An error of a rendering is that of a node at a moment which is visited: it names this node, no
list of nodes that the node opens failed, and the template it names is the one the node stands in
unless the node is borrowed. -/
theorem Template.error_of_node (tolerates : Tolerates setting Failure.Plain)
    (named : ∀ template, Known setting world.store.entries root template →
      ∃ name, template.name = some name ∧ name ≠ "")
    (failed : Fails (root.renderUpTo setting limit context) world (.template error) after) :
    ∃ reached node rest cause name template,
      (Moment.start setting limit root context world).Visits setting limit reached ∧
      reached.nodes = node :: rest ∧
      Moment.Originates setting limit Failure.Plain reached node (.ofCause cause) ∧
      error = .at cause name node ∧
      reached.place.template = some name ∧
      Known setting world.store.entries root template ∧
      Node.Within Node.parts node template.nodes ∧
      (reached.borrowed = false → template.name = some name) := by
  obtain ⟨raised, breaks, same⟩ := Template.breaks_of_fails failed
  obtain ⟨reached, node, rest, origin, visits, nodes, originates, keeps⟩ :=
    Moment.breaks_of_origin tolerates _ raised breaks
  have sourced := (Moment.start_sourced setting limit root context world).visits visits
  obtain ⟨place, place_known, placed⟩ := sourced.place
  obtain ⟨name, is_named, some⟩ := named place place_known
  obtain ⟨template, known, within, honest⟩ := sourced.nodes
  have keeps : (origin.annotate (node.annotate reached.place)).Keeps (.template error) := by
    rw [same]
    exact keeps.trans (.annotate fun error => error.keeps_inTemplate _)
  have plain : ∃ cause, origin = .ofCause cause := by
    cases origin with
    | fault f => cases keeps
    | template e =>
      rcases originates.raised with (plain | ⟨_, impossible⟩) | ⟨-, impossible⟩
      · exact plain
      · cases impossible
      · cases impossible
  obtain ⟨cause, rfl⟩ := plain
  cases keeps with
  | template keeps =>
    refine ⟨reached, node, rest, cause, name, template, visits, nodes, originates,
      TemplateError.keeps_at (placed.trans is_named) some keeps, placed.trans is_named, known,
      within node (nodes ▸ List.mem_cons_self), fun own => ?_⟩
    rw [← honest own, placed, is_named]

/-- A node stands in the tree that is read from a source. -/
def Node.StandsIn (options : Options) (source : String) (node : Node) : Prop :=
  ∃ analysis, Analysis.ofText options source = .ok analysis ∧
    Within parts node analysis.tree.nodes

namespace Engine

/-- Where the templates of an engine come from. -/
structure Registered (options : Options) (sources : List (String × String)) (name : String)
    (template : Template) : Prop where
  named : template.name = some name
  listed : (name, template.source) ∈ sources
  reads : template.Reads options

theorem Registered.standsIn {options : Options} {sources : List (String × String)} {name : String}
    {template : Template} {node : Node} (registered : Registered options sources name template)
    (within : Node.Within Node.parts node template.nodes) :
    node.StandsIn options template.source := by
  obtain ⟨analysis, analysed, same⟩ := registered.reads
  exact ⟨analysis, analysed, same ▸ within⟩

/-- Templates are compiled under names, and one of them is rendered by its name. If this ends with
an error that names a template, a construct and a position, then a node with this description at
this position was rendered at a moment of the rendering, it raised the error, and no list of nodes
that it opened failed. It stands in the source of one of the templates; of the template that the
error names, unless it came there as part of a body that replaces a block. No name is empty: an error
takes no empty name, so what fails in a template of that name is put down to the one around it. -/
theorem error_names_innermost_node (surroundings : Surroundings) (options : Options)
    (sources : List (String × String)) (nonempty : ∀ entry ∈ sources, entry.1 ≠ "")
    (state : σ) (ready after : Engine σ × σ) (result : Unit)
    (compiled : Returns (precompileAll sources) (create surroundings options, state) result ready)
    (name : String) (context : Dict Value) (error : TemplateError) (m c : String)
    (position : Text.Position)
    (failed : Fails (renderTemplate name context) ready (.template error) after)
    (in_template : error.template = some m) (in_construct : error.construct = some ⟨c, some position⟩) :
    let setting := ready.1.setting ready.1.library
    let stored := ready.1.store.entries
    ∃ root world reached node rest cause,
      Resolves setting stored name root ∧
      (Moment.start setting Node.nestingLimit root context world).Visits setting Node.nestingLimit
        reached ∧
      reached.nodes = node :: rest ∧
      Moment.Originates setting Node.nestingLimit Failure.Plain reached node (.ofCause cause) ∧
      error.cause = cause ∧ c = node.describe ∧ position = node.span.position ∧
      (∃ origin source, (origin, source) ∈ sources ∧ node.StandsIn options source) ∧
      (reached.borrowed = false → ∃ template, Resolves setting stored m template ∧
        (m, template.source) ∈ sources ∧ node.StandsIn options template.source) := by
  intro setting stored
  obtain ⟨keeps, like⟩ := precompileAll_keeps
    (create_keeps surroundings options : (create surroundings options : Engine σ).Keeps
      (Registered options sources))
    (fun name source member template named sourced reads => ⟨named, sourced ▸ member, reads⟩) compiled
  have registered {name : String} {template : Template}
      (resolves : Resolves setting stored name template) :
      Registered options sources name template := keeps.resolves rfl resolves
  rcases renderTemplate_fails failed with missing | ⟨root, store, last, resolves, entries, failed⟩
  · cases missing
    contradiction
  · rw [root.render_eq] at failed
    have known_resolves (template : Template) (known : Known setting store.entries root template) :
        ∃ name, Resolves setting stored name template := by
      rcases known with rfl | other
      · exact ⟨_, resolves⟩
      · rw [entries] at other
        exact other
    have named (template : Template) (known : Known setting store.entries root template) :
        ∃ name, template.name = some name ∧ name ≠ "" := by
      obtain ⟨name, resolves⟩ := known_resolves template known
      exact ⟨name, (registered resolves).named, nonempty _ (registered resolves).listed⟩
    obtain ⟨reached, node, rest, cause, placed, template, visits, nodes, originates, rfl, -, known,
      within, honest⟩ := Template.error_of_node (Library.standard_tolerates like.library) named failed
    obtain ⟨origin, stands⟩ := known_resolves template known
    have source := registered stands
    cases in_template
    cases in_construct
    refine ⟨root, _, reached, node, rest, cause, resolves, visits, nodes, originates, rfl, rfl, rfl,
      ⟨origin, template.source, source.listed, source.standsIn within⟩, fun own => ?_⟩
    cases source.named.symm.trans (honest own)
    exact ⟨template, stands, source.listed, source.standsIn within⟩

/-- A template that calls a function which is missing, and one that includes it. -/
def includingCall : List (String × String) :=
  [("m", "a\n\x7b\x7bf()\x7d\x7d"), ("p", "\x7b%include 'm'%\x7d")]

set_option maxRecDepth 8000 in
theorem included_error_names_its_node :
    (∀ entry ∈ includingCall, entry.1 ≠ "") ∧ ∃ ready after error,
      Returns (precompileAll includingCall) fresh () ready ∧
      Fails (renderTemplate "p" []) ready (.template error) after ∧
      error.template = some "m" ∧
      error.construct = some ⟨"\x7b\x7b f() \x7d\x7d", some ⟨2, 1⟩⟩ ∧
      ∃ node : Node, node.describe = "\x7b\x7b f() \x7d\x7d" ∧ node.span.position = ⟨2, 1⟩ ∧
        ∃ origin source, (origin, source) ∈ includingCall ∧ node.StandsIn .standard source := by
  have nonempty : ∀ entry ∈ includingCall, entry.1 ≠ "" := by decide
  obtain ⟨⟨⟩, compiles⟩ := exists_ok (precompileAll includingCall fresh).1 (by cbv)
  have fails : ((precompileAll includingCall >>= fun _ => renderTemplate "p" []) fresh).1 =
      .error (.template ⟨.unknownFunction "f", some "m",
        some ⟨"\x7b\x7b f() \x7d\x7d", some ⟨2, 1⟩⟩⟩) := by
    cbv
  rcases ran : precompileAll includingCall fresh with ⟨result, ready⟩
  rw [ran] at compiles
  have compiled : Returns (precompileAll includingCall) fresh () ready :=
    ran.trans (Prod.ext compiles rfl)
  have run : (precompileAll includingCall >>= fun _ => renderTemplate "p" []) fresh = _ :=
    run_bind (precompileAll includingCall) _ fresh
  rw [show (precompileAll includingCall).run.run fresh = _ from compiled] at run
  rw [run] at fails
  have failed : Fails (renderTemplate "p" []) ready (.template _) _ := Prod.ext fails rfl
  obtain ⟨root, world, reached, node, rest, cause, -, -, -, -, -, described, placed, stands, -⟩ :=
    error_names_innermost_node .still .standard includingCall nonempty () ready _ () compiled "p" []
      _ _ _ _ failed rfl rfl
  exact ⟨nonempty, ready, _, _, compiled, failed, rfl, rfl, node, described.symm, placed.symm, stands⟩

end Engine

/-! ### A borrowed node -/

namespace OneBlock

/-- It extends the template with one block by a body that calls a function which is missing. -/
def calling : Template :=
  ⟨1, some "child", "\x7b% extends \"base\" %\x7d\x7b% block a %\x7d\x7b\x7b missing() \x7d\x7d\x7b% endblock %\x7d",
    [.extension ⟨0, 20, ⟨1, 1⟩⟩ (.literal (some ⟨11, 17, ⟨1, 12⟩⟩) (.text "base"))
      [.mk ⟨20, 33, ⟨1, 21⟩⟩ "a"
        [.output ⟨33, 48, ⟨1, 34⟩⟩ "missing()" (some (.call ⟨36, 45, ⟨1, 37⟩⟩ "missing" [])) []]]], []⟩

def both : Setting Unit :=
  ⟨.standard .still, .standard, some [("base", base), ("child", calling)], .apart⟩

/-- The error names the template whose block was replaced, where no node has the position that the
error gives. -/
theorem borrowed_error_names_other_template :
    ∃ error after, Fails (calling.render both []) emptyWorld (.template error) after ∧
      Resolves both [] "base" base ∧ error.template = some "base" ∧
      error.construct = some ⟨"\x7b\x7b missing() \x7d\x7d", some ⟨1, 34⟩⟩ ∧
      ∀ node, Node.Within Node.parts node base.nodes → node.span.position ≠ ⟨1, 34⟩ := by
  refine ⟨⟨.unknownFunction "missing", some "base",
    some ⟨"\x7b\x7b missing() \x7d\x7d", some ⟨1, 34⟩⟩⟩, _, rfl, .listed rfl rfl, rfl, rfl, ?_⟩
  intro node within
  simp [base, Node.within_cons, Node.within_nil, Node.parts, Node.inner, Node.replacing,
    Block.body] at within
  subst within
  decide

end OneBlock
end Stencil
