import Stencil.Proofs.Companions
import Stencil.Proofs.Dictionaries
import Stencil.Proofs.Overriding
import Stencil.Proofs.Sources

/-! Chains of templates that extend each other. The bodies of blocks are collected on the way from
the first template to the last one, a body that is there before one that comes later; so a chain
renders what its last template renders with every block overridden by the first template that
defines it. -/
namespace Stencil

variable {σ α : Type}

/-! ### Failures with different annotations -/

/-- The same fault, or errors with the same cause. -/
inductive Failure.Akin : Failure → Failure → Prop
  | template {error other : TemplateError} (cause : error.cause = other.cause) :
      Akin (.template error) (.template other)
  | fault (fault : Fault) : Akin (.fault fault) (.fault fault)

namespace Failure.Akin

theorem refl (failure : Failure) : failure.Akin failure := by
  cases failure with
  | template error => exact .template rfl
  | fault fault => exact .fault fault

theorem symm {failure other : Failure} (akin : failure.Akin other) : other.Akin failure := by
  cases akin with
  | template cause => exact .template cause.symm
  | fault fault => exact .fault fault

theorem trans {failure other third : Failure} (akin : failure.Akin other)
    (later : other.Akin third) : failure.Akin third := by
  cases akin with
  | template cause =>
    cases later with
    | template cause' => exact .template (cause.trans cause')
  | fault fault => exact later

end Failure.Akin

namespace Rendering

/-- In this world both steps give the same or fail for the same cause, and leave the same world. -/
def Echoes (first second : Rendering σ α) (world : World σ) : Prop :=
  (∃ a after, Returns first world a after ∧ Returns second world a after) ∨
    ∃ e e' after, Fails first world e after ∧ Fails second world e' after ∧ e.Akin e'

variable {first second third : Rendering σ α} {world : World σ}

theorem echoes_of_eq (same : first.run.run world = second.run.run world) :
    Echoes first second world := by
  rcases returns_or_fails second world with ⟨a, after, run⟩ | ⟨e, after, run⟩
  · exact .inl ⟨a, after, same.trans run, run⟩
  · exact .inr ⟨e, e, after, same.trans run, run, .refl e⟩

theorem Echoes.symm (echoes : Echoes first second world) : Echoes second first world := by
  rcases echoes with ⟨a, after, here, there⟩ | ⟨e, e', after, here, there, akin⟩
  · exact .inl ⟨a, after, there, here⟩
  · exact .inr ⟨e', e, after, there, here, akin.symm⟩

theorem Echoes.trans (echoes : Echoes first second world) (later : Echoes second third world) :
    Echoes first third world := by
  rcases echoes with ⟨a, after, here, there⟩ | ⟨e, e', after, here, there, akin⟩
  · rcases later with ⟨b, after', further, last⟩ | ⟨f, f', after', further, -⟩
    · obtain ⟨rfl, rfl⟩ := there.unique further
      exact .inl ⟨a, after, here, last⟩
    · exact absurd there further.not_returns
  · rcases later with ⟨b, after', further, -⟩ | ⟨f, f', after', further, last, akin'⟩
    · exact absurd further there.not_returns
    · cases there.symm.trans further
      exact .inr ⟨e, f', after, here, last, akin.trans akin'⟩

theorem echoes_annotated {amend : TemplateError → TemplateError}
    (keeps : ∀ error, (amend error).cause = error.cause) (body : Rendering σ α) (world : World σ) :
    Echoes (annotated amend body) body world := by
  rcases returns_or_fails body world with ⟨a, after, run⟩ | ⟨e, after, run⟩
  · exact .inl ⟨a, after, returns_annotated.mpr run, run⟩
  · refine .inr ⟨e.annotate amend, e, after, fails_annotated.mpr ⟨e, run, rfl⟩, run, ?_⟩
    cases e with
    | template error => exact .template (keeps error)
    | fault fault => exact .fault fault

/-- A step that changes nothing before another one. -/
theorem echoes_after {β : Type} {step : Rendering σ β} {b : β} (next : β → Rendering σ α)
    (run : Returns step world b world) : Echoes (step >>= next) (next b) world := by
  apply echoes_of_eq
  rw [run_bind, show step.run.run world = _ from run]

theorem Echoes.withFrame {bindings : Dict Value}
    (echoes : Echoes first second (world.framed bindings)) :
    Echoes (withFrame bindings first) (withFrame bindings second) world := by
  rcases echoes with ⟨a, after, here, there⟩ | ⟨e, e', after, here, there, akin⟩
  · exact echoes_of_eq ((withFrame_of_returns here).trans (withFrame_of_returns there).symm)
  · exact .inr ⟨e, e', _, withFrame_of_fails here, withFrame_of_fails there, akin⟩

end Rendering

open Rendering Node

/-! ### Collected bodies -/

/-- The body that the first of the levels that define a block gives it. -/
def derivedBody (levels : List (List Block)) (name : String) : Option (List Node) :=
  levels.findSome? fun blocks => (blocks.find? (·.name == name)).map Block.body

/-- The bodies of all levels, after those that are there already. -/
def collected (given : Dict (List Node)) : List (List Block) → Dict (List Node)
  | [] => given
  | blocks :: rest => collected (Dict.update (bodies blocks) given) rest

theorem get?_bodies {blocks : List Block} (distinct : (blocks.map Block.name).Nodup) (name : String) :
    Dict.get? (bodies blocks) name = (blocks.find? (·.name == name)).map Block.body := by
  have keys : Dict.keys (blocks.map fun named => (named.name, named.body)) =
      blocks.map Block.name := List.map_map
  rw [bodies, Dict.get?_ofList (keys ▸ distinct)]
  clear keys distinct
  induction blocks with
  | nil => rfl
  | cons named rest ih =>
    rw [List.map_cons, Dict.get?_cons, List.find?_cons, ih]
    by_cases same : named.name = name
    · rw [if_pos same, beq_iff_eq.mpr same]
      rfl
    · rw [if_neg same, beq_eq_false_iff_ne.mpr same]

theorem get?_collected {levels : List (List Block)}
    (distinct : ∀ blocks ∈ levels, (blocks.map Block.name).Nodup) {given : Dict (List Node)}
    (once : given.keys.Nodup) (name : String) :
    Dict.get? (collected given levels) name = (given.get? name).or (derivedBody levels name) := by
  induction levels generalizing given with
  | nil => exact Option.or_none.symm
  | cons blocks rest ih =>
    obtain ⟨here, later⟩ := List.forall_mem_cons.mp distinct
    have more : (Dict.update (bodies blocks) given).keys.Nodup :=
      Dict.nodup_update (Dict.nodup_ofList _) given
    have first : derivedBody (blocks :: rest) name =
        ((blocks.find? (·.name == name)).map Block.body).or (derivedBody rest name) := by
      rw [derivedBody, List.findSome?_cons]
      cases (blocks.find? (·.name == name)).map Block.body <;> rfl
    rw [collected, ih later more, Dict.get?_update once, get?_bodies here, first, Option.or_assoc]

/-! ### Chains -/

/-- The template extends another one by blocks, that one a further one, and so on up to the base.
In the world every extension names the next template, and to find it changes nothing. -/
inductive Chain (setting : Setting σ) (world : World σ) :
    Template → List (List Block) → Template → Prop
  | base (template : Template) : Chain setting world template [] template
  | derived {template parent base : Template} {span : Span} {path : Expression}
      {blocks : List Block} {levels : List (List Block)}
      (nodes : template.nodes = [.extension span path blocks])
      (named : Returns (Node.named setting path) world parent world)
      (later : Chain setting world parent levels base) :
      Chain setting world template (blocks :: levels) base

variable {setting : Setting σ} {world : World σ}

theorem named_literal {catalogue : Dict Template} {name : String} {parent : Template}
    (listed : setting.catalogue = some catalogue) (found : Dict.get? catalogue name = some parent)
    (span : Option Span) (world : World σ) :
    Returns (Node.named setting (.literal span (.text name))) world parent world := by
  have asked : Node.named setting (.literal span (.text name)) = resolve setting name := rfl
  rw [asked]
  change resolve setting name world = _
  simp only [resolve, listed, found]

theorem renderAll_single (door : Door σ) (place : Place) (node : Node) :
    renderAll setting door place [node] =
      annotated (annotate place node) (node.content setting door place) := by
  rw [renderAll_cons]
  simp only [renderAll, pure_bind, String.append_empty, bind_pure]

/-- An extension is rendered by its parent, with its own bodies where none are given. -/
theorem renderEntered_extension {levels : Nat} {place : Place} {span : Span} {path : Expression}
    {blocks : List Block} {parent : Template}
    (named : Returns (Node.named setting path) world parent world) :
    Echoes (renderWithin setting (renderEntered setting (levels + 1)) replacementLimit place
        [.extension span path blocks])
      (renderWithin setting (renderEntered setting levels) replacementLimit
        ⟨parent.name, Dict.update (bodies blocks) place.replacements⟩ parent.nodes) world := by
  have opened : renderWithin setting (renderEntered setting (levels + 1)) replacementLimit place
      [.extension span path blocks] =
      renderAll setting ⟨_, renderWithin setting _ (replacementLimit - 1)⟩ place [.extension span path blocks] := rfl
  rw [opened, renderAll_single]
  have keeps (error : TemplateError) :
      (annotate place (.extension span path blocks) error).cause = error.cause := rfl
  exact (echoes_annotated keeps _ world).trans (echoes_after _ named)

theorem Chain.echoes {template base : Template} {levels : List (List Block)}
    (chain : Chain setting world template levels base) {room : Nat} (short : levels.length ≤ room)
    (given : Dict (List Node)) :
    Echoes (renderWithin setting (renderEntered setting room) replacementLimit
        ⟨template.name, given⟩ template.nodes)
      (renderWithin setting (renderEntered setting (room - levels.length)) replacementLimit
        ⟨base.name, collected given levels⟩ base.nodes) world := by
  -- On the chain: every level enters the next template with the bodies collected so far.
  induction chain generalizing room given with
  | base template => exact echoes_of_eq rfl
  | @derived template parent base span path blocks levels nodes named later ih =>
    obtain ⟨less, rfl⟩ : ∃ less, room = less + 1 :=
      Nat.exists_eq_succ_of_ne_zero fun none => by simp [none] at short
    have shorter : levels.length ≤ less := Nat.le_of_succ_le_succ short
    rw [nodes, List.length_cons, Nat.succ_sub_succ]
    exact (renderEntered_extension named).trans (ih shorter _)

/-! ### The most derived blocks -/

/-- A chain renders what its base renders once every block, at whatever depth, has the body that the
first template that defines it gives it. -/
theorem chain_renders_overridden_base {context : Dict Value} {template base : Template}
    {levels : List (List Block)}
    (chain : Chain setting (world.framed context) template levels base)
    (short : levels.length ≤ setting.options.maxDepth)
    (distinct : ∀ blocks ∈ levels, (blocks.map Block.name).Nodup)
    (plain : ∀ blocks ∈ levels, ∀ named ∈ blocks, Throughout
      (fun node => node.entersOther = false ∧ node.isBlock = false) named.body)
    (closed : Throughout (·.entersOther = false) base.nodes) :
    Echoes (template.render setting context)
      ({ base with nodes := overriddenAll (derivedBody levels) base.nodes }.render setting context)
      world := by
  have once : (Dict.keys ([] : Dict (List Node))).Nodup := List.nodup_nil
  have bodies : Dict.get? (collected [] levels) = derivedBody levels := by
    funext name
    rw [get?_collected distinct once]
    exact Option.none_or
  have inside : ∀ name body, Dict.get? (collected [] levels) name = some body →
      Throughout (fun node => node.entersOther = false ∧ node.isBlock = false) body := by
    intro name body found
    rw [bodies] at found
    obtain ⟨blocks, level, chosen⟩ := List.exists_of_findSome?_eq_some found
    obtain ⟨named, known, rfl⟩ := Option.map_eq_some_iff.mp chosen
    exact plain blocks level named (List.mem_of_find?_eq_some known)
  have last (enter : Place → List Node → Rendering σ String) :
      renderWithin setting enter replacementLimit ⟨base.name, collected [] levels⟩ base.nodes =
        renderTop setting ⟨base.name, []⟩ (overriddenAll (derivedBody levels) base.nodes) := by
    rw [← bodies]
    exact renderWithin_overridden closed inside
  have whole := chain.echoes short []
  rw [last] at whole
  have keeps (name : Option String) (error : TemplateError) :
      (error.inTemplate name).cause = error.cause := rfl
  refine Echoes.withFrame ((echoes_annotated (keeps template.name) _ _).trans (whole.trans ?_))
  exact (echoes_annotated (keeps base.name) _ _).symm

/-! ### A chain of three templates -/

namespace Article

def spanning (start stop : Nat) : Span := ⟨start, stop, ⟨1, start + 1⟩⟩

/-- Two blocks, the second with another one inside it. -/
def page : Template :=
  ⟨0, some "page", "", [.block (.mk (spanning 0 13) "a" [.text (spanning 13 14) "a"]),
    .block (.mk (spanning 14 27) "b" [.text (spanning 27 28) "b",
      .block (.mk (spanning 28 41) "c" [.text (spanning 41 42) "c"])])], []⟩

def chapterBlocks : List Block :=
  [.mk (spanning 20 33) "a" [.text (spanning 33 34) "1"], .mk (spanning 34 47) "c" [.text (spanning 47 48) "2"]]

def chapter : Template :=
  ⟨1, some "chapter", "",
    [.extension (spanning 0 20) (.literal (some (spanning 11 17)) (.text "page")) chapterBlocks], []⟩

def articleBlocks : List Block := [.mk (spanning 23 36) "a" [.text (spanning 36 37) "0"]]

def article : Template :=
  ⟨2, some "article", "",
    [.extension (spanning 0 23) (.literal (some (spanning 11 20)) (.text "chapter")) articleBlocks], []⟩

def shelf : Setting Unit :=
  ⟨.standard .still, .standard, some [("page", page), ("chapter", chapter)], .apart⟩

end Article

open Article in
open OneBlock (emptyWorld) in
/-- The outermost block comes from the article, the innermost one from the chapter and what lies
between them from the page. -/
theorem article_renders_overridden_page :
    (Chain shelf (emptyWorld.framed []) article [articleBlocks, chapterBlocks] page ∧
      [articleBlocks, chapterBlocks].length ≤ shelf.options.maxDepth ∧
      (∀ blocks ∈ [articleBlocks, chapterBlocks], (blocks.map Block.name).Nodup) ∧
      (∀ blocks ∈ [articleBlocks, chapterBlocks], ∀ named ∈ blocks, Throughout
        (fun node => node.entersOther = false ∧ node.isBlock = false) named.body) ∧
      Throughout (·.entersOther = false) page.nodes) ∧
    ∃ after, Returns (article.render shelf []) emptyWorld "0b2" after := by
  have chain : Chain shelf (emptyWorld.framed []) article [articleBlocks, chapterBlocks] page :=
    .derived rfl (named_literal rfl rfl _ _) (.derived rfl (named_literal rfl rfl _ _) (.base page))
  have short : [articleBlocks, chapterBlocks].length ≤ shelf.options.maxDepth := by decide
  have distinct : ∀ blocks ∈ [articleBlocks, chapterBlocks], (blocks.map Block.name).Nodup := by
    decide
  have plain : ∀ blocks ∈ [articleBlocks, chapterBlocks], ∀ named ∈ blocks, Throughout
      (fun node => node.entersOther = false ∧ node.isBlock = false) named.body := by
    simp [articleBlocks, chapterBlocks, Throughout, Block.body, within_cons, within_nil, parts,
      Node.inner, replacing, entersOther, isBlock]
  have closed : Throughout (·.entersOther = false) page.nodes := by
    simp [page, Throughout, Block.body, within_cons, within_nil, parts, Node.inner, replacing,
      entersOther]
  refine ⟨⟨chain, short, distinct, plain, closed⟩, ?_⟩
  let nodes := overriddenAll (derivedBody [articleBlocks, chapterBlocks]) page.nodes
  obtain ⟨last, shown⟩ : ∃ last, Returns (Template.render shelf { page with nodes } []) emptyWorld
      "0b2" last := ⟨_, rfl⟩
  rcases chain_renders_overridden_base chain short distinct plain closed with
    ⟨text, after, here, there⟩ | ⟨e, e', after, -, there, -⟩
  · obtain ⟨rfl, rfl⟩ := there.unique shown
    exact ⟨after, here⟩
  · exact absurd shown there.not_returns

end Stencil
