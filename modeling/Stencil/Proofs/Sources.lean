import Stencil.Proofs.Traces

/-! Where the nodes of a moment come from. Every node that is rendered stands in a template that is
known: the one that rendering began with, or one that a name stands for. Bodies that replace blocks
were given by extensions in such templates, and only they are rendered under the name of a template
that they do not stand in. -/
namespace Stencil

variable {σ : Type}

/-- The template that a name stands for, given the templates that are stored. -/
inductive Resolves (setting : Setting σ) (stored : Dict (Option Template)) (name : String)
    (template : Template) : Prop
  | listed {catalogue : Dict Template} (present : setting.catalogue = some catalogue)
      (found : Dict.get? catalogue name = some template)
  | kept {catalogue : Dict Template} (present : setting.catalogue = some catalogue)
      (missing : Dict.get? catalogue name = none)
      (found : Dict.get? stored name = some (some template))

/-- The template that rendering began with, and those that a name stands for. -/
def Known (setting : Setting σ) (stored : Dict (Option Template)) (root template : Template) :
    Prop :=
  template = root ∨ ∃ name, Resolves setting stored name template

variable {setting : Setting σ} {limit : Nat} {world after : World σ} {template : Template}

theorem Store.get?_of_get {α : Type} {store : Store α} {name : String} {entry : α}
    (found : (store.get name).1 = some entry) : Dict.get? store.entries name = some (some entry) := by
  unfold get at found
  cases kept : store.find? name with
  | none =>
    rw [kept] at found
    contradiction
  | some other =>
    rw [kept] at found
    cases found
    exact Option.join_eq_some_iff.mp kept

theorem resolves_of_resolve {name : String}
    (run : Returns (Rendering.resolve setting name) world template after) :
    Resolves setting world.store.entries name template := by
  change Rendering.resolve setting name world = _ at run
  unfold Rendering.resolve at run
  split at run
  · cases run
  · rename_i catalogue present
    split at run
    · rename_i found
      cases run
      exact .listed present found
    · rename_i missing
      rcases got : world.store.get name with ⟨found, store⟩
      rw [got] at run
      cases found with
      | none => cases run
      | some entry =>
        cases run
        exact .kept present missing (Store.get?_of_get (congrArg Prod.fst got))

theorem resolves_of_named {path : Expression}
    (run : Returns (Node.named setting path) world template after) :
    ∃ name, Resolves setting world.store.entries name template := by
  obtain ⟨value, middle, asked, run⟩ := returns_bind.mp run
  obtain ⟨name, last, shown, run⟩ := returns_bind.mp run
  have any := tolerates_any setting
  have raises := Value.toText_raises value
  have same := ((Rendering.ofFault_steady any.toTolerant raises).view_eq shown).trans
    ((path.evaluate_steady any).view_eq asked)
  have stored : last.store.entries = world.store.entries := congrArg (·.stored.entries) same
  exact ⟨name, stored ▸ resolves_of_resolve run⟩

namespace Moment

/-- A body that an extension in a known template gives for a block. -/
def Given (setting : Setting σ) (stored : Dict (Option Template)) (root : Template)
    (entry : String × List Node) : Prop :=
  ∃ template, Known setting stored root template ∧ ∃ span parent blocks named,
    Node.Within Node.parts (.extension span parent blocks) template.nodes ∧ named ∈ blocks ∧
      entry = (named.name, named.body)

/-- The nodes of a moment stand in a known template, which is the one that the place names unless
they are borrowed. -/
structure Sourced (setting : Setting σ) (stored : Dict (Option Template)) (root : Template)
    (moment : Moment σ) : Prop where
  unchanged : moment.world.store.entries = stored
  nodes : ∃ template, Known setting stored root template ∧
    (∀ node ∈ moment.nodes, Node.Within Node.parts node template.nodes) ∧
      (moment.borrowed = false → moment.place.template = template.name)
  place : ∃ template, Known setting stored root template ∧ moment.place.template = template.name
  replacements : ∀ entry ∈ moment.place.replacements, Given setting stored root entry

theorem start_sourced (setting : Setting σ) (limit : Nat) (root : Template)
    (context : Dict Value) (world : World σ) :
    Sourced setting world.store.entries root (start setting limit root context world) where
  unchanged := rfl
  nodes := ⟨root, .inl rfl, fun _ member => .here member, fun _ => rfl⟩
  place := ⟨root, .inl rfl, rfl⟩
  replacements _ member := absurd member List.not_mem_nil

theorem stored_lasting (setting : Setting σ) (stored : Dict (Option Template)) :
    Lasting setting fun world => world.store.entries = stored where
  held same now := (congrArg (·.stored.entries) same).trans now
  framed _ _ _ later _ _ := later

variable {stored : Dict (Option Template)} {root : Template} {moment opened : Moment σ}

theorem Given.within {entry : String × List Node} (given : Given setting stored root entry) :
    ∃ template, Known setting stored root template ∧
      ∀ node ∈ entry.2, Node.Within Node.parts node template.nodes := by
  obtain ⟨template, known, span, parent, blocks, named, around, member, rfl⟩ := given
  refine ⟨template, known, fun node here => Node.Within.trans (.here here) ?_ around⟩
  exact List.mem_append_right _ (List.mem_map_of_mem member)

theorem Sourced.opens {node : Node} {rest : List Node} (nodes : moment.nodes = node :: rest)
    (opens : Opens setting limit moment node opened)
    (sourced : Sourced setting stored root moment) : Sourced setting stored root opened := by
  have lasts := (stored_lasting setting stored).starts (.inner nodes opens) sourced.unchanged
  obtain ⟨template, known, within, honest⟩ := sourced.nodes
  have around := within node (nodes ▸ List.mem_cons_self)
  cases opens.opening with
  | inner part =>
    refine ⟨lasts, ⟨template, known, fun inner here => ?_, honest⟩, sourced.place,
      sourced.replacements⟩
    exact Node.Within.trans (.here here) (Node.inner_subset_parts part) around
  | replaced same replaced room =>
    have given := sourced.replacements _ (Dict.mem_of_get? replaced)
    obtain ⟨source, source_known, source_within⟩ := given.within
    exact ⟨lasts, ⟨source, source_known, source_within, fun own => by cases own⟩, sourced.place,
      sourced.replacements⟩
  | entered room found given =>
    rename_i other replacements after
    have known_other : Known setting stored root other := by
      have resolves := resolves_of_named found
      rw [sourced.unchanged] at resolves
      exact .inr resolves
    refine ⟨lasts, ⟨other, known_other, fun _ member => .here member, fun _ => rfl⟩,
      ⟨other, known_other, rfl⟩, fun entry member => ?_⟩
    rcases given entry member with member | ⟨span, parent, blocks, named, rfl, listed, rfl⟩
    · exact sourced.replacements entry member
    · exact ⟨template, known, span, parent, blocks, named, around, listed, rfl⟩

theorem Sourced.starts (starts : Starts setting limit moment opened)
    (sourced : Sourced setting stored root moment) : Sourced setting stored root opened := by
  cases starts with
  | inner nodes opens => exact sourced.opens nodes opens
  | next nodes done =>
    have lasts := (stored_lasting setting stored).starts (.next nodes done) sourced.unchanged
    obtain ⟨template, known, within, honest⟩ := sourced.nodes
    refine ⟨lasts, ⟨template, known, fun node member => within node ?_, honest⟩, sourced.place,
      sourced.replacements⟩
    rw [nodes]
    exact List.mem_cons_of_mem _ member

theorem Sourced.visits (visits : Visits setting limit moment opened)
    (sourced : Sourced setting stored root moment) : Sourced setting stored root opened := by
  induction visits with
  | refl => exact sourced
  | tail _ starts ih => exact ih.starts starts

end Moment

/-! ### A template with one block -/

namespace OneBlock

/-- A template with one block. -/
def base : Template :=
  ⟨0, some "base", "\x7b% block a %\x7d\x7b% endblock %\x7d",
    [.block (.mk ⟨0, 13, ⟨1, 1⟩⟩ "a" [])], []⟩

/-- A setting in which no other template can be found. -/
def baseOnly : Setting Unit := ⟨.standard .still, .standard, some [("base", base)], .apart⟩

def emptyWorld : World Unit := ⟨.empty, .empty true 100, ()⟩

theorem named_base (span : Option Span) (world : World Unit) :
    Returns (Node.named baseOnly (.literal span (.text "base"))) world base world :=
  rfl

theorem known_cases {root template : Template} (known : Known baseOnly [] root template) :
    template = root ∨ template = base := by
  rcases known with same | ⟨name, resolves⟩
  · exact .inl same
  · cases resolves with
    | listed present found =>
      cases present
      exact .inr (congrArg Prod.snd (List.mem_singleton.mp (Dict.mem_of_get? found)))
    | kept present missing found => cases found

end OneBlock
end Stencil
