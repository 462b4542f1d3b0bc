import Stencil.Proofs.Gathering
import Stencil.Proofs.Sessions

/-! What a rendering depends on. A template that enters no other one reads of its context the names
that its analysis lists, and of the surroundings nothing unless it calls for the time or for a number
that is drawn. -/
namespace Stencil

variable {σ : Type}

/-! ### Libraries -/

namespace Library

/-- Two functions read the surroundings. -/
theorem standard_call (s s' : Surroundings) {name : String} (timeless : name ≠ "now")
    (undrawn : name ≠ "random") :
    (standard s : Library σ).call name = (standard s').call name := by
  have found : Dict.get? (standard s : Library σ).functions name =
      Dict.get? (standard s').functions name := by
    have time : (name == "now") = false := by simpa using timeless
    have number : (name == "random") = false := by simpa using undrawn
    simp only [standard, entries, Functions.all, List.map_cons, List.map_nil, Dict.get?,
      List.lookup_cons, time, number]
  rw [call, call, found]

theorem standard_alike {l : Likeness} (timeless : ¬ l.functions "now")
    (undrawn : ¬ l.functions "random") (s s' : Surroundings) :
    Alike l (standard s : Library σ) (standard s') where
  call known := standard_call s s' (fun same => timeless (same ▸ known)) fun same => undrawn (same ▸ known)
  applyFilter _ := rfl
  escape := rfl

end Library

/-! ### Nodes -/

/-- What a tree tells of, where other templates are not entered and only some objects are asked for
methods. -/
def Tree.alone (tree : Tree) (objects : String → Prop) : Likeness :=
  { tree.told with objects, templates := False }

theorem Analysis.uses_alone {options : Options} {source : String} {analysis : Analysis}
    (analysed : ofText options source = .ok analysis)
    (readable : ∀ d ∈ analysis.diagnostics, d.kind ≠ .invalidFor)
    (closed : ∀ node, Node.Within Node.parts node analysis.tree.nodes → node.entersOther = false)
    {objects : String → Prop}
    (asked : ∀ node, Node.Within Node.parts node analysis.tree.nodes →
      ∀ root, node.AsksMethod root → objects root) :
    Node.AllAlike (analysis.tree.alone objects) analysis.tree.nodes analysis.tree.nodes := by
  have less : analysis.tree.told.Less (analysis.tree.alone objects) := ⟨id, id, id⟩
  refine Node.AllAlike.mono less (fun node within => ⟨fun enters => ?_, asked node within⟩)
    (uses_told analysed readable)
  rw [closed node within] at enters
  cases enters

/-! ### Engines -/

namespace Engine

/-- A template that is compiled is read from its source, also where it was compiled before. -/
theorem compile_reads {session after : Engine σ × σ} {source : String} {name : Option String}
    {template : Template}
    (keeps : session.1.Keeps fun _ template => template.Reads session.1.options)
    (run : Returns (compile source name) session template after) :
    template.source = source ∧ template.Reads session.1.options := by
  obtain ⟨found, middle, reused, outcome⟩ := reused_or_built run
  have recounts : session.1.Recounts middle.1 ∧ ∀ kept, found = some kept →
      kept.source = source ∧ kept.Reads session.1.options := by
    cases name with
    | none =>
      obtain ⟨rfl, rfl⟩ := returns_pure.mp reused
      exact ⟨.refl _, fun kept same => by cases same⟩
    | some name =>
      obtain ⟨recounts, known⟩ := reusable_spec reused
      exact ⟨recounts, fun kept same => ⟨(known kept same).2, keeps.stored (known kept same).1⟩⟩
  rcases outcome with ⟨kept, -⟩ | ⟨-, built, -⟩
  · exact recounts.2 _ kept
  · obtain ⟨-, sourced, reads⟩ := build_spec built
    exact ⟨sourced, recounts.1.options ▸ reads⟩

/-- Templates and a source, compiled on a new engine. -/
theorem compiled_reads {surroundings : Surroundings} {options : Options} {routines : σ}
    {templates : List (String × String)} {source : String} {name : Option String}
    {template : Template} {after : Engine σ × σ}
    (run : Returns (do precompileAll templates; compile source name)
      (create surroundings options, routines) template after) :
    template.source = source ∧ template.Reads options := by
  obtain ⟨_, middle, first, second⟩ := returns_bind.mp run
  obtain ⟨keeps, like⟩ := precompileAll_keeps (create_keeps surroundings options)
    (fun name source _ template _ _ reads => reads) first
  have reads := compile_reads (like.options ▸ keeps) second
  rw [like.options] at reads
  exact reads

/-- New engines whose surroundings differ. -/
theorem create_abreast (s s' : Surroundings) (options : Options) (routines : σ) :
    Abreast ⟨.exact, False⟩ (fun given other => given = (.standard s, s) ∧ other = (.standard s', s'))
      (fun _ => True) (create s options, routines) (create s' options, routines) := by
  have same : Options.Alike False options options :=
    ⟨⟨rfl, .inl rfl, .refl _, .refl _⟩, rfl, rfl⟩
  refine ⟨⟨same, ⟨rfl, rfl⟩, fun _ => ?_, ?_, .nil, rfl, rfl⟩, rfl⟩
  · exact Analysis.ofText_repeats Likeness.exact_full rfl (.refl _) _
  · exact Store.Alike.refl (.refl Likeness.exact_full) _

/-- Templates of one name that use known names and functions and enter no other one, rendered in
contexts that agree on the names. -/
theorem counted_follows {l : Likeness} (entered : ¬ l.templates) {template template' : Template}
    (named : template.name = template'.name)
    (alike : Node.AllAlike l template.nodes template'.nodes) {session other : Engine σ × σ}
    (options : Options.Similar False session.1.options other.1.options)
    (library : Library.Alike l session.1.library other.1.library)
    (memory : ∀ {name}, l.objects name →
      session.1.surroundings.memory name = other.1.surroundings.memory name)
    (routines : session.2 = other.2) {context context' : Dict Value}
    (binds : l.Binds context context') :
    MirrorsAt False (fun _ _ => True) Eq (counted template context) (counted template' context')
      session other := by
  let p : Pairing := ⟨l, False⟩
  have settings : Setting.Alike p (session.1.setting session.1.library)
      (other.1.setting other.1.library) :=
    ⟨library, options, fun enters => absurd enters entered, memory⟩
  have called : MirrorsAt p.lenient (Restored p session other) Eq (call template context)
      (call template' context') session other :=
    call_mirrors binds settings (fun enters => absurd enters entered) routines named alike
  refine called.bind (fun output _ _ _ _ same _ => ?_) fun _ _ _ => trivial
  exact .inl ⟨output, _, _, _, rfl, rfl, same, trivial⟩

theorem counted_mirrors {l : Likeness} (entered : ¬ l.templates) {template : Template}
    (alike : Node.AllAlike l template.nodes template.nodes) {session other : Engine σ × σ}
    (options : Options.Alike False session.1.options other.1.options)
    (library : Library.Alike l session.1.library other.1.library)
    (memory : ∀ {name}, l.objects name →
      session.1.surroundings.memory name = other.1.surroundings.memory name)
    (routines : session.2 = other.2) {context context' : Dict Value}
    (binds : l.Binds context context') :
    MirrorsAt False (fun _ _ => True) Eq (counted template context) (counted template context')
      session other :=
  counted_follows entered rfl alike options.toSimilar library memory routines binds

/-- A loop over a list. -/
def listing : String := "\x7b% for x in xs %\x7d\x7b\x7b x \x7d\x7d\x7b% endfor %\x7d"

def listingNodes : List Node :=
  [.loop ⟨0, 17, ⟨1, 1⟩⟩ ⟨"for", "x", none, "xs"⟩ (.name ⟨12, 14, ⟨1, 13⟩⟩ "xs")
    [.output ⟨17, 24, ⟨1, 18⟩⟩ "x" (some (.name ⟨20, 21, ⟨1, 21⟩⟩ "x")) []]]

theorem listing_analysed :
    (Analysis.ofText .standard listing).map (fun analysis => (analysis.tree.nodes,
      analysis.tree.names, analysis.tree.functions, analysis.diagnostics)) =
      .ok (listingNodes, ["xs", "x"], [], []) := by
  cbv

def here : Dict Value := [("xs", .list [.int 1, .int 2]), ("y", .int 1)]

def there : Dict Value := [("y", .int 5), ("z", .null), ("xs", .list [.int 1, .int 2])]

def millennium : Surroundings := ⟨⟨⟨2000, 1, 1⟩, 0, 0, 0, 0⟩, .zero, fun _ _ => 7⟩

theorem listing_within {node : Node} (within : Node.Within Node.parts node listingNodes) :
    node.entersOther = false ∧ ∀ root, ¬ node.AsksMethod root := by
  simp only [listingNodes, Node.within_cons, Node.within_nil, Node.parts, Node.inner,
    Node.replacing, List.append_nil, List.mem_singleton, exists_eq_left, or_false, List.not_mem_nil,
    false_and, exists_false] at within
  rcases within with rfl | rfl <;>
    exact ⟨rfl, by simp [Node.AsksMethod, Node.expressions, Expression.AsksMethod]⟩

theorem listing_closed (node : Node) (within : Node.Within Node.parts node listingNodes) :
    node.entersOther = false :=
  (listing_within within).1

/-- It compares methods of two objects. -/
def comparing : String := "\x7b\x7bx.hex==y.hex\x7d\x7d"

def comparingNodes : List Node :=
  [.output ⟨0, 16, ⟨1, 1⟩⟩ "x.hex==y.hex" (some (.binary ⟨7, 9, ⟨1, 8⟩⟩ .eq
    (.property ⟨2, 7, ⟨1, 3⟩⟩ (.name ⟨2, 7, ⟨1, 3⟩⟩ "x") "hex")
    (.property ⟨9, 14, ⟨1, 10⟩⟩ (.name ⟨9, 14, ⟨1, 10⟩⟩ "y") "hex"))) []]

theorem comparing_analysed :
    (Analysis.ofText .standard comparing).map (fun analysis => (analysis.tree.nodes,
      analysis.tree.names, analysis.tree.functions, analysis.diagnostics)) =
      .ok (comparingNodes, ["x", "y"], [], []) := by
  cbv

/-- One and a half, twice. -/
def twins : Dict Value :=
  let value : Value := .float (.finite false (3 * 2 ^ 1073))
  [("x", value), ("y", value)]

/-- Everything stands at one place. -/
def together : Surroundings := { Surroundings.still with memory := fun _ _ => 0 }

theorem build_comparing (s : Surroundings) :
    build (create s .standard : Engine Unit) comparing none =
      .ok ⟨0, none, comparing, comparingNodes, []⟩ := by
  obtain ⟨⟨_, _, ⟨nodes, names, functions, blocks⟩, diagnostics⟩, read, told⟩ :=
    exists_of_map_ok comparing_analysed
  cases told
  have read : Analysis.ofText (create s .standard : Engine Unit).options comparing = _ := read
  exact build_of_analysis read none

theorem comparing_closed (node : Node) (within : Node.Within Node.parts node comparingNodes) :
    node.entersOther = false := by
  simp only [comparingNodes, Node.within_cons, Node.within_nil, Node.parts, Node.inner,
    Node.replacing, List.append_nil, List.not_mem_nil, false_and, exists_false, or_false] at within
  rw [within]
  rfl

end Engine
end Stencil
