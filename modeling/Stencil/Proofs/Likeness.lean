import Stencil.Proofs.Nodes

/-! Nodes that are alike: built in the same way from expressions that use known names and functions
only. Texts may be cut into more pieces on one side, where this makes no difference. -/
namespace Stencil

/-- What nodes that are alike may use, and how they may differ. -/
structure Likeness where
  names : String → Prop
  functions : String → Prop
  /-- Names from which paths may go to methods. -/
  objects : String → Prop
  /-- Other templates may be included or extended. -/
  templates : Prop
  /-- Texts may be cut. -/
  cuts : Prop

namespace Likeness

/-- Everything may be used. -/
structure Full (l : Likeness) : Prop where
  names (name : String) : l.names name
  functions (name : String) : l.functions name
  objects (name : String) : l.objects name
  templates : l.templates

/-- Equal nodes. -/
def exact : Likeness := ⟨fun _ => True, fun _ => True, fun _ => True, True, False⟩

/-- Nodes that differ in how their texts are cut. -/
def cut : Likeness := ⟨fun _ => True, fun _ => True, fun _ => True, True, True⟩

theorem exact_full : exact.Full := ⟨fun _ => trivial, fun _ => trivial, fun _ => trivial, trivial⟩

theorem cut_full : cut.Full := ⟨fun _ => trivial, fun _ => trivial, fun _ => trivial, trivial⟩

/-- The same names and functions, and perhaps more. -/
structure Less (l m : Likeness) : Prop where
  names {name : String} (used : l.names name) : m.names name
  functions {name : String} (used : l.functions name) : m.functions name
  cuts (cuts : l.cuts) : m.cuts

end Likeness

variable {l m : Likeness}

/-! ### Expressions -/

/-- The objects of some kind have a method of this name. -/
def Kind.AnyMethod (name : String) : Prop :=
  ∃ kind : Kind, name ∈ kind.methods ∨ name ∈ kind.sharedMethods

theorem Value.method?_eq_none (standing : Owner → Nat) (value : Value) {name : String}
    (none : ¬ Kind.AnyMethod name) : value.method? standing name = .none := by
  have own (kind : Kind) : name ∉ kind.methods := fun member => none ⟨kind, .inl member⟩
  have shared (kind : Kind) : name ∉ kind.sharedMethods := fun member => none ⟨kind, .inr member⟩
  unfold method?
  cases value.owner? with
  | none => rfl
  | some owner => simp [own, shared]

namespace Expression

mutual
/-- Somewhere in the expression a path from the name goes to what may be a method. -/
def AsksMethod (root : String) : Expression → Prop
  | literal .. | name .. => False
  | property _ object key =>
    Kind.AnyMethod key ∧ object.root? = some root ∨ object.AsksMethod root
  | element _ array index => array.AsksMethod root ∨ index.AsksMethod root
  | binary _ _ left right => left.AsksMethod root ∨ right.AsksMethod root
  | call _ _ args => AnyAsksMethod root args
termination_by structural expression => expression
def AnyAsksMethod (root : String) : List Expression → Prop
  | [] => False
  | expression :: rest => expression.AsksMethod root ∨ AnyAsksMethod root rest
termination_by structural expressions => expressions
end

mutual
/-- The expression uses known names and functions only, and methods of known objects. -/
def Uses (l : Likeness) : Expression → Prop
  | literal .. => True
  | name _ word => l.names word
  | property _ object key =>
    object.Uses l ∧ (Kind.AnyMethod key → ∀ root, object.root? = some root → l.objects root)
  | element _ array index => array.Uses l ∧ index.Uses l
  | binary _ _ left right => left.Uses l ∧ right.Uses l
  | call _ callee args => l.functions callee ∧ AllUse l args
termination_by structural expression => expression
def AllUse (l : Likeness) : List Expression → Prop
  | [] => True
  | expression :: rest => expression.Uses l ∧ AllUse l rest
termination_by structural expressions => expressions
end

mutual
theorem uses_of_full (full : l.Full) : (expression : Expression) → expression.Uses l
  | literal .. => trivial
  | name _ word => full.names word
  | property _ object _ => ⟨uses_of_full full object, fun _ root _ => full.objects root⟩
  | element _ array index => ⟨uses_of_full full array, uses_of_full full index⟩
  | binary _ _ left right => ⟨uses_of_full full left, uses_of_full full right⟩
  | call _ callee args => ⟨full.functions callee, allUse_of_full full args⟩
theorem allUse_of_full (full : l.Full) : (expressions : List Expression) → AllUse l expressions
  | [] => trivial
  | expression :: rest => ⟨uses_of_full full expression, allUse_of_full full rest⟩
end

mutual
theorem Uses.mono (less : l.Less m) : {expression : Expression} →
    (∀ root, expression.AsksMethod root → m.objects root) → expression.Uses l → expression.Uses m
  | literal .., _, _ => trivial
  | name .., _, used => less.names used
  | property _ object _, asked, used =>
    ⟨@Uses.mono less object (fun root asks => asked root (.inr asks)) used.1,
      fun method root start => asked root (.inl ⟨method, start⟩)⟩
  | element .., asked, used =>
    ⟨Uses.mono less (fun root asks => asked root (.inl asks)) used.1,
      Uses.mono less (fun root asks => asked root (.inr asks)) used.2⟩
  | binary .., asked, used =>
    ⟨Uses.mono less (fun root asks => asked root (.inl asks)) used.1,
      Uses.mono less (fun root asks => asked root (.inr asks)) used.2⟩
  | call .., asked, used => ⟨less.functions used.1, AllUse.mono less asked used.2⟩
theorem AllUse.mono (less : l.Less m) : {expressions : List Expression} →
    (∀ root, AnyAsksMethod root expressions → m.objects root) → AllUse l expressions →
    AllUse m expressions
  | [], _, _ => trivial
  | _ :: _, asked, used =>
    ⟨Uses.mono less (fun root asks => asked root (.inl asks)) used.1,
      AllUse.mono less (fun root asks => asked root (.inr asks)) used.2⟩
end

theorem anyAsksMethod_iff {root : String} {expressions : List Expression} :
    AnyAsksMethod root expressions ↔ ∃ e ∈ expressions, e.AsksMethod root := by
  induction expressions with
  | nil => simp [AnyAsksMethod]
  | cons first rest ih => simp [AnyAsksMethod, ih]

end Expression

/-! ### Nodes -/

mutual
inductive Node.Alike (l : Likeness) : Node → Node → Prop
  | text (span : Span) (text : String) : Node.Alike l (.text span text) (.text span text)
  | comment (span : Span) (text : String) : Node.Alike l (.comment span text) (.comment span text)
  | output (span : Span) (source : String) {expression : Option Expression}
      {filters : List FilterUse} (used : ∀ e ∈ expression, e.Uses l)
      (given : ∀ filter ∈ filters, Expression.AllUse l filter.args) :
      Node.Alike l (.output span source expression filters) (.output span source expression filters)
  | conditional (span : Span) {condition : Expression} {body other otherwise others : List Node}
      {clauses further : List Clause} (used : condition.Uses l) (first : Node.AllAlike l body other)
      (later : Clause.AllAlike l clauses further) (last : Node.AllAlike l otherwise others) :
      Node.Alike l (.conditional span condition body clauses otherwise)
        (.conditional span condition other further others)
  | loop (span : Span) (binding : LoopBinding) {iterable : Expression} {body other : List Node}
      (used : iterable.Uses l) (inner : Node.AllAlike l body other) :
      Node.Alike l (.loop span binding iterable body) (.loop span binding iterable other)
  | repetition (span : Span) {condition : Expression} {body other : List Node}
      (used : condition.Uses l) (inner : Node.AllAlike l body other) :
      Node.Alike l (.repetition span condition body) (.repetition span condition other)
  | exception (span : Span) {condition : Expression} {body other : List Node}
      (used : condition.Uses l) (inner : Node.AllAlike l body other) :
      Node.Alike l (.exception span condition body) (.exception span condition other)
  | block (span : Span) (name : String) {body other : List Node}
      (inner : Node.AllAlike l body other) :
      Node.Alike l (.block (.mk span name body)) (.block (.mk span name other))
  | inclusion (span : Span) {path : Expression} (templates : l.templates) (used : path.Uses l) :
      Node.Alike l (.inclusion span path) (.inclusion span path)
  | extension (span : Span) {parent : Expression} {blocks others : List Block}
      (templates : l.templates) (used : parent.Uses l) (given : Block.AllAlike l blocks others) :
      Node.Alike l (.extension span parent blocks) (.extension span parent others)
inductive Node.AllAlike (l : Likeness) : List Node → List Node → Prop
  | nil : Node.AllAlike l [] []
  | cons {node other : Node} {rest others : List Node} (first : Node.Alike l node other)
      (later : Node.AllAlike l rest others) : Node.AllAlike l (node :: rest) (other :: others)
  /-- A piece of a text is cut off. -/
  | cut (cuts : l.cuts) (span other : Span) (piece text : String) {rest others : List Node}
      (later : Node.AllAlike l (.text span text :: rest) others) :
      Node.AllAlike l (.text span (piece ++ text) :: rest) (.text other piece :: others)
  /-- Nothing is left of a text. -/
  | spent (cuts : l.cuts) (span : Span) {rest others : List Node}
      (later : Node.AllAlike l rest others) :
      Node.AllAlike l (.text span "" :: rest) others
inductive Clause.AllAlike (l : Likeness) : List Clause → List Clause → Prop
  | nil : Clause.AllAlike l [] []
  | cons (span : Span) {condition : Expression} {body other : List Node} {rest others : List Clause}
      (used : condition.Uses l) (inner : Node.AllAlike l body other)
      (later : Clause.AllAlike l rest others) :
      Clause.AllAlike l (.mk span condition body :: rest) (.mk span condition other :: others)
inductive Block.AllAlike (l : Likeness) : List Block → List Block → Prop
  | nil : Block.AllAlike l [] []
  | cons (span : Span) (name : String) {body other : List Node} {rest others : List Block}
      (inner : Node.AllAlike l body other) (later : Block.AllAlike l rest others) :
      Block.AllAlike l (.mk span name body :: rest) (.mk span name other :: others)
end

mutual
theorem Node.Alike.refl (full : l.Full) : (node : Node) → Node.Alike l node node
  | .text span text => .text span text
  | .comment span text => .comment span text
  | .output span source _ _ =>
    .output span source (fun e _ => Expression.uses_of_full full e)
      fun filter _ => Expression.allUse_of_full full filter.args
  | .conditional span condition body clauses otherwise =>
    .conditional span (Expression.uses_of_full full condition) (Node.AllAlike.refl full body)
      (Clause.AllAlike.refl full clauses) (Node.AllAlike.refl full otherwise)
  | .loop span binding iterable body =>
    .loop span binding (Expression.uses_of_full full iterable) (Node.AllAlike.refl full body)
  | .repetition span condition body =>
    .repetition span (Expression.uses_of_full full condition) (Node.AllAlike.refl full body)
  | .exception span condition body =>
    .exception span (Expression.uses_of_full full condition) (Node.AllAlike.refl full body)
  | .block (.mk span name body) => .block span name (Node.AllAlike.refl full body)
  | .inclusion span path => .inclusion span full.templates (Expression.uses_of_full full path)
  | .extension span parent blocks =>
    .extension span full.templates (Expression.uses_of_full full parent)
      (Block.AllAlike.refl full blocks)
theorem Node.AllAlike.refl (full : l.Full) : (nodes : List Node) → Node.AllAlike l nodes nodes
  | [] => .nil
  | node :: rest => .cons (Node.Alike.refl full node) (Node.AllAlike.refl full rest)
theorem Clause.AllAlike.refl (full : l.Full) :
    (clauses : List Clause) → Clause.AllAlike l clauses clauses
  | [] => .nil
  | .mk span condition body :: rest =>
    .cons span (Expression.uses_of_full full condition) (Node.AllAlike.refl full body)
      (Clause.AllAlike.refl full rest)
theorem Block.AllAlike.refl (full : l.Full) : (blocks : List Block) → Block.AllAlike l blocks blocks
  | [] => .nil
  | .mk span name body :: rest =>
    .cons span name (Node.AllAlike.refl full body) (Block.AllAlike.refl full rest)
end

mutual
theorem Node.Alike.eq (whole : ¬ l.cuts) {node other : Node} :
    Node.Alike l node other → node = other
  | .text .. | .comment .. | .output .. | .inclusion .. => rfl
  | .conditional _ _ first later last => by rw [first.eq whole, later.eq whole, last.eq whole]
  | .loop _ _ _ inner | .repetition _ _ inner | .exception _ _ inner | .block _ _ inner => by
    rw [inner.eq whole]
  | .extension _ _ _ given => by rw [given.eq whole]
theorem Node.AllAlike.eq (whole : ¬ l.cuts) {nodes others : List Node} :
    Node.AllAlike l nodes others → nodes = others
  | .nil => rfl
  | .cons first later => by rw [first.eq whole, later.eq whole]
  | .cut cuts .. | .spent cuts .. => absurd cuts whole
theorem Clause.AllAlike.eq (whole : ¬ l.cuts) {clauses others : List Clause} :
    Clause.AllAlike l clauses others → clauses = others
  | .nil => rfl
  | .cons _ _ inner later => by rw [inner.eq whole, later.eq whole]
theorem Block.AllAlike.eq (whole : ¬ l.cuts) {blocks others : List Block} :
    Block.AllAlike l blocks others → blocks = others
  | .nil => rfl
  | .cons _ _ inner later => by rw [inner.eq whole, later.eq whole]
end

/-- The node puts another template in its place. -/
def Node.entersOther : Node → Bool
  | .inclusion .. | .extension .. => true
  | _ => false

def Clause.condition : Clause → Expression
  | mk _ condition _ => condition

/-- The expressions that a node evaluates itself. -/
def Node.expressions : Node → List Expression
  | output _ _ expression filters => expression.toList ++ filters.flatMap (·.args)
  | conditional _ condition _ clauses _ => condition :: clauses.map Clause.condition
  | loop _ _ iterable _ => [iterable]
  | repetition _ condition _ | exception _ condition _ => [condition]
  | inclusion _ path => [path]
  | extension _ parent _ => [parent]
  | _ => []

/-- The node evaluates a path that goes from the name to what may be a method. -/
def Node.AsksMethod (root : String) (node : Node) : Prop :=
  ∃ e ∈ node.expressions, e.AsksMethod root

/-- Other templates may be entered if a node does so, and methods be asked for that a node asks
for. -/
structure Likeness.AdmitsNode (l : Likeness) (node : Node) : Prop where
  templates (enters : node.entersOther = true) : l.templates
  objects (root : String) (asks : node.AsksMethod root) : l.objects root

/-- What the nodes and those inside them do is admitted. -/
def Likeness.Admits (l : Likeness) (nodes : List Node) : Prop :=
  ∀ node, Node.Within Node.parts node nodes → l.AdmitsNode node

theorem Likeness.Admits.first {node : Node} {rest : List Node} (admits : m.Admits (node :: rest)) :
    ∀ body ∈ node.parts, m.Admits body :=
  fun _ part inside within => admits inside (.inside List.mem_cons_self part within)

theorem Likeness.Admits.rest {node : Node} {rest : List Node} (admits : m.Admits (node :: rest)) :
    m.Admits rest :=
  fun inside within => admits inside (within.of_subset fun _ => List.mem_cons_of_mem _)

theorem Likeness.AdmitsNode.uses {node : Node} (admits : m.AdmitsNode node) (less : l.Less m)
    {e : Expression} (own : e ∈ node.expressions) (used : e.Uses l) : e.Uses m :=
  used.mono less fun root asks => admits.objects root ⟨e, own, asks⟩

mutual
/-- Nodes stay alike when more names and functions are known. -/
theorem Node.Alike.mono (less : l.Less m) {node other : Node} (own : m.AdmitsNode node)
    (admits : ∀ body ∈ node.parts, m.Admits body) :
    Node.Alike l node other → Node.Alike m node other
  | .text span text => .text span text
  | .comment span text => .comment span text
  | .output span source used given =>
    .output span source (fun e member => own.uses less (by
      simp [Node.expressions, Option.mem_def.mp member]) (used e member))
      fun filter member => (given filter member).mono less fun root asks => by
        obtain ⟨e, arg, asks⟩ := Expression.anyAsksMethod_iff.mp asks
        exact own.objects root
          ⟨e, List.mem_append_right _ (List.mem_flatMap.mpr ⟨filter, member, arg⟩), asks⟩
  | .conditional span used first later last =>
    .conditional span (own.uses less List.mem_cons_self used)
      (first.mono less (admits _ (by simp [Node.parts, Node.inner])))
      (later.mono less
        (fun clause member root asks => own.objects root
          ⟨clause.condition, List.mem_cons_of_mem _ (List.mem_map_of_mem member), asks⟩)
        fun clause member => admits _ (by
          simp only [Node.parts, Node.inner, Node.replacing, List.append_nil]
          exact List.mem_cons_of_mem _ (List.mem_cons_of_mem _ (List.mem_map_of_mem member))))
      (last.mono less (admits _ (by simp [Node.parts, Node.inner])))
  | .loop span binding used inner =>
    .loop span binding (own.uses less List.mem_cons_self used)
      (inner.mono less (admits _ List.mem_cons_self))
  | .repetition span used inner =>
    .repetition span (own.uses less List.mem_cons_self used)
      (inner.mono less (admits _ List.mem_cons_self))
  | .exception span used inner =>
    .exception span (own.uses less List.mem_cons_self used)
      (inner.mono less (admits _ List.mem_cons_self))
  | .block span name inner => .block span name (inner.mono less (admits _ List.mem_cons_self))
  | .inclusion span _ used =>
    .inclusion span (own.templates rfl) (own.uses less List.mem_cons_self used)
  | .extension span _ used given =>
    .extension span (own.templates rfl) (own.uses less List.mem_cons_self used)
      (given.mono less fun named member => admits _ (List.mem_map_of_mem member))
theorem Node.AllAlike.mono (less : l.Less m) {nodes others : List Node} (admits : m.Admits nodes) :
    Node.AllAlike l nodes others → Node.AllAlike m nodes others
  | .nil => .nil
  | .cons first later =>
    .cons (first.mono less (admits _ (.here List.mem_cons_self)) admits.first)
      (later.mono less admits.rest)
  | .cut cuts span other piece remains later =>
    .cut (less.cuts cuts) span other piece remains (later.mono less fun node within => by
      rcases Node.within_cons.mp within with rfl | ⟨_, part, _⟩ | within
      · exact ⟨fun enters => (by cases enters), fun root ⟨_, member, _⟩ => by cases member⟩
      · cases part
      · exact admits.rest node within)
  | .spent cuts span later => .spent (less.cuts cuts) span (later.mono less admits.rest)
theorem Clause.AllAlike.mono (less : l.Less m) {clauses others : List Clause}
    (asked : ∀ clause ∈ clauses, ∀ root, clause.condition.AsksMethod root → m.objects root)
    (admits : ∀ clause ∈ clauses, m.Admits clause.body) :
    Clause.AllAlike l clauses others → Clause.AllAlike m clauses others
  | .nil => .nil
  | .cons span used inner later =>
    .cons span (used.mono less (asked _ List.mem_cons_self))
      (inner.mono less (admits _ List.mem_cons_self))
      (later.mono less (fun clause member => asked clause (List.mem_cons_of_mem _ member))
        fun clause member => admits clause (List.mem_cons_of_mem _ member))
theorem Block.AllAlike.mono (less : l.Less m) {blocks others : List Block}
    (admits : ∀ named ∈ blocks, m.Admits named.body) :
    Block.AllAlike l blocks others → Block.AllAlike m blocks others
  | .nil => .nil
  | .cons span name inner later =>
    .cons span name (inner.mono less (admits _ List.mem_cons_self))
      (later.mono less fun named member => admits named (List.mem_cons_of_mem _ member))
end

/-! ### Lists -/

theorem Node.AllAlike.append {nodes others rest remaining : List Node} :
    Node.AllAlike l nodes others → Node.AllAlike l rest remaining →
      Node.AllAlike l (nodes ++ rest) (others ++ remaining)
  | .nil, later => later
  | .cons first more, later => .cons first (more.append later)
  | .cut cuts span other piece remains more, later =>
    .cut cuts span other piece remains (more.append later)
  | .spent cuts span more, later => .spent cuts span (more.append later)

/-! ### Templates -/

/-- Templates that were compiled alike. -/
structure Template.Alike (l : Likeness) (template other : Template) : Prop where
  number : template.number = other.number
  name : template.name = other.name
  source : template.source = other.source
  nodes : Node.AllAlike l template.nodes other.nodes
  diagnostics : template.diagnostics = other.diagnostics

theorem Template.Alike.refl (full : l.Full) (template : Template) :
    Template.Alike l template template :=
  ⟨rfl, rfl, rfl, .refl full template.nodes, rfl⟩

theorem Template.Alike.eq (whole : ¬ l.cuts) {template other : Template}
    (alike : Template.Alike l template other) : template = other := by
  obtain ⟨number, name, source, nodes, diagnostics⟩ := template
  obtain ⟨number', name', source', nodes', diagnostics'⟩ := other
  obtain ⟨rfl, rfl, rfl, same, rfl⟩ := alike
  obtain rfl := same.eq whole
  rfl

theorem Template.alike_exact : Template.Alike .exact = Eq := by
  funext template other
  refine propext ⟨fun alike => alike.eq not_false, ?_⟩
  rintro rfl
  exact .refl Likeness.exact_full template

end Stencil
