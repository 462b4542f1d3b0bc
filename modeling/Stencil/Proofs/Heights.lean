import Stencil.Proofs.Extents

/-! How high trees are. A node that stands inside some number of blocks is at most two entries high
for each of the levels of nesting that are left, and two more: one of the two is the block, the
other a clause of it. -/
namespace Stencil

theorem Outline.extent_entry_le {type label : String} {children : List Outline} {bound : Nat}
    (other : isAccess type = false) :
    (entry type label children).extent ≤ bound + 1 ↔ ∀ child ∈ children, child.extent ≤ bound := by
  rw [extent, reach, other, Nat.add_comm bound 1]
  exact Nat.add_le_add_iff_left.trans childReach_le

def FilterUse.extent (filter : FilterUse) : Nat := filter.outline.extent

theorem FilterUse.extent_le {filter : FilterUse} {bound : Nat} :
    filter.extent ≤ bound + 1 ↔ ∀ arg ∈ filter.args, arg.extent ≤ bound := by
  rw [extent, outline, Outline.extent_entry_le (by rfl), Expression.outlines_eq_map,
    List.forall_mem_map]
  rfl

namespace Node

def extent (node : Node) : Nat := node.outline.extent

def clauseExtent (clause : Clause) : Nat := (clauseOutline clause).extent

def blockExtent (named : Block) : Nat := (blockOutline named).extent

theorem outlines_eq_map (nodes : List Node) : outlines nodes = nodes.map (·.outline) := by
  induction nodes with
  | nil => rfl
  | cons node rest ih => rw [outlines, ih, List.map_cons]

theorem clauseOutlines_eq_map (clauses : List Clause) :
    clauseOutlines clauses = clauses.map clauseOutline := by
  induction clauses with
  | nil => rfl
  | cons clause rest ih => rw [clauseOutlines, ih, List.map_cons]

theorem blockOutlines_eq_map (blocks : List Block) :
    blockOutlines blocks = blocks.map blockOutline := by
  induction blocks with
  | nil => rfl
  | cons named rest ih => rw [blockOutlines, ih, List.map_cons]

section Extents

variable {span : Span} {condition : Expression} {body otherwise : List Node} {clauses : List Clause}
  {blocks : List Block} {bound : Nat}

theorem extent_output_le {source : String} {expression : Option Expression}
    {filters : List FilterUse} :
    (output span source expression filters).extent ≤ bound + 1 ↔
      (∀ e ∈ expression, e.extent ≤ bound) ∧ ∀ filter ∈ filters, filter.extent ≤ bound := by
  rw [extent, outline, Outline.extent_entry_le (by rfl), List.forall_mem_append,
    List.forall_mem_map, List.forall_mem_map]
  simp only [Option.mem_toList]
  rfl

theorem extent_conditional_le :
    (conditional span condition body clauses otherwise).extent ≤ bound + 1 ↔
      condition.extent ≤ bound ∧ (∀ node ∈ body, node.extent ≤ bound) ∧
        (∀ clause ∈ clauses, clauseExtent clause ≤ bound) ∧
        ∀ node ∈ otherwise, node.extent ≤ bound := by
  rw [extent, outline, Outline.extent_entry_le (by rfl), List.cons_append, List.cons_append,
    List.forall_mem_cons, List.forall_mem_append, List.forall_mem_append, outlines_eq_map, outlines_eq_map,
    clauseOutlines_eq_map, List.forall_mem_map, List.forall_mem_map, List.forall_mem_map, and_assoc]
  rfl

/-- An entry of a condition and of the nodes that it guards. -/
theorem extent_guarded_le {type label : String} (other : Outline.isAccess type = false) :
    (Outline.entry type label (condition.outline :: outlines body)).extent ≤ bound + 1 ↔
      condition.extent ≤ bound ∧ ∀ node ∈ body, node.extent ≤ bound := by
  rw [Outline.extent_entry_le other, List.forall_mem_cons, outlines_eq_map, List.forall_mem_map]
  rfl

theorem clauseExtent_le : clauseExtent (.mk span condition body) ≤ bound + 1 ↔
    condition.extent ≤ bound ∧ ∀ node ∈ body, node.extent ≤ bound :=
  extent_guarded_le (by rfl)

theorem extent_loop_le {binding : LoopBinding} :
    (loop span binding condition body).extent ≤ bound + 1 ↔
      condition.extent ≤ bound ∧ ∀ node ∈ body, node.extent ≤ bound :=
  extent_guarded_le (by rfl)

theorem extent_repetition_le : (repetition span condition body).extent ≤ bound + 1 ↔
    condition.extent ≤ bound ∧ ∀ node ∈ body, node.extent ≤ bound :=
  extent_guarded_le (by rfl)

theorem extent_exception_le : (exception span condition body).extent ≤ bound + 1 ↔
    condition.extent ≤ bound ∧ ∀ node ∈ body, node.extent ≤ bound :=
  extent_guarded_le (by rfl)

theorem extent_block_le {name : String} : (block (.mk span name body)).extent ≤ bound + 1 ↔
    ∀ node ∈ body, node.extent ≤ bound := by
  rw [extent, outline, blockOutline, Outline.extent_entry_le (by rfl), outlines_eq_map,
    List.forall_mem_map]
  rfl

theorem extent_inclusion_le : (inclusion span condition).extent ≤ bound + 1 ↔
    condition.extent ≤ bound := by
  rw [extent, outline, Outline.extent_entry_le (by rfl), List.forall_mem_singleton]
  rfl

theorem extent_extension_le : (extension span condition blocks).extent ≤ bound + 1 ↔
    condition.extent ≤ bound ∧ ∀ named ∈ blocks, blockExtent named ≤ bound := by
  rw [extent, outline, Outline.extent_entry_le (by rfl), List.forall_mem_cons, blockOutlines_eq_map,
    List.forall_mem_map]
  rfl

end Extents
end Node

/-! ### Blocks -/

theorem Block.mem_setIn {named other : Block} {blocks : List Block}
    (member : other ∈ named.setIn blocks) : other = named ∨ other ∈ blocks := by
  induction blocks with
  | nil => exact .inl (List.mem_singleton.mp member)
  | cons first rest ih =>
    rw [setIn] at member
    split at member <;> rcases List.mem_cons.mp member with rfl | later
    · exact .inl rfl
    · exact .inr (List.mem_cons_of_mem _ later)
    · exact .inr List.mem_cons_self
    · exact (ih later).imp_right (List.mem_cons_of_mem _)

namespace Frame

theorem finish_addOtherwise (frame : Frame) : frame.addOtherwise.finish = frame.finish := by
  rcases frame with ⟨word, span, shape, body⟩
  cases shape <;> rfl

/-- If it ended now, the block would be at most two entries higher than its conditions and the nodes
inside it: as high as a conditional with a clause. -/
def Fits (bound : Nat) (frame : Frame) : Prop := frame.finish.extent ≤ bound + 2

variable {bound : Nat} {frame : Frame}

theorem Fits.add (fits : frame.Fits bound) {node : Node} (small : node.extent ≤ bound) :
    (frame.add node).Fits bound := by
  rcases frame with ⟨word, span, shape, body⟩
  have later : node.extent ≤ bound + 1 := by omega
  cases shape with
  | extension parent blocks =>
    cases node with
    | block named =>
      simp only [Fits, finish, Frame.add, Node.extent_extension_le] at fits ⊢
      refine ⟨fits.1, fun other member => ?_⟩
      rcases Block.mem_setIn member with rfl | old
      · exact later
      · exact fits.2 other old
    | _ => exact fits
  | first | later | otherwise | loop | repetition | exception | block =>
    simp only [Fits, finish, Frame.add, nodes, List.reverse_cons, List.forall_mem_append,
      List.forall_mem_singleton, Node.extent_conditional_le, Node.clauseExtent_le,
      Node.extent_loop_le, Node.extent_repetition_le, Node.extent_exception_le,
      Node.extent_block_le] at fits ⊢
    simp_all

theorem Fits.addClause (fits : frame.Fits bound) (span : Span) {clause : Expression}
    (small : clause.extent ≤ bound) : (frame.addClause span clause).Fits bound := by
  rcases frame with ⟨word, place, shape, body⟩
  cases shape with
  | first | later =>
    simp only [Fits, finish, Frame.addClause, nodes, List.forall_mem_append,
      List.forall_mem_singleton, Node.extent_conditional_le, Node.clauseExtent_le] at fits ⊢
    simp_all
  | _ => exact fits

end Frame

/-- Inside `height` blocks the node takes two entries for every level of nesting that is left, and
two more. -/
def Node.FitsIn (limit height : Nat) (node : Node) : Prop := node.extent ≤ 2 * (limit - height) + 2

/-- The block takes one of the levels that are left, and fits around all nodes that fit in it. -/
def Frame.FitsIn (limit height : Nat) (frame : Frame) : Prop :=
  height < limit ∧ frame.Fits (2 * (limit - (height + 1)) + 2)

/-! ### Tokens -/

/-- The lists of lexemes in a token: its expression or condition, and the arguments of its
filters. -/
def Token.parts (token : Token) : List (List Lexeme) :=
  match token.content with
  | .output expression filters _ => expression :: filters.flatMap (·.args)
  | .opening tag _ => [tag.lexemes]
  | _ => []

/-- Reports at the token do no harm, and the lexemes in it are known. -/
structure Token.Safe (fit : Gathered → Prop) (known : Lexeme → Prop) (token : Token) : Prop where
  reported : TreeReading.Reportable fit token.span
  parts : ∀ part ∈ token.parts, ∀ lexeme ∈ part, known lexeme

namespace Placement
open TreeReading

abbrev FitsIn (limit : Nat) : Nat → Placement → Prop :=
  Meets (Node.FitsIn limit) (Frame.FitsIn limit)

/-- A frame that has just been opened. -/
def fresh (token : Token) (shape : Shape) : Frame := ⟨token.text, token.span, shape, []⟩

variable {fit : Gathered → Prop} {known : Lexeme → Prop} (spares : Spares fit known)
  {token : Token} (safe : token.Safe fit known) (limit room : Nat)
include spares safe

theorem block_fits (tag : Opening) :
    Ensures fit (fun shape => (fresh token shape).Fits (max room 1)) (block token tag) := by
  have small (name : String) : (fresh token (.block name)).Fits (max room 1) := by
    simp [fresh, Frame.Fits, Frame.finish, Node.extent_block_le, Frame.nodes]
  unfold block
  dsimp only
  split
  · exact ensures_bind (report_keeps safe.reported _ _) fun _ _ => ensures_pure (small _)
  · exact ensures_bind (spares.note fun _ => rfl) fun _ _ => ensures_pure (small _)

section Opening

variable {tag : Opening} {source : String} (content : token.content = .opening tag source)
include content

theorem read_tag_fits :
    Ensures fit (fun e => e.extent ≤ max room 1) (Expression.read limit room 0 tag.lexemes) := by
  refine (Expression.read_fits spares limit room 0 ?_).weaken fun e fits => fits.le
  exact safe.parts tag.lexemes (by simp [Token.parts, content])

theorem condition_fits :
    Ensures fit (fun e => e.extent ≤ max room 1) (condition limit room token tag) := by
  unfold condition
  split
  · exact ensures_bind (report_keeps safe.reported _ _) fun _ _ => ensures_pure (by simp)
  · exact read_tag_fits spares safe limit room content

theorem loop_fits :
    Ensures fit (fun shape => (fresh token shape).Fits (max room 1))
      (loop limit room token tag) := by
  have small {binding : LoopBinding} {iterable : Expression} (fits : iterable.extent ≤ max room 1) :
      (fresh token (.loop binding iterable)).Fits (max room 1) := by
    simp only [fresh, Frame.Fits, Frame.finish, Node.extent_loop_le]
    exact ⟨by omega, by simp [Frame.nodes]⟩
  unfold loop
  split
  · exact ensures_bind (read_tag_fits spares safe limit room content) fun iterable fits =>
      ensures_pure (small fits)
  · exact ensures_bind (report_keeps safe.reported _ _) fun _ _ => ensures_pure (small (by simp))

end Opening

theorem ofOpening_fits {tag : Opening} {source : String}
    (content : token.content = .opening tag source) (height : Nat) :
    Ensures fit (FitsIn limit height) (ofOpening limit height token tag) := by
  unfold ofOpening
  dsimp only
  split
  · have fails : Ensures fit (fun _ : PUnit => False) (tooDeep limit token.span) :=
      tooDeep_keeps safe.reported limit
    exact ensures_bind fails fun _ => False.elim
  · rename_i within
    -- An expression is as high as the levels left inside the block, nodes there twice as high.
    generalize left : limit - (height + 1) = space
    have below : height < limit := by omega
    have condition := condition_fits spares safe limit space content
    have opens {shape : Shape} (fits : (fresh token shape).Fits (max space 1)) :
        FitsIn limit height (.opened (fresh token shape)) :=
      ⟨below, Nat.le_trans fits (by omega)⟩
    have guards {shape : Expression → Shape}
        (fits : ∀ c, c.extent ≤ max space 1 → (fresh token (shape c)).Fits (max space 1)) :
        Ensures fit (FitsIn limit height) (do
          return .opened (fresh token (shape (← Placement.condition limit space token tag)))) :=
      ensures_bind condition fun c small => ensures_pure (opens (fits c small))
    have starts {reading : TreeReading Shape}
        (fits : Ensures fit (fun shape => (fresh token shape).Fits (max space 1)) reading) :
        Ensures fit (FitsIn limit height) (do return .opened (fresh token (← reading))) :=
      ensures_bind fits fun shape fits => ensures_pure (opens fits)
    split
    · exact guards fun c small => Node.extent_conditional_le.mpr
        ⟨by omega, List.forall_mem_nil _, List.forall_mem_nil _, List.forall_mem_nil _⟩
    · exact starts (loop_fits spares safe limit space content)
    · exact starts (loop_fits spares safe limit space content)
    · exact guards fun c small =>
        Node.extent_repetition_le.mpr ⟨by omega, List.forall_mem_nil _⟩
    · exact guards fun c small =>
        Node.extent_exception_le.mpr ⟨by omega, List.forall_mem_nil _⟩
    · exact starts (block_fits spares safe space tag)
    · refine ensures_bind condition fun c small => ensures_pure ?_
      exact Nat.le_trans (Node.extent_inclusion_le.mpr small) (by omega)
    · exact guards fun c small =>
        Node.extent_extension_le.mpr ⟨by omega, List.forall_mem_nil _⟩
    · exact ensures_bind (report_keeps safe.reported _ _) fun _ _ => ensures_pure trivial

section Output

variable {expression : List Lexeme} {filters : List FilterLexeme} {source : String}
  (content : token.content = .output expression filters source)
include content

theorem filterUse_fits {filter : FilterLexeme} (member : filter ∈ filters) :
    Ensures fit (fun use => use.extent ≤ room + 1) (filterUse limit room filter) := by
  refine ensures_bind (Expression.ofArguments_fits
    (fun _ known => Expression.read_fits spares limit room 0 known) filter.args ?_)
    fun given small => ensures_pure (FilterUse.extent_le.mpr small)
  intro arg inside
  refine safe.parts arg ?_
  simp only [Token.parts, content, List.mem_cons, List.mem_flatMap]
  exact .inr ⟨filter, member, inside⟩

theorem output_fits :
    Ensures fit (fun node => node.extent ≤ room + 2)
      (output limit room token expression filters) := by
  have known : ∀ lexeme ∈ expression, known lexeme :=
    safe.parts expression (by simp [Token.parts, content])
  have rest {value : Option Expression} (small : ∀ e ∈ value, e.extent ≤ room + 1) :
      Ensures fit (fun node => node.extent ≤ room + 2) (do
        return Node.output token.span token.text value
          (← filters.mapM (filterUse limit room)) : TreeReading Node) :=
    ensures_bind (ensures_mapM_all _ _ fun filter member =>
      filterUse_fits spares safe limit room content member) fun uses fits =>
        ensures_pure (Node.extent_output_le.mpr ⟨small, fits⟩)
  unfold output
  split
  · exact ensures_bind (report_keeps safe.reported _ _) fun _ _ => rest (by simp)
  · have value_fits : Ensures fit
        (fun value : Option Expression => ∀ e ∈ value, e.extent ≤ room + 1)
        (some <$> Expression.read limit room 0 expression) :=
      ensures_map ((Expression.read_fits spares limit room 0 known).weaken fun e fits => by
        simpa using Nat.le_trans fits.le (by omega))
    exact ensures_bind value_fits fun value small => rest small

end Output

theorem ofToken_fits (height : Nat) :
    Ensures fit (FitsIn limit height) (ofToken limit height token) := by
  unfold ofToken
  split
  · exact ensures_pure (Nat.le_add_left 1 _)
  · exact ensures_pure (Nat.le_add_left 1 _)
  · rename_i content
    exact ensures_bind (output_fits spares safe limit (limit - height) content) fun node small =>
      ensures_pure (Nat.le_trans small (by omega))
  · rename_i content
    split
    · exact ensures_bind (report_keeps safe.reported _ _) fun _ _ => ensures_pure trivial
    · exact ofOpening_fits spares safe limit content height
  · exact ensures_bind (report_keeps safe.reported _ _) fun _ _ => ensures_pure trivial
  · exact ensures_bind (report_keeps safe.reported _ _) fun _ _ => ensures_pure trivial
  · exact ensures_pure trivial

end Placement

/-! ### Trees -/

/-- Every two entries of a way down that are no steps of accessor chains use up a level of
nesting. -/
theorem upkeep_extents (limit : Nat) :
    Upkeep limit (fun _ => True) (fun _ => True) (Node.FitsIn limit) (Frame.FitsIn limit) := by
  have spares : TreeReading.Spares (fun _ => True) fun _ => True :=
    ⟨fun _ _ => trivial, fun _ _ _ _ _ => trivial, fun _ _ _ _ _ => trivial⟩
  have safe (token : Token) : token.Safe (fun _ => True) fun _ => True :=
    ⟨fun _ _ _ _ => trivial, fun _ _ _ _ => trivial⟩
  refine ⟨?finish, ?add, ?otherwise, ?clause, ?placed, fun _ _ _ _ _ => trivial,
    fun _ _ _ _ _ => trivial⟩
  case finish =>
    rintro height frame ⟨within, fits⟩
    exact Nat.le_trans fits (by omega)
  case add =>
    rintro height frame node ⟨within, fits⟩ small
    exact ⟨within, fits.add small⟩
  case otherwise =>
    rintro height frame ⟨within, fits⟩
    exact ⟨within, by rwa [Frame.Fits, Frame.finish_addOtherwise]⟩
  case clause =>
    rintro height frame token tag source ⟨within, fits⟩ - content
    exact (Placement.condition_fits spares (safe token) limit _ content).weaken fun clause small =>
      ⟨within, fits.addClause _ (by omega)⟩
  case placed =>
    intro height token _
    exact Placement.ofToken_fits spares (safe token) limit height

theorem Tree.extent_le {limit : Nat} {tokens : List Token} {tree : Tree} {built : List Diagnostic}
    (parsed : ofTokens limit tokens = (.ok tree, built)) :
    tree.outline.extent ≤ 2 * limit + 3 := by
  obtain ⟨-, small⟩ := ofTokens_keeps (upkeep_extents limit) trivial (fun _ _ => trivial) parsed
  rw [outline, Outline.extent_entry_le (by rfl), Node.outlines_eq_map, List.forall_mem_map]
  exact small tree rfl

/-- The limit of nesting bounds the entries on one way down through the tree of any tokens, but for
the steps of accessor chains, which are read one after the other and take no room. -/
theorem depth_bounds_height {limit : Nat} {tokens : List Token} {tree : Tree}
    {built : List Diagnostic} (parsed : Tree.ofTokens limit tokens = (.ok tree, built)) :
    tree.outline.extent ≤ 3 * limit + 3 ∧
      tree.outline.height ≤ 3 * limit + 3 + tree.outline.reach Outline.isAccess := by
  have extent := Tree.extent_le parsed
  have height := tree.outline.height_le Outline.isAccess
  unfold Outline.extent at extent ⊢
  omega

theorem depth_bounds_height_of_chain : ∃ tokens lexed tree built,
    Token.read false "{{ a.b.c.d.e }}".toList = .ok (tokens, lexed) ∧
      Tree.ofTokens 1 tokens = (.ok tree, built) ∧
      tree.outline.extent ≤ 3 * 1 + 3 ∧
      tree.outline.height ≤ 3 * 1 + 3 + tree.outline.reach Outline.isAccess := by
  obtain ⟨⟨tokens, lexed⟩, tokenized⟩ := exists_ok
    (Token.read false "{{ a.b.c.d.e }}".toList) (by cbv)
  have complete : ((Token.read false "{{ a.b.c.d.e }}".toList).toOption.any fun result =>
      (Tree.ofTokens 1 result.1).1.isOk) = true := by
    cbv
  rw [tokenized] at complete
  obtain ⟨tree, parsed⟩ := exists_ok (Tree.ofTokens 1 tokens).1 complete
  exact ⟨tokens, lexed, tree, _, tokenized, Prod.ext parsed rfl,
    depth_bounds_height (Prod.ext parsed rfl)⟩

/-- With the steps of accessor chains a tree may be higher: one level of nesting, and seven entries
on one way down. -/
theorem chain_exceeds_depth : ∃ tokens lexed tree built,
    Token.read false "{{ a.b.c.d.e }}".toList = .ok (tokens, lexed) ∧
      Tree.ofTokens 1 tokens = (.ok tree, built) ∧ ¬ tree.outline.height ≤ 3 * 1 + 3 := by
  obtain ⟨⟨tokens, lexed⟩, tokenized⟩ := exists_ok
    (Token.read false "{{ a.b.c.d.e }}".toList) (by cbv)
  have high : ((Token.read false "{{ a.b.c.d.e }}".toList).toOption.any fun result =>
      (Tree.ofTokens 1 result.1).1.toOption.any fun tree => tree.outline.height == 7) = true := by
    cbv
  rw [tokenized] at high
  rcases parsed : Tree.ofTokens 1 tokens with ⟨_ | tree, built⟩
  · simp [Except.toOption, parsed] at high
  · have height : tree.outline.height = 7 := by simpa [Except.toOption, parsed] using high
    exact ⟨tokens, lexed, tree, built, tokenized, parsed, by omega⟩

end Stencil
