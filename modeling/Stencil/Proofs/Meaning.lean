import Stencil.Proofs.Calm
import Stencil.Proofs.Grouping
import Stencil.Proofs.Notation

/-! What lexemes stand for, and that the reading of expressions yields it unless nesting is too
deep: the split at the first operator of least precedence is the topmost operator of the group. -/
namespace Stencil

mutual
/-- The expression without its places. -/
def Expression.term : Expression → Notation.Term
  | .literal _ value => .literal value
  | .name _ word => .name word
  | .property _ object key => .property object.term key
  | .element _ array index => .element array.term index.term
  | .binary _ op left right => .binary op left.term right.term
  | .call _ callee args => .call callee (Expression.terms args)
def Expression.terms : List Expression → List Notation.Term
  | [] => []
  | arg :: rest => arg.term :: Expression.terms rest
end

namespace Notation

mutual
/-- The lexeme stands for the term. -/
inductive LexemeMeans : Lexeme → Term → Prop
  | literal {span : Span} {text : String} {value : Literal} :
      LexemeMeans (.literal span text value) (.literal value)
  | name {span : Span} {name : String} : LexemeMeans (.name span name) (.name name)
  | path {span : Span} {text base : String} {steps : List PathStep} {term : Term}
      (walk : StepsMean steps (.name base) term) : LexemeMeans (.path span text base steps) term
  | call {span : Span} {text name : String} {args : List (List Lexeme)} {terms : List Term}
      (given : ArgsMean args terms) : LexemeMeans (.call span text name args) (.call name terms)
/-- The steps lead from one term to another. -/
inductive StepsMean : List PathStep → Term → Term → Prop
  | nil {term : Term} : StepsMean [] term term
  | property {name : String} {rest : List PathStep} {object term : Term}
      (later : StepsMean rest (.property object name) term) :
      StepsMean (.property name :: rest) object term
  | index {inner : List Lexeme} {group : Group} {rest : List PathStep} {object term : Term}
      (inside : ChainMeans inner group) (later : StepsMean rest (.element object group.term) term) :
      StepsMean (.index inner :: rest) object term
/-- The arguments stand for the terms. -/
inductive ArgsMean : List (List Lexeme) → List Term → Prop
  | nil : ArgsMean [] []
  | cons {arg : List Lexeme} {group : Group} {rest : List (List Lexeme)} {terms : List Term}
      (first : ChainMeans arg group) (later : ArgsMean rest terms) :
      ArgsMean (arg :: rest) (group.term :: terms)
/-- An operand with the signs before it stands for the term. -/
inductive OperandMeans : List Lexeme → Term → Prop
  | atom {lexeme : Lexeme} {term : Term} (means : LexemeMeans lexeme term) :
      OperandMeans [lexeme] term
  | sign {span : Span} {rest : List Lexeme} {term : Term} (means : OperandMeans rest term) :
      OperandMeans (.operator span .sub :: rest)
        (.binary .sub (.literal (.number (.int 0))) term)
/-- Operands with operators between them stand for the group. -/
inductive ChainMeans : List Lexeme → Group → Prop
  | last {lexemes : List Lexeme} {term : Term} (means : OperandMeans lexemes term) :
      ChainMeans lexemes (.operand term)
  | more {lexemes rest : List Lexeme} {term : Term} {span : Span} {op : Operator} {group : Group}
      (means : OperandMeans lexemes term) (later : ChainMeans rest group) :
      ChainMeans (lexemes ++ .operator span op :: rest) (group.attach term op)
end

/-! ### Groups -/

/-- The operators between the operands of a group, from left to right. -/
def Group.operators : Group → List Operator
  | .operand _ => []
  | .binary op left right => left.operators ++ op :: right.operators

/-- The lexemes of a group whose topmost operator is the first of those that bind least, and so in
each of its parts. -/
inductive GroupMeans : List Lexeme → Group → Prop
  | operand {lexemes : List Lexeme} {term : Term} (means : OperandMeans lexemes term) :
      GroupMeans lexemes (.operand term)
  | binary {before after : List Lexeme} {span : Span} {op : Operator} {left right : Group}
      (first : GroupMeans before left) (second : GroupMeans after right)
      (tighter : ∀ other ∈ left.operators, op.precedence < other.precedence)
      (looser : ∀ other ∈ right.operators, op.precedence ≤ other.precedence) :
      GroupMeans (before ++ .operator span op :: after) (.binary op left right)

theorem Group.mem_attach {term : Term} {op other : Operator} {group : Group} :
    other ∈ (group.attach term op).operators ↔ other = op ∨ other ∈ group.operators := by
  induction group with
  | operand last => simp [Group.attach, Group.operators]
  | binary next left right leftIH rightIH =>
    rw [Group.attach]
    split
    · simp [Group.operators, leftIH, or_assoc]
    · simp [Group.operators]

theorem GroupMeans.attach {lexemes rest : List Lexeme} {term : Term} {span : Span} {op : Operator}
    {group : Group} (means : OperandMeans lexemes term) (later : GroupMeans rest group) :
    GroupMeans (lexemes ++ .operator span op :: rest) (group.attach term op) := by
  induction later with
  | operand last =>
    rw [Group.attach]
    exact .binary (.operand means) (.operand last) (by simp [Group.operators])
      (by simp [Group.operators])
  | @binary before after here next left right first second tighter looser leftIH rightIH =>
    rw [Group.attach]
    split
    · rename_i under
      have shape : lexemes ++ .operator span op :: (before ++ .operator here next :: after) =
          (lexemes ++ .operator span op :: before) ++ .operator here next :: after := by
        simp
      rw [shape]
      refine .binary leftIH second ?_ looser
      intro other member
      rcases Group.mem_attach.mp member with rfl | inside
      · exact under
      · exact tighter other inside
    · rename_i under
      have bound := Nat.not_lt.mp under
      refine .binary (.operand means) (.binary first second tighter looser)
        (by simp [Group.operators]) ?_
      intro other member
      simp only [Group.operators, List.mem_append, List.mem_cons] at member
      rcases member with inside | rfl | inside
      · exact Nat.le_of_lt (Nat.lt_of_le_of_lt bound (tighter other inside))
      · exact bound
      · exact Nat.le_trans bound (looser other inside)

theorem groupMeans_of_chainMeans {lexemes : List Lexeme} {group : Group} :
    ChainMeans lexemes group → GroupMeans lexemes group
  | .last means => .operand means
  | .more means later => .attach means (groupMeans_of_chainMeans later)

/-! ### Groupings -/

theorem isOperator_of_lexemeMeans {lexeme : Lexeme} {term : Term}
    (means : LexemeMeans lexeme term) : lexeme.isOperator = false := by
  cases means <;> rfl

theorem operand_of_operandMeans {lexemes : List Lexeme} {term : Term}
    (means : OperandMeans lexemes term) : ∃ operand : Operand, operand.lexemes = lexemes := by
  match means with
  | @OperandMeans.atom lexeme _ means =>
    exact ⟨.atom lexeme (isOperator_of_lexemeMeans means), rfl⟩
  | @OperandMeans.sign span _ _ means =>
    obtain ⟨operand, rfl⟩ := operand_of_operandMeans means
    exact ⟨.sign span operand, rfl⟩

/-- Lexemes of a group have the grouping that it has. -/
theorem grouping_of_groupMeans {lexemes : List Lexeme} {group : Group}
    (means : GroupMeans lexemes group) : ∃ grouping : Grouping,
      grouping.lexemes = lexemes ∧ grouping.Ordered ∧ grouping.operators = group.operators := by
  induction means with
  | operand means =>
    obtain ⟨operand, rfl⟩ := operand_of_operandMeans means
    exact ⟨.operand operand, rfl, trivial, rfl⟩
  | @binary _ _ span op _ _ _ _ tighter looser leftIH rightIH =>
    obtain ⟨left, rfl, leftOrdered, leftOps⟩ := leftIH
    obtain ⟨right, rfl, rightOrdered, rightOps⟩ := rightIH
    refine ⟨.binary span op left right, rfl, ?_, ?_⟩
    · exact ⟨⟨leftOrdered, leftOps ▸ tighter⟩, rightOrdered, rightOps ▸ looser⟩
    · rw [Grouping.operators, Group.operators, leftOps, rightOps]

/-! ### Depth -/

theorem depth_pos : (term : Term) → 0 < term.depth
  | .literal _ | .name _ => Nat.one_pos
  | .property object _ => depth_pos object
  | .element array _ => Nat.lt_of_lt_of_le (depth_pos array) (Nat.le_max_left _ _)
  | .binary .. | .call .. => Nat.succ_pos _

theorem depth_le_of_stepsMean {steps : List PathStep} {object term : Term}
    (walk : StepsMean steps object term) : object.depth ≤ term.depth := by
  induction steps generalizing object with
  | nil =>
    cases walk
    exact Nat.le_refl _
  | cons step rest ih =>
    cases walk with
    | @property name _ _ _ later =>
      have grows : (Term.property object name).depth ≤ term.depth := ih later
      exact grows
    | index inside later => exact Nat.le_trans (Nat.le_max_left _ _) (ih later)

/-! ### Reading -/

/-- The reading returns something of the kind and reports nothing where it fits; elsewhere nesting
is too deep for it. -/
def Yields {α : Type} (reading : TreeReading α) (fits : Prop) (kind : α → Prop) : Prop :=
  ∀ g, (fits ∧ ∃ a g', Returns reading g a g' ∧ g'.diagnostics = g.diagnostics ∧ kind a) ∨
    (¬ fits ∧ ∃ cause g', Fails reading g cause g' ∧ cause.OfDepth)

section Yields

variable {α β : Type} {reading : TreeReading α} {next : α → TreeReading β} {kind : α → Prop}
  {other : β → Prop} {fits both : Prop}

theorem yields_pure {a : α} (right : kind a) : Yields (pure a) True kind :=
  fun g => .inl ⟨trivial, a, g, returns_pure.mpr ⟨rfl, rfl⟩, rfl, right⟩

theorem yields_congr (same : fits ↔ both) (first : Yields reading fits kind) :
    Yields reading both kind := by
  rwa [← propext same]

theorem yields_bind (first : Yields reading fits kind)
    (later : fits → ∀ a, kind a → Yields (next a) both other) :
    Yields (reading >>= next) (fits ∧ both) other := by
  intro g
  rcases first g with ⟨room, a, h, here, silent, right⟩ | ⟨tight, cause, h, here, deep⟩
  · rcases later room a right h with ⟨more, b, i, there, still, whole⟩ | ⟨tight, cause, i, there, deep⟩
    · exact .inl ⟨⟨room, more⟩, b, i, returns_bind.mpr ⟨a, h, here, there⟩, still.trans silent,
        whole⟩
    · exact .inr ⟨fun rooms => tight rooms.2, cause, i, fails_bind.mpr (.inr ⟨a, h, here, there⟩),
        deep⟩
  · exact .inr ⟨fun rooms => tight rooms.1, cause, h, fails_bind.mpr (.inl here), deep⟩

/-- A step that nesting does not matter to. -/
theorem yields_after (first : Yields reading True kind)
    (later : ∀ a, kind a → Yields (next a) both other) : Yields (reading >>= next) both other :=
  yields_congr (by simp) (yields_bind first fun _ => later)

theorem yields_map {f : α → β} (first : Yields reading fits kind)
    (right : ∀ a, kind a → other (f a)) : Yields (reading >>= fun a => pure (f a)) fits other :=
  yields_congr (by simp) (yields_bind first fun _ a known => yields_pure (right a known))

theorem yields_modify {f : Gathered → Gathered} (silent : ∀ g, (f g).diagnostics = g.diagnostics) :
    Yields (modify f : TreeReading PUnit) True fun _ => True :=
  fun g => .inl ⟨trivial, ⟨⟩, f g, returns_modify.mpr rfl, silent g, trivial⟩

end Yields

theorem yields_tooDeep {α : Type} (limit : Nat) (span : Span) {fits : Prop} (tight : ¬ fits)
    (kind : α → Prop) : Yields (TreeReading.tooDeep limit span) fits kind := by
  intro g
  exact .inr ⟨tight, _, _, fails_bind.mpr (.inr ⟨⟨⟩, _, returns_modify.mpr rfl, rfl⟩),
    limit, span.start, span.position, rfl⟩

/-! ### Expressions -/

section Read
open Expression TreeReading

variable {inner : List Lexeme → TreeReading Expression} {room : Nat}

/-- The inner reading yields what groups stand for, if it has room for it. -/
def Inner (room : Nat) (inner : List Lexeme → TreeReading Expression) : Prop :=
  ∀ {lexemes : List Lexeme} {group : Group}, GroupMeans lexemes group →
    Yields (inner lexemes) (group.term.depth ≤ room) fun e => e.term = group.term

theorem yields_ofSteps (reads : Inner room inner) {span : Span} {object : Expression}
    {steps : List PathStep} {term : Term} (means : StepsMean steps object.term term)
    (shallow : object.term.depth ≤ room + 1) :
    Yields (ofSteps inner span object steps) (term.depth ≤ room + 1) fun e => e.term = term := by
  induction steps generalizing object with
  | nil =>
    cases means
    exact yields_congr (by simp [shallow]) (yields_pure rfl)
  | cons step rest ih =>
    cases means with
    | property later => exact ih later shallow
    | @index _ group _ _ _ inside later =>
      have grows := depth_le_of_stepsMean later
      rw [Term.depth] at grows
      refine yields_congr (and_iff_right_of_imp fun fits => ?_)
        (yields_bind (reads (groupMeans_of_chainMeans inside)) fun fits index same => ih ?_ ?_)
      · omega
      · rw [Expression.term, same]
        exact later
      · rw [Expression.term, same, Term.depth]
        omega

theorem nonempty_of_operandMeans {lexemes : List Lexeme} {term : Term}
    (means : OperandMeans lexemes term) : lexemes ≠ [] := by
  cases means <;> simp

theorem nonempty_of_groupMeans {lexemes : List Lexeme} {group : Group}
    (means : GroupMeans lexemes group) : lexemes ≠ [] := by
  cases means with
  | operand means => exact nonempty_of_operandMeans means
  | binary _ _ _ _ => simp

theorem yields_ofArguments (reads : Inner room inner) {args : List (List Lexeme)}
    {terms : List Term} (means : ArgsMean args terms) :
    Yields (ofArguments inner args) (depths terms ≤ room) fun es => Expression.terms es = terms := by
  induction args generalizing terms with
  | nil =>
    cases means
    exact yields_congr (by simp [depths]) (yields_pure rfl)
  | cons arg rest ih =>
    cases means with
    | cons first later =>
      have grouped := groupMeans_of_chainMeans first
      have keeps : (arg :: rest).filter (!·.isEmpty) = arg :: rest.filter (!·.isEmpty) := by
        simp [nonempty_of_groupMeans grouped]
      rw [ofArguments, keeps, List.mapM_cons, depths]
      refine yields_congr Nat.max_le.symm (yields_bind (reads grouped) fun _ e same => ?_)
      refine yields_map (ih later) fun es others => ?_
      rw [Expression.terms, same, others]

theorem yields_ofLexeme (reads : Inner room inner) {lexeme : Lexeme} {term : Term}
    (means : LexemeMeans lexeme term) :
    Yields (ofLexeme inner lexeme) (term.depth ≤ room + 1) fun e => e.term = term := by
  have single : True ↔ 1 ≤ room + 1 := by simp
  cases means with
  | literal => exact yields_congr single (yields_pure rfl)
  | name =>
    exact yields_congr single
      (yields_after (yields_modify fun _ => rfl) fun _ _ => yields_pure rfl)
  | path walk =>
    exact yields_after (yields_modify fun _ => rfl) fun _ _ =>
      yields_ofSteps reads walk (Nat.le_add_left _ _)
  | call given =>
    refine yields_congr Nat.succ_le_succ_iff.symm
      (yields_after (yields_modify fun _ => rfl) fun _ _ => ?_)
    refine yields_map (yields_ofArguments reads given) fun es same => ?_
    rw [Expression.term, same]

theorem yields_read_group (limit room : Nat) {floor : Nat} {lexemes : List Lexeme} {group : Group}
    (means : GroupMeans lexemes group)
    (above : ∀ op ∈ group.operators, floor ≤ op.precedence) :
    Yields (read limit room floor lexemes) (group.term.depth ≤ room) fun e =>
      e.term = group.term := by
  induction room generalizing floor lexemes group with
  | zero =>
    have deep := Nat.not_le.mpr (depth_pos group.term)
    cases lexemes with
    | nil => exact absurd rfl (nonempty_of_groupMeans means)
    | cons first rest => exact yields_tooDeep limit first.span deep _
  | succ room ih =>
    have inner : Inner room (read limit room 0) :=
      fun means => ih means fun _ _ => Nat.zero_le _
    cases means with
    | operand means =>
      cases means with
      | atom means =>
        exact yields_ofLexeme inner means
      | @sign span rest term means =>
        have deeper : term.depth ≤ room ↔
            (Group.operand (.binary .sub (.literal (.number (.int 0))) term)).term.depth ≤
              room + 1 := by
          have positive := depth_pos term
          rw [Group.term, Term.depth, Term.depth]
          omega
        have later : Yields (read limit room floor rest) (term.depth ≤ room) fun e => e.term = term :=
          ih (.operand means) (by simp [Group.operators])
        obtain ⟨operand, rfl⟩ := operand_of_operandMeans means
        rw [← Operand.lexemes, Grouping.read_sign]
        refine yields_congr deeper (yields_map later fun e same => ?_)
        rw [Expression.term, Expression.term, same, Group.term]
    | @binary before after span op left right first second tighter looser =>
      have bound : floor ≤ op.precedence := above op (by simp [Group.operators])
      have deeper : left.term.depth ≤ room ∧ right.term.depth ≤ room ↔
          (Group.binary op left right).term.depth ≤ room + 1 := by
        rw [Group.term, Term.depth]
        omega
      have left := inner first
      have right := ih second looser
      -- The grouping of the lexemes says where the reading splits them.
      obtain ⟨grouping, rfl, leftOrdered, leftOps⟩ := grouping_of_groupMeans first
      obtain ⟨other, rfl, rightOrdered, rightOps⟩ := grouping_of_groupMeans second
      have ordered : (Grouping.binary span op grouping other).Ordered :=
        ⟨⟨leftOrdered, leftOps ▸ tighter⟩, rightOrdered, rightOps ▸ looser⟩
      rw [← Grouping.lexemes, Grouping.read_binary limit room ordered bound]
      refine yields_congr deeper (yields_bind left fun _ l leftSame => ?_)
      refine yields_map right fun r rightSame => ?_
      rw [Expression.term, leftSame, rightSame, Group.term]

/-- Lexemes of a chain are read to the expression that it stands for. -/
theorem yields_read {limit room : Nat} {lexemes : List Lexeme} {group : Group}
    (means : ChainMeans lexemes group) :
    Yields (read limit room 0 lexemes) (group.term.depth ≤ room) fun e => e.term = group.term :=
  yields_read_group limit room (groupMeans_of_chainMeans means) fun _ _ => Nat.zero_le _

end Read

end Notation
end Stencil
