import Stencil.Proofs.Operands

/-! Operands grouped by the operators between them. Lexemes split at the topmost operator of every
grouping in which the looser operators stand above the tighter ones, so no list has two of these;
where operators stand between operands it has one. -/
namespace Stencil

/-! ### Splits -/

namespace Expression

theorem splits_operator (before rest : List Lexeme) (span : Span) (op : Operator) :
    splits before (.operator span op :: rest) =
      if op == .sub && before.head?.all (·.isOperator) then
        splits (.operator span op :: before) rest
      else ⟨before.reverse, span, op, rest⟩ :: splits (.operator span op :: before) rest := rfl

theorem splits_operand {lexeme : Lexeme} (operand : lexeme.isOperator = false)
    (before rest : List Lexeme) :
    splits before (lexeme :: rest) = splits (lexeme :: before) rest := by
  cases lexeme with
  | operator span op => contradiction
  | _ => rfl

theorem splits_append (before lexemes tail : List Lexeme) :
    splits before (lexemes ++ tail) =
      (splits before lexemes).map (fun split => { split with right := split.right ++ tail }) ++
        splits (lexemes.reverse ++ before) tail := by
  induction lexemes generalizing before with
  | nil => rfl
  | cons first rest ih =>
    have further := ih (first :: before)
    rw [List.reverse_cons, List.append_assoc, List.singleton_append, List.cons_append]
    cases operator : first.isOperator with
    | true =>
      cases first with
      | operator span op =>
        rw [splits_operator, splits_operator, further]
        split <;> simp
      | _ => contradiction
    | false => rw [splits_operand operator, splits_operand operator, further]

/-- A minus behind these is a sign. -/
def Awaits (before : List Lexeme) : Prop := before.head?.all (·.isOperator) = true

theorem awaits_nil : Awaits [] := rfl

theorem awaits_operator (span : Span) (op : Operator) (before : List Lexeme) :
    Awaits (.operator span op :: before) := rfl

theorem splits_between {before : List Lexeme} (full : ¬ Awaits before) (rest : List Lexeme)
    (span : Span) (op : Operator) :
    splits before (.operator span op :: rest) =
      ⟨before.reverse, span, op, rest⟩ :: splits (.operator span op :: before) rest := by
  rw [splits_operator, if_neg]
  rw [Bool.and_eq_true]
  exact fun sign => full sign.2

/-- A split takes the lexemes apart at an operator. -/
theorem append_of_mem_splits {before lexemes : List Lexeme} {split : Split}
    (found : split ∈ splits before lexemes) :
    before.reverse ++ lexemes = split.left ++ .operator split.span split.op :: split.right := by
  induction lexemes generalizing before with
  | nil => cases found
  | cons first rest ih =>
    have further (later : split ∈ splits (first :: before) rest) : before.reverse ++ first :: rest =
        split.left ++ .operator split.span split.op :: split.right := by
      rw [← ih later]
      simp
    unfold splits at found
    dsimp only at found
    split at found
    · split at found
      · exact further found
      · rcases List.mem_cons.mp found with rfl | later
        · rfl
        · exact further later
    · exact further found

theorem mem_of_loosest {splits : List Split} {least : Split} (found : loosest splits = some least) :
    least ∈ splits := by
  induction splits generalizing least with
  | nil => contradiction
  | cons first rest ih =>
    rw [loosest] at found
    split at found
    · rename_i other later
      cases found
      split
      · exact List.mem_cons_of_mem _ (ih later)
      · exact List.mem_cons_self
    · cases found
      exact List.mem_cons_self

theorem loosest_eq_none {splits : List Split} : loosest splits = none ↔ splits = [] := by
  cases splits with
  | nil => exact iff_of_true rfl rfl
  | cons first rest =>
    rw [loosest]
    split <;> simp

/-- No operator binds less than the loosest. -/
theorem loosest_le {splits : List Split} {least : Split} (found : loosest splits = some least) :
    ∀ split ∈ splits, least.op.precedence ≤ split.op.precedence := by
  induction splits generalizing least with
  | nil => contradiction
  | cons first rest ih =>
    rw [loosest] at found
    split at found
    · rename_i other later
      have below := ih later
      cases found
      refine List.forall_mem_cons.mpr ⟨?_, fun split member => ?_⟩
      · split <;> omega
      · have bound := below split member
        split <;> omega
    · rename_i none
      cases found
      rw [loosest_eq_none.mp none]
      simp

theorem loosest_append {before after : List Split} {split : Split}
    (tighter : ∀ other ∈ before, split.op.precedence < other.op.precedence)
    (looser : ∀ other ∈ after, split.op.precedence ≤ other.op.precedence) :
    loosest (before ++ split :: after) = some split := by
  induction before with
  | nil =>
    rw [List.nil_append, loosest]
    split
    · rename_i other later
      rw [if_neg (Nat.not_lt.mpr (looser other (mem_of_loosest later)))]
    · rfl
  | cons first rest ih =>
    rw [List.cons_append, loosest, ih fun other member => tighter other (by simp [member])]
    simp [tighter first (by simp)]

theorem mem_splits_of_splitAt {floor : Nat} {lexemes : List Lexeme} {split : Split}
    (found : splitAt? floor lexemes = some split) : split ∈ splits [] lexemes :=
  (List.mem_filter.mp (mem_of_loosest found)).1

theorem append_of_splitAt {floor : Nat} {lexemes : List Lexeme} {split : Split}
    (found : splitAt? floor lexemes = some split) :
    lexemes = split.left ++ .operator split.span split.op :: split.right :=
  append_of_mem_splits (mem_splits_of_splitAt found)

/-- What stands before lexemes decides about their first minus only. -/
theorem operators_splits {before other : List Lexeme} (same : Awaits before ↔ Awaits other)
    (lexemes : List Lexeme) :
    (splits before lexemes).map (·.op) = (splits other lexemes).map (·.op) := by
  induction lexemes generalizing before other with
  | nil => rfl
  | cons first rest ih =>
    have further : (splits (first :: before) rest).map (·.op) =
        (splits (first :: other) rest).map (·.op) := ih Iff.rfl
    cases operator : first.isOperator with
    | true =>
      cases first with
      | operator span op =>
        have sign : before.head?.all (·.isOperator) = other.head?.all (·.isOperator) :=
          Bool.eq_iff_iff.mpr same
        rw [splits_operator, splits_operator, sign]
        split <;> simp [further]
      | _ => contradiction
    | false => rw [splits_operand operator, splits_operand operator, further]

/-- The operators that the right side of a split splits at are among those of the whole. -/
theorem operators_right {before lexemes : List Lexeme} {split : Split}
    (found : split ∈ splits before lexemes) :
    (splits [] split.right).map (·.op) ⊆ (splits before lexemes).map (·.op) := by
  induction lexemes generalizing before with
  | nil => cases found
  | cons first rest ih =>
    cases operator : first.isOperator with
    | true =>
      cases first with
      | operator span op =>
        rw [splits_operator] at found ⊢
        split at found
        · rw [if_pos ‹_›]
          exact ih found
        · rw [if_neg ‹_›, List.map_cons]
          refine List.Subset.trans ?_ (List.subset_cons_self _ _)
          rcases List.mem_cons.mp found with rfl | later
          · rw [operators_splits (iff_of_true awaits_nil (awaits_operator span op before))]
            exact List.Subset.refl _
          · exact ih later
      | _ => contradiction
    | false =>
      rw [splits_operand operator] at found ⊢
      exact ih found

end Expression

/-! ### Operands -/

/-- A lexeme that is no operator, with the minus signs before it. -/
inductive Operand
  | atom (lexeme : Lexeme) (plain : lexeme.isOperator = false)
  | sign (span : Span) (operand : Operand)

namespace Operand
open Expression

def lexemes : Operand → List Lexeme
  | atom lexeme _ => [lexeme]
  | sign span operand => .operator span .sub :: operand.lexemes

theorem lexemes_ne_nil (operand : Operand) : operand.lexemes ≠ [] := by
  cases operand <;> simp [lexemes]

theorem lexemes_injective {operand other : Operand} (same : operand.lexemes = other.lexemes) :
    operand = other := by
  induction operand generalizing other with
  | atom lexeme plain =>
    cases other with
    | atom lexeme' plain' =>
      cases same
      rfl
    | sign span rest =>
      obtain rfl := (List.cons.inj same).1
      contradiction
  | sign span rest ih =>
    cases other with
    | atom lexeme plain =>
      obtain rfl := (List.cons.inj same).1
      contradiction
    | sign span' rest' =>
      rw [lexemes, lexemes] at same
      cases (List.cons.inj same).1
      rw [ih (List.cons.inj same).2]

/-- Where an operand may start it is not split, and no operand may start behind it. -/
theorem splits_lexemes (operand : Operand) {before : List Lexeme} (awaits : Awaits before) :
    splits before operand.lexemes = [] ∧ ¬ Awaits (operand.lexemes.reverse ++ before) := by
  induction operand generalizing before with
  | atom lexeme plain =>
    refine ⟨by rw [lexemes, splits_operand plain]; rfl, ?_⟩
    simp [lexemes, Awaits, plain]
  | sign span rest ih =>
    obtain ⟨none, full⟩ := ih (awaits_operator span .sub before)
    refine ⟨?_, by simpa [lexemes] using full⟩
    rw [lexemes, splits_operator, if_pos (by simpa [Awaits] using awaits), none]

end Operand

/-! ### Groupings -/

/-- Operands with operators between them, and what belongs to which. -/
inductive Grouping
  | operand (operand : Operand)
  | binary (span : Span) (op : Operator) (left right : Grouping)

namespace Grouping
open Expression

/-- The lexemes in the order in which they stand. -/
def lexemes : Grouping → List Lexeme
  | operand only => only.lexemes
  | binary span op left right => left.lexemes ++ .operator span op :: right.lexemes

/-- The operators between operands, from left to right. -/
def operators : Grouping → List Operator
  | operand _ => []
  | binary _ op left right => left.operators ++ op :: right.operators

/-- Operators bind tighter than those above them, on the right side at least as tight. -/
def Ordered : Grouping → Prop
  | operand _ => True
  | binary _ op left right =>
    (left.Ordered ∧ ∀ other ∈ left.operators, op.precedence < other.precedence) ∧
      right.Ordered ∧ ∀ other ∈ right.operators, op.precedence ≤ other.precedence

theorem lexemes_ne_nil (grouping : Grouping) : grouping.lexemes ≠ [] := by
  cases grouping with
  | operand only => exact only.lexemes_ne_nil
  | binary span op left right => simp [lexemes]

/-! #### The topmost operator -/

theorem splits_lexemes (grouping : Grouping) {before : List Lexeme} (awaits : Awaits before) :
    (splits before grouping.lexemes).map (·.op) = grouping.operators ∧
      ¬ Awaits (grouping.lexemes.reverse ++ before) := by
  induction grouping generalizing before with
  | operand only =>
    obtain ⟨none, full⟩ := only.splits_lexemes awaits
    exact ⟨by rw [lexemes, none]; rfl, full⟩
  | binary span op left right leftIH rightIH =>
    obtain ⟨leftOps, full⟩ := leftIH awaits
    obtain ⟨rightOps, last⟩ := rightIH (awaits_operator span op (left.lexemes.reverse ++ before))
    refine ⟨?_, by simpa [lexemes] using last⟩
    rw [lexemes, splits_append, splits_between full, List.map_append, List.map_map, List.map_cons,
      rightOps, operators, ← leftOps]
    rfl

theorem splitAt_operand (floor : Nat) (only : Operand) :
    splitAt? floor (operand only).lexemes = none := by
  rw [lexemes, splitAt?, (only.splits_lexemes awaits_nil).1]
  rfl

theorem splitAt_binary {floor : Nat} {span : Span} {op : Operator} {left right : Grouping}
    (ordered : (binary span op left right).Ordered) (bound : floor ≤ op.precedence) :
    splitAt? floor (binary span op left right).lexemes =
      some ⟨left.lexemes, span, op, right.lexemes⟩ := by
  obtain ⟨⟨-, tighter⟩, -, looser⟩ := ordered
  obtain ⟨leftOps, full⟩ := left.splits_lexemes awaits_nil
  have rightOps := (right.splits_lexemes (awaits_operator span op left.lexemes.reverse)).1
  rw [List.append_nil] at full
  rw [lexemes, splitAt?, splits_append, List.append_nil, splits_between full, List.reverse_reverse]
  have earlier : ∀ other ∈ (splits [] left.lexemes).map
      (fun split => { split with right := split.right ++ Lexeme.operator span op :: right.lexemes }),
      op.precedence < other.op.precedence := by
    intro other member
    obtain ⟨split, inside, rfl⟩ := List.mem_map.mp member
    exact tighter _ (leftOps ▸ List.mem_map_of_mem (f := (·.op)) inside)
  have later : ∀ other ∈ splits (.operator span op :: left.lexemes.reverse) right.lexemes,
      op.precedence ≤ other.op.precedence :=
    fun other member => looser _ (rightOps ▸ List.mem_map_of_mem (f := (·.op)) member)
  rw [List.filter_eq_self.mpr, loosest_append earlier later]
  intro other member
  rcases List.mem_append.mp member with inside | inside
  · exact decide_eq_true (Nat.le_trans bound (Nat.le_of_lt (earlier other inside)))
  · rcases List.mem_cons.mp inside with rfl | inside
    · exact decide_eq_true bound
    · exact decide_eq_true (Nat.le_trans bound (later other inside))

/-- No two groupings of the same lexemes are ordered. -/
theorem Ordered.unique {grouping other : Grouping} (ordered : grouping.Ordered)
    (ordered' : other.Ordered) (same : grouping.lexemes = other.lexemes) : grouping = other := by
  induction grouping generalizing other with
  | operand only =>
    cases other with
    | operand only' => rw [Operand.lexemes_injective same]
    | binary span op left right =>
      have split := splitAt_binary ordered' (Nat.zero_le _)
      rw [← same, splitAt_operand] at split
      contradiction
  | binary span op left right leftIH rightIH =>
    have split := splitAt_binary ordered (Nat.zero_le _)
    rw [same] at split
    cases other with
    | operand only =>
      rw [splitAt_operand] at split
      contradiction
    | binary span' op' left' right' =>
      rw [splitAt_binary ordered' (Nat.zero_le _), Option.some.injEq, Split.mk.injEq] at split
      obtain ⟨leftSame, rfl, rfl, rightSame⟩ := split
      rw [leftIH ordered.1.1 ordered'.1.1 leftSame.symm,
        rightIH ordered.2.1 ordered'.2.1 rightSame.symm]

/-! #### Readings -/

section Read
variable (limit room : Nat) {floor : Nat}

theorem read_sign (floor : Nat) (span : Span) (rest : Operand) :
    read limit (room + 1) floor (Operand.sign span rest).lexemes = (do
      return .binary span .sub (.literal (some span) (.number (.int 0)))
        (← read limit room floor rest.lexemes)) := by
  have none := splitAt_operand floor (.sign span rest)
  rw [lexemes, Operand.lexemes] at none
  rw [Operand.lexemes]
  rw [read_cons, if_neg (by simpa using rest.lexemes_ne_nil), none]
  rfl

theorem read_binary {span : Span} {op : Operator} {left right : Grouping}
    (ordered : (binary span op left right).Ordered) (bound : floor ≤ op.precedence) :
    read limit (room + 1) floor (binary span op left right).lexemes = (do
      let e ← read limit room 0 left.lexemes
      return .binary span op e (← read limit room op.precedence right.lexemes)) := by
  have found := splitAt_binary ordered bound
  have many : ¬ left.lexemes.isEmpty = true := by simpa using left.lexemes_ne_nil
  have more : ¬ right.lexemes.isEmpty = true := by simpa using right.lexemes_ne_nil
  obtain ⟨first, rest, shape⟩ := List.exists_cons_of_ne_nil left.lexemes_ne_nil
  rw [lexemes, shape, List.cons_append] at found ⊢
  rw [read_cons, if_neg (by simp), found]
  dsimp only
  rw [ofSplit, ← shape, if_neg many]
  simp only [joined, if_neg more]

end Read

/-! #### One more operand -/

/-- An operand in front: it goes down on the left as long as the operators bind less. -/
def attach (first : Operand) (span : Span) (op : Operator) : Grouping → Grouping
  | operand last => binary span op (operand first) (operand last)
  | binary place next left right =>
    if next.precedence < op.precedence then binary place next (left.attach first span op) right
    else binary span op (operand first) (binary place next left right)

variable {first : Operand} {span : Span} {op : Operator}

theorem lexemes_attach (grouping : Grouping) :
    (grouping.attach first span op).lexemes =
      first.lexemes ++ .operator span op :: grouping.lexemes := by
  induction grouping with
  | operand last => rfl
  | binary place next left right leftIH rightIH =>
    rw [attach]
    split
    · rw [lexemes, leftIH, lexemes, List.append_assoc, List.cons_append]
    · rfl

theorem mem_operators_attach {grouping : Grouping} {other : Operator} :
    other ∈ (grouping.attach first span op).operators ↔ other = op ∨ other ∈ grouping.operators := by
  induction grouping with
  | operand last => simp [attach, operators]
  | binary place next left right leftIH rightIH =>
    rw [attach]
    split
    · simp [operators, leftIH, or_assoc]
    · simp [operators]

theorem Ordered.attach {grouping : Grouping} (ordered : grouping.Ordered) :
    (grouping.attach first span op).Ordered := by
  induction grouping with
  | operand last => simp [Grouping.attach, Ordered, operators]
  | binary place next left right leftIH rightIH =>
    have whole := ordered
    obtain ⟨⟨leftOrdered, tighter⟩, rightOrdered, looser⟩ := ordered
    rw [Grouping.attach]
    split
    · rename_i under
      refine ⟨⟨leftIH leftOrdered, fun other member => ?_⟩, rightOrdered, looser⟩
      rcases mem_operators_attach.mp member with rfl | inside
      · exact under
      · exact tighter other inside
    · rename_i under
      have bound := Nat.not_lt.mp under
      refine ⟨⟨trivial, by simp [operators]⟩, whole, fun other member => ?_⟩
      simp only [operators, List.mem_append, List.mem_cons] at member
      rcases member with inside | rfl | inside
      · exact Nat.le_trans bound (Nat.le_of_lt (tighter other inside))
      · exact bound
      · exact Nat.le_trans bound (looser other inside)

end Grouping

/-! ### Lists of lexemes -/

/-- Operands with an operator between any two. -/
inductive Alternates : List Lexeme → Prop
  | last (operand : Operand) : Alternates operand.lexemes
  | more (operand : Operand) (span : Span) (op : Operator) {rest : List Lexeme}
      (later : Alternates rest) : Alternates (operand.lexemes ++ .operator span op :: rest)

theorem Alternates.sign {lexemes : List Lexeme} (alternates : Alternates lexemes) (span : Span) :
    Alternates (.operator span .sub :: lexemes) := by
  cases alternates with
  | last operand => exact .last (.sign span operand)
  | more operand place op later => exact .more (.sign span operand) place op later

theorem Alternates.append {lexemes others : List Lexeme} (alternates : Alternates lexemes)
    (span : Span) (op : Operator) (later : Alternates others) :
    Alternates (lexemes ++ .operator span op :: others) := by
  induction alternates with
  | last operand => exact .more operand span op later
  | more operand place next _ ih =>
    rw [List.append_assoc, List.cons_append]
    exact .more operand place next ih

theorem Alternates.exists_grouping {lexemes : List Lexeme} (alternates : Alternates lexemes) :
    ∃ grouping : Grouping, grouping.lexemes = lexemes ∧ grouping.Ordered := by
  induction alternates with
  | last operand => exact ⟨.operand operand, rfl, trivial⟩
  | more operand span op later ih =>
    obtain ⟨grouping, rfl, ordered⟩ := ih
    exact ⟨grouping.attach operand span op, grouping.lexemes_attach, ordered.attach⟩

end Stencil
