import Stencil.Proofs.Gathering
import Stencil.Proofs.Grouping
import Stencil.Proofs.Nesting

/-! Which lexemes are read without a report, and to what: operands with operators between them, and
the expression of their one ordered grouping. The floor that a reading carries never matters. -/
namespace Stencil

/-! ### Expressions of lexemes -/

section Trees

variable (inner : List Lexeme → Expression → Prop)

/-- The steps lead from one expression to another; `inner` relates indices to theirs. -/
inductive HasSteps : Expression → Span → List PathStep → Expression → Prop
  | nil {span : Span} {object : Expression} : HasSteps object span [] object
  | property {span : Span} {object e : Expression} {key : String} {rest : List PathStep}
      (later : HasSteps (.property span object key) span rest e) :
      HasSteps object span (.property key :: rest) e
  | index {span : Span} {object position e : Expression} {lexemes : List Lexeme}
      {rest : List PathStep} (inside : inner lexemes position)
      (later : HasSteps (.element span object position) span rest e) :
      HasSteps object span (.index lexemes :: rest) e

/-- Arguments without a lexeme have no expression. -/
inductive Lexeme.HasNode : Lexeme → Expression → Prop
  | literal {span : Span} {text : String} {value : Literal} :
      HasNode (.literal span text value) (.literal (some span) value)
  | name {span : Span} {word : String} : HasNode (.name span word) (.name span word)
  | path {span : Span} {text base : String} {steps : List PathStep} {e : Expression}
      (walk : HasSteps inner (.name span base) span steps e) :
      HasNode (.path span text base steps) e
  | call {span : Span} {text callee : String} {args : List (List Lexeme)} {es : List Expression}
      (given : List.Forall₂ inner (args.filter (!·.isEmpty)) es) :
      HasNode (.call span text callee args) (.call span callee es)

/-- A minus sign takes its operand from zero. -/
inductive Operand.HasTree : Operand → Expression → Prop
  | atom {lexeme : Lexeme} {plain : lexeme.isOperator = false} {e : Expression}
      (node : lexeme.HasNode inner e) : HasTree (.atom lexeme plain) e
  | sign {span : Span} {operand : Operand} {e : Expression} (tree : HasTree operand e) :
      HasTree (.sign span operand)
        (.binary span .sub (.literal (some span) (.number (.int 0))) e)

inductive Grouping.HasTree : Grouping → Expression → Prop
  | operand {operand : Operand} {e : Expression} (tree : operand.HasTree inner e) :
      HasTree (.operand operand) e
  | binary {span : Span} {op : Operator} {left right : Grouping} {e f : Expression}
      (first : HasTree left e) (second : HasTree right f) :
      HasTree (.binary span op left right) (.binary span op e f)

end Trees

/-- The expression is that of the lexemes in their ordered grouping, and so at every depth. -/
inductive Expression.IsTreeOf : List Lexeme → Expression → Prop
  | none : IsTreeOf [] (.literal none .null)
  | some {grouping : Grouping} {e : Expression} (ordered : grouping.Ordered)
      (tree : grouping.HasTree IsTreeOf e) : IsTreeOf grouping.lexemes e

/-- Operators stand between operands, here and in every list inside that is not empty. -/
inductive Formed : List Lexeme → Prop
  | intro {lexemes : List Lexeme} (alternates : Alternates lexemes)
      (inside : ∀ lexeme ∈ lexemes, ∀ part ∈ lexeme.parts, part ≠ [] → Formed part) :
      Formed lexemes

/-! ### Reading in silence -/

/-- What is returned is good, and nothing was reported on the way. -/
def Silently {α : Type} (good : α → Prop) (reading : TreeReading α) : Prop :=
  ∀ g a g', Returns reading g a g' → g'.diagnostics = g.diagnostics ∧ good a

section Silently

variable {α β : Type} {good : α → Prop} {fine : β → Prop} {reading : TreeReading α}
  {next : α → TreeReading β}

theorem silently_pure {a : α} (here : good a) : Silently good (pure a) := by
  intro g b g' run
  obtain ⟨rfl, rfl⟩ := returns_pure.mp run
  exact ⟨rfl, here⟩

theorem silently_bind (first : Silently good reading)
    (later : ∀ a, good a → Silently fine (next a)) : Silently fine (reading >>= next) := by
  intro g b g' run
  obtain ⟨a, h, here, there⟩ := returns_bind.mp run
  obtain ⟨same, known⟩ := first g a h here
  obtain ⟨still, whole⟩ := later a known h b g' there
  exact ⟨still.trans same, whole⟩

theorem silently_modify {f : Gathered → Gathered} (same : ∀ g, (f g).diagnostics = g.diagnostics) :
    Silently (fun _ => True) (modify f : TreeReading PUnit) := by
  intro g a g' run
  rw [returns_modify.mp run]
  exact ⟨same g, trivial⟩

theorem silently_of_fails (fails : ∀ g, ∃ e g', Fails reading g e g') : Silently good reading := by
  intro g a g' run
  obtain ⟨e, h, failed⟩ := fails g
  exact absurd run failed.not_returns

theorem silently_mapM {rel : β → α → Prop} {f : β → TreeReading α} (items : List β)
    (each : ∀ item ∈ items, Silently (rel item) (f item)) :
    Silently (List.Forall₂ rel items) (items.mapM f) := by
  induction items with
  | nil => exact silently_pure .nil
  | cons item rest ih =>
    rw [List.mapM_cons]
    refine silently_bind (each item List.mem_cons_self) fun a here => ?_
    refine silently_bind (ih fun other member => each other (List.mem_cons_of_mem _ member)) ?_
    exact fun others there => silently_pure (.cons here there)

end Silently

namespace Expression
open TreeReading

section Parts

variable {rel : List Lexeme → Expression → Prop} {inner : List Lexeme → TreeReading Expression}

theorem ofSteps_silently (span : Span) (object : Expression) (steps : List PathStep)
    (each : ∀ part, .index part ∈ steps → Silently (rel part) (inner part)) :
    Silently (HasSteps rel object span steps) (ofSteps inner span object steps) := by
  induction steps generalizing object with
  | nil => exact silently_pure .nil
  | cons step rest ih =>
    have later (next : Expression) := ih next fun part member =>
      each part (List.mem_cons_of_mem _ member)
    cases step with
    | property key => exact fun g e g' run => (later _ g e g' run).imp_right .property
    | index lexemes =>
      refine silently_bind (each lexemes List.mem_cons_self) fun position inside => ?_
      exact fun g e g' run => (later _ g e g' run).imp_right (.index inside)

theorem ofLexeme_silently {lexeme : Lexeme} (plain : lexeme.isOperator = false)
    (each : ∀ part ∈ lexeme.parts, Silently (rel part) (inner part)) :
    Silently (lexeme.HasNode rel) (ofLexeme inner lexeme) := by
  cases lexeme with
  | operator span op => contradiction
  | literal span text value => exact silently_pure .literal
  | name span word =>
    exact silently_bind (silently_modify fun _ => rfl) fun _ _ => silently_pure .name
  | path span text base steps =>
    refine silently_bind (silently_modify fun _ => rfl) fun _ _ => ?_
    have walk := ofSteps_silently span (.name span base) steps fun part member =>
      each part (List.mem_filterMap.mpr ⟨_, member, rfl⟩)
    exact fun g e g' run => (walk g e g' run).imp_right .path
  | call span text callee args =>
    refine silently_bind (silently_modify fun _ => rfl) fun _ _ => ?_
    refine silently_bind (silently_mapM _ fun arg member => each arg (List.mem_filter.mp member).1)
      fun es given => ?_
    exact silently_pure (.call given)

end Parts

/-- Lexemes of an ordered grouping are read to its expression. -/
theorem read_silently (limit room : Nat) {floor : Nat} {grouping : Grouping}
    (ordered : grouping.Ordered) (above : ∀ op ∈ grouping.operators, floor ≤ op.precedence)
    (inside : ∀ lexeme ∈ grouping.lexemes, ∀ part ∈ lexeme.parts, part ≠ [] → Formed part) :
    Silently (grouping.HasTree IsTreeOf) (read limit room floor grouping.lexemes) := by
  -- On the room: signs, operands of an operator and the lists inside a lexeme have one level less.
  induction room generalizing floor grouping with
  | zero =>
    obtain ⟨first, rest, shape⟩ := List.exists_cons_of_ne_nil grouping.lexemes_ne_nil
    rw [shape]
    exact silently_of_fails (tooDeep_fails limit first.span)
  | succ room ih =>
    cases grouping with
    | operand operand =>
      cases operand with
      | atom lexeme plain =>
        have parts : ∀ part ∈ lexeme.parts,
            Silently (fun e => IsTreeOf part e) (read limit room 0 part) := by
          intro part member
          by_cases bare : part = []
          · rw [bare]
            cases room <;> exact silently_pure .none
          · obtain ⟨alternates, deeper⟩ := inside lexeme List.mem_cons_self part member bare
            obtain ⟨grouping, rfl, ordered⟩ := alternates.exists_grouping
            have tree := ih ordered (fun _ _ => Nat.zero_le _) deeper
            exact fun g e g' run => (tree g e g' run).imp_right (.some ordered)
        have node := ofLexeme_silently plain parts
        exact fun g e g' run => (node g e g' run).imp_right fun node => .operand (.atom node)
      | sign span operand =>
        have rest : Silently ((Grouping.operand operand).HasTree IsTreeOf)
            (read limit room floor operand.lexemes) :=
          ih trivial (by simp [Grouping.operators]) fun lexeme member =>
            inside lexeme (List.mem_cons_of_mem _ member)
        rw [Grouping.lexemes, Grouping.read_sign]
        refine silently_bind rest fun e tree => silently_pure ?_
        cases tree with
        | operand tree => exact .operand (.sign tree)
    | binary span op left right =>
      rw [Grouping.read_binary limit room ordered (above op (by simp [Grouping.operators]))]
      obtain ⟨⟨leftOrdered, -⟩, rightOrdered, looser⟩ := ordered
      have lowest : ∀ op ∈ left.operators, 0 ≤ op.precedence := fun _ _ => Nat.zero_le _
      have first := ih leftOrdered lowest fun lexeme member =>
        inside lexeme (List.mem_append_left _ member)
      have second := ih rightOrdered looser fun lexeme member =>
        inside lexeme (List.mem_append_right _ (List.mem_cons_of_mem _ member))
      refine silently_bind first fun e leftTree => ?_
      exact silently_bind second fun f rightTree => silently_pure (.binary leftTree rightTree)

/-! ### Reports -/

variable {limit room floor : Nat} {g g' : Gathered} {e : Expression}

theorem read_within {lexemes : List Lexeme} (run : Returns (read limit room floor lexemes) g e g') :
    g.Within g' :=
  (read_tells (l := .exact) limit room floor lexemes g e g' run).1

theorem ofLexeme_within {lexeme : Lexeme}
    (run : Returns (ofLexeme (read limit room 0) lexeme) g e g') : g.Within g' :=
  (ofLexeme_tells (l := .exact) (read_tells limit room 0) lexeme g e g' run).1

theorem plain_of_silent {inner : List Lexeme → TreeReading Expression} {lexeme : Lexeme}
    (run : Returns (ofLexeme inner lexeme) g e g') (silent : g'.diagnostics = g.diagnostics) :
    lexeme.isOperator = false := by
  cases lexeme with
  | operator span op =>
    obtain ⟨_, h, report, rest⟩ := returns_bind.mp run
    obtain ⟨-, rfl⟩ := returns_pure.mp rest
    obtain rfl := returns_report.mp report
    exact absurd silent (Gathered.Within.refl _).ne_of_reported
  | _ => rfl

theorem ofRun_reports {first : Lexeme} {rest : List Lexeme} (several : rest ≠ [])
    (run : Returns (ofRun (read limit room 0) first rest) g e g') :
    g'.diagnostics ≠ g.diagnostics := by
  refine ofRun_cases (motive := fun reading => Returns reading g e g' → _) ?alone ?several run
  case alone => exact fun none => absurd none several
  case several =>
    intro dropped _ kept _ run
    obtain ⟨_, h, report, kept_run⟩ := returns_bind.mp run
    obtain rfl := returns_report.mp report
    exact (ofLexeme_within kept_run).ne_of_reported

/-- The right side of a split is read after a report if nothing is there. -/
theorem right_of_silent {split : Split} {left : Expression}
    (run : Returns (joined split left (read limit room floor split.right)) g e g') :
    g.Within g' ∧ (g'.diagnostics = g.diagnostics → split.right ≠ [] ∧
      ∃ right, Returns (read limit room floor split.right) g right g') := by
  refine joined_cases (motive := fun reading => Returns reading g e g' → _) ?missing ?present run
  case missing =>
    intro _ run
    obtain ⟨_, h, report, outside⟩ := returns_bind.mp run
    obtain rfl := returns_report.mp report
    obtain ⟨right, i, inside, outside⟩ := returns_bind.mp outside
    obtain ⟨-, rfl⟩ := returns_pure.mp outside
    exact ⟨(within_reported _ _ _ _).trans (read_within inside),
      fun same => absurd same (read_within inside).ne_of_reported⟩
  case present =>
    intro full run
    obtain ⟨right, h, inside, outside⟩ := returns_bind.mp run
    obtain ⟨-, rfl⟩ := returns_pure.mp outside
    exact ⟨read_within inside, fun _ => ⟨full, right, inside⟩⟩

/-- Where nothing is reported operators stand between operands. -/
theorem alternates_of_silent {lexemes : List Lexeme} (present : lexemes ≠ [])
    (run : Returns (read limit room floor lexemes) g e g')
    (silent : g'.diagnostics = g.diagnostics) : Alternates lexemes := by
  -- A missing side and a second operand without operator are reported, which rules them out.
  induction room generalizing floor lexemes g e g' with
  | zero =>
    obtain ⟨first, rest, rfl⟩ := List.exists_cons_of_ne_nil present
    obtain ⟨cause, h, failed⟩ := tooDeep_fails limit first.span g
    exact absurd run failed.not_returns
  | succ room ih =>
    obtain ⟨first, rest, rfl⟩ := List.exists_cons_of_ne_nil present
    refine read_cases (motive := fun reading => Returns reading g e g' → _)
      ?lone ?signed ?run ?sided run
    case lone =>
      rintro rfl run
      exact .last (.atom first (plain_of_silent run silent))
    case signed =>
      rintro span several rfl run
      obtain ⟨operand, h, inside, outside⟩ := returns_bind.mp run
      obtain ⟨-, rfl⟩ := returns_pure.mp outside
      exact (ih several inside silent).sign _
    case run => exact fun several run => absurd silent (ofRun_reports several run)
    case sided =>
      intro split _ found
      rw [append_of_splitAt found]
      refine ofSplit_cases (motive := fun reading => Returns reading g e g' → _) ?missing ?present
      case missing =>
        intro _ run
        obtain ⟨_, h, report, later⟩ := returns_bind.mp run
        obtain rfl := returns_report.mp report
        exact absurd silent (right_of_silent later).1.ne_of_reported
      case present =>
        intro full run
        obtain ⟨left, h, here, later⟩ := returns_bind.mp run
        obtain ⟨grown, ends⟩ := right_of_silent later
        obtain ⟨before, after⟩ := (read_within here).same grown silent
        obtain ⟨more, right, there⟩ := ends after
        exact (ih full here before).append split.span split.op (ih more there after)

/-! ### The floor -/

/-- A floor that no operator lies below changes nothing. -/
theorem read_floor (limit room : Nat) {lexemes : List Lexeme}
    (above : ∀ op ∈ (splits [] lexemes).map (·.op), floor ≤ op.precedence) :
    read limit room floor lexemes = read limit room 0 lexemes := by
  induction room generalizing lexemes with
  | zero =>
    cases lexemes <;> rfl
  | succ room ih =>
    cases lexemes with
    | nil => rfl
    | cons first rest =>
      have whole : (splits [] (first :: rest)).filter (fun split => floor ≤ split.op.precedence) =
          splits [] (first :: rest) :=
        List.filter_eq_self.mpr fun split member =>
          decide_eq_true (above _ (List.mem_map_of_mem (f := (·.op)) member))
      have same : splitAt? floor (first :: rest) = splitAt? 0 (first :: rest) := by
        rw [splitAt?, splitAt?, whole, List.filter_eq_self.mpr (by simp)]
      rw [read_cons, read_cons, same]
      split
      · rfl
      · split
        · rename_i none
          unfold ofUnsplit
          split
          · rename_i span
            -- Nothing is split behind the sign either.
            have bare : splits [] (.operator span .sub :: rest) = [] := by
              rw [← whole]
              exact loosest_eq_none.mp (same.trans none)
            have behind : (splits [] rest).map (·.op) = [] := by
              rw [operators_splits (iff_of_true awaits_nil (awaits_operator span .sub [])),
                show splits [.operator span .sub] rest = [] from bare, List.map_nil]
            rw [ih (by simp [behind])]
          · rfl
        · rfl

/-- The right side of a split is read to what it is read to without a floor. -/
theorem read_right {lexemes : List Lexeme} {split : Split}
    (found : splitAt? 0 lexemes = some split) (limit room : Nat) :
    read limit room split.op.precedence split.right = read limit room 0 split.right := by
  refine read_floor limit room fun op member => ?_
  have among := operators_right (mem_splits_of_splitAt found) member
  obtain ⟨other, inside, rfl⟩ := List.mem_map.mp among
  rw [splitAt?, List.filter_eq_self.mpr (by simp)] at found
  exact loosest_le found other inside

/-! ### What is accepted -/

/-- Lexemes are read without a report if and only if operators stand between operands, and then to
the expression of their one ordered grouping. It may fail only where nesting is too deep, and the
floor never keeps an operator from being split at. -/
theorem alternating_lexemes_are_accepted {lexemes : List Lexeme} (present : lexemes ≠ [])
    (inside : ∀ lexeme ∈ lexemes, ∀ part ∈ lexeme.parts, part ≠ [] → Formed part)
    (limit room : Nat) (g : Gathered) :
    ((∃ cause g', Fails (read limit room 0 lexemes) g cause g' ∧ cause.OfDepth) ∨
      ∃ e g', Returns (read limit room 0 lexemes) g e g' ∧
        (g'.diagnostics = g.diagnostics ↔ Alternates lexemes) ∧
        (Alternates lexemes → ∃ grouping : Grouping, grouping.lexemes = lexemes ∧
          grouping.Ordered ∧ grouping.HasTree IsTreeOf e ∧
          ∀ other : Grouping, other.lexemes = lexemes → other.Ordered → other = grouping)) ∧
      ∀ split, splitAt? 0 lexemes = some split → ∀ more,
        read limit more split.op.precedence split.right = read limit more 0 split.right := by
  refine ⟨?_, fun split found more => read_right found limit more⟩
  rcases returns_or_fails (read limit room 0 lexemes) g with ⟨e, g', run⟩ | ⟨cause, g', run⟩
  · have accepted (alternates : Alternates lexemes) : g'.diagnostics = g.diagnostics ∧
        ∃ grouping : Grouping, grouping.lexemes = lexemes ∧ grouping.Ordered ∧
          grouping.HasTree IsTreeOf e := by
      obtain ⟨grouping, rfl, ordered⟩ := alternates.exists_grouping
      obtain ⟨silent, tree⟩ :=
        read_silently limit room ordered (fun _ _ => Nat.zero_le _) inside g e g' run
      exact ⟨silent, grouping, rfl, ordered, tree⟩
    refine .inr ⟨e, g', run, ⟨alternates_of_silent present run, fun alternates =>
      (accepted alternates).1⟩, fun alternates => ?_⟩
    obtain ⟨-, grouping, same, ordered, tree⟩ := accepted alternates
    exact ⟨grouping, same, ordered, tree, fun other same' ordered' =>
      ordered'.unique ordered (same'.trans same.symm)⟩
  · exact .inl ⟨cause, g', run, ((read_calm limit room 0 lexemes g).2 cause g' run).2⟩

/-- The lexemes of `-a * f(, b) + c`. -/
theorem signed_product_is_accepted :
    let span : Span := ⟨0, 0, ⟨1, 1⟩⟩
    let lexemes : List Lexeme := [.operator span .sub, .name span "a", .operator span .mul,
      .call span "f(, b)" "f" [[], [.name span "b"]], .operator span .add, .name span "c"]
    (lexemes ≠ [] ∧ ∀ lexeme ∈ lexemes, ∀ part ∈ lexeme.parts, part ≠ [] → Formed part) ∧
      ∃ e g', Returns (read 4 4 0 lexemes) ⟨[], [], [], []⟩ e g' ∧ g'.diagnostics = [] ∧
        ∃ grouping : Grouping, grouping.lexemes = lexemes ∧ grouping.Ordered ∧
          grouping.HasTree IsTreeOf e := by
  intro span lexemes
  have argument : Formed [.name span "b"] :=
    .intro (.last (.atom (.name span "b") rfl)) (by simp [Lexeme.parts])
  have inside : ∀ lexeme ∈ lexemes, ∀ part ∈ lexeme.parts, part ≠ [] → Formed part := by
    simpa [lexemes, Lexeme.parts] using argument
  have alternates : Alternates lexemes :=
    .more (.sign span (.atom (.name span "a") rfl)) span .mul
      (.more (.atom (.call span "f(, b)" "f" [[], [.name span "b"]]) rfl) span .add
        (.last (.atom (.name span "c") rfl)))
  have shallow : ((read 4 4 0 lexemes).run.run ⟨[], [], [], []⟩).1.isOk = true := by cbv
  refine ⟨⟨List.cons_ne_nil _ _, inside⟩, ?_⟩
  rcases (alternating_lexemes_are_accepted (List.cons_ne_nil _ _) inside 4 4 ⟨[], [], [], []⟩).1 with
    ⟨cause, h, failed, -⟩ | ⟨e, g', returned, silent, tree⟩
  · rw [show (read 4 4 0 lexemes).run.run ⟨[], [], [], []⟩ = _ from failed] at shallow
    contradiction
  · obtain ⟨grouping, same, ordered, has, -⟩ := tree alternates
    exact ⟨e, g', returned, silent.mpr alternates, grouping, same, ordered, has⟩

end Expression

end Stencil
