import Stencil.Proofs.Gathering
import Stencil.Proofs.Grouping
import Stencil.Proofs.Mentions
import Stencil.Proofs.Writing

/-! What is noted while a tree is read: the names that its expressions and tags mention, in the
order in which a visit of the tree meets them. -/
namespace Stencil
open TreeReading

variable {α β : Type} {good : Mention → Prop} {fair wider : Prop} {limit room : Nat}

/-! ### Notes -/

/-- After these mentions their names are noted and diagnostics are only added. Where the reading
was of what is fair and nothing was reported, each mention is good. -/
structure Gathered.Notes (good : Mention → Prop) (fair : Prop) (g : Gathered)
    (mentions : List Mention) (h : Gathered) : Prop where
  diagnostics : g.diagnostics <+: h.diagnostics
  names (readable : ∀ d ∈ h.diagnostics, d.kind ≠ .invalidFor) :
    h.names = (mentions.filterMap Mention.name?).foldl noted g.names
  functions : h.functions = (mentions.filterMap Mention.function?).foldl noted g.functions
  blocks : h.blocks = (mentions.filterMap Mention.block?).foldl noted g.blocks
  good (known : fair) (silent : h.diagnostics = g.diagnostics) : ∀ m ∈ mentions, good m

namespace Gathered.Notes

variable {g h i : Gathered} {mentions others : List Mention}

theorem refl (g : Gathered) : g.Notes good fair [] g where
  diagnostics := List.prefix_refl _
  names _ := rfl
  functions := rfl
  blocks := rfl
  good _ _ := by simp

theorem trans (first : g.Notes good fair mentions h) (later : h.Notes good fair others i) :
    g.Notes good fair (mentions ++ others) i where
  diagnostics := first.diagnostics.trans later.diagnostics
  names readable := by
    rw [later.names readable, List.filterMap_append, List.foldl_append,
      first.names fun d member => readable d (later.diagnostics.subset member)]
  functions := by rw [later.functions, List.filterMap_append, List.foldl_append, first.functions]
  blocks := by rw [later.blocks, List.filterMap_append, List.foldl_append, first.blocks]
  good known silent := by
    have between : h.diagnostics = g.diagnostics :=
      (first.diagnostics.eq_of_length_le (silent ▸ later.diagnostics.length_le)).symm
    exact List.forall_mem_append.mpr
      ⟨first.good known between, later.good known (silent.trans between.symm)⟩

theorem weaken (notes : g.Notes good fair mentions h) (weaker : wider → fair) :
    g.Notes good wider mentions h :=
  { notes with good := fun known => notes.good (weaker known) }

/-- After a report nothing is silent, and after that of a loop any name may be missing. -/
theorem reported (g : Gathered) (kind : DiagnosticKind) (message : String) (span : Span) :
    g.Notes good fair [] (g.reported kind message span) where
  diagnostics := List.prefix_append _ _
  names _ := rfl
  functions := rfl
  blocks := rfl
  good _ _ := by simp

theorem reported_loop (g : Gathered) (message : String) (span : Span) (name : String) :
    g.Notes good fair [.name name] (g.reported .invalidFor message span) where
  diagnostics := List.prefix_append _ _
  names readable := absurd rfl (readable _ (List.mem_append_right _ List.mem_cons_self))
  functions := rfl
  blocks := rfl
  good _ silent := absurd silent (Gathered.Within.refl _).ne_of_reported

/-- A block without a name is reported. -/
theorem reported_block (g : Gathered) {name : String} (empty : name.isEmpty = true)
    (message : String) (span : Span) :
    g.Notes good fair [.block name] (g.reported .invalidTag message span) where
  diagnostics := List.prefix_append _ _
  names _ := rfl
  functions := rfl
  blocks := by simp [Mention.block?, empty, Gathered.reported]
  good _ silent := absurd silent (Gathered.Within.refl _).ne_of_reported

end Gathered.Notes

/-- What is returned mentions more than before, and what it mentions more is noted. -/
def Noting (good : Mention → Prop) (fair : Prop) (before : List Mention) (told : α → List Mention)
    (reading : TreeReading α) : Prop :=
  ∀ g a h, Returns reading g a h → ∃ mentions, told a = before ++ mentions ∧
    g.Notes good fair mentions h

section Noting

variable {before : List Mention} {told : α → List Mention} {tells : β → List Mention}
  {reading : TreeReading α} {next : α → TreeReading β}

theorem noting_pure {a : α} (same : told a = before) : Noting good fair before told (pure a) := by
  intro g b h run
  obtain ⟨rfl, rfl⟩ := returns_pure.mp run
  exact ⟨[], by rw [same, List.append_nil], .refl _⟩

theorem noting_bind (first : Noting good fair before told reading)
    (later : ∀ a, Noting good fair (told a) tells (next a)) :
    Noting good fair before tells (reading >>= next) := by
  intro g b i run
  obtain ⟨a, h, here, there⟩ := returns_bind.mp run
  obtain ⟨mentions, whole, notes⟩ := first g a h here
  obtain ⟨more, all, goes⟩ := later a h b i there
  exact ⟨mentions ++ more, by rw [all, whole, List.append_assoc], notes.trans goes⟩

theorem Noting.weaken (noting : Noting good fair before told reading) (weaker : wider → fair) :
    Noting good wider before told reading := by
  intro g a h run
  obtain ⟨mentions, whole, notes⟩ := noting g a h run
  exact ⟨mentions, whole, notes.weaken weaker⟩

/-- What is mentioned already may be more. -/
theorem Noting.behind (noting : Noting good fair [] told reading) :
    Noting good fair before (fun a => before ++ told a) reading := by
  intro g a h run
  obtain ⟨mentions, same, notes⟩ := noting g a h run
  exact ⟨mentions, congrArg (before ++ ·) same, notes⟩

theorem noting_of_fails (fails : ∀ g, ∃ e h, Fails reading g e h) :
    Noting good fair before told reading := by
  intro g a h run
  obtain ⟨e, i, failed⟩ := fails g
  exact absurd run failed.not_returns

theorem noting_report (kind : DiagnosticKind) (message : String) (span : Span) :
    Noting good fair before (fun _ => before) (report kind message span) := by
  intro g a h run
  obtain rfl := returns_report.mp run
  exact ⟨[], (List.append_nil _).symm, .reported g kind message span⟩

theorem noting_noteVariable {name : String} (known : fair → good (.name name)) :
    Noting good fair before (fun _ => before ++ [.name name]) (noteVariable name) := by
  intro g a h run
  obtain rfl := returns_modify.mp run
  exact ⟨_, rfl, List.prefix_refl _, fun _ => rfl, rfl, rfl, fun known' _ =>
    List.forall_mem_singleton.mpr (known known')⟩

theorem noting_noteBlock {name : String} (named : name.isEmpty = false)
    (known : fair → good (.block name)) :
    Noting good fair before (fun _ => before ++ [.block name]) (noteBlock name) := by
  intro g a h run
  obtain rfl := returns_modify.mp run
  refine ⟨_, rfl, List.prefix_refl _, fun _ => rfl, rfl, ?_, fun known' _ =>
    List.forall_mem_singleton.mpr (known known')⟩
  simp [Mention.block?, named]

theorem noting_mapM {f : β → TreeReading α} (items : List β)
    (each : ∀ item ∈ items, Noting good fair [] told (f item)) :
    Noting good fair [] (List.flatMap told) (items.mapM f) := by
  induction items with
  | nil => exact noting_pure rfl
  | cons item rest ih =>
    rw [List.mapM_cons]
    refine noting_bind (each item List.mem_cons_self) fun first => ?_
    have later := ih fun other member => each other (List.mem_cons_of_mem _ member)
    exact noting_bind later.behind fun others => noting_pure rfl

end Noting

/-! ### Expressions -/

namespace Lexeme

/-- What is mentioned where the lexeme is read is good, whatever its arguments are read to. -/
def Fair (good : Mention → Prop) (limit : Nat) : Lexeme → Prop
  | .name _ word => good (.name word)
  | .path _ _ base _ => good (.name base)
  | .call span _ callee args => ∀ es,
    List.Forall₂ (Expression.IsReadFrom limit) (args.filter (!·.isEmpty)) es →
      good (.call span callee es)
  | _ => True

/-- The lexemes are fair, and so are those inside them. -/
def AllFair (good : Mention → Prop) (limit : Nat) (lexemes : List Lexeme) : Prop :=
  ∃ outer, Throughout (fun _ row => ∀ lexeme ∈ row, lexeme.Fair good limit) outer lexemes

theorem AllFair.of_mem {lexemes : List Lexeme} (fair : AllFair good limit lexemes)
    {lexeme : Lexeme} (member : lexeme ∈ lexemes) :
    lexeme.Fair good limit ∧ ∀ part ∈ lexeme.parts, AllFair good limit part := by
  obtain ⟨_, here, deeper⟩ := fair
  exact ⟨here lexeme member, fun part inside => ⟨_, deeper lexeme member part inside⟩⟩

theorem AllFair.subset {lexemes others : List Lexeme} (fair : AllFair good limit lexemes)
    (inside : others ⊆ lexemes) : AllFair good limit others := by
  obtain ⟨outer, here, deeper⟩ := fair
  exact ⟨outer, .intro (fun lexeme member => here lexeme (inside member)) fun lexeme member =>
    deeper lexeme (inside member)⟩

end Lexeme
open Lexeme

namespace Expression

section Parts

variable {inner : List Lexeme → TreeReading Expression}
  (each : ∀ lexemes, Noting good (AllFair good limit lexemes) [] mentions (inner lexemes))
include each

theorem ofSteps_noting (span : Span) (object : Expression) (steps : List PathStep)
    (known : fair → ∀ part, .index part ∈ steps → AllFair good limit part) :
    Noting good fair object.mentions mentions (ofSteps inner span object steps) := by
  induction steps generalizing object with
  | nil => exact noting_pure rfl
  | cons step rest ih =>
    have later (next : Expression) := ih next fun known' part member =>
      known known' part (List.mem_cons_of_mem _ member)
    cases step with
    | property key => exact later (.property span object key)
    | index lexemes =>
      have inside := (each lexemes).weaken fun known' => known known' lexemes List.mem_cons_self
      exact noting_bind inside.behind fun index => later (.element span object index)

theorem ofArguments_noting (args : List (List Lexeme))
    (known : fair → ∀ part ∈ args, AllFair good limit part) :
    Noting good fair [] allMentions (ofArguments inner args) := by
  have whole : allMentions = List.flatMap mentions := funext allMentions_eq
  rw [whole]
  exact noting_mapM _ fun part member => (each part).weaken fun known' =>
    known known' part (List.mem_filter.mp member).1

end Parts

/-- What reads a list of lexemes: it notes what is mentioned, and without a report it reads them
to what they are read to by themselves. -/
structure Notes (good : Mention → Prop) (limit : Nat)
    (inner : List Lexeme → TreeReading Expression) : Prop where
  noting (lexemes : List Lexeme) :
    Noting good (AllFair good limit lexemes) [] mentions (inner lexemes)
  reads {lexemes : List Lexeme} {e : Expression} {g h : Gathered}
    (run : Returns (inner lexemes) g e h) (silent : h.diagnostics = g.diagnostics) :
    IsReadFrom limit lexemes e

section Parts

variable {inner : List Lexeme → TreeReading Expression} (notes : Notes good limit inner)
include notes

theorem arguments_read {args : List (List Lexeme)} {es : List Expression} {g h : Gathered}
    (run : Returns (ofArguments inner args) g es h) (silent : h.diagnostics = g.diagnostics) :
    List.Forall₂ (IsReadFrom limit) (args.filter (!·.isEmpty)) es := by
  unfold ofArguments at run
  generalize args.filter (!·.isEmpty) = present at run
  induction present generalizing g es with
  | nil =>
    obtain ⟨rfl, -⟩ := returns_pure.mp run
    exact .nil
  | cons part rest ih =>
    rw [List.mapM_cons] at run
    obtain ⟨e, i, here, later⟩ := returns_bind.mp run
    obtain ⟨others, j, there, last⟩ := returns_bind.mp later
    obtain ⟨rfl, rfl⟩ := returns_pure.mp last
    obtain ⟨_, -, first⟩ := notes.noting part _ _ _ here
    have others_noting : Noting good False [] (List.flatMap mentions) (rest.mapM inner) :=
      noting_mapM rest fun other _ => (notes.noting other).weaken False.elim
    obtain ⟨_, -, more⟩ := others_noting _ _ _ there
    have between : i.diagnostics = g.diagnostics :=
      (first.diagnostics.eq_of_length_le (silent ▸ more.diagnostics.length_le)).symm
    exact .cons (notes.reads here between) (ih (silent.trans between.symm) there)

theorem ofLexeme_noting (lexeme : Lexeme) :
    Noting good (AllFair good limit [lexeme]) [] mentions (ofLexeme inner lexeme) := by
  have here (known : AllFair good limit [lexeme]) := known.of_mem List.mem_cons_self
  cases lexeme with
  | literal span text value => exact noting_pure rfl
  | operator span op => exact noting_bind (noting_report _ _ _) fun _ => noting_pure rfl
  | name span word =>
    exact noting_bind (noting_noteVariable fun known => (here known).1) fun _ => noting_pure rfl
  | path span text base steps =>
    refine noting_bind (noting_noteVariable fun known => (here known).1) fun _ => ?_
    exact ofSteps_noting notes.noting span (.name span base) steps fun known part member =>
      (here known).2 part (List.mem_filterMap.mpr ⟨_, member, rfl⟩)
  | call span text callee args =>
    -- The call is mentioned before its arguments, but which call it is shows only after them.
    intro g e i run
    obtain ⟨_, h, noted, later⟩ := returns_bind.mp run
    obtain ⟨es, j, given, last⟩ := returns_bind.mp later
    obtain ⟨rfl, rfl⟩ := returns_pure.mp last
    obtain rfl := returns_modify.mp noted
    obtain ⟨_, rfl, inside⟩ := ofArguments_noting notes.noting args (fun known => (here known).2)
      _ _ _ given
    refine ⟨.call span callee es :: allMentions es, rfl, inside.diagnostics, inside.names,
      inside.functions, inside.blocks, fun known silent => List.forall_mem_cons.mpr ⟨?_, ?_⟩⟩
    · exact (here known).1 es (arguments_read notes given silent)
    · exact inside.good known silent

theorem ofRun_noting (first : Lexeme) (rest : List Lexeme) :
    Noting good (AllFair good limit (first :: rest)) [] mentions (ofRun inner first rest) := by
  have one (lexeme : Lexeme) (member : lexeme ∈ first :: rest) :
      Noting good (AllFair good limit (first :: rest)) [] mentions (ofLexeme inner lexeme) :=
    (ofLexeme_noting notes lexeme).weaken fun known => known.subset (by simpa using member)
  exact ofRun_cases (fun _ => one first List.mem_cons_self) fun _ _ kept member =>
    noting_bind (noting_report _ _ _) fun _ => one kept member

end Parts

/-- A binary expression mentions what its left side does and then what is read behind the
operator. -/
theorem joined_noting {after : TreeReading Expression}
    (behind : Noting good fair [] mentions after) (split : Split) (left : Expression) :
    Noting good fair left.mentions mentions (joined split left after) := by
  have last : Noting good fair left.mentions mentions (do
      return binary split.span split.op left (← after)) :=
    noting_bind behind.behind fun _ => noting_pure rfl
  exact joined_cases (fun _ => noting_bind (noting_report _ _ _) fun _ => last) fun _ => last

theorem ofSplit_noting {before after : TreeReading Expression}
    (here : Noting good fair [] mentions before) (behind : Noting good fair [] mentions after)
    (split : Split) : Noting good fair [] mentions (ofSplit split before after) := by
  have null : Noting good fair [] mentions (pure (.literal (some split.span) .null)) :=
    noting_pure rfl
  exact ofSplit_cases
    (fun _ => noting_bind (noting_report _ _ _) fun _ =>
      noting_bind null fun left => joined_noting behind split left)
    fun _ => noting_bind here fun left => joined_noting behind split left

/-- An expression is read to one whose mentions are noted in their order. -/
theorem read_noting (le : room ≤ limit) (floor : Nat) (lexemes : List Lexeme) :
    Noting good (AllFair good limit lexemes) [] mentions (read limit room floor lexemes) := by
  -- The sides of a split and the lexemes behind a sign are among the lexemes themselves.
  induction room generalizing floor lexemes with
  | zero =>
    cases lexemes with
    | nil => exact noting_pure rfl
    | cons first rest => exact noting_of_fails (tooDeep_fails limit first.span)
  | succ room ih =>
    have less : room ≤ limit := Nat.le_of_succ_le le
    have notes : Notes good limit (read limit room 0) :=
      ⟨ih less 0, fun run silent => isReadFrom_of_returns less run silent⟩
    cases lexemes with
    | nil => exact noting_pure rfl
    | cons first rest =>
      have among (floor : Nat) {others : List Lexeme} (inside : others ⊆ first :: rest) :
          Noting good (AllFair good limit (first :: rest)) [] mentions
            (read limit room floor others) :=
        (ih less floor others).weaken fun known => known.subset inside
      apply read_cases
      case lone =>
        rintro rfl
        exact ofLexeme_noting notes first
      case signed =>
        exact fun _ _ _ => noting_bind (among floor (List.subset_cons_self _ _)) fun _ =>
          noting_pure rfl
      case run => exact fun _ => ofRun_noting notes first rest
      case sided =>
        intro split _ found
        have whole := append_of_splitAt found
        refine ofSplit_noting (among 0 ?_) (among _ ?_) split
        · rw [whole]
          exact List.subset_append_left _ _
        · rw [whole]
          exact fun lexeme member => List.mem_append_right _ (List.mem_cons_of_mem _ member)

end Expression

/-! ### Tags -/

/-- A filter is good whatever its arguments are read to, and what they mention is fair. -/
def FilterLexeme.Fair (good : Mention → Prop) (limit : Nat) (filter : FilterLexeme) : Prop :=
  (∀ es, List.Forall₂ (Expression.IsReadFrom limit) (filter.args.filter (!·.isEmpty)) es →
    good (.filter ⟨filter.span, filter.name, es⟩)) ∧
  ∀ part ∈ filter.args, AllFair good limit part

/-- What is mentioned where the token is read is good. -/
def Token.Fair (good : Mention → Prop) (limit : Nat) (token : Token) : Prop :=
  match token.content with
  | .opening tag _ =>
    AllFair good limit tag.lexemes ∧ good (.block (Placement.blockName tag.condition))
  | .output expression filters _ =>
    AllFair good limit expression ∧ ∀ filter ∈ filters, filter.Fair good limit
  | _ => True

namespace Placement

def mentions : Placement → List Mention
  | node part => part.mentions
  | opened frame => frame.finish.mentions
  | nothing => []

section Tags

variable {height : Nat} {token : Token} {tag : Opening}

/-- What is mentioned in a block that starts. -/
def starts (token : Token) (shape : Shape) : List Mention :=
  (opened ⟨token.text, token.span, shape, []⟩).mentions

theorem condition_noting (le : room ≤ limit) :
    Noting good (AllFair good limit tag.lexemes) [] Expression.mentions
      (condition limit room token tag) := by
  unfold condition
  split
  · exact noting_bind (noting_report _ _ _) fun _ => noting_pure rfl
  · exact Expression.read_noting le 0 tag.lexemes

theorem loop_noting (le : room ≤ limit) :
    Noting good (AllFair good limit tag.lexemes) [] (starts token) (loop limit room token tag) := by
  unfold loop
  split
  · refine noting_bind (Expression.read_noting le 0 tag.lexemes) fun iterable => noting_pure ?_
    simp [starts, mentions, Frame.finish, Frame.nodes, Node.mentions, Node.allMentions]
  · -- The report and the name it stands for come together.
    intro g shape h run
    obtain ⟨_, i, reported, last⟩ := returns_bind.mp run
    obtain ⟨rfl, rfl⟩ := returns_pure.mp last
    obtain rfl := returns_report.mp reported
    exact ⟨[.name "items"], rfl, .reported_loop g _ _ _⟩

theorem block_noting :
    Noting good (good (.block (blockName tag.condition))) [] (starts token) (block token tag) := by
  unfold block
  dsimp only
  split
  · rename_i empty
    intro g shape h run
    obtain ⟨_, i, reported, last⟩ := returns_bind.mp run
    obtain ⟨rfl, rfl⟩ := returns_pure.mp last
    obtain rfl := returns_report.mp reported
    exact ⟨[.block (blockName tag.condition)], rfl, .reported_block g empty _ _⟩
  · rename_i named
    exact noting_bind (noting_noteBlock (Bool.eq_false_iff.mpr named) id) fun _ => noting_pure rfl

/-- The tags that begin with a condition mention what it mentions. -/
theorem conditional_noting (le : room ≤ limit) {next : Expression → Placement}
    (same : ∀ e, (next e).mentions = e.mentions) :
    Noting good (AllFair good limit tag.lexemes) [] mentions (do
      return next (← condition limit room token tag)) :=
  noting_bind (condition_noting le) fun e => noting_pure (same e)

theorem ofOpening_noting :
    Noting good (AllFair good limit tag.lexemes ∧ good (.block (blockName tag.condition))) []
      mentions (ofOpening limit height token tag) := by
  have le : limit - (height + 1) ≤ limit := Nat.sub_le _ _
  intro g placement h run
  unfold ofOpening at run
  replace run := returns_within run
  revert g placement h
  change Noting _ _ _ _ _
  cases token.keyword
  case cond | «while» | «unless» | «include» | «extends» =>
    refine (conditional_noting le fun e => ?_).weaken And.left
    simp [mentions, Frame.finish, Frame.nodes, Node.mentions, Node.allMentions,
      Node.clauseMentions, Node.allBlockMentions]
  case «for» | each =>
    exact noting_bind ((loop_noting le).weaken And.left) fun _ => noting_pure rfl
  case block => exact noting_bind (block_noting.weaken And.right) fun _ => noting_pure rfl
  all_goals exact noting_bind (noting_report _ _ _) fun _ => noting_pure rfl

/-- The tag of a block opens a block of its name. -/
theorem opened_of_blockTag (block : token.keyword = .block) {placement : Placement} {g h : Gathered}
    (run : Returns (ofOpening limit height token tag) g placement h) :
    placement = .opened ⟨token.text, token.span, .block (blockName tag.condition), []⟩ := by
  unfold ofOpening at run
  replace run := returns_within run
  rw [block] at run
  obtain ⟨shape, i, named, last⟩ := returns_bind.mp run
  obtain ⟨rfl, -⟩ := returns_pure.mp last
  unfold Placement.block at named
  dsimp only at named
  split at named <;>
  · obtain ⟨_, j, -, last⟩ := returns_bind.mp named
    rw [(returns_pure.mp last).1]

theorem filterUse_noting (le : room ≤ limit) (filter : FilterLexeme) :
    Noting good (filter.Fair good limit) [] FilterUse.mentions (filterUse limit room filter) := by
  have notes : Expression.Notes good limit (Expression.read limit room 0) :=
    ⟨Expression.read_noting le 0, fun run silent => Expression.isReadFrom_of_returns le run silent⟩
  intro g use i run
  obtain ⟨es, h, given, last⟩ := returns_bind.mp run
  obtain ⟨rfl, rfl⟩ := returns_pure.mp last
  obtain ⟨_, rfl, inside⟩ := Expression.ofArguments_noting notes.noting filter.args
    (fun known : filter.Fair good limit => known.2) _ _ _ given
  refine ⟨.filter ⟨filter.span, filter.name, es⟩ :: Expression.allMentions es, rfl,
    inside.diagnostics, inside.names, inside.functions, inside.blocks, fun known silent =>
      List.forall_mem_cons.mpr ⟨?_, ?_⟩⟩
  · exact known.1 es (Expression.arguments_read notes given silent)
  · exact inside.good known silent

theorem output_noting (le : room ≤ limit) (expression : List Lexeme) (filters : List FilterLexeme) :
    Noting good (AllFair good limit expression ∧ ∀ filter ∈ filters, filter.Fair good limit) []
      Node.mentions (output limit room token expression filters) := by
  have uses (value : Option Expression) :
      Noting good (AllFair good limit expression ∧ ∀ filter ∈ filters, filter.Fair good limit)
        (value.toList.flatMap (·.mentions)) Node.mentions (do
          return .output token.span token.text value (← filters.mapM (filterUse limit room))) :=
    noting_bind (noting_mapM filters fun filter member =>
      (filterUse_noting le filter).weaken fun known => known.2 filter member).behind fun _ =>
        noting_pure rfl
  unfold output
  dsimp only
  split
  · exact noting_bind (noting_report _ _ _) fun _ => noting_bind (noting_pure rfl) fun value =>
      uses value
  · refine noting_bind ?_ fun value => uses value
    rw [map_eq_pure_bind]
    refine noting_bind ((Expression.read_noting le 0 expression).weaken And.left) fun e =>
      noting_pure ?_
    simp

/-- What becomes of a token mentions what is noted. -/
theorem ofToken_noting :
    Noting good (token.Fair good limit) [] mentions (ofToken limit height token) := by
  unfold ofToken Token.Fair
  cases token.content with
  | text kind => exact noting_pure rfl
  | comment content => exact noting_pure rfl
  | output expression filters source =>
    exact noting_bind (output_noting (Nat.sub_le _ _) _ _) fun _ => noting_pure rfl
  | opening tag source =>
    dsimp only
    split
    · exact noting_bind (noting_report _ _ _) fun _ => noting_pure rfl
    · exact ofOpening_noting
  | closing source => exact noting_bind (noting_report _ _ _) fun _ => noting_pure rfl
  | stray kind => exact noting_bind (noting_report _ _ _) fun _ => noting_pure rfl
  | done => exact noting_pure rfl

end Tags

end Placement
end Stencil
