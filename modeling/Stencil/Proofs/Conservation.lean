import Mathlib
import Stencil.Proofs.Gathering
import Stencil.Proofs.Places
import Stencil.Token

/-! Nothing is lost, doubled or moved between tokens and their tree: the parts of the tree, in the
order of a visit, are the tokens that were not left out, and of those that were left out each one
that fits nowhere is reported. -/
namespace Stencil

/-! ### Tokens -/

def Markup.Keyword.isUnknown : Keyword → Bool
  | .unknown _ => true
  | _ => false

def Markup.Keyword.nodeType? : Keyword → Option String
  | cond => some "If"
  | elseif => some "ElseIf"
  | .for | each => some "For"
  | .while => some "While"
  | .unless => some "Block"
  | block => some "BlockDef"
  | .include => some "Include"
  | .extends => some "Extends"
  | otherwise | unknown _ => none

/-- A problem of tags that stand where they fit nothing. -/
def Diagnostic.refusesTag (d : Diagnostic) : Bool :=
  d.kind == .unmatchedBlockEnd || d.kind == .misplacedClause

namespace Token

/-- A token that stands nowhere in a template. -/
def isForeign (token : Token) : Bool :=
  match token.content with
  | .stray _ => true
  | .opening .. => token.keyword.isUnknown
  | _ => false

def problem (token : Token) (kind : DiagnosticKind) (message : String) : Diagnostic :=
  .error .tree kind message token.span.start (some token.span.position)

/-- What may be reported of a token itself. One that stands nowhere in a template always is. -/
inductive Fate (token : Token) : Option Diagnostic → Prop
  | taken (known : token.isForeign = false) : token.Fate none
  | stray {kind : StrayKind} (content : token.content = .stray kind) :
      token.Fate (some (token.problem .unexpectedToken s!"Unexpected token: {kind.label}"))
  | unknown {tag : Opening} {source : String} (content : token.content = .opening tag source)
      (word : token.keyword.isUnknown = true) :
      token.Fate (some (token.problem .invalidTag s!"Unknown tag '{token.text}'"))
  | misplaced (clause : token.isClause = true) {place : String}
      (known : place = "outside of an if block" ∨ place = "after 'else'") :
      token.Fate (some (token.problem .misplacedClause (Stack.misplacedMessage token place)))
  | unmatched (ends : token.isClosing = true) :
      token.Fate (some (token.problem .unmatchedBlockEnd (Stack.unmatchedMessage token)))

/-- Tokens that leave no node of their own: ends, `else`, an `elseif` that is reported, and all
that stands nowhere in a template. -/
def isLeftOut (token : Token) (report : Option Diagnostic) : Bool :=
  match token.content with
  | .closing _ | .stray _ | .done => true
  | .opening .. =>
    match token.keyword with
    | .otherwise | .unknown _ => true
    | .elseif => report.isSome
    | _ => false
  | _ => false

/-- The stop at the node of a token on a visit of its tree. -/
def site? (token : Token) : Option Site :=
  let type? := match token.content with
    | .text _ => some "Text"
    | .output .. => some "Variable"
    | .comment _ => some "Comment"
    | .opening .. => token.keyword.nodeType?
    | .closing _ | .stray _ | .done => none
  type?.map (⟨·, some token.span⟩)

variable {token : Token}

theorem closing_of_isClosing (ends : token.isClosing = true) :
    ∃ source, token.content = .closing source := by
  unfold isClosing at ends
  split at ends
  · rename_i source content
    exact ⟨source, content⟩
  · contradiction

theorem opening_of_isClause (clause : token.isClause = true) :
    ∃ tag source, token.content = .opening tag source ∧ token.keyword.isClause = true := by
  unfold isClause at clause
  split at clause
  · rename_i tag source content
    exact ⟨tag, source, content, clause⟩
  · contradiction

theorem keyword_of_isClause {keyword : Markup.Keyword} (clause : keyword.isClause = true) :
    keyword = .elseif ∨ keyword = .otherwise := by
  cases keyword <;> simp_all [Markup.Keyword.isClause]

theorem isLeftOut_of_isClosing (ends : token.isClosing = true) (report : Option Diagnostic) :
    token.isLeftOut report = true := by
  obtain ⟨source, content⟩ := closing_of_isClosing ends
  simp [isLeftOut, content]

theorem isLeftOut_of_isClause (clause : token.isClause = true) (d : Diagnostic) :
    token.isLeftOut (some d) = true := by
  obtain ⟨tag, source, content, word⟩ := opening_of_isClause clause
  rcases keyword_of_isClause word with same | same <;> simp [isLeftOut, content, same]

theorem isForeign_of_isClosing (ends : token.isClosing = true) : token.isForeign = false := by
  obtain ⟨source, content⟩ := closing_of_isClosing ends
  simp [isForeign, content]

theorem isForeign_of_isClause (clause : token.isClause = true) : token.isForeign = false := by
  obtain ⟨tag, source, content, word⟩ := opening_of_isClause clause
  rcases keyword_of_isClause word with same | same <;>
    simp [isForeign, content, same, Markup.Keyword.isUnknown]

end Token

/-! ### Reports -/

/-- Diagnostics are added, these among them in this order, and no others refuse a tag. -/
def Gathered.Reports (g : Gathered) (reports : List Diagnostic) (g' : Gathered) : Prop :=
  ∃ more, g'.diagnostics = g.diagnostics ++ more ∧ reports.Sublist more ∧
    more.filter (·.refusesTag) = reports.filter (·.refusesTag)

namespace Gathered

variable {g h i : Gathered} {first second : List Diagnostic}

theorem Reports.none (g : Gathered) : g.Reports [] g :=
  ⟨[], by simp, List.Sublist.refl [], rfl⟩

theorem Reports.trans (here : g.Reports first h) (there : h.Reports second i) :
    g.Reports (first ++ second) i := by
  obtain ⟨more, added, inside, refused⟩ := here
  obtain ⟨later, then_, within, others⟩ := there
  refine ⟨more ++ later, by rw [then_, added, List.append_assoc], inside.append within, ?_⟩
  rw [List.filter_append, List.filter_append, refused, others]

theorem reports_reported (g : Gathered) (token : Token) (kind : DiagnosticKind)
    (message : String) :
    g.Reports [token.problem kind message] (g.reported kind message token.span) :=
  ⟨_, rfl, List.Sublist.refl _, rfl⟩

theorem reports_unclosed (g : Gathered) (frame : Frame) :
    g.Reports [] (g.reported .unmatchedBlockStart (Stack.unclosedMessage frame) frame.span) :=
  ⟨_, rfl, List.nil_sublist _, rfl⟩

theorem refusesTag_structural {d : Diagnostic} (refuses : d.refusesTag = true) :
    d.kind.isStructural = true := by
  simp only [Diagnostic.refusesTag, Bool.or_eq_true, beq_iff_eq] at refuses
  rcases refuses with kind | kind <;> rw [kind] <;> rfl

/-- Where no structural problem is reported no tag is refused. -/
theorem reports_of_calm (within : g.Within h) (calm : h.structural = g.structural) :
    g.Reports [] h := by
  obtain ⟨more, added⟩ := within.diagnostics
  have quiet : more.filter (·.kind.isStructural) = [] := by
    rw [structural, structural, ← added, List.filter_append] at calm
    simpa using calm
  refine ⟨more, added.symm, List.nil_sublist _, ?_⟩
  refine List.filter_eq_nil_iff.mpr fun d member refuses => ?_
  exact List.filter_eq_nil_iff.mp quiet d member (refusesTag_structural refuses)

end Gathered

/-! ### Single tokens -/

/-- What a token adds: a report on it or none, and its stop on a visit unless it is left out. -/
structure Token.Adds (token : Token) (g : Gathered) (report : Option Diagnostic)
    (added : List Site) (g' : Gathered) : Prop where
  fate : token.Fate report
  reports : g.Reports report.toList g'
  sites : added.map some = if token.isLeftOut report then [] else [token.site?]

namespace Placement

variable {limit height : Nat} {token : Token} {placement : Placement} {g g' : Gathered}

theorem returns_unknown {tag : Opening} (word : token.keyword.isUnknown = true)
    (run : Returns (ofOpening limit height token tag) g placement g') :
    placement = .nothing ∧ g' = g.reported .invalidTag s!"Unknown tag '{token.text}'" token.span := by
  unfold ofOpening at run
  replace run := returns_within run
  cases kind : token.keyword with
  | unknown other =>
    simp only [kind, returns_bind, TreeReading.returns_report, returns_pure] at run
    obtain ⟨_, _, rfl, rfl, rfl⟩ := run
    exact ⟨rfl, rfl⟩
  | _ => simp [kind, Markup.Keyword.isUnknown] at word

theorem Tagged.sites {tag : Opening} {source : String} (tagged : Tagged token placement)
    (content : token.content = .opening tag source) (known : token.keyword.isUnknown = false)
    (undivided : token.keyword.isClause = false) (inside : token.keyword ≠ .extends) :
    placement.places.map some = [token.site?] ∧ token.isLeftOut none = false ∧ placement.Plain := by
  cases tagged with
  | conditional word | repetition word | exception word | block word =>
    refine ⟨?_, ?_, plain_opened rfl⟩
    · simp [places, Frame.places, Frame.finish, Frame.nodes, Token.site?, content, word,
        Markup.Keyword.nodeType?]
    · simp [Token.isLeftOut, content, word]
  | loop words =>
    refine ⟨?_, ?_, plain_opened rfl⟩
    · rcases words with word | word <;>
        simp [places, Frame.places, Frame.finish, Frame.nodes, Token.site?, content, word,
          Markup.Keyword.nodeType?]
    · rcases words with word | word <;> simp [Token.isLeftOut, content, word]
  | inclusion word =>
    refine ⟨?_, ?_, plain_node _⟩
    · simp [places, Token.site?, content, word, Markup.Keyword.nodeType?]
    · simp [Token.isLeftOut, content, word]
  | extension word => contradiction
  | unknown plain other =>
    revert plain other known undivided inside
    cases token.keyword <;>
      simp [Markup.Keyword.opensBlock, Markup.Keyword.isUnknown, Markup.Keyword.isClause]

theorem ofOpening_adds {tag : Opening} {source : String}
    (content : token.content = .opening tag source) (undivided : token.keyword.isClause = false)
    (inside : token.keyword ≠ .extends) (calm : g.Reports [] g')
    (run : Returns (ofOpening limit height token tag) g placement g') :
    (∃ report, token.Adds g report placement.places g') ∧ placement.Plain := by
  cases known : token.keyword.isUnknown with
  | true =>
    obtain ⟨rfl, rfl⟩ := returns_unknown known run
    have out (report : Option Diagnostic) : token.isLeftOut report = true := by
      revert known
      cases word : token.keyword <;>
        simp [Markup.Keyword.isUnknown, Token.isLeftOut, content, word]
    refine ⟨⟨_, .unknown content known, Gathered.reports_reported g token _ _, ?_⟩, plain_nothing⟩
    simp [places, out]
  | false =>
    obtain ⟨sites, kept, plain⟩ := (tagged_of_ofOpening run).sites content known undivided inside
    refine ⟨⟨none, .taken (by simp [Token.isForeign, content, known]), calm, ?_⟩, plain⟩
    simpa [kept] using sites

/-- A token that neither divides nor ends a block adds its own stop, or is reported as one that
stands nowhere. -/
theorem ofToken_adds (whole : token.isClosing = false) (undivided : token.isClause = false)
    (inside : ¬ token.Opens .extends)
    (run : Returns (ofToken limit height token) g placement g') :
    (∃ report, token.Adds g report placement.places g') ∧ placement.Plain := by
  have within : g.Within g' :=
    (ofToken_tells (l := .exact) limit height token trivial _ _ _ run).1
  have calm : g.Reports [] g' :=
    Gathered.reports_of_calm within ((ofToken_calm whole undivided).view_eq run)
  unfold ofToken at run
  split at run
  · rename_i kind content
    obtain ⟨rfl, rfl⟩ := returns_pure.mp run
    refine ⟨⟨none, .taken (by simp [Token.isForeign, content]), calm, ?_⟩, plain_node _⟩
    simp [places, Token.isLeftOut, Token.site?, content]
  · rename_i text content
    obtain ⟨rfl, rfl⟩ := returns_pure.mp run
    refine ⟨⟨none, .taken (by simp [Token.isForeign, content]), calm, ?_⟩, plain_node _⟩
    simp [places, Token.isLeftOut, Token.site?, content]
  · rename_i expression filters source content
    obtain ⟨node, t, read, rest⟩ := returns_bind.mp run
    obtain ⟨rfl, rfl⟩ := returns_pure.mp rest
    obtain ⟨value, uses, rfl⟩ := output_returns read
    refine ⟨⟨none, .taken (by simp [Token.isForeign, content]), calm, ?_⟩, plain_node _⟩
    simp [places, Token.isLeftOut, Token.site?, content]
  · rename_i tag source content
    have plain : token.keyword.isClause = false := by simpa [Token.isClause, content] using undivided
    have other : token.keyword ≠ .extends := by
      intro word
      exact inside ⟨by simp [Token.isOpening, content], word⟩
    rw [plain, if_neg Bool.false_ne_true] at run
    exact ofOpening_adds content plain other calm run
  · rename_i source content
    simp [Token.isClosing, content] at whole
  · rename_i kind content
    simp only [returns_bind, TreeReading.returns_report, returns_pure] at run
    obtain ⟨_, _, rfl, rfl, rfl⟩ := run
    refine ⟨⟨_, .stray content, Gathered.reports_reported g token _ _, ?_⟩, plain_nothing⟩
    simp [places, Token.isLeftOut, content]
  · rename_i content
    obtain ⟨rfl, rfl⟩ := returns_pure.mp run
    refine ⟨⟨none, .taken (by simp [Token.isForeign, content]), calm, ?_⟩, plain_nothing⟩
    simp [places, Token.isLeftOut, content]

end Placement

namespace Stack

variable {limit : Nat} {token : Token} {stack next : Stack} {g g' : Gathered}

theorem misplacement_known (stack : Stack) :
    stack.misplacement = "outside of an if block" ∨ stack.misplacement = "after 'else'" := by
  unfold misplacement
  split
  · exact .inl rfl
  · split
    · exact .inr rfl
    · exact .inl rfl

/-- One token adds its own stop at the end of the places, or is left out; blocks that it ends
leave the places as they are. -/
theorem Step.adds (plain : stack.Plain) (inside : ¬ token.Opens .extends)
    (step : Step limit token stack g next g') :
    next.Plain ∧ ∃ report added, token.Adds g report added g' ∧
      next.places = stack.places ++ added := by
  -- Ends may close several blocks before they are placed; that is the one case with a step inside.
  induction step with
  | placed _ whole undivided read =>
    obtain ⟨⟨report, adds⟩, settled⟩ := Placement.ofToken_adds whole undivided inside read
    exact ⟨plain.put settled, report, _, adds, places_put plain _⟩
  | filler extension | passed extension =>
    rw [plain.settled] at extension
    contradiction
  | closed _ ends =>
    refine ⟨plain.below.add _, none, [], ⟨.taken (Token.isForeign_of_isClosing ends), .none _, ?_⟩, ?_⟩
    · simp [Token.isLeftOut_of_isClosing ends]
    · rw [places_ended plain, List.append_nil]
  | abandoned _ ends _ _ _ ih =>
    obtain ⟨plainNext, report, added, adds, places⟩ := ih (plain.below.add _)
    refine ⟨plainNext, report, added, ⟨adds.fate, ?_, adds.sites⟩, ?_⟩
    · exact (Gathered.reports_unclosed _ _).trans adds.reports
    · rw [places, places_ended plain]
  | unmatched _ ends =>
    refine ⟨plain, some _, [], ⟨.unmatched ends, Gathered.reports_reported _ token _ _, ?_⟩, ?_⟩
    · simp [Token.isLeftOut_of_isClosing ends]
    · rw [List.append_nil]
  | @otherwise top outer root g clause word takes =>
    obtain ⟨tag, source, content, _⟩ := Token.opening_of_isClause clause
    refine ⟨Plain.cons plain.below (Frame.isExtension_addOtherwise takes), none, [],
      ⟨.taken (Token.isForeign_of_isClause clause), .none _, ?_⟩, ?_⟩
    · simp [Token.isLeftOut, content, word]
    · rw [places_cons, places_cons, Frame.places_addOtherwise takes, List.append_nil]
  | @further top outer root g g' tag source condition clause content word takes read =>
    have within : g.Within g' := (Placement.condition_tells (l := .exact) _ _ _ _ _ _ _ read).1
    have calm : g'.structural = g.structural := (Placement.condition_calm _ _ _ _).view_eq read
    refine ⟨Plain.cons plain.below (Frame.isExtension_addClause takes _ _), none,
      [⟨"ElseIf", some token.span⟩], ⟨.taken (Token.isForeign_of_isClause clause),
        Gathered.reports_of_calm within calm, ?_⟩, ?_⟩
    · simp [Token.isLeftOut, Token.site?, content, word, Markup.Keyword.nodeType?]
    · rw [places_cons, places_cons, Frame.places_addClause takes, List.append_assoc]
  | @misplaced stack g _ clause _ =>
    refine ⟨plain, some _, [], ⟨.misplaced clause (misplacement_known stack),
      Gathered.reports_reported _ token _ _, ?_⟩, ?_⟩
    · simp [Token.isLeftOut_of_isClause clause]
    · rw [List.append_nil]

end Stack

/-! ### Runs -/

/-- Tokens with the reports on them, and the stops of those that were not left out, in order. -/
structure Accounted (tokens : List Token) (marked : List (Token × Option Diagnostic))
    (added : List Site) : Prop where
  tokens : marked.map (·.1) = tokens
  fates : ∀ entry ∈ marked, entry.1.Fate entry.2
  sites : added.map some =
    (marked.filter fun entry => !entry.1.isLeftOut entry.2).map (·.1.site?)

theorem Accounted.nil : Accounted [] [] [] :=
  ⟨rfl, fun _ member => absurd member List.not_mem_nil, rfl⟩

theorem Accounted.cons {token : Token} {rest : List Token} {report : Option Diagnostic}
    {marked : List (Token × Option Diagnostic)} {added more : List Site} {g g' : Gathered}
    (adds : token.Adds g report added g') (later : Accounted rest marked more) :
    Accounted (token :: rest) ((token, report) :: marked) (added ++ more) where
  tokens := by rw [List.map_cons, later.tokens]
  fates := List.forall_mem_cons.mpr ⟨adds.fate, later.fates⟩
  sites := by
    rw [List.map_append, adds.sites, later.sites]
    cases out : token.isLeftOut report <;> simp [out]

namespace Stack

variable {limit : Nat} {stack next : Stack} {g g' : Gathered} {tokens : List Token}

def reports (marked : List (Token × Option Diagnostic)) : List Diagnostic := marked.filterMap (·.2)

theorem Fed.adds (plain : stack.Plain) (inside : ∀ token ∈ tokens, ¬ token.Opens .extends)
    (fed : Fed limit stack g tokens next g') :
    next.Plain ∧ ∃ marked added, Accounted tokens marked added ∧ g.Reports (reports marked) g' ∧
      next.places = stack.places ++ added := by
  induction fed with
  | nil => exact ⟨plain, [], [], .nil, .none _, (List.append_nil _).symm⟩
  | @cons token rest stack next last g h i step later ih =>
    obtain ⟨plainNext, report, added, adds, here⟩ := step.adds plain (inside token List.mem_cons_self)
    obtain ⟨plainLast, marked, more, accounted, reported, there⟩ :=
      ih plainNext fun other member => inside other (List.mem_cons_of_mem _ member)
    refine ⟨plainLast, (token, report) :: marked, added ++ more, .cons adds accounted, ?_, ?_⟩
    · -- A token without a report adds nothing to the reports.
      have joined := adds.reports.trans reported
      cases report <;> exact joined
    · rw [there, here, List.append_assoc]

theorem unwind_places {finished : Option Node} {frames : List Frame} {root nodes : List Node}
    (plain : (Stack.addAll ⟨frames, root⟩ finished).Plain)
    (run : Returns (unwind finished frames root) g nodes g') :
    g.Reports [] g' ∧ Node.allPlaces nodes = (Stack.addAll ⟨frames, root⟩ finished).places := by
  induction frames generalizing finished g with
  | nil =>
    obtain ⟨rfl, rfl⟩ := returns_pure.mp run
    refine ⟨.none _, ?_⟩
    cases finished <;> simp [addAll, places, add]
  | cons frame outer ih =>
    rw [addAll_cons] at plain ⊢
    have settled : (finished.elim frame frame.add).isExtension = false := plain.settled
    simp only [unwind, settled, Bool.false_eq_true, if_false, reportUnclosed, returns_bind,
      TreeReading.returns_report] at run
    obtain ⟨_, _, rfl, later⟩ := run
    have below : (Stack.addAll ⟨outer, root⟩ (some (finished.elim frame frame.add).finish)).Plain :=
      plain.below.add _
    obtain ⟨reported, same⟩ := ih below later
    exact ⟨(Gathered.reports_unclosed g _).trans reported, same.trans (places_ended plain)⟩

/-- The building of a template together with the cursor where it stops, after `position` tokens. -/
def buildTo (limit : Nat) (stop : Option Nat) (stack : Stack) (position : Nat) :
    List Token → TreeReading (List Node × Cursor)
  | [] => do return (← runOut stop none stack.frames stack.root, ⟨position, []⟩)
  | token :: rest => do
    if token.isDone then
      return (← unwind none stack.frames stack.root, ⟨position, token :: rest⟩)
    else
      buildTo limit stop (← feed limit token none stack.frames stack.root) (position + 1) rest

/-- The cursor takes no part in the building. -/
theorem fst_buildTo (stop : Option Nat) (stack : Stack) (position : Nat) (tokens : List Token) :
    Prod.fst <$> buildTo limit stop stack position tokens = build limit stop stack tokens := by
  induction tokens generalizing stack position with
  | nil => simp [buildTo, build]
  | cons token rest ih =>
    cases done : token.isDone with
    | true => simp [buildTo, build, done]
    | false => simp [buildTo, build, done, ih]

theorem cursor_of_buildTo {stop : Option Nat} {position : Nat} {last : Token} {nodes : List Node}
    {cursor : Cursor} (running : ∀ token ∈ tokens, token.isDone = false)
    (done : last.isDone = true)
    (run : Returns (buildTo limit stop stack position (tokens ++ [last])) g (nodes, cursor) g') :
    cursor = ⟨position + tokens.length, [last]⟩ := by
  induction tokens generalizing stack position g with
  | nil =>
    simp only [List.nil_append, buildTo, done, if_true, returns_bind, returns_pure] at run
    obtain ⟨_, _, _, same, _⟩ := run
    exact (Prod.mk.inj same).2
  | cons token rest ih =>
    have more : token.isDone = false := running token List.mem_cons_self
    simp only [List.cons_append, buildTo, more, Bool.false_eq_true, if_false, returns_bind] at run
    obtain ⟨_, _, _, later⟩ := run
    rw [ih (fun other member => running other (List.mem_cons_of_mem _ member)) later,
      List.length_cons, Nat.add_right_comm, Nat.add_assoc]

end Stack

/-! ### Trees -/

namespace Tree

variable {limit : Nat} {tokens : List Token} {last : Token}

/-- The tree of tokens that end with `last`. A visit stops at every entry of its outline, in order.
The parts of the template among these stops are the tokens that were not left out, in their order;
the reports on tokens are among the diagnostics, no other diagnostic refuses a tag, and the cursor
stops at the last token. -/
structure Conserves (limit : Nat) (tokens : List Token) (last : Token) (tree : Tree)
    (diagnostics : List Diagnostic) (marked : List (Token × Option Diagnostic)) : Prop where
  parsed : ofTokens limit (tokens ++ [last]) = (.ok tree, diagnostics)
  visited : tree.outline.types = "Template" :: (Node.allSites tree.nodes).map (·.type)
  accounted : Accounted tokens marked (Node.allPlaces tree.nodes)
  reported : (Stack.reports marked).Sublist diagnostics
  refused : diagnostics.filter (·.refusesTag) = (Stack.reports marked).filter (·.refusesTag)
  stopped : ∃ g, Returns
    (Stack.buildTo limit ((tokens ++ [last]).getLast?.map (·.span.stop)) ⟨[], []⟩ 0 (tokens ++ [last]))
    start (tree.nodes, ⟨tokens.length, [last]⟩) g

/-- Of complete tokens without an `extends`, balanced or not, nothing is lost, doubled or moved
unless they are nested too deep. -/
theorem tokens_conserved (running : ∀ token ∈ tokens, token.isDone = false)
    (done : last.isDone = true) (inside : ∀ token ∈ tokens, ¬ token.Opens .extends) :
    (∃ cause diagnostics, cause.OfDepth ∧
      ofTokens limit (tokens ++ [last]) = (.error cause, diagnostics)) ∨
    ∃ tree diagnostics marked, Conserves limit tokens last tree diagnostics marked := by
  let stop := (tokens ++ [last]).getLast?.map (·.span.stop)
  rcases returns_or_fails (Stack.build limit stop ⟨[], []⟩ (tokens ++ [last])) start with
    ⟨nodes, g, run⟩ | ⟨cause, g, failed⟩
  · have empty : Stack.Plain ⟨[], []⟩ := fun _ member => absurd member List.not_mem_nil
    obtain ⟨next, h, fed, unwound⟩ := Stack.fed_of_build running done run
    obtain ⟨plain, marked, added, accounted, reported, places⟩ := fed.adds empty inside
    have still : (Stack.addAll ⟨next.frames, next.root⟩ none).Plain := plain
    obtain ⟨unclosed, same⟩ := Stack.unwind_places still unwound
    obtain ⟨more, all, within, refused⟩ := reported.trans unclosed
    rw [List.append_nil] at within refused
    have gathered : g.diagnostics = more := all
    have kept : Node.allPlaces nodes = added := same.trans places
    have built := run
    rw [← Stack.fst_buildTo stop ⟨[], []⟩ 0, returns_map] at built
    obtain ⟨⟨_, cursor⟩, counted, rfl⟩ := built
    obtain rfl := Stack.cursor_of_buildTo running done counted
    rw [Nat.zero_add] at counted
    exact .inr ⟨_, g.diagnostics, marked, ofTokens_of_returns run,
      congrArg ("Template" :: ·) (Node.types_allSites nodes).symm, kept ▸ accounted,
      gathered ▸ within, gathered ▸ refused, g, counted⟩
  · exact .inl ⟨cause, _, ((Stack.build_bounded stop ⟨[], []⟩ tokens done start).2 _ _ failed).2,
      ofTokens_of_fails failed⟩

/-- Clauses outside of their block, a loop that the end of its conditional cuts short, a token of
an expression, an unknown tag and an end of nothing. -/
def scrambled : List Token :=
  let at_ (start : Nat) (text : String) (content : TokenContent) : Token :=
    ⟨text, ⟨start, start + 1, ⟨1, start + 1⟩⟩, content⟩
  let tag (start : Nat) (word : String) : Token := at_ start word (.opening ⟨"", none, []⟩ "")
  [tag 0 "else", tag 1 "if", tag 2 "elseif", tag 3 "for", tag 4 "elseif", at_ 5 "a" (.text .plain),
    at_ 6 "endif" (.closing ""), at_ 7 "| upper" (.stray .filter), tag 8 "unit",
    at_ 9 "endwhile" (.closing ""), at_ 10 "b" (.comment "")]

def ending : Token := ⟨"", ⟨11, 11, ⟨1, 12⟩⟩, .done⟩

theorem scrambled_conserved :
    ∃ tree diagnostics marked, Conserves 3 scrambled ending tree diagnostics marked := by
  have whole : ∀ token ∈ scrambled, ¬ token.Opens .extends := by
    simp only [scrambled, List.forall_mem_cons, Token.Opens, not_and]
    decide
  rcases @tokens_conserved 3 scrambled ending (by decide) rfl whole with
    ⟨cause, diagnostics, _, failed⟩ | conserved
  · have built : (ofTokens 3 (scrambled ++ [ending])).1.isOk = true := by cbv
    rw [failed] at built
    contradiction
  · exact conserved

end Tree

end Stencil
