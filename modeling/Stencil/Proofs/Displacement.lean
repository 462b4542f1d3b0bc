import Stencil.Proofs.Coverage
import Stencil.Proofs.Folding
import Stencil.Proofs.Writing

/-! Readings elsewhere. A piece that stands at another place has the same elements there, its lexemes
differ in their spans alone, and so does the expression that they are read to. What an expression
evaluates to does not depend on its spans. -/
namespace Stencil

/-! ### Matches at another place -/

namespace Markup

variable (base : Nat)

def Segment.displaced : Segment → Segment
  | .property name => .property (name.shift base)
  | .index inner => .index (inner.shift base)

def Detail.displaced : Detail → Detail
  | .captured pieces => .captured (Piece.shiftAll pieces base)
  | .filter name given arguments garbage =>
    .filter name given (Piece.shiftAll arguments base) garbage
  | .call name given arguments => .call name given (Piece.shiftAll arguments base)
  | .path name segments => .path name (segments.map (·.displaced base))

/-- The match with all of its parts further on. -/
def Match.displaced (m : Match) : Match :=
  { m with start := base + m.start, detail := m.detail.displaced base }

theorem Match.stop_displaced (m : Match) : (m.displaced base).stop = base + m.stop := by
  simp [Match.displaced, Match.stop, Nat.add_assoc]

theorem Match.capture_displaced (m : Match) (i : Nat) :
    (m.displaced base).capture i = m.capture i := by
  rw [Match.capture, Match.capture, Match.captures, Match.captures, Match.displaced]
  cases m.detail with
  | captured pieces =>
    simp only [Detail.displaced, Piece.shiftAll, List.getElem?_map, Option.map_map]
    rfl
  | _ => rfl

/-! ### Elements at another place -/

variable {text : List Char} {exclude : List (Nat × Nat)}

theorem scan_displaced (category : Category) :
    scan category text base exclude = (scan category text 0 exclude).map (·.displaced base) := by
  rw [scan, scan, scanWith, scanWith, List.map_map]
  refine List.map_congr_left fun m member => ?_
  obtain ⟨before, -, -, -, -, -, -, -, rfl⟩ := mem_scanFrom (List.mem_filter.mp member).1
  simp [Hit.toMatch, Match.shift, Match.displaced, Detail.displaced, Piece.shiftAll, Piece.shift]

theorem arguments_displaced (separator : Char) (place : Nat) :
    arguments separator text (base + place) =
      Piece.shiftAll (arguments separator text place) base := by
  rw [arguments, arguments, Piece.shiftAll, List.map_map]
  exact List.map_congr_left fun piece _ => by simp [Piece.shift, Nat.add_assoc]

theorem callMatch_displaced (head : Match) :
    callMatch? text base head = (callMatch? text 0 head).map (·.displaced base) := by
  unfold callMatch?
  dsimp only
  cases closing? text (head.stop - 1) with
  | none => rfl
  | some close =>
    simp only [Option.bind_eq_bind, Option.bind_some, Option.pure_def, Option.map_some,
      Match.displaced, Detail.displaced, ← arguments_displaced, Nat.zero_add, Nat.add_assoc]

theorem segmentsFrom_displaced (fuel offset : Nat) (text : List Char) :
    segmentsFrom base fuel offset text =
      ((segmentsFrom 0 fuel offset text).1.map (·.displaced base),
        (segmentsFrom 0 fuel offset text).2) := by
  fun_induction segmentsFrom 0 fuel offset text with
  | case1 fuel offset rest name empty =>
    rw [segmentsFrom, if_pos empty]
    rfl
  | case2 fuel offset rest name some more ih =>
    rw [segmentsFrom, if_neg some, ih, List.map_cons, Segment.displaced, Piece.shift, Nat.zero_add,
      ← Nat.add_assoc]
  | case3 fuel offset rest unclosed =>
    rw [segmentsFrom, unclosed]
    rfl
  | case4 fuel offset rest close closed inner more ih =>
    rw [segmentsFrom, closed]
    dsimp only
    rw [ih]
    simp only [List.map_cons, Segment.displaced, Piece.shift, Piece.trim, Nat.zero_add,
      Nat.add_assoc, inner]
    rfl
  | case5 fuel offset text point bracket =>
    rw [segmentsFrom]
    · rfl
    · exact point
    · exact bracket

theorem pathMatch_displaced (head : Match) :
    pathMatch? text base head = (pathMatch? text 0 head).map (·.displaced base) := by
  simp only [pathMatch?, segmentsFrom_displaced base]
  generalize segmentsFrom 0 _ _ _ = found
  cases found.1 with
  | nil => rfl
  | cons first rest => simp [Match.displaced, Detail.displaced]

theorem outermost_displaced {build : Nat → Match → Option Match}
    (moves : ∀ head, build base head = (build 0 head).map (·.displaced base)) (reached : Nat)
    (heads : List Match) : outermost (build base) base reached heads =
      (outermost (build 0) 0 reached heads).map (·.displaced base) := by
  induction heads generalizing reached with
  | nil => rfl
  | cons head rest ih =>
    rw [outermost, outermost, moves]
    split
    · exact ih reached
    · cases build 0 head with
      | none => exact ih reached
      | some m =>
        simp only [Option.map_some, List.map_cons, Match.stop_displaced, Nat.add_sub_cancel_left,
          Nat.sub_zero, ih]

theorem outerFirst_displaced (a b : Match) :
    (a.displaced base).outerFirst (b.displaced base) = a.outerFirst b := by
  rw [Bool.eq_iff_iff, Notation.outerFirst_iff, Notation.outerFirst_iff, Match.stop_displaced,
    Match.stop_displaced]
  simp only [Match.displaced]
  omega

theorem elements_displaced :
    elements text base = (elements text 0).map (·.displaced base) := by
  have nested := List.map_mergeSort (f := (·.displaced base)) (r := Match.outerFirst)
    (s := Match.outerFirst) (l := scan .string text 0 [] ++ calls text 0 (protectedIntervals text) ++
      paths text 0 (protectedIntervals text)) fun a _ b _ => (outerFirst_displaced base a b).symm
  have found : scan .string text base [] ++ calls text base (protectedIntervals text) ++
      paths text base (protectedIntervals text) = (scan .string text 0 [] ++
        calls text 0 (protectedIntervals text) ++ paths text 0 (protectedIntervals text)).map
          (·.displaced base) := by
    rw [calls, paths, calls, paths, List.map_append, List.map_append, ← scan_displaced,
      outermost_displaced base (callMatch_displaced base),
      outermost_displaced base (pathMatch_displaced base)]
  simp only [elements, List.map_append, nested, found, List.map_flatMap, ← scan_displaced]

end Markup

namespace Lexeme
open Markup

theorem overlaps_displaced (base : Nat) (a b : Match) :
    overlaps (a.displaced base) (b.displaced base) = overlaps a b := by
  rw [Bool.eq_iff_iff]
  simp only [overlaps, Bool.and_eq_true, decide_eq_true_eq, Match.stop_displaced]
  simp only [Match.displaced]
  omega

theorem claim_displaced (base : Nat) (claimed candidates : List Match) :
    claim (claimed.map (·.displaced base)) (candidates.map (·.displaced base)) =
      (claim claimed candidates).map (·.displaced base) := by
  induction candidates generalizing claimed with
  | nil => rfl
  | cons m rest ih =>
    have taken : (claimed.map (·.displaced base)).any (overlaps (m.displaced base)) =
        claimed.any (overlaps m) := by
      rw [List.any_map]
      exact congrArg claimed.any (funext fun other => overlaps_displaced base m other)
    rw [List.map_cons, claim, claim, taken, ← ih]
    split
    · rfl
    · rw [List.map_append, List.map_singleton]

theorem unclaimed_displaced (base offset : Nat) (found : List Match) (text : List Char) :
    unclaimed (found.map (·.displaced base)) (base + offset) text =
      (unclaimed found offset text).map fun left => (base + left.1, left.2) := by
  have covered (place : Nat) : inside (base + place) ((found.map (·.displaced base)).map interval) =
      inside place (found.map interval) := by
    rw [inside, inside, List.map_map, List.any_map, List.any_map]
    refine congrArg found.any (funext fun m => ?_)
    change (decide (base + m.start ≤ base + place) &&
      decide (base + place < (m.displaced base).stop)) =
        (decide (m.start ≤ place) && decide (place < m.stop))
    rw [Match.stop_displaced]
    simp
  induction text generalizing offset with
  | nil => rfl
  | cons c text ih =>
    rw [unclaimed, unclaimed, covered, Nat.add_assoc, ih]
    split
    · rfl
    · rw [List.map_cons]

/-- The elements that find a place are the same wherever a piece stands. -/
theorem selected_displaced (text : List Char) (base : Nat) :
    selected ⟨text, base⟩ = (selected ⟨text, 0⟩).map (·.displaced base) := by
  have claimed := claim_displaced base [] (elements text 0)
  rw [← elements_displaced, List.map_nil] at claimed
  simp only [selected, claimed]
  refine (List.map_mergeSort fun a _ b _ => ?_).symm
  simp [Match.displaced]

end Lexeme

/-! ### Lexemes at another place -/

mutual
/-- The lexeme without its spans. -/
def Lexeme.bare : Lexeme → Lexeme
  | .literal _ text value => .literal ⟨0, 0, ⟨1, 1⟩⟩ text value
  | .operator _ op => .operator ⟨0, 0, ⟨1, 1⟩⟩ op
  | .name _ word => .name ⟨0, 0, ⟨1, 1⟩⟩ word
  | .path _ text base steps => .path ⟨0, 0, ⟨1, 1⟩⟩ text base (PathStep.allBare steps)
  | .call _ text callee args => .call ⟨0, 0, ⟨1, 1⟩⟩ text callee (Lexeme.rowsBare args)
def Lexeme.allBare : List Lexeme → List Lexeme
  | [] => []
  | lexeme :: rest => lexeme.bare :: Lexeme.allBare rest
def Lexeme.rowsBare : List (List Lexeme) → List (List Lexeme)
  | [] => []
  | row :: rest => Lexeme.allBare row :: Lexeme.rowsBare rest
def PathStep.allBare : List PathStep → List PathStep
  | [] => []
  | .property key :: rest => .property key :: PathStep.allBare rest
  | .index inner :: rest => .index (Lexeme.allBare inner) :: PathStep.allBare rest
end

/-- Lexemes that differ in their spans alone. -/
def Lexeme.SameRow (row other : List Lexeme) : Prop := Lexeme.allBare row = Lexeme.allBare other

inductive PathStep.Same : PathStep → PathStep → Prop
  | property (key : String) : PathStep.Same (.property key) (.property key)
  | index {inner other : List Lexeme} (same : Lexeme.SameRow inner other) :
      PathStep.Same (.index inner) (.index other)

namespace Lexeme
open Markup

theorem allBare_eq_map (row : List Lexeme) : allBare row = row.map bare := by
  induction row with
  | nil => rfl
  | cons lexeme rest ih => rw [allBare, ih, List.map_cons]

theorem sameRow_iff {row other : List Lexeme} :
    SameRow row other ↔ List.Forall₂ (fun a b => a.bare = b.bare) row other := by
  rw [SameRow, allBare_eq_map, allBare_eq_map, ← List.forall₂_eq_eq_eq, List.forall₂_map_left_iff,
    List.forall₂_map_right_iff]

theorem rowsBare_eq_map (rows : List (List Lexeme)) : rowsBare rows = rows.map allBare := by
  induction rows with
  | nil => rfl
  | cons row rest ih => rw [rowsBare, ih, List.map_cons]

theorem sameRows_iff {rows others : List (List Lexeme)} :
    rowsBare rows = rowsBare others ↔ List.Forall₂ SameRow rows others := by
  rw [rowsBare_eq_map, rowsBare_eq_map, ← List.forall₂_eq_eq_eq, List.forall₂_map_left_iff,
    List.forall₂_map_right_iff]
  rfl

theorem sameSteps_iff {steps others : List PathStep} :
    PathStep.allBare steps = PathStep.allBare others ↔ List.Forall₂ PathStep.Same steps others := by
  constructor
  · intro same
    induction steps generalizing others with
    | nil =>
      cases others with
      | nil => exact .nil
      | cons step more => cases step <;> cases same
    | cons step rest ih =>
      cases others with
      | nil => cases step <;> cases same
      | cons other more =>
        cases step with
        | property key =>
          cases other with
          | property key' =>
            obtain ⟨here, later⟩ := List.cons.inj same
            exact .cons (PathStep.property.inj here ▸ .property key) (ih later)
          | index inner => cases (List.cons.inj same).1
        | index inner =>
          cases other with
          | property key' => cases (List.cons.inj same).1
          | index inner' =>
            obtain ⟨here, later⟩ := List.cons.inj same
            exact .cons (.index (PathStep.index.inj here)) (ih later)
  · intro same
    induction same with
    | nil => rfl
    | cons here _ ih =>
      cases here with
      | property key => rw [PathStep.allBare, PathStep.allBare, ih]
      | index same => rw [PathStep.allBare, PathStep.allBare, same, ih]

theorem isOperator_bare (lexeme : Lexeme) : lexeme.bare.isOperator = lexeme.isOperator := by
  cases lexeme <;> rfl

theorem foldNegatives_bare (operand : Bool) (row : List Lexeme) :
    allBare (foldNegatives operand row) = foldNegatives operand (allBare row) := by
  fun_induction foldNegatives operand row with
  | case1 => rfl
  | case2 operand minus span text n rest folded ih =>
    rw [allBare_eq_map] at ih ⊢
    rw [List.map_append, ih]
    cases operand <;> rfl
  | case3 operand first rest plain ih =>
    rw [allBare, allBare, ih, foldNegatives, isOperator_bare]
    intro minus span text n later sign number
    cases first with
    | operator place op =>
      obtain ⟨-, rfl⟩ := operator.inj sign
      cases rest with
      | nil => cases number
      | cons head tail =>
        obtain ⟨shown, -⟩ := List.cons.inj number
        cases head with
        | literal place' text' value =>
          obtain ⟨-, -, rfl⟩ := literal.inj shown
          exact plain place place' text' n tail rfl rfl
        | _ => cases shown
    | _ => cases sign

end Lexeme

/-! ### Readings side by side -/

theorem mirrors_mapM_forall₂ {ε σ τ α β γ δ : Type} {lenient : Prop} {states : σ → τ → Prop}
    {results : α → β → Prop} {f : γ → ExceptT ε (StateM σ) α} {g : δ → ExceptT ε (StateM τ) β}
    {items : List γ} {others : List δ}
    (each : List.Forall₂ (fun item other => Mirrors lenient states results (f item) (g other))
      items others) :
    Mirrors lenient states (List.Forall₂ results) (items.mapM f) (others.mapM g) := by
  induction each with
  | nil => exact mirrors_pure .nil
  | cons here _ ih =>
    rw [List.mapM_cons, List.mapM_cons]
    exact here.bind fun a b same => ih.bind fun as bs alike => mirrors_pure (.cons same alike)

/-- What a problem says, wherever it is. -/
def Problem.said (problem : Problem) : DiagnosticKind × String := (problem.kind, problem.message)

def Diagnostic.said (diagnostic : Diagnostic) : DiagnosticKind × String :=
  (diagnostic.kind, diagnostic.message)

def SameProblems (problems others : List Problem) : Prop :=
  problems.map Problem.said = others.map Problem.said

def Gathered.SameReports (g other : Gathered) : Prop :=
  g.diagnostics.map Diagnostic.said = other.diagnostics.map Diagnostic.said

namespace Lexeme
open Markup

/-- Readings of lexemes that do the same but for spans and the places of problems. -/
def Copies {α β : Type} (results : α → β → Prop) (first : Lexing α) (second : Lexing β) : Prop :=
  Mirrors False SameProblems results first second

section Copies

variable {lines lines' : Option Text.Lines} {inner inner' : Piece → Lexing (List Lexeme)}

theorem said_reports (text : List Char) (start : Nat) (found : List Match) :
    (reports ⟨text, start⟩ (found.map (·.displaced start))).map Problem.said =
      (reports ⟨text, 0⟩ found).map Problem.said := by
  have left : unclaimed (found.map (·.displaced start)) start text = _ :=
    unclaimed_displaced start 0 found text
  rw [reports, reports, left, List.map_map, List.map_map, List.map_map]
  rfl

theorem reportUnclaimed_copies (text : List Char) (start start' : Nat) (found : List Match) :
    Copies Eq (reportUnclaimed ⟨text, start⟩ (found.map (·.displaced start)))
      (reportUnclaimed ⟨text, start'⟩ (found.map (·.displaced start'))) := by
  intro s t same
  refine .inl ⟨⟨⟩, _, ⟨⟩, _, reportUnclaimed_returns _ _ s, reportUnclaimed_returns _ _ t, rfl, ?_⟩
  rw [SameProblems, List.map_append, List.map_append, same, said_reports, said_reports]

/-- The inner readings do the same with pieces of the same text. -/
def CopiesAnywhere (inner inner' : Piece → Lexing (List Lexeme)) : Prop :=
  ∀ text start start', Copies SameRow (inner ⟨text, start⟩) (inner' ⟨text, start'⟩)

theorem pieces_copied (copies : CopiesAnywhere inner inner') (base base' : Nat) (pieces : List Piece) :
    Copies (List.Forall₂ SameRow) ((Piece.shiftAll pieces base).mapM inner)
      ((Piece.shiftAll pieces base').mapM inner') := by
  refine mirrors_mapM_forall₂ ?_
  rw [Piece.shiftAll, Piece.shiftAll, List.forall₂_map_left_iff, List.forall₂_map_right_iff,
    List.forall₂_same]
  exact fun piece _ => copies piece.text _ _

def stepOf (inner : Piece → Lexing (List Lexeme)) : Segment → Lexing PathStep
  | .property piece => return .property (String.ofList piece.text)
  | .index piece => return .index (← inner piece)

theorem ofElement_path (inner : Piece → Lexing (List Lexeme)) (span : Span) (category : Category)
    (text : List Char) (start : Nat) (base : List Char) (segments : List Segment) :
    ofElement inner span ⟨category, text, start, .path base segments⟩ = do
      let steps ← segments.mapM (stepOf inner)
      return .path span (String.ofList text) (String.ofList base) steps := by
  rw [ofElement]
  rfl

theorem segments_copied (copies : CopiesAnywhere inner inner') (base base' : Nat)
    (segments : List Segment) :
    Copies (List.Forall₂ PathStep.Same) ((segments.map (·.displaced base)).mapM (stepOf inner))
      ((segments.map (·.displaced base')).mapM (stepOf inner')) := by
  refine mirrors_mapM_forall₂ ?_
  rw [List.forall₂_map_left_iff, List.forall₂_map_right_iff, List.forall₂_same]
  intro segment _
  cases segment with
  | property name => exact mirrors_pure (.property _)
  | index piece =>
    exact (copies piece.text _ _).bind fun row other same => mirrors_pure (.index same)

theorem ofElement_copies (copies : CopiesAnywhere inner inner') (span span' : Span) (m : Match)
    (base base' : Nat) :
    Copies (fun a b => a.bare = b.bare) (ofElement inner span (m.displaced base))
      (ofElement inner' span' (m.displaced base')) := by
  have capture (i : Nat) : (m.displaced base').capture i = (m.displaced base).capture i := by
    rw [Match.capture_displaced, Match.capture_displaced]
  obtain ⟨category, text, start, detail⟩ := m
  cases detail with
  | call callee given arguments =>
    exact (pieces_copied copies base base' arguments).bind fun rows others same =>
      mirrors_pure (by simp only [bare, sameRows_iff.mpr same, Match.displaced])
  | path name segments =>
    rw [Match.displaced, Match.displaced, Detail.displaced, Detail.displaced, ofElement_path,
      ofElement_path]
    exact (segments_copied copies base base' segments).bind fun steps others same =>
      mirrors_pure (by rw [bare, bare, sameSteps_iff.mpr same])
  | captured | filter =>
    cases category with
    | string => exact mirrors_pure (by simp only [bare, capture]; rfl)
    | number => exact (mirrors_lift (Accord.refl _)).bind_eq fun n => mirrors_pure rfl
    | operator =>
      refine mirrors_pure ?_
      simp only [Match.displaced]
      cases Operator.ofSymbol? (String.ofList text) <;> rfl
    | _ => exact mirrors_pure rfl

/-- A piece is read to the same lexemes wherever it stands. -/
theorem readWithin_copies (fuel : Nat) :
    CopiesAnywhere (readWithin lines fuel) (readWithin lines' fuel) := by
  induction fuel with
  | zero => exact fun text start start' => mirrors_pure rfl
  | succ fuel ih =>
    intro text start start'
    -- Both are compared with the same text at offset zero.
    rw [readWithin, readWithin, selected_displaced text start, selected_displaced text start']
    refine Mirrors.bind (reportUnclaimed_copies text start start' _) fun _ _ _ => ?_
    have elements : Copies (List.Forall₂ fun a b => a.bare = b.bare)
        (((selected ⟨text, 0⟩).map (·.displaced start)).mapM fun m =>
          ofElement (readWithin lines fuel) (.locate lines m.start m.stop) m)
        (((selected ⟨text, 0⟩).map (·.displaced start')).mapM fun m =>
          ofElement (readWithin lines' fuel) (.locate lines' m.start m.stop) m) := by
      refine mirrors_mapM_forall₂ ?_
      rw [List.forall₂_map_left_iff, List.forall₂_map_right_iff, List.forall₂_same]
      exact fun m _ => ofElement_copies ih _ _ m start start'
    refine elements.bind fun row other same => mirrors_pure ?_
    rw [SameRow, foldNegatives_bare, foldNegatives_bare, sameRow_iff.mpr same]

end Copies
end Lexeme

/-! ### Expressions at another place -/

namespace Expression
open TreeReading Lexeme

def Split.bare (split : Split) : Split :=
  ⟨allBare split.left, ⟨0, 0, ⟨1, 1⟩⟩, split.op, allBare split.right⟩

theorem splits_bare (before row : List Lexeme) :
    splits (allBare before) (allBare row) = (splits before row).map Split.bare := by
  induction row generalizing before with
  | nil => rfl
  | cons first rest ih =>
    have further := ih (first :: before)
    cases first with
    | operator span op =>
      have signs : (allBare before).head?.all (·.isOperator) = before.head?.all (·.isOperator) := by
        cases before with
        | nil => rfl
        | cons last more => exact isOperator_bare last
      have back : (allBare before).reverse = allBare before.reverse := by
        rw [allBare_eq_map, allBare_eq_map, List.map_reverse]
      rw [allBare, bare] at further
      rw [allBare, bare, splits, splits, further, signs, back]
      split <;> rfl
    | _ => exact further

theorem loosest_bare (found : List Split) :
    loosest (found.map Split.bare) = (loosest found).map Split.bare := by
  induction found with
  | nil => rfl
  | cons split rest ih =>
    rw [List.map_cons, loosest, loosest, ih]
    cases loosest rest with
    | none => rfl
    | some other =>
      by_cases looser : other.op.precedence < split.op.precedence <;> simp [Split.bare, looser]

theorem splitAt?_bare (floor : Nat) (row : List Lexeme) :
    splitAt? floor (allBare row) = (splitAt? floor row).map Split.bare := by
  have all : splits [] (allBare row) = (splits [] row).map Split.bare := splits_bare [] row
  rw [splitAt?, splitAt?, all, List.filter_map, loosest_bare]
  rfl

/-- Where the first reading returns, the second returns an expression of the same term. -/
def Follows (first second : TreeReading Expression) : Prop :=
  Mirrors True Gathered.SameReports (fun e e' => e.term = e'.term) first second

variable {inner inner' : List Lexeme → TreeReading Expression} {row other : List Lexeme}

def FollowsAnywhere (inner inner' : List Lexeme → TreeReading Expression) : Prop :=
  ∀ {row other : List Lexeme}, SameRow row other → Follows (inner row) (inner' other)

theorem follows_after {first first' : TreeReading PUnit} {second second' : TreeReading Expression}
    (here : Mirrors True Gathered.SameReports Eq first first') (follows : Follows second second') :
    Follows (first >>= fun _ => second) (first' >>= fun _ => second') :=
  here.bind fun _ _ _ => follows

theorem report_mirrors (kind : DiagnosticKind) (message : String) (span span' : Span) :
    Mirrors True Gathered.SameReports Eq (report kind message span) (report kind message span') :=
  mirrors_modify fun g g' same => by
    rw [Gathered.SameReports, List.map_append, List.map_append, same]
    rfl

theorem text_bare (lexeme : Lexeme) : lexeme.bare.text = lexeme.text := by
  cases lexeme <;> rfl

theorem reportUnexpected_mirrors {lexeme lexeme' : Lexeme} (same : lexeme.bare = lexeme'.bare) :
    Mirrors True Gathered.SameReports Eq (reportUnexpected lexeme) (reportUnexpected lexeme') := by
  rw [reportUnexpected, reportUnexpected, ← text_bare, same, text_bare]
  exact report_mirrors _ _ _ _

theorem ofSteps_follows (follows : FollowsAnywhere inner inner') (span span' : Span)
    {steps others : List PathStep} (same : List.Forall₂ PathStep.Same steps others)
    {object object' : Expression} (alike : object.term = object'.term) :
    Follows (ofSteps inner span object steps) (ofSteps inner' span' object' others) := by
  induction same generalizing object object' with
  | nil => exact mirrors_pure alike
  | cons here _ ih =>
    cases here with
    | property key => exact ih (by rw [term, term, alike])
    | index same =>
      exact (follows same).bind fun e e' equal => ih (by rw [term, term, alike, equal])

theorem isEmpty_of_sameRow (same : SameRow row other) : row.isEmpty = other.isEmpty := by
  cases row <;> cases other <;> first | rfl | cases same

theorem ofArguments_follows (follows : FollowsAnywhere inner inner') {rows others : List (List Lexeme)}
    (same : List.Forall₂ SameRow rows others) :
    Mirrors True Gathered.SameReports (List.Forall₂ fun e e' => e.term = e'.term)
      (ofArguments inner rows) (ofArguments inner' others) := by
  refine mirrors_mapM_forall₂ ?_
  induction same with
  | nil => exact .nil
  | @cons row other rows others here later ih =>
    rw [List.filter_cons, List.filter_cons, isEmpty_of_sameRow here]
    split
    · exact .cons (follows here) ih
    · exact ih

theorem terms_of_forall₂ {es es' : List Expression}
    (same : List.Forall₂ (fun e e' => e.term = e'.term) es es') : terms es = terms es' := by
  induction same with
  | nil => rfl
  | cons here _ ih => rw [terms, terms, here, ih]

theorem ofLexeme_follows (follows : FollowsAnywhere inner inner') {lexeme lexeme' : Lexeme}
    (same : lexeme.bare = lexeme'.bare) : Follows (ofLexeme inner lexeme) (ofLexeme inner' lexeme') := by
  have named (word word' : String) :
      Mirrors True Gathered.SameReports Eq (noteVariable word) (noteVariable word') :=
    mirrors_modify fun _ _ reports => reports
  have called (name name' : String) :
      Mirrors True Gathered.SameReports Eq (noteFunction name) (noteFunction name') :=
    mirrors_modify fun _ _ reports => reports
  cases lexeme with
  | literal span text value =>
    cases lexeme' with
    | literal span' text' value' =>
      cases same
      exact mirrors_pure rfl
    | _ => cases same
  | operator span op =>
    cases lexeme' with
    | operator span' op' => exact follows_after (reportUnexpected_mirrors same) (mirrors_pure rfl)
    | _ => cases same
  | name span word =>
    cases lexeme' with
    | name span' word' =>
      cases same
      exact follows_after (named _ _) (mirrors_pure rfl)
    | _ => cases same
  | path span text base steps =>
    cases lexeme' with
    | path span' text' base' others =>
      obtain ⟨-, rfl, rfl, alike⟩ := Lexeme.path.inj same
      exact follows_after (named _ _)
        (ofSteps_follows follows span span' (sameSteps_iff.mp alike) rfl)
    | _ => cases same
  | call span text callee args =>
    cases lexeme' with
    | call span' text' callee' others =>
      obtain ⟨-, rfl, rfl, alike⟩ := Lexeme.call.inj same
      have given := ofArguments_follows follows (sameRows_iff.mp alike)
      exact follows_after (called _ _)
        (given.bind fun es es' equal => mirrors_pure (by rw [term, term, terms_of_forall₂ equal]))
    | _ => cases same

theorem isCall_bare (lexeme : Lexeme) : isCall lexeme.bare = isCall lexeme := by
  cases lexeme <;> rfl

theorem isCall_of_bare {lexeme lexeme' : Lexeme} (same : lexeme.bare = lexeme'.bare) :
    isCall lexeme = isCall lexeme' := by
  rw [← isCall_bare, same, isCall_bare]

theorem ofRun_follows (follows : FollowsAnywhere inner inner') {first first' : Lexeme}
    (here : first.bare = first'.bare) (later : SameRow row other) :
    Follows (ofRun inner first row) (ofRun inner' first' other) := by
  have next : Mirrors True Gathered.SameReports Eq (row.head?.forM reportUnexpected)
      (other.head?.forM reportUnexpected) := by
    cases row with
    | nil =>
      cases other with
      | nil => exact mirrors_pure rfl
      | cons => cases later
    | cons lexeme more =>
      cases other with
      | nil => cases later
      | cons lexeme' more' => exact reportUnexpected_mirrors (List.cons.inj later).1
  have callee : Option.Rel (fun a b => a.bare = b.bare) (row.find? isCall) (other.find? isCall) := by
    have alike := sameRow_iff.mp later
    clear later next
    induction alike with
    | nil => exact .none
    | cons same _ ih =>
      rw [List.find?_cons, List.find?_cons, isCall_of_bare same]
      split
      · exact .some same
      · exact ih
  rw [ofRun, ofRun, isCall_of_bare here]
  split
  · exact follows_after next (ofLexeme_follows follows here)
  · generalize row.find? isCall = chosen at callee ⊢
    generalize other.find? isCall = chosen' at callee ⊢
    cases callee with
    | none => exact follows_after next (ofLexeme_follows follows here)
    | some same => exact follows_after (reportUnexpected_mirrors here) (ofLexeme_follows follows same)

section Split

variable {split split' : Split} {before before' after after' : TreeReading Expression}

theorem missing_mirrors (side : String) (same : split.bare = split'.bare) :
    Mirrors True Gathered.SameReports Eq (missing side split) (missing side split') := by
  rw [missing, missing, (Split.mk.inj same).2.2.1]
  exact report_mirrors _ _ _ _

theorem joined_follows (behind : Follows after after') (same : split.bare = split'.bare)
    {left left' : Expression} (alike : left.term = left'.term) :
    Follows (joined split left after) (joined split' left' after') := by
  obtain ⟨-, -, op, right⟩ := Split.mk.inj same
  have last : Follows (do return .binary split.span split.op left (← after))
      (do return .binary split'.span split'.op left' (← after')) :=
    behind.bind fun e e' same => mirrors_pure (by rw [term, term, op, alike, same])
  unfold joined
  rw [isEmpty_of_sameRow right]
  split
  · exact follows_after (missing_mirrors _ same) last
  · exact last

theorem ofSplit_follows (here : Follows before before') (behind : Follows after after')
    (same : split.bare = split'.bare) :
    Follows (ofSplit split before after) (ofSplit split' before' after') := by
  have null : Follows (pure (.literal (some split.span) .null))
      (pure (.literal (some split'.span) .null)) := mirrors_pure rfl
  obtain ⟨left, -⟩ := Split.mk.inj same
  unfold ofSplit
  rw [isEmpty_of_sameRow left]
  split
  · exact follows_after (missing_mirrors _ same)
      (null.bind fun e e' alike => joined_follows behind same alike)
  · exact here.bind fun e e' alike => joined_follows behind same alike

end Split

theorem ofUnsplit_follows (follows : FollowsAnywhere inner inner')
    {behind behind' : TreeReading Expression} (later : Follows behind behind')
    {first first' : Lexeme} (here : first.bare = first'.bare) {rest rest' : List Lexeme}
    (same : SameRow rest rest') :
    Follows (ofUnsplit inner behind rest first) (ofUnsplit inner' behind' rest' first') := by
  have run : Follows (ofRun inner first rest) (ofRun inner' first' rest') :=
    ofRun_follows follows here same
  cases first with
  | operator span op =>
    cases first' with
    | operator span' op' =>
      obtain ⟨-, rfl⟩ := Lexeme.operator.inj here
      cases op with
      | sub => exact later.bind fun e e' same => mirrors_pure (by rw [term, term, same]; rfl)
      | _ => exact run
    | _ => cases here
  | _ =>
    cases first' with
    | operator => cases here
    | _ => exact run

/-- Lexemes are read to the same term wherever they stand. -/
theorem read_follows (limit limit' room : Nat) {floor : Nat} (same : SameRow row other) :
    Follows (read limit room floor row) (read limit' room floor other) := by
  -- Both readings use up the room in the same way; the limits show in reports of depth alone.
  induction room generalizing floor row other with
  | zero =>
    cases row with
    | nil =>
      cases other with
      | nil => exact mirrors_pure rfl
      | cons => cases same
    | cons first rest =>
      cases other with
      | nil => cases same
      | cons => exact mirrors_of_fails trivial (tooDeep_fails limit first.span)
  | succ room ih =>
    cases row with
    | nil =>
      cases other with
      | nil => exact mirrors_pure rfl
      | cons => cases same
    | cons first rest =>
      cases other with
      | nil => cases same
      | cons first' rest' =>
        obtain ⟨here, later⟩ := List.cons.inj same
        have chosen : (splitAt? floor (first :: rest)).map Split.bare =
            (splitAt? floor (first' :: rest')).map Split.bare := by
          rw [← splitAt?_bare, ← splitAt?_bare, same]
        rw [read_cons, read_cons, isEmpty_of_sameRow later]
        split
        · exact ofLexeme_follows ih here
        · generalize splitAt? floor (first :: rest) = split at chosen ⊢
          generalize splitAt? floor (first' :: rest') = split' at chosen ⊢
          cases split with
          | some split =>
            cases split' with
            | none => cases chosen
            | some split' =>
              have alike := Option.some.inj chosen
              obtain ⟨before, -, op, after⟩ := Split.mk.inj alike
              dsimp only
              rw [op]
              exact ofSplit_follows (ih before) (ih after) alike
          | none =>
            cases split' with
            | some split' => cases chosen
            | none => exact ofUnsplit_follows ih (ih later) here later

/-! ### Values -/

/-- The name that a path starts from does not depend on its places. -/
theorem root?_of_term : (e e' : Expression) → e.term = e'.term → e.root? = e'.root?
  | .name _ word, e', same => by
    cases e' with
    | name _ word' =>
      cases same
      rfl
    | _ => cases same
  | .property _ object _, e', same => by
    cases e' with
    | property _ object' _ => exact root?_of_term object object' (Notation.Term.property.inj same).1
    | _ => cases same
  | .element _ array _, e', same => by
    cases e' with
    | element _ array' _ => exact root?_of_term array array' (Notation.Term.element.inj same).1
    | _ => cases same
  | .literal .., e', same | .binary .., e', same | .call .., e', same => by
    cases e' <;> first | rfl | cases same

mutual
/-- What an expression evaluates to does not depend on its places. -/
theorem sameValue_of_term : (e e' : Expression) → e.term = e'.term → SameValue e e'
  | .literal _ value, e', same => by
    cases e' with
    | literal _ value' =>
      cases same
      exact fun _ _ => rfl
    | _ => cases same
  | .name _ word, e', same => by
    cases e' with
    | name _ word' =>
      cases same
      exact fun _ _ => rfl
    | _ => cases same
  | .property _ object key, e', same => by
    cases e' with
    | property _ object' key' =>
      obtain ⟨inside, rfl⟩ := Notation.Term.property.inj same
      intro σ setting
      rw [evaluate, evaluate, sameValue_of_term object object' inside, standing, standing,
        root?_of_term object object' inside]
    | _ => cases same
  | .element _ array index, e', same => by
    cases e' with
    | element _ array' index' =>
      obtain ⟨inside, place⟩ := Notation.Term.element.inj same
      intro σ setting
      rw [evaluate, evaluate, sameValue_of_term array array' inside,
        sameValue_of_term index index' place]
    | _ => cases same
  | .binary _ op left right, e', same => by
    cases e' with
    | binary span op' left' right' =>
      obtain ⟨rfl, first, second⟩ := Notation.Term.binary.inj same
      exact SameValue.binary span op (sameValue_of_term left left' first)
        (sameValue_of_term right right' second)
    | _ => cases same
  | .call _ callee args, e', same => by
    cases e' with
    | call _ callee' args' =>
      obtain ⟨rfl, given⟩ := Notation.Term.call.inj same
      intro σ setting
      rw [evaluate, evaluate, evaluateAll_of_terms args args' given]
    | _ => cases same
theorem evaluateAll_of_terms {σ : Type} {setting : Setting σ} :
    (es es' : List Expression) → terms es = terms es' →
      evaluateAll setting es = evaluateAll setting es'
  | [], es', same => by
    cases es' with
    | nil => rfl
    | cons => cases same
  | e :: es, es', same => by
    cases es' with
    | nil => cases same
    | cons e' es' =>
      obtain ⟨here, later⟩ := List.cons.inj same
      rw [evaluateAll, evaluateAll, sameValue_of_term e e' here, evaluateAll_of_terms es es' later]
end

end Expression
end Stencil
