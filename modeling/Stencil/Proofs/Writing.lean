import Stencil.Proofs.Nesting
import Stencil.Proofs.Readings

/-! What readings write. A reading never asks for what was reported or noted before: from every
state it does the same and puts the same entries behind the others. -/
namespace Stencil

variable {ε σ α β δ : Type}

/-- From every state the reading has the same result and writes the same entries. -/
def Writes (write : σ → δ → σ) (reading : ExceptT ε (StateM σ) α) : Prop :=
  ∃ result entries, ∀ s, reading.run.run s = (result, List.foldl write s entries)

section Writes

variable {write : σ → δ → σ} {reading : ExceptT ε (StateM σ) α} {next : α → ExceptT ε (StateM σ) β}

theorem writes_pure (a : α) : Writes write (pure a : ExceptT ε (StateM σ) α) :=
  ⟨.ok a, [], fun _ => rfl⟩

theorem writes_throw (e : ε) : Writes write (throw e : ExceptT ε (StateM σ) α) :=
  ⟨.error e, [], fun _ => rfl⟩

theorem writes_lift (result : Except ε α) :
    Writes write (liftM result : ExceptT ε (StateM σ) α) := by
  cases result with
  | error e => exact writes_throw e
  | ok a => exact writes_pure a

theorem writes_entry (entry : δ) :
    Writes write (modify fun s => write s entry : ExceptT ε (StateM σ) PUnit) :=
  ⟨.ok ⟨⟩, [entry], fun _ => rfl⟩

theorem writes_bind (first : Writes write reading) (later : ∀ a, Writes write (next a)) :
    Writes write (reading >>= next) := by
  obtain ⟨result, entries, run⟩ := first
  cases result with
  | error e => exact ⟨.error e, entries, fun s => by rw [run_bind, run]⟩
  | ok a =>
    obtain ⟨result, more, goes⟩ := later a
    exact ⟨result, entries ++ more, fun s => by rw [run_bind, run, List.foldl_append, ← goes]⟩

theorem writes_mapM {f : β → ExceptT ε (StateM σ) α} (items : List β)
    (each : ∀ item ∈ items, Writes write (f item)) : Writes write (items.mapM f) := by
  induction items with
  | nil => exact writes_pure []
  | cons item rest ih =>
    rw [List.mapM_cons]
    refine writes_bind (each item List.mem_cons_self) fun a => ?_
    have others := ih fun other member => each other (List.mem_cons_of_mem _ member)
    exact writes_bind others fun _ => writes_pure _

theorem writes_forM {f : β → ExceptT ε (StateM σ) PUnit} (items : List β)
    (each : ∀ item ∈ items, Writes write (f item)) : Writes write (items.forM f) := by
  induction items with
  | nil => exact writes_pure PUnit.unit
  | cons item rest ih =>
    change Writes write (f item >>= fun _ => rest.forM f)
    exact writes_bind (each item List.mem_cons_self) fun _ =>
      ih fun other member => each other (List.mem_cons_of_mem _ member)

/-- What is returned from one state is returned from any other one. -/
theorem Writes.returns (writes : Writes write reading) {s s' : σ} {a : α}
    (run : Returns reading s a s') :
    ∃ entries : List δ, s' = entries.foldl write s ∧
      ∀ t, Returns reading t a (entries.foldl write t) := by
  obtain ⟨result, entries, goes⟩ := writes
  cases (goes s).symm.trans run
  exact ⟨entries, rfl, goes⟩

end Writes

/-! ### Lexemes -/

namespace Lexeme
open Markup

/-- A further problem. -/
def addProblem (problems : List Problem) (problem : Problem) : List Problem :=
  problems ++ [problem]

theorem foldl_addProblem (problems more : List Problem) :
    more.foldl addProblem problems = problems ++ more := by
  induction more generalizing problems with
  | nil => exact (List.append_nil _).symm
  | cons first rest ih =>
    rw [List.foldl_cons, ih, addProblem, List.append_assoc, List.singleton_append]

variable {inner : Piece → Lexing (List Lexeme)}

theorem report_writes (kind : DiagnosticKind) (message : String) (offset : Nat) :
    Writes addProblem (Lexing.report kind message offset) :=
  writes_entry _

theorem ofElement_writes (writes : ∀ piece, Writes addProblem (inner piece)) (span : Span)
    (m : Match) : Writes addProblem (ofElement inner span m) := by
  unfold ofElement
  dsimp only
  split
  · exact writes_bind (writes_mapM _ fun piece _ => writes piece) fun _ => writes_pure _
  · refine writes_bind (writes_mapM _ fun segment _ => ?_) fun _ => writes_pure _
    cases segment with
    | property piece => exact writes_pure _
    | index piece => exact writes_bind (writes piece) fun _ => writes_pure _
  · split
    · exact writes_pure _
    · exact writes_bind (writes_lift _) fun _ => writes_pure _
    · exact writes_pure _
    · exact writes_pure _
    · exact writes_pure _

theorem readWithin_writes (lines : Option Text.Lines) (fuel : Nat) (piece : Piece) :
    Writes addProblem (readWithin lines fuel piece) := by
  induction fuel generalizing piece with
  | zero => exact writes_pure _
  | succ fuel ih =>
    refine writes_bind (writes_forM _ fun _ _ => report_writes _ _ _) fun _ => ?_
    exact writes_bind (writes_mapM _ fun m _ => ofElement_writes ih _ m) fun _ => writes_pure _

/-- A reading that writes problems puts them behind the earlier ones. -/
theorem returns_behind {α : Type} {reading : Lexing α} (writes : Writes addProblem reading)
    {problems later : List Problem} {a : α} (run : Returns reading problems a later) :
    ∃ more, later = problems ++ more ∧ Returns reading [] a more := by
  obtain ⟨more, rfl, from_⟩ := writes.returns run
  exact ⟨more, foldl_addProblem _ _, by simpa [foldl_addProblem] using from_ []⟩

end Lexeme

/-! ### Expressions -/

/-- What is written while a tree is read. -/
inductive Gathered.Entry
  | diagnostic (diagnostic : Diagnostic)
  | name (name : String)
  | function (name : String)
  | block (name : String)

open TreeReading

def Gathered.enter (g : Gathered) : Entry → Gathered
  | .diagnostic diagnostic => { g with diagnostics := g.diagnostics ++ [diagnostic] }
  | .name name => { g with names := noted g.names name }
  | .function name => { g with functions := noted g.functions name }
  | .block name => { g with blocks := noted g.blocks name }

def Gathered.Entry.diagnostic? : Entry → Option Diagnostic
  | .diagnostic d => some d
  | _ => none

theorem Gathered.diagnostics_foldl (g : Gathered) (entries : List Entry) :
    (entries.foldl enter g).diagnostics =
      g.diagnostics ++ entries.filterMap Entry.diagnostic? := by
  induction entries generalizing g with
  | nil => exact (List.append_nil _).symm
  | cons entry rest ih =>
    rw [List.foldl_cons, ih]
    cases entry with
    | diagnostic d => simp [enter, Entry.diagnostic?]
    | _ => rfl

namespace Expression

variable {inner : List Lexeme → TreeReading Expression}

theorem report_writes (kind : DiagnosticKind) (message : String) (span : Span) :
    Writes Gathered.enter (report kind message span) :=
  writes_entry (Gathered.Entry.diagnostic _)

theorem noteVariable_writes (name : String) : Writes Gathered.enter (noteVariable name) :=
  writes_entry (Gathered.Entry.name name)

theorem noteFunction_writes (name : String) : Writes Gathered.enter (noteFunction name) :=
  writes_entry (Gathered.Entry.function name)

theorem tooDeep_writes {α : Type} (limit : Nat) (span : Span) :
    Writes Gathered.enter (tooDeep limit span : TreeReading α) :=
  writes_bind (report_writes _ _ _) fun _ => writes_throw _

section Parts

variable (writes : ∀ lexemes, Writes Gathered.enter (inner lexemes))
include writes

theorem ofSteps_writes (span : Span) (object : Expression) (steps : List PathStep) :
    Writes Gathered.enter (ofSteps inner span object steps) := by
  induction steps generalizing object with
  | nil => exact writes_pure object
  | cons step rest ih =>
    cases step with
    | property key => exact ih _
    | index lexemes => exact writes_bind (writes lexemes) fun _ => ih _

theorem ofLexeme_writes (lexeme : Lexeme) : Writes Gathered.enter (ofLexeme inner lexeme) := by
  cases lexeme with
  | literal span text value => exact writes_pure _
  | operator span op => exact writes_bind (report_writes _ _ _) fun _ => writes_pure _
  | name span word => exact writes_bind (noteVariable_writes word) fun _ => writes_pure _
  | path span text base steps =>
    exact writes_bind (noteVariable_writes base) fun _ => ofSteps_writes writes span _ steps
  | call span text callee args =>
    refine writes_bind (noteFunction_writes callee) fun _ => ?_
    exact writes_bind (writes_mapM _ fun arg _ => writes arg) fun _ => writes_pure _

theorem ofRun_writes (first : Lexeme) (rest : List Lexeme) :
    Writes Gathered.enter (ofRun inner first rest) :=
  ofRun_cases (fun _ => ofLexeme_writes writes first) fun _ _ kept _ =>
    writes_bind (report_writes _ _ _) fun _ => ofLexeme_writes writes kept

end Parts

theorem joined_writes {after : TreeReading Expression} (behind : Writes Gathered.enter after)
    (split : Split) (left : Expression) : Writes Gathered.enter (joined split left after) := by
  have last : Writes Gathered.enter (do return binary split.span split.op left (← after)) :=
    writes_bind behind fun _ => writes_pure _
  exact joined_cases (fun _ => writes_bind (report_writes _ _ _) fun _ => last) fun _ => last

theorem ofSplit_writes {split : Split} {before after : TreeReading Expression}
    (here : Writes Gathered.enter before) (behind : Writes Gathered.enter after) :
    Writes Gathered.enter (ofSplit split before after) :=
  ofSplit_cases (fun _ => writes_bind (report_writes _ _ _) fun _ => joined_writes behind _ _)
    fun _ => writes_bind here fun _ => joined_writes behind _ _

theorem read_writes (limit room floor : Nat) (lexemes : List Lexeme) :
    Writes Gathered.enter (read limit room floor lexemes) := by
  induction room generalizing floor lexemes with
  | zero =>
    cases lexemes with
    | nil => exact writes_pure _
    | cons first rest => exact tooDeep_writes limit first.span
  | succ room ih =>
    cases lexemes with
    | nil => exact writes_pure _
    | cons first rest =>
      apply read_cases
      case lone => exact fun _ => ofLexeme_writes (ih 0) first
      case signed => exact fun _ _ _ => writes_bind (ih floor rest) fun _ => writes_pure _
      case run => exact fun _ => ofRun_writes (ih 0) first rest
      case sided => exact fun split _ _ => ofSplit_writes (ih 0 _) (ih _ _)

/-- The lexemes are read to the expression without a report. -/
def IsReadFrom (limit : Nat) (lexemes : List Lexeme) (e : Expression) : Prop :=
  ∃ g, Returns (read limit limit 0 lexemes) Tree.start e g ∧ g.diagnostics = []

/-- Lexemes that are read without a report in one place are so by themselves. -/
theorem isReadFrom_of_returns {limit room : Nat} (le : room ≤ limit) {lexemes : List Lexeme}
    {e : Expression} {g g' : Gathered} (run : Returns (read limit room 0 lexemes) g e g')
    (silent : g'.diagnostics = g.diagnostics) : IsReadFrom limit lexemes e := by
  obtain ⟨entries, rfl, from_⟩ := (read_writes limit room 0 lexemes).returns run
  have quiet : entries.filterMap Gathered.Entry.diagnostic? = [] := by
    rw [Gathered.diagnostics_foldl] at silent
    exact List.append_right_eq_self.mp silent
  have repeats := read_repeats (.refl limit) (.inr ⟨trivial, le⟩) 0 lexemes
  obtain ⟨_, h, again, rfl, rfl⟩ := repeats.returns rfl (from_ Tree.start)
  exact ⟨_, again, by rw [Gathered.diagnostics_foldl, quiet]; rfl⟩

end Expression
end Stencil
