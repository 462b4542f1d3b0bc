import Stencil.Proofs.Brackets

/-! What printed expressions look like from outside: brackets and quotes are complete, separators
and single bars stand only inside them, and no blank stands at either end. -/
namespace Stencil
open Text Markup

theorem Operator.isPlain_of_mem_symbol {op : Operator} {c : Char} (member : c ∈ op.symbol.toList) :
    Notation.isPlain c = true ∧ c ≠ ',' ∧ c ≠ ':' := by
  have each : op.symbol.toList.all (fun c =>
      decide (Notation.isPlain c = true ∧ c ≠ ',' ∧ c ≠ ':')) = true := by
    cases op <;> decide
  exact forall_mem_of_all each c member

namespace Notation

/-- A character that may stand outside in an expression. -/
def isUnseparated (c : Char) : Bool := c != ',' && c != ':'

/-- A character that may stand outside in an atom. -/
def isUnbarred (c : Char) : Bool := isUnseparated c && c != '|'

theorem isUnseparated_of_isUnbarred {c : Char} (free : isUnbarred c = true) :
    isUnseparated c = true := by
  simp only [isUnbarred, Bool.and_eq_true] at free
  exact free.1

namespace Completes

theorem mono {free other : Char → Bool} {stack text : List Char}
    (complete : Completes free stack text) (weaker : ∀ c, free c = true → other c = true) :
    Completes other stack text := by
  simpa using complete.append (Completes.nil : Completes other [] []) fun _ => weaker

theorem of_isWord {word : List Char} (valid : IsWord word) : Completes isUnbarred [] word := by
  refine of_plain fun c member => ?_
  have other {d : Char} (mark : isNamePart d = false) : c ≠ d :=
    ne_of_isNamePart (valid c member) mark
  refine ⟨isPlain_of_isNamePart (valid c member), ?_⟩
  simp [isUnbarred, isUnseparated, other (d := ',') (by decide), other (d := ':') (by decide),
    other (d := '|') (by decide)]

theorem of_quote {content : List Char} (unclosed : ¬ ['}', '}'] <:+: content) :
    Completes isUnbarred [] (quote content) := by
  simpa using Completes.quoted unclosed (Completes.nil : Completes isUnbarred [] [])

end Completes

theorem isWord_boolWord (b : Bool) : IsWord (boolWord b) := by
  cases b <;> exact forall_mem_of_all (p := (isNamePart · = true)) (by decide)

theorem isWord_null : IsWord ['n', 'u', 'l', 'l'] :=
  forall_mem_of_all (p := (isNamePart · = true)) (by decide)

theorem signs_complete (signs : Nat) :
    Completes isUnseparated [] (List.replicate signs '-') := by
  refine .of_plain fun c member => ?_
  rw [List.eq_of_mem_replicate member]
  decide

theorem symbol_complete (op : Operator) :
    Completes isUnseparated [] (' ' :: (op.symbol.toList ++ [' '])) := by
  refine .of_plain fun c member => ?_
  simp only [List.mem_cons, List.mem_append, List.not_mem_nil, or_false] at member
  rcases member with rfl | inside | rfl
  · decide
  · obtain ⟨plain, comma, colon⟩ := Operator.isPlain_of_mem_symbol inside
    simp [plain, isUnseparated, comma, colon]
  · decide

mutual
theorem Atom.complete : (atom : Atom) → Completes isUnbarred [] atom.print
  | .integer n _ => .of_isWord (isWord_toDigits n)
  | .bool b => .of_isWord (isWord_boolWord b)
  | .null => .of_isWord isWord_null
  | .text _ unclosed => .of_quote unclosed
  | .name name _ => .of_isWord (isWord_of_isName name.valid)
  | .path base first rest =>
    .and_then (.of_isWord (isWord_of_isName base.valid))
      (.and_then first.complete (steps_complete rest))
  | .call callee args =>
    .and_then (.of_isWord (isWord_of_isName callee.valid))
      (.bracketed rfl rfl (args_complete args))
theorem Step.complete : (step : Step) → Completes isUnbarred [] step.print
  | .property name =>
    .plain (c := '.') rfl (fun _ => rfl) (.of_isWord (isWord_of_isName name.valid))
  | .index inner => .bracketed rfl rfl inner.complete
theorem steps_complete : (steps : List Step) → Completes isUnbarred [] (printSteps steps)
  | [] => .nil
  | step :: rest => .and_then step.complete (steps_complete rest)
theorem args_complete : (args : List Phrase) → Completes (fun _ => true) [] (printArgs args)
  | [] => .nil
  | [arg] => arg.complete.mono fun _ _ => rfl
  | arg :: next :: rest =>
    .and_then (arg.complete.mono fun _ _ => rfl)
      (.plain (c := ',') rfl (fun _ => rfl) (.plain (c := ' ') rfl (fun _ => rfl)
        (args_complete (next :: rest))))
theorem Phrase.complete : (phrase : Phrase) → Completes isUnseparated [] phrase.print
  | .last signs atom =>
    .and_then (signs_complete signs)
      (atom.complete.mono fun _ => isUnseparated_of_isUnbarred)
  | .more signs atom op rest => by
    have whole := (signs_complete signs).and_then
      ((atom.complete.mono fun _ => isUnseparated_of_isUnbarred).and_then
        ((symbol_complete op).and_then rest.complete))
    simpa [Phrase.print] using whole
end

/-! ### Ends -/

section Tight

variable {first second : List Char}

theorem isTight_append (tight : IsTight first) (other : IsTight second) (between : List Char) :
    IsTight (first ++ (between ++ second)) := by
  obtain ⟨c, rest, rfl, visible⟩ := tight.starts
  obtain ⟨before, d, rfl, shown⟩ := other.ends
  exact ⟨⟨c, _, rfl, visible⟩, c :: rest ++ (between ++ before), d, by simp, shown⟩

theorem isTight_singleton {c : Char} (visible : isBlank c = false) : IsTight [c] :=
  ⟨⟨c, [], rfl, visible⟩, [], c, rfl, visible⟩

theorem isTight_of_isWord {word : List Char} (valid : IsWord word) (some : word ≠ []) :
    IsTight word := by
  constructor
  · obtain ⟨c, rest, rfl⟩ := List.exists_cons_of_ne_nil some
    exact ⟨c, rest, rfl, not_isBlank_of_isNamePart (valid c (by simp))⟩
  · refine ⟨word.dropLast, word.getLast some, (List.dropLast_append_getLast some).symm, ?_⟩
    exact not_isBlank_of_isNamePart (valid _ (List.getLast_mem some))

end Tight

theorem Name.nonempty (name : Name) : name.text ≠ [] := by
  obtain ⟨c, rest, same, -⟩ := exists_cons_of_isName name.valid
  simp [same]

theorem Name.tight (name : Name) : IsTight name.text :=
  isTight_of_isWord (isWord_of_isName name.valid) name.nonempty

theorem Step.print_cons (step : Step) :
    ∃ c more, step.print = c :: more ∧ (c = '[' ∨ c = '.') := by
  cases step with
  | property name => exact ⟨_, _, rfl, .inr rfl⟩
  | index inner => exact ⟨_, _, rfl, .inl rfl⟩

theorem Step.tight (step : Step) : IsTight step.print := by
  cases step with
  | property name => exact isTight_append (isTight_singleton rfl) name.tight []
  | index inner => exact isTight_append (isTight_singleton rfl) (isTight_singleton rfl) inner.print

theorem steps_tight {text : List Char} (tight : IsTight text) (steps : List Step) :
    IsTight (text ++ printSteps steps) := by
  induction steps generalizing text with
  | nil => simpa [printSteps] using tight
  | cons step rest ih =>
    rw [printSteps, ← List.append_assoc]
    exact ih (isTight_append tight step.tight [])

theorem Atom.tight (atom : Atom) : IsTight atom.print := by
  cases atom with
  | integer n short => exact isTight_of_isWord (isWord_toDigits n) Nat.toDigits_ne_nil
  | bool b => exact isTight_of_isWord (isWord_boolWord b) (by cases b <;> simp [Atom.print, boolWord])
  | null => exact isTight_of_isWord isWord_null (by simp [Atom.print])
  | text content unclosed =>
    exact isTight_append (isTight_singleton rfl) (isTight_singleton rfl) (escape content)
  | name name free => exact name.tight
  | path base first rest =>
    rw [Atom.print, ← List.append_assoc]
    exact steps_tight (isTight_append base.tight first.tight []) rest
  | call callee args =>
    rw [Atom.print, ← List.cons_append]
    exact isTight_append callee.tight (isTight_singleton rfl) _

theorem signs_tight {text : List Char} (tight : IsTight text) (signs : Nat) :
    IsTight (List.replicate signs '-' ++ text) := by
  induction signs with
  | zero => exact tight
  | succ signs ih => exact isTight_append (isTight_singleton (c := '-') rfl) ih []

theorem Phrase.tight (phrase : Phrase) : IsTight phrase.print := by
  match phrase with
  | .last signs atom => exact signs_tight atom.tight signs
  | .more signs atom op rest =>
    have whole := isTight_append atom.tight rest.tight (' ' :: (op.symbol.toList ++ [' ']))
    refine signs_tight ?_ signs
    simpa using whole

/-! ### Sizes -/

theorem length_le_printArgs {args : List Phrase} {arg : Phrase} (member : arg ∈ args) :
    arg.print.length ≤ (printArgs args).length := by
  induction args with
  | nil => contradiction
  | cons first rest ih =>
    cases rest with
    | nil =>
      rw [List.mem_singleton.mp member, printArgs]
    | cons next rest =>
      rw [printArgs.eq_3 _ _ (by simp)]
      simp only [List.length_append, List.length_cons]
      rcases List.mem_cons.mp member with rfl | later
      · omega
      · have bound := ih later
        omega

theorem length_le_printSteps {steps : List Step} {inner : Phrase}
    (member : Step.index inner ∈ steps) : inner.print.length < (printSteps steps).length := by
  induction steps with
  | nil => contradiction
  | cons step rest ih =>
    rw [printSteps, List.length_append]
    rcases List.mem_cons.mp member with rfl | later
    · simp only [Step.print, List.length_cons, List.length_append]
      omega
    · have bound := ih later
      omega

end Notation
end Stencil
