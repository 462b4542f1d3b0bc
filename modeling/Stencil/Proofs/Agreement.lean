import Mathlib
import Stencil.Proofs.Positions

/-! The check of a text and the building of its tree agree on blocks. The tokens carry the
constructs that the check steps through, so both matchers take the same steps; and since no two
constructs start together, no two of the problems have one key, and merging keeps each once. -/
namespace Stencil
open Markup (Keyword Match)
open Markup.Check (OpenBlock ofToken tokenProblems structureProblems)

/-! ### Tokens and constructs -/

namespace Markup.Check

theorem clause_structural (opened : List OpenBlock) (keyword : Keyword) (start : Nat) :
    (clause opened keyword start).2.filter (·.kind.isStructural) =
      (clause opened keyword start).2 := by
  unfold clause
  dsimp only
  split
  · rfl
  · split
    · rfl
    · split <;> rfl

theorem opening_structural (opened : List OpenBlock) (keyword : Keyword) (start : Nat) :
    (opening opened keyword start).2.filter (·.kind.isStructural) =
      (opening opened keyword start).2 := by
  unfold opening
  split
  · exact clause_structural opened keyword start
  · split <;> rfl

theorem unclosed_structural (opened : List OpenBlock) :
    (opened.map unclosed).filter (·.kind.isStructural) = opened.map unclosed := by
  rw [List.filter_eq_self]
  intro p member
  obtain ⟨block, -, rfl⟩ := List.mem_map.mp member
  rfl

theorem closing_structural (opened : List OpenBlock) (word : String) (start : Nat) :
    (closing opened word start).2.filter (·.kind.isStructural) =
      (closing opened word start).2 := by
  unfold closing
  dsimp only
  split
  · rfl
  · exact unclosed_structural _

theorem interpolation_structural (m : Match) :
    (interpolation m).filter (·.kind.isStructural) = [] := by
  unfold interpolation
  dsimp only
  split
  · rfl
  · split <;> rfl

theorem strayMarks_structural (text : List Char) (covered : List (Nat × Nat)) :
    (strayMarks text covered).filter (·.kind.isStructural) = [] := by
  rw [List.filter_eq_nil_iff]
  intro p member
  simp only [strayMarks, marks, List.flatMap_cons, List.flatMap_nil, List.mem_append,
    List.mem_map, List.not_mem_nil, or_false] at member
  rcases member with ⟨_, _, rfl⟩ | ⟨_, _, rfl⟩ | ⟨_, _, rfl⟩ <;> simp [DiagnosticKind.isStructural]

/-- The token of a construct is to the blocks what the construct is. -/
theorem ofToken_of_construct {lines : Text.Lines} {m : Match} {p q : List Problem} {token : Token}
    (opened : List OpenBlock) (run : Returns (Token.ofConstruct lines m) p token q) :
    ofToken opened token =
      ((step opened m).1, (step opened m).2.filter (·.kind.isStructural)) := by
  unfold Token.ofConstruct at run
  unfold step
  dsimp only at run ⊢
  cases category : m.category
  case interpolation =>
    simp only [category, Token.outputOf, returns_bind, returns_pure] at run
    obtain ⟨expression, -, -, filters, -, -, rfl, -⟩ := run
    simp [ofToken, interpolation_structural]
  case blockStart =>
    simp only [category, returns_bind, returns_pure] at run
    obtain ⟨tag, -, -, rfl, -⟩ := run
    simp only [opening_structural]
    rfl
  case blockEnd =>
    simp only [category, returns_pure] at run
    obtain ⟨rfl, -⟩ := run
    simp only [closing_structural]
    rfl
  all_goals
    simp only [category, returns_pure] at run
    obtain ⟨rfl, -⟩ := run
    rfl

theorem tokenProblems_skip {quiet : List Token}
    (silent : ∀ token ∈ quiet, ∀ opened, ofToken opened token = (opened, []))
    (opened : List OpenBlock) (rest : List Token) :
    tokenProblems opened (quiet ++ rest) = tokenProblems opened rest := by
  induction quiet with
  | nil => rfl
  | cons token more ih =>
    rw [List.cons_append, tokenProblems, silent token (by simp), List.nil_append]
    exact ih fun other member => silent other (by simp [member])

end Markup.Check

namespace Token

theorem tokenProblems_readFrom {lines : Text.Lines} {separate : Bool} {offset : Nat}
    {rest : List Char} {constructs : List Match} {p q : List Problem} {tokens : List Token}
    (run : Returns (readFrom lines separate offset rest constructs) p tokens q)
    (opened : List OpenBlock) :
    tokenProblems opened tokens =
      (structureProblems opened constructs).filter (·.kind.isStructural) := by
  have texts (piece : Markup.Piece) : ∀ token ∈ ofText lines separate piece, ∀ opened,
      ofToken opened token = (opened, []) := by
    intro token member opened
    obtain ⟨⟨kind, content⟩, -⟩ := content_ofText member
    simp [ofToken, content]
  induction constructs generalizing offset rest p q tokens opened with
  | nil =>
    simp only [readFrom, returns_pure] at run
    obtain ⟨rfl, -⟩ := run
    rw [Markup.Check.tokenProblems_skip (texts _), structureProblems,
      Markup.Check.unclosed_structural]
    rfl
  | cons m more ih =>
    simp only [readFrom, returns_bind, returns_pure] at run
    obtain ⟨token, p₁, first, after, p₂, later, rfl, -⟩ := run
    rw [Markup.Check.tokenProblems_skip (texts _), tokenProblems,
      Markup.Check.ofToken_of_construct opened first, ih later, structureProblems,
      List.filter_append]

theorem closing_of_construct {lines : Text.Lines} {m : Match} {p q : List Problem} {token : Token}
    (run : Returns (ofConstruct lines m) p token q) (ends : token.isClosing = true) :
    m.category = .blockEnd ∧ token.text = String.ofList (m.capture 0) := by
  unfold ofConstruct at run
  dsimp only at run
  split at run
  · simp only [outputOf, returns_bind, returns_pure] at run
    obtain ⟨expression, -, -, filters, -, -, rfl, -⟩ := run
    contradiction
  · simp only [returns_bind, returns_pure] at run
    obtain ⟨tag, -, -, rfl, -⟩ := run
    contradiction
  · rename_i category
    obtain ⟨rfl, -⟩ := returns_pure.mp run
    exact ⟨category, rfl⟩
  all_goals
    obtain ⟨rfl, -⟩ := returns_pure.mp run
    contradiction

/-- Tokens that end blocks come from ends of blocks. -/
theorem closing_of_mem_readFrom {lines : Text.Lines} {separate : Bool} {offset : Nat}
    {rest : List Char} {constructs : List Match} {p q : List Problem} {tokens : List Token}
    (run : Returns (readFrom lines separate offset rest constructs) p tokens q) {token : Token}
    (member : token ∈ tokens) (ends : token.isClosing = true) :
    ∃ m ∈ constructs, m.category = .blockEnd ∧ token.text = String.ofList (m.capture 0) := by
  have texts {piece : Markup.Piece} (inside : token ∈ ofText lines separate piece) : False := by
    obtain ⟨⟨kind, content⟩, -⟩ := content_ofText inside
    simp [isClosing, content] at ends
  induction constructs generalizing offset rest p q tokens with
  | nil =>
    simp only [readFrom, returns_pure] at run
    obtain ⟨rfl, -⟩ := run
    rcases List.mem_append.mp member with inside | last
    · exact (texts inside).elim
    · rw [List.mem_singleton.mp last] at ends
      contradiction
  | cons m more ih =>
    simp only [readFrom, returns_bind, returns_pure] at run
    obtain ⟨first, p₁, read, after, p₂, later, rfl, -⟩ := run
    rcases List.mem_append.mp member with inside | inside
    · exact (texts inside).elim
    · rcases List.mem_cons.mp inside with rfl | behind
      · exact ⟨m, List.mem_cons_self, closing_of_construct read ends⟩
      · obtain ⟨other, found, known⟩ := ih later behind
        exact ⟨other, List.mem_cons_of_mem _ found, known⟩

end Token

/-! ### Ends of blocks -/

namespace Markup

theorem word_of_closingTag (previous : Option Char) {text : List Char} {hit : Hit}
    (hits : closingTag previous text = some hit) (category : Category) (start : Nat) :
    String.ofList ((hit.toMatch category text start).capture 0) ∈ closingWords := by
  unfold closingTag at hits
  obtain ⟨after, prefixed, hits⟩ := Option.bind_eq_some_iff.mp hits
  dsimp only at hits
  obtain ⟨_, known, hits⟩ := Option.bind_eq_some_iff.mp hits
  obtain ⟨_, _, hits⟩ := Option.bind_eq_some_iff.mp hits
  generalize 2 + blankCount after = place at known hits
  cases Option.some.inj hits
  have contained : closingWords.contains
      (String.ofList ((text.drop place).takeWhile Text.isNamePart)) = true := by
    by_contra unknown
    rw [guard, if_neg unknown] at known
    contradiction
  have word : (text.drop place).take ((text.drop place).takeWhile Text.isNamePart).length =
      (text.drop place).takeWhile Text.isNamePart :=
    (List.prefix_iff_eq_take.mp (List.takeWhile_prefix _)).symm
  simpa [Match.capture, Match.captures, Hit.toMatch, word] using contained

/-- The word of a closing construct closes blocks. -/
theorem word_of_blockEnd {text : List Char} {m : Match} (found : m ∈ constructs text)
    (ends : m.category = .blockEnd) : String.ofList (m.capture 0) ∈ closingWords := by
  obtain ⟨before, rest, hit, hits, same⟩ := exists_construct found
  rw [ends] at hits
  rw [same]
  exact word_of_closingTag before.getLast? hits _ _

end Markup

/-! ### Offsets -/

namespace Markup.Check

section Offsets

variable (opened : List OpenBlock) (start : Nat)

theorem offsets_clause (keyword : Keyword) :
    ((clause opened keyword start).2.map (·.offset) ++
      (clause opened keyword start).1.map (·.start)).Subperm
      (start :: opened.map (·.start)) := by
  unfold clause
  dsimp only
  split
  · exact List.Subperm.refl _
  · split
    · exact List.Subperm.refl _
    · split
      · exact List.Subperm.refl _
      · exact (List.sublist_cons_self _ _).subperm

theorem offsets_opening (keyword : Keyword) :
    ((opening opened keyword start).2.map (·.offset) ++
      (opening opened keyword start).1.map (·.start)).Subperm
      (start :: opened.map (·.start)) := by
  unfold opening
  split
  · exact offsets_clause opened start keyword
  · split
    · exact List.Subperm.refl _
    · exact (List.sublist_cons_self _ _).subperm

theorem offsets_closing (word : String) :
    ((closing opened word start).2.map (·.offset) ++
      (closing opened word start).1.map (·.start)).Subperm
      (start :: opened.map (·.start)) := by
  unfold closing
  dsimp only
  split
  · exact List.Subperm.refl _
  · rename_i fitting outer dropped
    have whole := List.takeWhile_append_dropWhile (p := fun o : OpenBlock =>
      !(o.keyword.closing == word)) (l := opened)
    rw [dropped] at whole
    generalize opened.takeWhile (fun o : OpenBlock => !(o.keyword.closing == word)) =
      abandoned at whole ⊢
    subst whole
    have starts : ((abandoned.reverse.map unclosed).map (·.offset)).Perm
        (abandoned.map (·.start)) := by
      rw [List.map_map, List.map_reverse]
      exact List.reverse_perm _
    refine (starts.append_right _).subperm.trans (List.Subperm.cons_right _ ?_)
    rw [List.map_append, List.map_cons]
    exact ((List.sublist_cons_self _ _).append_left _).subperm

end Offsets

/-- A token moves its offset and those of the open blocks to problems, to open blocks or away. -/
theorem offsets_ofToken (opened : List OpenBlock) (token : Token) :
    ((ofToken opened token).2.map (·.offset) ++ (ofToken opened token).1.map (·.start)).Subperm
      (token.span.start :: opened.map (·.start)) := by
  unfold ofToken
  split
  · exact offsets_opening opened _ _
  · exact offsets_closing opened _ _
  · exact (List.sublist_cons_self _ _).subperm

/-- Every problem of tokens is at a token or an open block of its own. -/
theorem offsets_tokenProblems (opened : List OpenBlock) (tokens : List Token) :
    ((tokenProblems opened tokens).map (·.offset)).Subperm
      (opened.map (·.start) ++ tokens.map (·.span.start)) := by
  induction tokens generalizing opened with
  | nil =>
    rw [tokenProblems, List.map_map, List.map_reverse, List.map_nil, List.append_nil]
    exact (List.reverse_perm _).subperm
  | cons token rest ih =>
    rw [tokenProblems, List.map_append, List.map_cons]
    refine ((List.subperm_append_left _).mpr (ih _)).trans ?_
    rw [← List.append_assoc]
    refine ((List.subperm_append_right _).mpr (offsets_ofToken opened token)).trans ?_
    exact List.perm_middle.symm.subperm

end Markup.Check

theorem Token.start_of_adjoining {start stop : Nat} {tokens : List Token}
    (adjoining : Token.Adjoining start stop tokens) :
    start ≤ stop ∧ (tokens.map (·.span.start)).Nodup ∧
      ∀ token ∈ tokens, start ≤ token.span.start ∧ token.span.start ≤ stop := by
  induction tokens generalizing start with
  | nil => exact ⟨Nat.le_of_eq adjoining, List.nodup_nil, by simp⟩
  | cons token rest ih =>
    obtain ⟨rfl, wide, later⟩ := adjoining
    obtain ⟨ordered, once, between⟩ := ih later
    refine ⟨by omega, ?_, ?_⟩
    · rw [List.map_cons, List.nodup_cons]
      refine ⟨?_, once⟩
      intro again
      obtain ⟨other, member, same⟩ := List.mem_map.mp again
      have beyond := (between other member).1
      omega
    · intro other member
      rcases List.mem_cons.mp member with rfl | inside
      · exact ⟨le_rfl, by omega⟩
      · have bounds := between other inside
        omega

/-! ### Agreement -/

namespace Markup.Check

theorem tokenProblems_last (opened : List OpenBlock) (tokens : List Token) {last : Token}
    (done : last.isDone = true) :
    tokenProblems opened (tokens ++ [last]) = tokenProblems opened tokens := by
  induction tokens generalizing opened with
  | nil =>
    have silent : ofToken opened last = (opened, []) := by
      unfold Token.isDone at done
      unfold ofToken
      cases content : last.content <;> simp_all
    rw [List.nil_append, tokenProblems.eq_2, silent]
    rfl
  | cons token rest ih => rw [List.cons_append, tokenProblems, tokenProblems, ih]

/-- The structural diagnostics of the check are those of its structural problems. -/
theorem diagnostics_structural (text : List Char) :
    ((diagnostics text).filter (·.kind.isStructural)).Perm
      (((structureProblems [] (constructs text)).filter (·.kind.isStructural)).map
        (·.toDiagnostic .check fun offset => some (Text.position text offset))) := by
  rw [diagnostics, List.filter_map]
  refine List.Perm.map _ (((List.mergeSort_perm _ _).filter _).trans (.of_eq ?_))
  have stray := strayMarks_structural text ((constructs text).map interval)
  change (problems text).filter (·.kind.isStructural) = _
  rw [problems, List.filter_append, stray, List.append_nil]

end Markup.Check

/-- A diagnostic as the building of trees reports it. -/
def Diagnostic.ofTree (d : Diagnostic) : Diagnostic := { d with stage := .tree }

/-- Placed diagnostics are those of their problems. -/
theorem Gathered.structural_of_placed {place : Nat → Text.Position} {g : Gathered}
    (placed : ∀ d ∈ g.structural, d.Placed place) :
    g.structural = g.problems.map (·.toDiagnostic .tree fun offset => some (place offset)) := by
  rw [Gathered.problems, List.map_map]
  conv_lhs => rw [← List.map_id g.structural]
  exact List.map_congr_left placed

section Built

variable {separate : Bool} {text : List Char} {problems : List Problem} {tokens : List Token}

theorem Token.endsBlocks_of_mem_readFrom {lines : Text.Lines} {token : Token}
    (read : Returns (Token.readFrom lines separate 0 text (Markup.constructs text)) [] tokens
      problems) (member : token ∈ tokens) : Stack.EndsBlocks token := by
  intro ends same
  obtain ⟨m, construct, category, word⟩ := Token.closing_of_mem_readFrom read member ends
  have closes := Markup.word_of_blockEnd construct category
  rw [← word, same] at closes
  exact absurd closes (by decide)

/-- The problems that the building of a tree reports about blocks are those that the check of the
constructs finds, and they are placed by the lines of the text. -/
theorem built_structural {limit : Nat} {tree : Tree} {built : List Diagnostic}
    (read : Returns (Token.readFrom (.ofText text) separate 0 text (Markup.constructs text)) []
      tokens problems) (parsed : Tree.ofTokens limit tokens = (.ok tree, built)) :
    let found := (structureProblems [] (Markup.constructs text)).filter (·.kind.isStructural)
    (built.filter (·.kind.isStructural)).Perm (found.map
      (·.toDiagnostic .tree fun offset => some (Text.position text offset))) ∧
      (found.map (·.offset)).Nodup := by
  intro found
  obtain ⟨parts, last, rfl, done, -, -, tiled⟩ :=
    Token.readFrom_tile text 0 (Nat.zero_le _) (Markup.ascending_constructs text)
      (fun m member => Markup.occursIn_of_mem_constructs member) read
  obtain ⟨g, run, rfl⟩ := Tree.returns_of_ofTokens parsed
  have adjoining : Token.Adjoining 0 text.length parts := by simpa using tiled.adjoining
  obtain ⟨-, once, -⟩ := Token.start_of_adjoining adjoining
  have known : ∀ token ∈ parts, Stack.EndsBlocks token := fun token member =>
    Token.endsBlocks_of_mem_readFrom read (List.mem_append_left [last] member)
  have same : tokenProblems [] parts = found := by
    rw [← Markup.Check.tokenProblems_last [] parts done]
    exact Token.tokenProblems_readFrom read []
  have subperm := Markup.Check.offsets_tokenProblems [] parts
  rw [same, List.map_nil, List.nil_append] at subperm
  constructor
  · have problems := Stack.build_problems tiled.running done known (fun _ member => by cases member) run
    obtain ⟨reported, -⟩ := Tree.ofTokens_placed (Token.sound_of_readFrom read) parsed
    change g.structural.Perm _
    have structural : ∀ d ∈ g.structural, d.Placed (Text.position text) :=
      fun d member => reported d (List.mem_filter.mp member).1
    rw [Gathered.structural_of_placed structural, ← same]
    exact problems.map _
  · obtain ⟨offsets, perm, sublist⟩ := subperm
    exact (perm.nodup_iff.mp (once.sublist sublist))

end Built

/-- For a text whose tree can be built the check of its constructs and the building of the tree
report the same problems of blocks, up to the stage that reports them. They have different keys, so
the merged diagnostics hold each of them once. -/
theorem check_agrees_with_tree {separate : Bool} {text : List Char} {tokens : List Token}
    {lexed built : List Diagnostic} {limit : Nat} {tree : Tree}
    (tokenized : Token.read separate text = .ok (tokens, lexed))
    (parsed : Tree.ofTokens limit tokens = (.ok tree, built)) :
    let checked := (Markup.Check.diagnostics text).filter (·.kind.isStructural)
    (checked.map (·.ofTree)).Perm (built.filter (·.kind.isStructural)) ∧
      (checked.map (·.key)).Nodup ∧
      ((Diagnostic.merge [Markup.Check.diagnostics text, lexed, built]).filter
        (·.kind.isStructural)).Perm checked := by
  intro checked
  obtain ⟨problems, read, rfl⟩ := Lexing.run_ok.mp tokenized
  obtain ⟨agree, once⟩ := built_structural read parsed
  have check := Markup.Check.diagnostics_structural text
  generalize (structureProblems [] (Markup.constructs text)).filter (·.kind.isStructural) = found
    at agree once check
  have same : (checked.map (·.ofTree)).Perm (built.filter (·.kind.isStructural)) := by
    refine (check.map _).trans (.trans (.of_eq ?_) agree.symm)
    rw [List.map_map]
    rfl
  have keys : (checked.map (·.key)).Nodup := by
    refine ((check.map _).nodup_iff).mpr (List.Nodup.of_map (·.2) ?_)
    rw [List.map_map, List.map_map]
    have offsets : found.map (fun p => some p.offset) = (found.map (·.offset)).map some := by
      rw [List.map_map]
      rfl
    exact offsets ▸ once.map fun _ _ equal => Option.some.inj equal
  refine ⟨same, keys, Diagnostic.merge_structural ?_ keys ?_⟩
  · rw [List.filter_map]
    have silent := (Token.readFrom_mild _ _ _ _ _).view_eq read
    rw [List.filter_nil] at silent
    exact (congrArg _ silent).trans rfl
  · intro d member
    obtain ⟨other, inside, equal⟩ := List.mem_map.mp (same.mem_iff.mpr member)
    rw [← equal]
    exact List.mem_map.mpr ⟨other, inside, rfl⟩

set_option maxRecDepth 8000 in
/-- An end without a block, a clause without a block and a block without an end. -/
theorem check_agrees_with_tree_of_stray_tags :
    ∃ tokens lexed tree built,
      Token.read false "{% endif %}{% else %}{% if a %}".toList =
        .ok (tokens, lexed) ∧
      Tree.ofTokens 4 tokens = (.ok tree, built) ∧
      let checked := (Markup.Check.diagnostics
        "{% endif %}{% else %}{% if a %}".toList).filter (·.kind.isStructural)
      (checked.map (·.ofTree)).Perm (built.filter (·.kind.isStructural)) ∧
        (checked.map (·.key)).Nodup ∧
        ((Diagnostic.merge [Markup.Check.diagnostics
          "{% endif %}{% else %}{% if a %}".toList, lexed, built]).filter
          (·.kind.isStructural)).Perm checked := by
  obtain ⟨⟨tokens, lexed⟩, tokenized⟩ := exists_ok
    (Token.read false "{% endif %}{% else %}{% if a %}".toList) (by cbv)
  have complete : ((Token.read false
      "{% endif %}{% else %}{% if a %}".toList).toOption.any fun result =>
        (Tree.ofTokens 4 result.1).1.isOk) = true := by
    cbv
  rw [tokenized] at complete
  obtain ⟨tree, parsed⟩ := exists_ok (Tree.ofTokens 4 tokens).1 complete
  exact ⟨tokens, lexed, tree, (Tree.ofTokens 4 tokens).2, tokenized, Prod.ext parsed rfl,
    check_agrees_with_tree tokenized (Prod.ext parsed rfl)⟩

end Stencil
