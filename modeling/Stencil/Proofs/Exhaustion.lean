import Stencil.Proofs.Agreement

/-! Tokens that run out. A template whose tokens end before its end can be built unless a block is
open there, and which blocks are open is told by the tags alone: an opening starts a block, an end
closes the innermost block it fits with all blocks inside that one, and an end that fits none
changes nothing. -/
namespace Stencil
open Markup (Keyword)
open Markup.Check (OpenBlock ofToken)

/-! ### Open blocks -/

namespace Token

/-- The words of the blocks that are open after a token, the innermost first. -/
def nest (opened : List Keyword) (token : Token) : List Keyword :=
  match token.content with
  | .opening .. => if token.keyword.opensBlock then token.keyword :: opened else opened
  | .closing _ =>
    match opened.dropWhile (·.closing != token.text) with
    | [] => opened
    | _ :: outer => outer
  | _ => opened

/-- The words of the blocks that are open after tokens. -/
def openAfter (tokens : List Token) : List Keyword := tokens.foldl nest []

end Token

namespace Markup.Check

theorem keywords_clause (opened : List OpenBlock) (keyword : Keyword) (start : Nat) :
    (clause opened keyword start).1.map (·.keyword) = opened.map (·.keyword) := by
  unfold clause
  dsimp only
  split
  · rfl
  · split
    · rfl
    · split <;> rfl

theorem keywords_opening (opened : List OpenBlock) (keyword : Keyword) (start : Nat) :
    (opening opened keyword start).1.map (·.keyword) =
      if keyword.opensBlock then keyword :: opened.map (·.keyword) else opened.map (·.keyword) := by
  unfold opening
  split
  · rename_i divides
    have plain : keyword.opensBlock = false := by
      revert divides
      cases keyword <;> simp [Keyword.isClause, Keyword.opensBlock]
    rw [keywords_clause, plain, if_neg Bool.false_ne_true]
  · split <;> rfl

theorem keywords_closing (opened : List OpenBlock) (word : String) (start : Nat) :
    (closing opened word start).1.map (·.keyword) =
      match (opened.map (·.keyword)).dropWhile (·.closing != word) with
      | [] => opened.map (·.keyword)
      | _ :: outer => outer := by
  have dropped : (opened.map (·.keyword)).dropWhile (·.closing != word) =
      (opened.dropWhile fun o => !(o.keyword.closing == word)).map (·.keyword) := by
    rw [List.dropWhile_map]
    rfl
  rw [dropped, closing]
  dsimp only
  split
  · rename_i none
    rw [none]
    rfl
  · rename_i fitting outer rest
    rw [rest]
    rfl

/-- The check keeps the words of the open blocks. -/
theorem keywords_ofToken (opened : List OpenBlock) (token : Token) :
    (ofToken opened token).1.map (·.keyword) = token.nest (opened.map (·.keyword)) := by
  unfold ofToken Token.nest
  cases token.content with
  | opening tag source => exact keywords_opening opened _ _
  | closing source => exact keywords_closing opened _ _
  | _ => rfl

end Markup.Check

/-! ### Cut tokens -/

namespace Stack

variable {limit : Nat} {stack last : Stack} {g g' : Gathered}

/-- While a tree is built the blocks that are open are those that the tags leave open. -/
theorem Fed.keywords {tokens : List Token} (known : ∀ token ∈ tokens, EndsBlocks token)
    (sound : stack.Sound) (fed : Fed limit stack g tokens last g') :
    last.openBlocks.map (·.keyword) =
      tokens.foldl Token.nest (stack.openBlocks.map (·.keyword)) := by
  induction fed with
  | nil => rfl
  | @cons token rest stack next last g h i step later ih =>
    have follows := step_follows (known token List.mem_cons_self) sound step
    have whole := ih (fun other member => known other (List.mem_cons_of_mem _ member)) follows.sound
    rw [whole, List.foldl_cons, follows.blocks, Markup.Check.keywords_ofToken]

/-- Tokens that end before the template does are a run of steps, unless nesting gets too deep on
the way; what becomes of them then depends on the blocks that are open. -/
theorem fed_of_cut (limit : Nat) (stop : Option Nat) {tokens : List Token}
    (unfinished : ∀ token ∈ tokens, token.isDone = false) (stack : Stack) (g : Gathered) :
    (∃ cause g', Fails (build limit stop stack tokens) g cause g' ∧ cause.OfDepth) ∨
      ∃ next h, Fed limit stack g tokens next h ∧
        (build limit stop stack tokens).run.run g =
          (runOut stop none next.frames next.root).run.run h := by
  induction tokens generalizing stack g with
  | nil => exact .inr ⟨stack, g, .nil, rfl⟩
  | cons token rest ih =>
    have running : token.isDone = false := unfinished token List.mem_cons_self
    have unfold_ : build limit stop stack (token :: rest) =
        feed limit token none stack.frames stack.root >>= fun next =>
          build limit stop next rest := by
      rw [build, running]
      rfl
    rw [unfold_]
    rcases returns_or_fails (feed limit token none stack.frames stack.root) g with
      ⟨next, h, fed⟩ | ⟨cause, h, failed⟩
    · have step : Step limit token stack g next h := step_of_feed fed
      rcases ih (fun other member => unfinished other (List.mem_cons_of_mem _ member)) next h with
        ⟨cause, i, failed, deep⟩ | ⟨final, i, later, same⟩
      · exact .inl ⟨cause, i, fails_bind.mpr (.inr ⟨next, h, fed, failed⟩), deep⟩
      · refine .inr ⟨final, i, .cons step later, ?_⟩
        rw [run_bind, show (feed limit token none stack.frames stack.root).run.run g = _ from fed]
        exact same
    · exact .inl ⟨cause, h, fails_bind.mpr (.inl failed),
        ((feed_bounded none _ _) g).2 cause h failed |>.2⟩

/-- Where tokens run out only a block that is no extension is missed. -/
theorem runOut_spec (stop : Option Nat) (finished : Option Node) (frames : List Frame)
    (root : List Node) (g : Gathered) :
    (openBlocks ⟨frames, root⟩ = [] ∧
        ∃ nodes, Returns (runOut stop finished frames root) g nodes g) ∨
      (openBlocks ⟨frames, root⟩ ≠ [] ∧
        Fails (runOut stop finished frames root) g (.unexpectedEnd stop) g) := by
  induction frames generalizing finished with
  | nil => exact .inl ⟨rfl, _, returns_pure.mpr ⟨rfl, rfl⟩⟩
  | cons frame outer ih =>
    have kind : (finished.elim frame frame.add).isExtension = frame.isExtension := by
      cases finished <;> simp
    rw [runOut]
    cases extension : frame.isExtension with
    | true =>
      rw [kind, extension, if_pos rfl, openBlocks_extension extension]
      exact ih _
    | false =>
      rw [kind, extension, if_neg Bool.false_ne_true, openBlocks_cons extension]
      exact .inr ⟨List.cons_ne_nil _ _, rfl⟩

end Stack

namespace Tree

variable {tokens : List Token}

/-- What becomes of tokens that end before the template does: nesting gets too deep, or they run
out inside a block if one is open behind them, or there is a tree. -/
theorem ofTokens_cut (limit : Nat) (unfinished : ∀ token ∈ tokens, token.isDone = false)
    (known : ∀ token ∈ tokens, Stack.EndsBlocks token) :
    (∃ cause, (ofTokens limit tokens).1 = .error cause ∧ cause.OfDepth) ∨
      (Token.openAfter tokens = [] ∧ ∃ tree, (ofTokens limit tokens).1 = .ok tree) ∨
      (Token.openAfter tokens ≠ [] ∧
        (ofTokens limit tokens).1 =
          .error (.unexpectedEnd (tokens.getLast?.map (·.span.stop)))) := by
  rcases Stack.fed_of_cut limit (tokens.getLast?.map (·.span.stop)) unfinished ⟨[], []⟩ start with
    ⟨cause, g, failed, deep⟩ | ⟨next, h, fed, same⟩
  · exact .inl ⟨cause, by rw [ofTokens_of_fails failed], deep⟩
  · have words := Stack.Fed.keywords known (fun _ member => by cases member) fed
    have open_ : next.openBlocks = [] ↔ Token.openAfter tokens = [] := by
      rw [Token.openAfter, ← List.map_eq_nil_iff (f := (·.keyword)), words]
      rfl
    rcases Stack.runOut_spec (tokens.getLast?.map (·.span.stop)) none next.frames next.root h with
      ⟨none, nodes, ends⟩ | ⟨some, ends⟩
    · exact .inr (.inl ⟨open_.mp none, _, by rw [ofTokens_of_returns (same.trans ends)]⟩)
    · exact .inr (.inr ⟨mt open_.mpr some, by rw [ofTokens_of_fails (same.trans ends)]⟩)

/-- Tokens that are complete fail for depth only. -/
theorem ofTokens_complete {limit : Nat} {last : Token} (done : last.isDone = true) {cause : Cause}
    (failed : (ofTokens limit (tokens ++ [last])).1 = .error cause) : cause.OfDepth := by
  rcases returns_or_fails (Stack.build limit ((tokens ++ [last]).getLast?.map (·.span.stop))
    ⟨[], []⟩ (tokens ++ [last])) start with ⟨nodes, g, run⟩ | ⟨other, g, run⟩
  · rw [ofTokens_of_returns run] at failed
    contradiction
  · rw [ofTokens_of_fails run] at failed
    cases failed
    exact ((Stack.build_bounded _ _ tokens done start).2 cause g run).2

end Tree

/-- The first tokens of a template, unless nested too deep, run out inside a block exactly if the
last one is not among them and a block is open behind them. All of its tokens together fail for
depth only. -/
theorem cut_fails_inside_blocks {separate : Bool} {text : List Char} {tokens : List Token}
    {lexed : List Diagnostic} (tokenized : Token.read separate text = .ok (tokens, lexed))
    (limit count : Nat) :
    ((∀ cause, (Tree.ofTokens limit (tokens.take count)).1 = .error cause → ¬ cause.OfDepth) →
      ((∃ stop, (Tree.ofTokens limit (tokens.take count)).1 = .error (.unexpectedEnd stop)) ↔
        (∀ token ∈ tokens.take count, token.isDone = false) ∧
          Token.openAfter (tokens.take count) ≠ [])) ∧
      ∀ cause, (Tree.ofTokens limit tokens).1 = .error cause → cause.OfDepth := by
  obtain ⟨problems, read, -⟩ := Lexing.run_ok.mp tokenized
  obtain ⟨parts, last, rfl, done, -, -, running, -, -⟩ := Token.tokens_tile_text tokenized
  have whole (cause : Cause) (failed : (Tree.ofTokens limit (parts ++ [last])).1 = .error cause) :
      cause.OfDepth := Tree.ofTokens_complete done failed
  refine ⟨fun shallow => ?_, whole⟩
  rcases Nat.lt_or_ge parts.length count with beyond | within
  · -- The last token is among them, so they are all the tokens.
    rw [List.take_of_length_le (by simpa using beyond)]
    constructor
    · rintro ⟨stop, failed⟩
      obtain ⟨_, _, _, deep⟩ := whole _ failed
      contradiction
    · rintro ⟨unfinished, -⟩
      rw [unfinished last (by simp)] at done
      contradiction
  · rw [List.take_append_of_le_length within] at shallow ⊢
    have unfinished : ∀ token ∈ parts.take count, token.isDone = false :=
      fun token member => running token (List.mem_of_mem_take member)
    have known : ∀ token ∈ parts.take count, Stack.EndsBlocks token := fun token member =>
      Token.endsBlocks_of_mem_readFrom read (List.mem_append_left _ (List.mem_of_mem_take member))
    rcases Tree.ofTokens_cut limit unfinished known with
      ⟨cause, failed, deep⟩ | ⟨none, tree, built⟩ | ⟨some, failed⟩
    · exact absurd deep (shallow cause failed)
    · exact iff_of_false (by simp [built]) fun behind => behind.2 none
    · exact iff_of_true ⟨_, failed⟩ ⟨unfinished, some⟩

set_option maxRecDepth 8000 in
/-- An end closes two blocks here, and the cut leaves a third one open. -/
theorem cut_fails_behind_crossed_blocks :
    ∃ tokens lexed,
      Token.read false "{%if%}{%each%}{%endif%}{%block%}x".toList = .ok (tokens, lexed) ∧
      (∀ cause, (Tree.ofTokens 4 (tokens.take 4)).1 = .error cause → ¬ cause.OfDepth) ∧
      (∃ stop, (Tree.ofTokens 4 (tokens.take 4)).1 = .error (.unexpectedEnd stop)) ∧
      (∀ token ∈ tokens.take 4, token.isDone = false) ∧
      Token.openAfter (tokens.take 4) = [.block] ∧
      ∀ cause, (Tree.ofTokens 4 tokens).1 = .error cause → cause.OfDepth := by
  obtain ⟨⟨tokens, lexed⟩, tokenized⟩ := exists_ok
    (Token.read false "{%if%}{%each%}{%endif%}{%block%}x".toList) (by cbv)
  have facts : ((Token.read false
      "{%if%}{%each%}{%endif%}{%block%}x".toList).toOption.any fun result =>
        (result.1.take 4).all (!·.isDone) &&
          Token.openAfter (result.1.take 4) == [.block]) = true := by
    cbv
  have ends : (Token.read false
      "{%if%}{%each%}{%endif%}{%block%}x".toList).toOption.map (fun result =>
        (Tree.ofTokens 4 (result.1.take 4)).1.map fun _ => ()) =
      some (.error (.unexpectedEnd (some 32))) := by
    cbv
  rw [tokenized] at facts ends
  simp only [Except.toOption, Option.any_some, Bool.and_eq_true, beq_iff_eq, List.all_eq_true,
    Bool.not_eq_true', Option.map_some, Option.some.injEq] at facts ends
  obtain ⟨running, opened⟩ := facts
  have within : ∀ cause, (Tree.ofTokens 4 (tokens.take 4)).1 = .error cause → ¬ cause.OfDepth := by
    rintro cause failed ⟨_, _, _, rfl⟩
    rw [failed] at ends
    cases ends
  obtain ⟨cut, whole⟩ := cut_fails_inside_blocks tokenized 4 4
  exact ⟨tokens, lexed, tokenized, within,
    (cut within).mpr ⟨running, by rw [opened]; exact List.cons_ne_nil _ _⟩, running, opened, whole⟩

end Stencil
