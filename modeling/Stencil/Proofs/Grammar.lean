import Stencil.Markup.Matcher
import Stencil.Proofs.Matching

/-! The grammar of templates over tokens, with its derivations as trees, and its token lists: the
ones in which the check finds nothing. Open blocks are derived from what is still to come: each has
its body and its end ahead, and every token on the way back extends one of these bodies. -/
namespace Stencil
open Markup (Keyword)
open Markup.Check (OpenBlock ofToken tokenProblems)

namespace Token

def isOpening (token : Token) : Bool :=
  match token.content with
  | .opening .. => true
  | _ => false

/-- The token opens with this word. -/
def Opens (token : Token) (keyword : Keyword) : Prop :=
  token.isOpening = true ∧ token.keyword = keyword

/-- The token ends a block that was opened with this word. -/
def Closes (token : Token) (keyword : Keyword) : Prop :=
  token.isClosing = true ∧ token.text = keyword.closing

/-- Text, comments, interpolations and inclusions are parts of their own. -/
def standsAlone (token : Token) : Bool :=
  match token.content with
  | .text _ | .output .. | .comment _ => true
  | .opening .. => token.keyword == .include
  | _ => false

/-- The token opens a block that has one body. -/
def opensBody (token : Token) : Bool :=
  token.isOpening && token.keyword.opensBlock && token.keyword != .cond

/-- The tokens of templates without extensions: parts of their own, openings and clauses of blocks,
and the ends of these. -/
def isGrammatical (token : Token) : Bool :=
  match token.content with
  | .text _ | .output .. | .comment _ => true
  | .opening .. => token.keyword == .include || token.keyword.isClause || token.keyword.opensBlock
  | .closing _ => Markup.closingWords.contains token.text
  | _ => false

end Token

mutual
/-- A derivation of the body of a template or block. -/
inductive Body
  | nil
  | leaf (token : Token) (alone : token.standsAlone = true) (rest : Body)
  | block (opener : Token) (opens : opener.opensBody = true) (inner : Body) (closer : Token)
      (closes : closer.Closes opener.keyword) (rest : Body)
  | conditional (opener : Token) (opens : opener.Opens .cond) (inner : Body) (branches : Branches)
      (rest : Body)
/-- What follows the first body of a conditional: further conditions with their bodies, an `else`
with its body or none, and the end. -/
inductive Branches
  | close (closer : Token) (closes : closer.Closes .cond)
  | otherwise (clause : Token) (divides : clause.Opens .otherwise) (inner : Body) (closer : Token)
      (closes : closer.Closes .cond)
  | elseif (clause : Token) (divides : clause.Opens .elseif) (inner : Body) (more : Branches)
end

mutual
/-- The tokens that are derived. -/
def Body.tokens : Body → List Token
  | .nil => []
  | .leaf token _ rest => token :: rest.tokens
  | .block opener _ inner closer _ rest => opener :: (inner.tokens ++ closer :: rest.tokens)
  | .conditional opener _ inner branches rest =>
    opener :: (inner.tokens ++ (branches.tokens ++ rest.tokens))
def Branches.tokens : Branches → List Token
  | .close closer _ => [closer]
  | .otherwise clause _ inner closer _ => clause :: (inner.tokens ++ [closer])
  | .elseif clause _ inner more => clause :: (inner.tokens ++ more.tokens)
end

/-- Tokens that a body derives. -/
def Derivable (tokens : List Token) : Prop := ∃ body : Body, body.tokens = tokens

/-! ### What is still to come -/

/-- The tokens end the block after its current body, with the clauses that it may still have. -/
def EndedBy (block : OpenBlock) (ending : List Token) : Prop :=
  if block.keyword = .cond ∧ block.divided = false then
    ∃ branches : Branches, branches.tokens = ending
  else ∃ closer : Token, closer.Closes block.keyword ∧ ending = [closer]

/-- The remaining tokens complete the block: a body, an ending and what `outer` allows
after it. -/
def CompletedBy (block : OpenBlock) (outer : List Token → Prop) (tokens : List Token) :
    Prop :=
  ∃ (inner : Body) (ending rest : List Token), tokens = inner.tokens ++ (ending ++ rest) ∧
    outer rest ∧ EndedBy block ending

/-- The remaining tokens complete every open block, from the innermost out. -/
def Completed : List OpenBlock → List Token → Prop
  | [] => Derivable
  | block :: outer => CompletedBy block (Completed outer)

/-- Tokens that can stand before every body can stand before what completes open blocks. -/
theorem Completed.prepend {opened : List OpenBlock} (piece : List Token) {tokens : List Token}
    (grows : ∀ body : Body, Derivable (piece ++ body.tokens)) (completed : Completed opened tokens) :
    Completed opened (piece ++ tokens) := by
  cases opened with
  | nil =>
    obtain ⟨body, rfl⟩ := completed
    exact grows body
  | cons block outer =>
    obtain ⟨inner, ending, rest, rfl, later, ends⟩ := completed
    obtain ⟨body, same⟩ := grows inner
    exact ⟨body, ending, rest, by rw [same, List.append_assoc], later, ends⟩

/-- An end completes the block it fits. -/
theorem Completed.close {block : OpenBlock} {outer : List OpenBlock} {closer : Token}
    {tokens : List Token} (closes : closer.Closes block.keyword)
    (completed : Completed outer tokens) : Completed (block :: outer) (closer :: tokens) := by
  refine ⟨.nil, [closer], tokens, rfl, completed, ?_⟩
  unfold EndedBy
  split
  · rename_i free
    rw [free.1] at closes
    exact ⟨.close closer closes, rfl⟩
  · exact ⟨closer, closes, rfl⟩

/-- A clause that divides an open conditional stands where its first ending may begin. -/
theorem Completed.divide {block : OpenBlock} {outer : List OpenBlock} {clause : Token}
    {tokens : List Token} (conditional : block.keyword = .cond) (free : block.divided = false)
    (opens : clause.isOpening = true) (divides : clause.keyword.isClause = true)
    (completed : Completed ({ block with divided := clause.keyword == .otherwise } :: outer) tokens) :
    Completed (block :: outer) (clause :: tokens) := by
  obtain ⟨inner, ending, rest, rfl, later, ends⟩ := completed
  refine ⟨.nil, clause :: (inner.tokens ++ ending), rest, by simp [Body.tokens], later, ?_⟩
  rw [EndedBy, if_pos ⟨conditional, free⟩]
  by_cases word : clause.keyword = .otherwise
  · rw [EndedBy, if_neg (by simp [word])] at ends
    obtain ⟨closer, closes, rfl⟩ := ends
    rw [conditional] at closes
    exact ⟨.otherwise clause ⟨opens, word⟩ inner closer closes, rfl⟩
  · have further : clause.keyword = .elseif := by
      revert divides word
      cases clause.keyword <;> simp [Markup.Keyword.isClause]
    rw [EndedBy, if_pos (by simp [conditional, word])] at ends
    obtain ⟨more, rfl⟩ := ends
    exact ⟨.elseif clause ⟨opens, further⟩ inner more, rfl⟩

/-- A part of its own can stand before everything. -/
theorem Completed.leaf {opened : List OpenBlock} {token : Token} {tokens : List Token}
    (alone : token.standsAlone = true) (completed : Completed opened tokens) :
    Completed opened (token :: tokens) :=
  completed.prepend [token] fun body => ⟨.leaf token alone body, rfl⟩

/-- What completes a block that an opening started stands after the opening. -/
theorem Completed.opened {opened : List OpenBlock} {opener : Token} {tokens : List Token}
    {start : Nat} (opens : opener.isOpening = true) (block : opener.keyword.opensBlock = true)
    (completed : Completed (⟨opener.keyword, start, false⟩ :: opened) tokens) :
    Completed opened (opener :: tokens) := by
  obtain ⟨inner, ending, rest, rfl, later, ends⟩ := completed
  have shape : opener :: (inner.tokens ++ (ending ++ rest)) =
      (opener :: (inner.tokens ++ ending)) ++ rest := by simp
  rw [shape]
  refine later.prepend _ fun body => ?_
  by_cases word : opener.keyword = .cond
  · rw [EndedBy, if_pos ⟨word, rfl⟩] at ends
    obtain ⟨branches, rfl⟩ := ends
    exact ⟨.conditional opener ⟨opens, word⟩ inner branches body, by simp [Body.tokens]⟩
  · rw [EndedBy, if_neg (by simp [word])] at ends
    obtain ⟨closer, closes, rfl⟩ := ends
    have plain : opener.opensBody = true := by simp [Token.opensBody, opens, block, word]
    exact ⟨.block opener plain inner closer closes body, by simp [Body.tokens]⟩

private theorem fits_of_closing {opened : List OpenBlock} {word : String} {start : Nat}
    (silent : (Markup.Check.closing opened word start).2 = []) :
    ∃ block outer, opened = block :: outer ∧ block.keyword.closing = word := by
  cases opened with
  | nil => simp [Markup.Check.closing] at silent
  | cons block outer =>
    refine ⟨block, outer, rfl, ?_⟩
    by_cases fits : block.keyword.closing = word
    · exact fits
    · by_cases inner : ∃ o ∈ outer, o.keyword.closing = word
      · rw [Markup.Check.closing_abandons fits inner] at silent
        simp at silent
      · rw [Markup.Check.closing_unmatched] at silent
        · simp at silent
        · intro o member same
          rcases List.mem_cons.mp member with rfl | inside
          · exact fits same
          · exact inner ⟨o, inside, same⟩

private theorem free_of_clause {opened : List OpenBlock} {keyword : Keyword} {start : Nat}
    (silent : (Markup.Check.clause opened keyword start).2 = []) :
    ∃ block outer, opened = block :: outer ∧ block.keyword = .cond ∧ block.divided = false := by
  unfold Markup.Check.clause at silent
  split at silent
  · simp at silent
  · rename_i block outer
    refine ⟨block, outer, rfl, ?_⟩
    split at silent
    · simp at silent
    · rename_i kind
      split at silent
      · simp at silent
      · rename_i free
        exact ⟨by simpa using kind, by simpa using free⟩

/-- An opening tag at which the check finds nothing divides the innermost block, starts one or
stands alone. -/
private theorem completed_of_opening {opened : List OpenBlock} {token : Token} {tag : Opening}
    {source : String} (content : token.content = .opening tag source)
    (grammatical : token.isGrammatical = true) (silent : (ofToken opened token).2 = [])
    {rest : List Token} (later : Completed (ofToken opened token).1 rest) :
    Completed opened (token :: rest) := by
  have opens : token.isOpening = true := by simp [Token.isOpening, content]
  simp only [Token.isGrammatical, content] at grammatical
  simp only [ofToken, content, Markup.Check.opening] at silent later
  cases clause : token.keyword.isClause with
  | true =>
    simp only [clause, if_true] at silent later
    obtain ⟨block, outer, rfl, conditional, free⟩ := free_of_clause silent
    have divided : (Markup.Check.clause (block :: outer) token.keyword token.span.start).1 =
        { block with divided := token.keyword == .otherwise } :: outer := by
      simp [Markup.Check.clause, conditional, free]
    rw [divided] at later
    exact later.divide conditional free opens clause
  | false =>
    simp only [clause, Bool.false_eq_true, if_false] at later
    cases block : token.keyword.opensBlock with
    | true =>
      rw [if_pos block] at later
      exact later.opened opens block
    | false =>
      rw [if_neg (by simp [block])] at later
      refine later.leaf ?_
      simpa [Token.standsAlone, content, clause, block] using grammatical

/-- A token at which the check finds nothing, in front of tokens that complete what is open behind
it. -/
theorem completed_cons {opened : List OpenBlock} {token : Token}
    (grammatical : token.isGrammatical = true) (silent : (ofToken opened token).2 = [])
    {rest : List Token} (later : Completed (ofToken opened token).1 rest) :
    Completed opened (token :: rest) := by
  cases content : token.content with
  | text | output | comment =>
    simp only [ofToken, content] at later
    exact later.leaf (by simp [Token.standsAlone, content])
  | opening tag source => exact completed_of_opening content grammatical silent later
  | closing source =>
    simp only [ofToken, content] at silent later
    obtain ⟨block, outer, rfl, fits⟩ := fits_of_closing silent
    rw [Markup.Check.closing_fits fits] at later
    exact later.close ⟨by simp [Token.isClosing, content], fits.symm⟩
  | stray | done => simp [Token.isGrammatical, content] at grammatical

/-- Tokens in which the check finds nothing complete the blocks that are open before them. -/
theorem completed_of_no_problems (opened : List OpenBlock) {tokens : List Token}
    (grammatical : ∀ token ∈ tokens, token.isGrammatical = true)
    (silent : tokenProblems opened tokens = []) : Completed opened tokens := by
  induction tokens generalizing opened with
  | nil =>
    have none : opened = [] := by simpa [tokenProblems] using silent
    subst none
    exact ⟨.nil, rfl⟩
  | cons token rest ih =>
    rw [tokenProblems, List.append_eq_nil_iff] at silent
    obtain ⟨here, there⟩ := silent
    obtain ⟨known, others⟩ := List.forall_mem_cons.mp grammatical
    exact completed_cons known here (ih _ others there)

end Stencil
