import Stencil.Text.Words
import Stencil.Tree.Frame
import Stencil.Tree.Reading

/-! From tokens to trees. The open blocks form a stack; each token is a part of the innermost
block, divides it, ends it, or ends blocks around it. What does not fit is reported and the
building goes on; only nesting beyond the limit and tokens that run out inside a block end
it. -/
namespace Stencil
open TreeReading

/-- What becomes of a token inside a block. -/
inductive Placement
  | node (node : Node)
  | opened (frame : Frame)
  | nothing

namespace Placement

def isName (text : List Char) : Bool := Text.isName text

/-- The names before the `in` of a loop. -/
def loopNames (head : Option LoopHead) : List (List Char) :=
  match head with
  | none => []
  | some loop =>
    if loop.target.isEmpty then [] else (Text.pieces [','] loop.target.toList).map Text.trim

/-- What a loop binds, if its head has one or two names and something to run over. -/
def binding? (word : String) (tag : Opening) : Option LoopBinding :=
  let iterable := (tag.loop.map (·.iterable)).getD ""
  match loopNames tag.loop, tag.lexemes.isEmpty with
  | [item], false =>
    if isName item then some ⟨word, String.ofList item, none, iterable⟩ else none
  | [item, index], false =>
    if isName item && isName index then
      some ⟨word, String.ofList item, some (String.ofList index), iterable⟩
    else none
  | _, _ => none

def isQuotingMark (c : Char) : Bool := c == '\'' || c == '"'

/-- The name of a block, without quotes around it. -/
def blockName (condition : String) : String :=
  let bare := (Text.trim condition.toList).dropWhile isQuotingMark
  String.ofList (bare.reverse.dropWhile isQuotingMark).reverse

/-- The condition of a tag; a missing one is reported and stands for null. -/
def condition (limit room : Nat) (token : Token) (tag : Opening) : TreeReading Expression := do
  if tag.lexemes.isEmpty then
    report .unexpectedToken s!"Missing expression in '{token.text}'" token.span
    return .literal (some token.span) .null
  else Expression.read limit room 0 tag.lexemes

/-- The frame of a loop. One that cannot be read runs over `items`. -/
def loop (limit room : Nat) (token : Token) (tag : Opening) : TreeReading Shape := do
  match binding? token.text tag with
  | some binding => return .loop binding (← Expression.read limit room 0 tag.lexemes)
  | none =>
    report .invalidFor s!"Invalid for loop syntax: '{tag.condition}'" token.span
    return .loop ⟨token.text, "item", none, "items"⟩ (.name token.span "items")

def block (token : Token) (tag : Opening) : TreeReading Shape := do
  let name := blockName tag.condition
  if name.isEmpty then report .invalidTag "Block name is required" token.span
  else noteBlock name
  return .block name

/-- What an opening tag starts, inside `height` open blocks. -/
def ofOpening (limit height : Nat) (token : Token) (tag : Opening) : TreeReading Placement := do
  if limit ≤ height then tooDeep limit token.span
  let room := limit - (height + 1)
  let opened (shape : Shape) : Placement := opened ⟨token.text, token.span, shape, []⟩
  match token.keyword with
  | .cond => return opened (.first (← condition limit room token tag))
  | .for | .each => return opened (← loop limit room token tag)
  | .while => return opened (.repetition (← condition limit room token tag))
  | .unless => return opened (.exception (← condition limit room token tag))
  | .block => return opened (← block token tag)
  | .include => return node (.inclusion token.span (← condition limit room token tag))
  | .extends => return opened (.extension (← condition limit room token tag) [])
  | _ =>
    report .invalidTag s!"Unknown tag '{token.text}'" token.span
    return nothing

def filterUse (limit room : Nat) (filter : FilterLexeme) : TreeReading FilterUse := do
  return ⟨filter.span, filter.name,
    ← Expression.ofArguments (Expression.read limit room 0) filter.args⟩

/-- An interpolation; one without an expression is reported. -/
def output (limit room : Nat) (token : Token) (expression : List Lexeme)
    (filters : List FilterLexeme) : TreeReading Node := do
  let value ← if expression.isEmpty then do
      report .emptyInterpolation "Empty variable interpolation" token.span
      pure none
    else some <$> Expression.read limit room 0 expression
  return .output token.span token.text value (← filters.mapM (filterUse limit room))

def misplaced (token : Token) (place : String) : TreeReading Placement := do
  report .misplacedClause s!"'{token.text}' {place}" token.span
  return nothing

def outsideConditional : String := "outside of an if block"

def unmatched (token : Token) : TreeReading Placement := do
  report .unmatchedBlockEnd s!"Unexpected '{token.text}' without matching block" token.span
  return nothing

/-- A token that neither divides nor ends the block it stands in. -/
def ofToken (limit height : Nat) (token : Token) : TreeReading Placement := do
  match token.content with
  | .text _ => return node (.text token.span token.text)
  | .comment content => return node (.comment token.span content)
  | .output expression filters _ =>
    return node (← output limit (limit - height) token expression filters)
  | .opening tag _ =>
    if token.keyword.isClause then misplaced token outsideConditional
    else ofOpening limit height token tag
  | .closing _ => unmatched token
  | .stray kind =>
    report .unexpectedToken s!"Unexpected token: {kind.label}" token.span
    return nothing
  | .done => return nothing

end Placement

namespace Stack

def put (stack : Stack) : Placement → Stack
  | .node node => stack.add node
  | .opened frame => stack.push frame
  | .nothing => stack

def reportUnclosed (frame : Frame) : TreeReading Unit :=
  report .unmatchedBlockStart s!"Unclosed '{frame.word}' block" frame.span

/-- A clause inside an open block. -/
def divide (limit : Nat) (top : Frame) (outer : List Frame) (root : List Node) (token : Token)
    (tag : Opening) : TreeReading Stack := do
  let stack : Stack := ⟨top :: outer, root⟩
  if top.takesClauses then
    if token.keyword == .otherwise then return ⟨top.addOtherwise :: outer, root⟩
    else
      let clause ← Placement.condition limit (limit - stack.height) token tag
      return ⟨top.addClause token.span clause :: outer, root⟩
  else
    let place := if top.isConditional then "after 'else'" else Placement.outsideConditional
    return stack.put (← Placement.misplaced token place)

/-- Text and comments that may stand between the blocks of an extension. -/
def isFiller (token : Token) : Bool :=
  match token.content with
  | .text _ => token.text.toList.all Text.isBlank
  | .comment _ => true
  | _ => false

/-- The tag of a named block. -/
def blockTag? (token : Token) : Option Opening :=
  match token.content with
  | .opening tag _ => if token.keyword == .block then some tag else none
  | _ => none

/-- The stack after a token. `finished` is the node of the block inside these frames that has
just ended. An extension ends at the first token that is no block. -/
def feed (limit : Nat) (token : Token) (finished : Option Node) :
    List Frame → List Node → TreeReading Stack
  | [], root => do
    return (Stack.addAll ⟨[], root⟩ finished).put (← Placement.ofToken limit 0 token)
  | frame :: outer, root => do
    let top := finished.elim frame frame.add
    let stack : Stack := ⟨top :: outer, root⟩
    if top.isExtension then
      match isFiller token, blockTag? token with
      | true, _ => return stack
      | false, some tag => return stack.put (← Placement.ofOpening limit stack.height token tag)
      | false, none => feed limit token (some top.finish) outer root
    else
      match token.content with
      | .closing _ =>
        if token.text == top.closing then return (Stack.mk outer root).add top.finish
        else if outer.any (·.closing == token.text) then
          reportUnclosed top
          feed limit token (some top.finish) outer root
        else return stack.put (← Placement.unmatched token)
      | .opening tag _ =>
        if token.keyword.isClause then divide limit top outer root token tag
        else return stack.put (← Placement.ofOpening limit stack.height token tag)
      | _ => return stack.put (← Placement.ofToken limit stack.height token)

/-- The nodes of the template at its end: blocks that are still open are reported. -/
def unwind (finished : Option Node) : List Frame → List Node → TreeReading (List Node)
  | [], root => return (Stack.addAll ⟨[], root⟩ finished).root.reverse
  | frame :: outer, root => do
    let top := finished.elim frame frame.add
    unless top.isExtension do reportUnclosed top
    unwind (some top.finish) outer root

/-- The nodes of the template where the tokens run out before its end, at offset `stop`. -/
def runOut (stop : Option Nat) (finished : Option Node) :
    List Frame → List Node → TreeReading (List Node)
  | [], root => return (Stack.addAll ⟨[], root⟩ finished).root.reverse
  | frame :: outer, root =>
    let top := finished.elim frame frame.add
    if top.isExtension then runOut stop (some top.finish) outer root
    else throw (.unexpectedEnd stop)

/-- The nodes of a template from its remaining tokens. -/
def build (limit : Nat) (stop : Option Nat) (stack : Stack) :
    List Token → TreeReading (List Node)
  | [] => runOut stop none stack.frames stack.root
  | token :: rest => do
    if token.isDone then unwind none stack.frames stack.root
    else build limit stop (← feed limit token none stack.frames stack.root) rest

end Stack

namespace Tree

/-- The tree of tokens, with nesting up to `limit`, and the diagnostics on the way. -/
def ofTokens (limit : Nat) (tokens : List Token) : Except Cause Tree × List Diagnostic :=
  let stop := tokens.getLast?.map (·.span.stop)
  let (result, g) := (Stack.build limit stop ⟨[], []⟩ tokens).run ⟨[], [], [], []⟩
  (result.map fun nodes => ⟨nodes, g.names, g.functions, g.blocks⟩, g.diagnostics)

end Tree
end Stencil
