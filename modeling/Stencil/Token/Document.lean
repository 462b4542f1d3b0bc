import Stencil.Token
import Stencil.Value.Written

/-! Tokens as documents, as short printed texts and as counts. -/
namespace Stencil

def Span.toDocument (span : Span) : Value :=
  .dict [("start", .ofNat span.start), ("end", .ofNat span.stop),
    ("line", .ofNat span.position.line), ("column", .ofNat span.position.column)]

/-- The document that every token and lexeme has. -/
def tokenDocument (kind text : String) (span : Span) (metadata : List (String × Value)) : Value :=
  .dict [("kind", .text kind), ("text", .text text), ("span", span.toDocument),
    ("metadata", .dict metadata)]

namespace Lexeme

def kind : Lexeme → StrayKind
  | literal .. => .literal
  | operator .. => .operator
  | name .. => .identifier
  | path _ _ _ steps => if endsInIndex steps then .arrayAccess else .propertyAccess
  | call .. => .function

mutual
def toDocument : Lexeme → Value
  | literal span text value =>
    tokenDocument StrayKind.literal.label text span
      [("value", value.value), ("type", .text value.label)]
  | operator span op => tokenDocument StrayKind.operator.label op.symbol span []
  | name span word =>
    tokenDocument StrayKind.identifier.label word span [("name", .text word)]
  | path span text base steps =>
    let kind := if endsInIndex steps then StrayKind.arrayAccess else .propertyAccess
    tokenDocument kind.label text span
      [("base", .text base), ("segments", .list (stepDocuments steps))]
  | call span text callee args =>
    tokenDocument StrayKind.function.label text span
      [("name", .text callee), ("args", .list (argDocuments args))]
termination_by structural lexeme => lexeme
def stepDocument : PathStep → Value
  | .property key => .list [.text "property", .text key]
  | .index inner => .list [.text "index", .list (documents inner)]
termination_by structural step => step
def stepDocuments : List PathStep → List Value
  | [] => []
  | step :: rest => stepDocument step :: stepDocuments rest
termination_by structural steps => steps
def argDocuments : List (List Lexeme) → List Value
  | [] => []
  | arg :: rest => .list (documents arg) :: argDocuments rest
termination_by structural args => args
def documents : List Lexeme → List Value
  | [] => []
  | lexeme :: rest => lexeme.toDocument :: documents rest
termination_by structural lexemes => lexemes
end

end Lexeme

def FilterLexeme.toDocument (filter : FilterLexeme) : Value :=
  tokenDocument StrayKind.filter.label filter.text filter.span
    [("name", .text filter.name), ("args", .list (Lexeme.argDocuments filter.args))]

namespace Token

def label (token : Token) : String :=
  match token.content with
  | .text kind => kind.label
  | .output .. => "VARIABLE"
  | .opening .. => "BLOCK_START"
  | .closing _ => "BLOCK_END"
  | .comment _ => "COMMENT"
  | .stray kind => kind.label
  | .done => "EOF"

/-- What an opening tag says; the parts of a loop are named where the word is that of a
loop. -/
def openingFields (keyword : Markup.Keyword) (tag : Opening) (source : String) :
    List (String × Value) :=
  let part (f : LoopHead → String) : Value := .orNull (tag.loop.map fun loop => .text (f loop))
  let loop := match keyword with
    | .for | .each => [("target", part (·.target)), ("iterable", part (·.iterable))]
    | _ => []
  [("condition", .text tag.condition), ("raw", .text source)] ++ loop ++
    [("condition_tokens", .list (Lexeme.documents tag.lexemes))]

def metadata (token : Token) : List (String × Value) :=
  match token.content with
  | .output expression filters source =>
    [("expression", .list (Lexeme.documents expression ++ filters.map (·.toDocument))),
      ("raw", .text source)]
  | .opening tag source => openingFields token.keyword tag source
  | .closing source => [("closes", .ofChars (token.text.toList.drop 3)), ("raw", .text source)]
  | .comment content => [("content", .text content)]
  | _ => []

def toDocument (token : Token) : Value :=
  tokenDocument token.label token.text token.span token.metadata

/-- Kind, text and place of a token. -/
def printed (token : Token) : String :=
  let place := token.span.position
  s!"Token({token.label}, {Value.quotedText token.text}, {place.line}:{place.column})"

/-- How many tokens there are of each kind, in order of first appearance. -/
def counts (tokens : List Token) : Dict Nat :=
  tokens.foldl (fun found token => found.set token.label ((found.get? token.label).getD 0 + 1)) []

def statistics (tokens : List Token) : Value :=
  .dict [("total", .ofNat tokens.length), ("by_kind", .ofCounts (counts tokens))]

end Token
end Stencil
