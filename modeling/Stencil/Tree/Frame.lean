import Stencil.Tree

/-! Blocks that are open while a tree is built, the parts they have so far, and the stack of
them. -/
namespace Stencil

/-- What an open block is, and where it stands in it. -/
inductive Shape
  /-- In the body under the first condition. -/
  | first (condition : Expression)
  /-- In the body under a later condition. -/
  | later (condition : Expression) (body : List Node) (clauses : List Clause) (span : Span)
      (clause : Expression)
  /-- After the `else`. -/
  | otherwise (condition : Expression) (body : List Node) (clauses : List Clause)
  | loop (binding : LoopBinding) (iterable : Expression)
  | repetition (condition : Expression)
  | exception (condition : Expression)
  | block (name : String)
  | extension (parent : Expression) (blocks : List Block)

/-- An open block: the word and place of its tag and the nodes of its current part, the newest
first. -/
structure Frame where
  word : String
  span : Span
  shape : Shape
  body : List Node

/-- A block in place of an earlier one of the same name, or after the others. -/
def Block.setIn (named : Block) : List Block → List Block
  | [] => [named]
  | other :: rest => if other.name == named.name then named :: rest else other :: named.setIn rest

namespace Frame

/-- The word of the tag that closes the block. -/
def closing (frame : Frame) : String := "end" ++ frame.word

def isExtension (frame : Frame) : Bool :=
  match frame.shape with
  | .extension .. => true
  | _ => false

def isConditional (frame : Frame) : Bool :=
  match frame.shape with
  | .first _ | .later .. | .otherwise .. => true
  | _ => false

def nodes (frame : Frame) : List Node := frame.body.reverse

/-- A node at the end of the current part; an extension collects blocks by name. -/
def add (frame : Frame) (node : Node) : Frame :=
  match frame.shape, node with
  | .extension parent blocks, .block named =>
    { frame with shape := .extension parent (named.setIn blocks) }
  | _, _ => { frame with body := node :: frame.body }

/-- The node of a block that has ended. -/
def finish (frame : Frame) : Node :=
  match frame.shape with
  | .first condition => .conditional frame.span condition frame.nodes [] []
  | .later condition body clauses span clause =>
    .conditional frame.span condition body (clauses ++ [.mk span clause frame.nodes]) []
  | .otherwise condition body clauses =>
    .conditional frame.span condition body clauses frame.nodes
  | .loop binding iterable => .loop frame.span binding iterable frame.nodes
  | .repetition condition => .repetition frame.span condition frame.nodes
  | .exception condition => .exception frame.span condition frame.nodes
  | .block name => .block (.mk frame.span name frame.nodes)
  | .extension parent blocks => .extension frame.span parent blocks

/-- A conditional whose current body ends at a further condition. -/
def addClause (frame : Frame) (span : Span) (clause : Expression) : Frame :=
  match frame.shape with
  | .first condition =>
    { frame with shape := .later condition frame.nodes [] span clause, body := [] }
  | .later condition body clauses current previous =>
    { frame with
      shape := .later condition body (clauses ++ [.mk current previous frame.nodes]) span clause
      body := [] }
  | _ => frame

/-- A conditional whose current body ends at its `else`. -/
def addOtherwise (frame : Frame) : Frame :=
  match frame.shape with
  | .first condition => { frame with shape := .otherwise condition frame.nodes [], body := [] }
  | .later condition body clauses current previous =>
    { frame with
      shape := .otherwise condition body (clauses ++ [.mk current previous frame.nodes])
      body := [] }
  | _ => frame

/-- The block may still be divided by a clause. -/
def takesClauses (frame : Frame) : Bool :=
  match frame.shape with
  | .first _ | .later .. => true
  | _ => false

end Frame

/-- The open blocks, the innermost first, around the nodes of the template itself, the newest
first. -/
structure Stack where
  frames : List Frame
  root : List Node

namespace Stack

def height (stack : Stack) : Nat := stack.frames.length

/-- A node at the end of the innermost open block. -/
def add (stack : Stack) (node : Node) : Stack :=
  match stack.frames with
  | [] => { stack with root := node :: stack.root }
  | top :: outer => { stack with frames := top.add node :: outer }

def addAll (stack : Stack) (finished : Option Node) : Stack := finished.elim stack stack.add

def push (stack : Stack) (frame : Frame) : Stack := { stack with frames := frame :: stack.frames }

end Stack
end Stencil
