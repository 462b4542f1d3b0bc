/-! The words of tags. -/
namespace Stencil.Markup

/-- The word of an opening tag. -/
inductive Keyword
  | cond
  | elseif
  | otherwise
  | for
  | each
  | while
  | unless
  | block
  | include
  | extends
  | unknown (word : String)
deriving DecidableEq, Repr

namespace Keyword

def text : Keyword → String
  | cond => "if"
  | elseif => "elseif"
  | otherwise => "else"
  | .for => "for"
  | each => "each"
  | .while => "while"
  | .unless => "unless"
  | block => "block"
  | .include => "include"
  | .extends => "extends"
  | unknown word => word

def ofText (word : String) : Keyword :=
  ([cond, elseif, otherwise, .for, each, .while, .unless, block, .include, .extends].find?
    (·.text == word)).getD (unknown word)

/-- The word of the tag that closes a block. -/
def closing (keyword : Keyword) : String := "end" ++ keyword.text

/-- A word that divides a conditional block. -/
def isClause : Keyword → Bool
  | elseif | otherwise => true
  | _ => false

/-- A word that opens a block with an end. -/
def opensBlock : Keyword → Bool
  | cond | .for | each | .while | .unless | block => true
  | _ => false

end Keyword
end Stencil.Markup
