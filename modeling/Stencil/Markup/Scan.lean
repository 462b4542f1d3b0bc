import Stencil.Dict
import Stencil.Fault
import Stencil.Markup.Matcher

/-! Scanning: the matches of one category from left to right, none overlapping. -/
namespace Stencil.Markup

/-- The match that a hit describes. -/
def Hit.toMatch (hit : Hit) (category : Category) (text : List Char) (start : Nat) : Match :=
  { category
    text := text.take hit.size
    start
    detail := .captured (hit.groups.map fun group =>
      ⟨(text.drop group.1).take group.2, start + group.1⟩) }

/-- Matches in the rest of a text at `offset`; the next `skip` characters belong to the match
before. An empty match counts as none. -/
def scanFrom (matcher : Matcher) (category : Category) (previous : Option Char)
    (offset skip : Nat) : List Char → List Match
  | [] => []
  | c :: rest =>
    match skip with
    | more + 1 => scanFrom matcher category (some c) (offset + 1) more rest
    | 0 =>
      match matcher previous (c :: rest) with
      | none => scanFrom matcher category (some c) (offset + 1) 0 rest
      | some hit =>
        if hit.size == 0 then scanFrom matcher category (some c) (offset + 1) 0 rest
        else
          hit.toMatch category (c :: rest) offset ::
            scanFrom matcher category (some c) (offset + 1) (hit.size - 1) rest

def Piece.shiftAll (pieces : List Piece) (base : Nat) : List Piece := pieces.map (·.shift base)

def Match.shift (m : Match) (base : Nat) : Match :=
  { m with
    start := base + m.start
    detail := match m.detail with
      | .captured pieces => .captured (Piece.shiftAll pieces base)
      | other => other }

/-- Matches of a part at `base`, without those that start in an excluded interval of the
part. -/
def scanWith (matcher : Matcher) (category : Category) (text : List Char) (base : Nat)
    (exclude : List (Nat × Nat)) : List Match :=
  ((scanFrom matcher category none 0 0 text).filter fun m => !inside m.start exclude).map
    (·.shift base)

def scan (category : Category) (text : List Char) (base : Nat) (exclude : List (Nat × Nat)) :
    List Match :=
  scanWith category.matcher category text base exclude

/-- The categories that can be scanned for by name. -/
abbrev Patterns := Dict (Category × Matcher)

namespace Patterns

def standard : Patterns :=
  Category.standard.map fun category => (category.label, category, category.matcher)

/-- A pattern under a name of its own, or in place of another. -/
def add (patterns : Patterns) (name : String) (pattern : Pattern) : Patterns :=
  Dict.set patterns name (.custom name, pattern.matcher)

def remove (patterns : Patterns) (name : String) : Patterns := Dict.erase patterns name

def find (patterns : Patterns) (name : String) : Except Fault (Category × Matcher) :=
  match Dict.get? patterns name with
  | some found => .ok found
  | none => .error (.unknownCategory name)

end Patterns
end Stencil.Markup
