import Stencil.Sorting.Search
import Stencil.Text.Position

/-! A walk over the lines of a text, which is asked for one offset after the other. It steps forward
from the line it is on, and searches anew where it is asked for an earlier offset. -/
namespace Stencil.Text

/-- Offsets at which lines start, earlier lines first, and the offset that was asked for last with
its line. -/
structure Walk where
  starts : List Nat
  offset : Nat
  line : Nat

namespace Walk

def ofText (text : List Char) : Walk := ⟨(Lines.ofText text).starts.reverse, 0, 1⟩

/-- The line of an offset, stepping forward from a line that starts at or before it. -/
def advance (starts : List Nat) (offset line : Nat) : Nat :=
  if within : line < starts.length then
    if starts[line] ≤ offset then advance starts offset (line + 1) else line
  else line
termination_by starts.length - line

/-- The line of an offset, by halving. -/
def search (starts : List Nat) (offset : Nat) : Nat :=
  (Sorting.halve (fun line => starts[line]?.map (· ≤ offset)) 0 starts.length).getD 0

/-- Line and column of an offset, and the walk that has reached it. -/
def locate (walk : Walk) (offset : Nat) : Position × Walk :=
  let line :=
    if offset < walk.offset then search walk.starts offset
    else advance walk.starts offset walk.line
  (⟨line, offset - walk.starts.getD (line - 1) 0 + 1⟩, { walk with offset, line })

/-- Lines and columns of offsets, asked for one after the other. -/
def locateAll (walk : Walk) : List Nat → List Position
  | [] => []
  | offset :: rest =>
    let (position, next) := walk.locate offset
    position :: next.locateAll rest

end Walk
end Stencil.Text
