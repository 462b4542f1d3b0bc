/-! Lines and columns, both counted from one. -/
namespace Stencil.Text

structure Position where
  line : Nat
  column : Nat
deriving DecidableEq, Repr

/-- Line and column of an offset, by counting the line ends before it. -/
def position (text : List Char) (offset : Nat) : Position :=
  let before := text.take offset
  let tail := before.reverse.takeWhile (· != '\n')
  { line := before.count '\n' + 1, column := tail.length + (offset - before.length) + 1 }

/-- Offsets at which lines start, later lines first. -/
structure Lines where
  starts : List Nat

namespace Lines

/-- Line starts after `offset`, pushed onto the starts already found. -/
def collect (starts : List Nat) (offset : Nat) : List Char → List Nat
  | [] => starts
  | c :: rest => collect (if c == '\n' then (offset + 1) :: starts else starts) (offset + 1) rest

def ofText (text : List Char) : Lines := ⟨collect [0] 0 text⟩

/-- The lines that start at or before an offset, the last of them first. -/
def upTo (lines : Lines) (offset : Nat) : List Nat := lines.starts.dropWhile (offset < ·)

def locate (lines : Lines) (offset : Nat) : Position :=
  let reached := lines.upTo offset
  { line := reached.length, column := offset - reached.headD 0 + 1 }

end Lines
end Stencil.Text
