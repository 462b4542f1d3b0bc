/-! Search for the place where a property stops to hold. The property is asked of positions, and
may have no answer; which positions are asked is part of the rule, as the answers need not agree
with each other. -/
namespace Stencil.Sorting

abbrev Asked := Nat → Option Bool

def halve (holds : Asked) (low high : Nat) : Option Nat :=
  if low < high then do
    let middle := (low + high) / 2
    if ← holds middle then halve holds (middle + 1) high else halve holds low middle
  else some low
termination_by high - low

/-- The last offset that passed and the first that did not, in strides that double; none from
`most` on passes. -/
def stride (passes : Asked) (most passed next : Nat) : Option (Nat × Nat) :=
  if next < most then do
    if ← passes next then stride passes most next (2 * next + 1) else some (passed, next)
  else some (passed, most)
termination_by most - next

/-- The place below `size`, in strides away from a position and then by halving. -/
def gallop (holds : Asked) (size start : Nat) : Option Nat := do
  if ← holds start then
    let (passed, next) ← stride (fun offset => holds (start + offset)) (size - start) 0 1
    halve holds (start + passed + 1) (start + next)
  else
    let fails (offset : Nat) : Option Bool := return !(← holds (start - offset))
    let (passed, next) ← stride fails (start + 1) 0 1
    halve holds (start + 1 - next) (start - passed)

end Stencil.Sorting
