import Stencil.Value

/-! Bounded stores by name. The entry that was inserted first is the first to go; writing to a
name that is present does not move it. -/
namespace Stencil

/-- Entries in order of insertion, and counts of what was found, missed and removed. An entry
that holds nothing takes up room and is never found. -/
structure Store (α : Type) where
  enabled : Bool
  capacity : Nat
  entries : Dict (Option α)
  hits : Nat
  misses : Nat
  evictions : Nat

namespace Store
variable {α : Type}

def empty (enabled : Bool) (capacity : Nat) : Store α := ⟨enabled, capacity, [], 0, 0, 0⟩

def names (store : Store α) : List String := Dict.keys store.entries

def size (store : Store α) : Nat := store.entries.length

def has (store : Store α) (name : String) : Bool := Dict.has store.entries name

def find? (store : Store α) (name : String) : Option α := (Dict.get? store.entries name).join

/-- A look-up, which is counted. -/
def get (store : Store α) (name : String) : Option α × Store α :=
  match store.find? name with
  | some entry => (some entry, { store with hits := store.hits + 1 })
  | none => (none, { store with misses := store.misses + 1 })

/-- A disabled store takes nothing. -/
def put (store : Store α) (name : String) (entry : Option α) : Store α :=
  if store.enabled then
    let entries := Dict.set store.entries name entry
    let surplus := entries.length - store.capacity
    { store with entries := entries.drop surplus, evictions := store.evictions + surplus }
  else store

def clear (store : Store α) : Store α := empty store.enabled store.capacity

/-- What can be told of a store. -/
def report (store : Store α) : List (String × Value) := [
  ("enabled", .bool store.enabled), ("size", .ofNat store.size),
  ("max_size", .ofNat store.capacity), ("hits", .ofNat store.hits),
  ("misses", .ofNat store.misses), ("evictions", .ofNat store.evictions),
  ("names", .ofTexts store.names)]

end Store
end Stencil
