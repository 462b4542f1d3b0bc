/-! Ordered dictionaries: a key keeps the place of its first insertion. -/
namespace Stencil

/-- Entries in order of insertion; `set` never repeats a key. -/
abbrev Dict (α : Type) := List (String × α)

namespace Dict
variable {α : Type}

def get? (dict : Dict α) (key : String) : Option α := dict.lookup key

def has (dict : Dict α) (key : String) : Bool := (dict.get? key).isSome

def keys (dict : Dict α) : List String := dict.map (·.1)

def values (dict : Dict α) : List α := dict.map (·.2)

/-- A key that is present keeps its place. -/
def set : Dict α → String → α → Dict α
  | [], key, value => [(key, value)]
  | (k, v) :: rest, key, value =>
    if k == key then (k, value) :: rest else (k, v) :: set rest key value

def erase (dict : Dict α) (key : String) : Dict α := dict.filter (·.1 != key)

/-- The entries of `newer` are set one after the other. -/
def update (dict newer : Dict α) : Dict α :=
  newer.foldl (fun d entry => d.set entry.1 entry.2) dict

def ofList (entries : List (String × α)) : Dict α := update [] entries

/-! ### Entries -/

variable {dict newer entries : Dict α} {key : String} {value : α} {entry : String × α}

theorem mem_of_get? (found : dict.get? key = some value) : (key, value) ∈ dict := by
  induction dict with
  | nil => contradiction
  | cons first rest ih =>
    obtain ⟨k, v⟩ := first
    rw [get?, List.lookup_cons] at found
    split at found
    · rename_i same
      cases found
      rw [eq_of_beq same]
      exact List.mem_cons_self
    · exact List.mem_cons_of_mem _ (ih found)

theorem mem_of_mem_set (member : entry ∈ dict.set key value) :
    entry ∈ dict ∨ entry = (key, value) := by
  induction dict with
  | nil => exact .inr (List.mem_singleton.mp member)
  | cons first rest ih =>
    obtain ⟨k, v⟩ := first
    rw [set] at member
    split at member
    · rename_i same
      rcases List.mem_cons.mp member with rfl | member
      · exact .inr (by rw [eq_of_beq same])
      · exact .inl (List.mem_cons_of_mem _ member)
    · rcases List.mem_cons.mp member with rfl | member
      · exact .inl List.mem_cons_self
      · exact (ih member).imp_left (List.mem_cons_of_mem _)

theorem mem_of_mem_update (member : entry ∈ dict.update newer) : entry ∈ dict ∨ entry ∈ newer := by
  induction newer generalizing dict with
  | nil => exact .inl member
  | cons first rest ih =>
    rcases ih member with member | member
    · rcases mem_of_mem_set member with member | rfl
      · exact .inl member
      · exact .inr List.mem_cons_self
    · exact .inr (List.mem_cons_of_mem _ member)

theorem mem_of_mem_ofList (member : entry ∈ ofList entries) : entry ∈ entries :=
  (mem_of_mem_update member).resolve_left List.not_mem_nil

end Dict
end Stencil
