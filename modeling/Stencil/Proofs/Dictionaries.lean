import Mathlib.Data.List.Nodup
import Stencil.Dict

/-! What stands under the keys of dictionaries that entries are set in, one or many. -/
namespace Stencil.Dict

variable {α : Type} {dict newer : Dict α} {key name : String} {value other : α}

theorem get?_cons (key : String) (value : α) (rest : Dict α) (name : String) :
    get? ((key, value) :: rest) name = if key = name then some value else get? rest name := by
  rw [get?, List.lookup_cons]
  by_cases same : key = name
  · rw [if_pos same, beq_iff_eq.mpr same.symm]
  · rw [if_neg same, beq_eq_false_iff_ne.mpr fun eq => same eq.symm]
    rfl

theorem get?_set (dict : Dict α) (key : String) (value : α) (name : String) :
    (dict.set key value).get? name = if key = name then some value else dict.get? name := by
  induction dict with
  | nil => exact get?_cons key value [] name
  | cons first rest ih =>
    obtain ⟨k, v⟩ := first
    rw [set]
    split
    · rename_i here
      obtain rfl := eq_of_beq here
      by_cases asked : k = name
      · rw [get?_cons, if_pos asked, if_pos asked]
      · rw [get?_cons, get?_cons, if_neg asked, if_neg asked, if_neg asked]
    · rename_i apart
      rw [get?_cons, get?_cons, ih]
      by_cases asked : k = name
      · rw [if_pos asked, if_pos asked,
          if_neg fun same => apart (beq_iff_eq.mpr (asked.trans same.symm))]
      · rw [if_neg asked, if_neg asked]

theorem keys_set (dict : Dict α) (key : String) (value : α) :
    (dict.set key value).keys = dict.keys ∨
      key ∉ dict.keys ∧ (dict.set key value).keys = dict.keys ++ [key] := by
  induction dict with
  | nil => exact .inr ⟨List.not_mem_nil, rfl⟩
  | cons first rest ih =>
    obtain ⟨k, v⟩ := first
    rw [set]
    split
    · exact .inl rfl
    · rename_i apart
      have apart : key ≠ k := fun same => apart (beq_iff_eq.mpr same.symm)
      rcases ih with same | ⟨absent, more⟩
      · exact .inl (congrArg (k :: ·) same)
      · exact .inr ⟨by simpa [keys, apart] using absent, congrArg (k :: ·) more⟩

theorem nodup_set (once : dict.keys.Nodup) (key : String) (value : α) :
    (dict.set key value).keys.Nodup := by
  rcases keys_set dict key value with same | ⟨absent, more⟩
  · rwa [same]
  · rw [more]
    exact once.append (List.nodup_singleton key) (by simpa using absent)

theorem mem_set_cases (once : dict.keys.Nodup) (member : (name, other) ∈ dict.set key value) :
    name = key ∧ other = value ∨ name ≠ key ∧ (name, other) ∈ dict := by
  induction dict with
  | nil =>
    cases List.mem_singleton.mp member
    exact .inl ⟨rfl, rfl⟩
  | cons first rest ih =>
    obtain ⟨k, v⟩ := first
    obtain ⟨absent, later⟩ := List.nodup_cons.mp once
    rw [set] at member
    split at member
    · rename_i here
      obtain rfl := eq_of_beq here
      rcases List.mem_cons.mp member with same | member
      · cases same
        exact .inl ⟨rfl, rfl⟩
      · have present : name ∈ keys rest := List.mem_map_of_mem member
        exact .inr ⟨fun same => absent (same ▸ present), List.mem_cons_of_mem _ member⟩
    · rename_i apart
      rcases List.mem_cons.mp member with same | member
      · cases same
        exact .inr ⟨by simpa using apart, List.mem_cons_self⟩
      · exact (ih later member).imp_right (And.imp_right (List.mem_cons_of_mem _))

theorem eq_of_mem (once : dict.keys.Nodup) (here : (key, value) ∈ dict)
    (there : (key, other) ∈ dict) : value = other := by
  have same : ((key, value) : String × α) = (key, other) :=
    List.inj_on_of_nodup_map once here there rfl
  cases same
  rfl

theorem get?_eq_none (absent : name ∉ dict.keys) : dict.get? name = none := by
  cases found : dict.get? name with
  | none => rfl
  | some value => exact absurd (List.mem_map_of_mem (f := (·.1)) (mem_of_get? found)) absent

theorem mem_keys_iff : name ∈ dict.keys ↔ (dict.get? name).isSome = true := by
  constructor
  · intro present
    cases found : dict.get? name with
    | some value => rfl
    | none =>
      obtain ⟨⟨key, value⟩, member, rfl⟩ := List.mem_map.mp present
      rw [get?, List.lookup_eq_none_iff] at found
      exact absurd (found (key, value) member) (by simp)
  · intro found
    obtain ⟨value, found⟩ := Option.isSome_iff_exists.mp found
    exact List.mem_map_of_mem (f := (·.1)) (mem_of_get? found)

theorem get?_eq_some_of_mem (once : dict.keys.Nodup) (member : (name, value) ∈ dict) :
    dict.get? name = some value := by
  obtain ⟨held, found⟩ := Option.isSome_iff_exists.mp
    (mem_keys_iff.mp (List.mem_map_of_mem (f := (·.1)) member))
  rw [found, eq_of_mem once (mem_of_get? found) member]

/-- A newer entry comes before an older one. -/
theorem get?_update (once : newer.keys.Nodup) (name : String) :
    (dict.update newer).get? name = (newer.get? name).or (dict.get? name) := by
  induction newer generalizing dict with
  | nil => rfl
  | cons first rest ih =>
    obtain ⟨key, value⟩ := first
    obtain ⟨absent, later⟩ := List.nodup_cons.mp once
    have whole : dict.update ((key, value) :: rest) = (dict.set key value).update rest := rfl
    rw [whole, ih later, get?_set, get?_cons]
    by_cases same : key = name
    · rw [if_pos same, if_pos same, get?_eq_none (same ▸ absent)]
      rfl
    · rw [if_neg same, if_neg same]

theorem nodup_update (once : dict.keys.Nodup) (newer : Dict α) : (dict.update newer).keys.Nodup := by
  induction newer generalizing dict with
  | nil => exact once
  | cons first rest ih => exact ih (nodup_set once first.1 first.2)

theorem nodup_ofList (entries : Dict α) : (ofList entries).keys.Nodup := by
  have once : (keys ([] : Dict α)).Nodup := List.nodup_nil
  exact nodup_update once entries

theorem get?_ofList {entries : Dict α} (once : entries.keys.Nodup) (name : String) :
    (ofList entries).get? name = entries.get? name := by
  rw [ofList, get?_update once]
  exact Option.or_none

end Stencil.Dict
