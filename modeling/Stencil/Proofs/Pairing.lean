import Mathlib.Data.List.Forall2
import Stencil.Proofs.Likeness
import Stencil.Proofs.Mirrors

/-! What stays alike when two templates are rendered side by side: scopes that bind the known names
alike, stores and catalogues whose templates are kin, and settings that differ in limits at most. -/
namespace Stencil

variable {σ α β : Type}

/-! ### Dictionaries -/

namespace Dict

/-- The same keys with related values, in the same order. -/
def Related (rel : α → β → Prop) (dict : Dict α) (other : Dict β) : Prop :=
  List.Forall₂ (fun entry entry' => entry.1 = entry'.1 ∧ rel entry.2 entry'.2) dict other

variable {rel : α → β → Prop} {dict : Dict α} {other : Dict β}

theorem Related.get? (related : Related rel dict other) (key : String) :
    Option.Rel rel (dict.get? key) (other.get? key) := by
  induction related with
  | nil => exact .none
  | cons here later ih =>
    rename_i entry entry' rest others
    obtain ⟨name, value⟩ := entry
    obtain ⟨name', value'⟩ := entry'
    obtain ⟨rfl, same⟩ := here
    rw [Dict.get?, Dict.get?, List.lookup_cons, List.lookup_cons]
    cases key == name with
    | true => exact .some same
    | false => exact ih

theorem Related.set {value : α} {value' : β} (related : Related rel dict other) (key : String)
    (same : rel value value') : Related rel (dict.set key value) (other.set key value') := by
  induction related with
  | nil => exact .cons ⟨rfl, same⟩ .nil
  | cons here later ih =>
    rename_i entry entry' rest others
    obtain ⟨name, held⟩ := entry
    obtain ⟨name', held'⟩ := entry'
    obtain ⟨rfl, kept⟩ := here
    rw [Dict.set, Dict.set]
    split
    · exact .cons ⟨rfl, same⟩ later
    · exact .cons ⟨rfl, kept⟩ ih

theorem Related.update {newer : Dict α} {newer' : Dict β} (related : Related rel dict other)
    (further : Related rel newer newer') : Related rel (dict.update newer) (other.update newer') := by
  induction further generalizing dict other with
  | nil => exact related
  | cons here later ih =>
    rename_i entry entry' rest others
    obtain ⟨name, value⟩ := entry
    obtain ⟨name', value'⟩ := entry'
    obtain ⟨rfl, same⟩ := here
    exact ih (related.set name same)

theorem Related.ofList {entries : List (String × α)} {entries' : List (String × β)}
    (related : Related rel entries entries') : Related rel (ofList entries) (ofList entries') :=
  Related.update .nil related

theorem Related.refl {rel : α → α → Prop} (same : ∀ value, rel value value) (dict : Dict α) :
    Related rel dict dict :=
  List.forall₂_same.mpr fun entry _ => ⟨rfl, same entry.2⟩

theorem related_eq {dict other : Dict α} (related : Related Eq dict other) : dict = other := by
  induction related with
  | nil => rfl
  | cons here later ih => rw [ih, Prod.ext here.1 here.2]

end Dict

/-! ### Scopes -/

/-- The known names stand for the same values. -/
def Likeness.Binds (l : Likeness) (dict other : Dict Value) : Prop :=
  ∀ name, l.names name → Dict.get? dict name = Dict.get? other name

structure Layer.Agree (l : Likeness) (layer other : Layer) : Prop where
  number : layer.number = other.number
  bindings : l.Binds layer.bindings other.bindings

structure Scope.Agree (l : Likeness) (scope other : Scope) : Prop where
  layers : List.Forall₂ (Layer.Agree l) scope.layers other.layers
  globals : l.Binds scope.globals other.globals
  fresh : scope.fresh = other.fresh

namespace Scope.Agree

variable {l : Likeness} {scope other : Scope}

theorem find (agree : Agree l scope other) {name : String} (known : l.names name) :
    scope.find? name = other.find? name := by
  have global : Dict.get? scope.globals name = Dict.get? other.globals name :=
    agree.globals name known
  have layers := agree.layers
  unfold find? frames
  generalize scope.layers = layered at layers ⊢
  generalize other.layers = layered' at layers ⊢
  induction layers with
  | nil => simp only [List.map_nil, List.nil_append, List.findSome?_cons, global]
  | cons here later ih =>
    simp only [List.map_cons, List.cons_append, List.findSome?_cons, here.bindings name known]
    split
    · rfl
    · exact ih

theorem get (agree : Agree l scope other) {name : String} (known : l.names name) :
    scope.get name = other.get name := by
  rw [Scope.get, Scope.get, agree.find known]

theorem push (agree : Agree l scope other) {bindings bindings' : Dict Value}
    (binds : l.Binds bindings bindings') : Agree l (scope.push bindings) (other.push bindings') where
  layers := .cons ⟨agree.fresh, binds⟩ agree.layers
  globals := agree.globals
  fresh := congrArg (· + 1) agree.fresh

theorem unwind (agree : Agree l scope other) (number : Nat) :
    Agree l (scope.unwind number) (other.unwind number) := by
  have dropped : List.Forall₂ (Layer.Agree l) (scope.layers.dropWhile (·.number != number))
      (other.layers.dropWhile (·.number != number)) := by
    have layers := agree.layers
    generalize scope.layers = layered at layers ⊢
    generalize other.layers = layered' at layers ⊢
    induction layers with
    | nil => exact .nil
    | cons here later ih =>
      rw [List.dropWhile_cons, List.dropWhile_cons, here.number]
      split
      · exact ih
      · exact .cons here later
  unfold Scope.unwind
  generalize scope.layers.dropWhile (·.number != number) = left at dropped ⊢
  generalize other.layers.dropWhile (·.number != number) = left' at dropped ⊢
  cases dropped with
  | nil => exact agree
  | cons _ later => exact ⟨later, agree.globals, agree.fresh⟩

theorem isTop (agree : Agree l scope other) (number : Nat) :
    scope.isTop number = other.isTop number := by
  have layers := agree.layers
  unfold Scope.isTop
  generalize scope.layers = layered at layers ⊢
  generalize other.layers = layered' at layers ⊢
  cases layers with
  | nil => rfl
  | cons here _ => simp [here.number]

end Scope.Agree

/-! ### Stores -/

/-- Stores with the same counts, whose templates are related. -/
structure Store.Alike (kin : α → β → Prop) (store : Store α) (other : Store β) : Prop where
  enabled : store.enabled = other.enabled
  capacity : store.capacity = other.capacity
  hits : store.hits = other.hits
  misses : store.misses = other.misses
  evictions : store.evictions = other.evictions
  entries : Dict.Related (Option.Rel kin) store.entries other.entries

namespace Store.Alike

variable {kin : α → β → Prop} {store : Store α} {other : Store β}

theorem get (alike : Alike kin store other) (name : String) :
    Option.Rel kin (store.get name).1 (other.get name).1 ∧
      Alike kin (store.get name).2 (other.get name).2 := by
  have found : Option.Rel kin (store.find? name) (other.find? name) := by
    have kept := alike.entries.get? name
    unfold find?
    generalize Dict.get? store.entries name = entry at kept ⊢
    generalize Dict.get? other.entries name = entry' at kept ⊢
    cases kept with
    | none => exact .none
    | some same => exact same
  unfold Store.get
  generalize store.find? name = entry at found ⊢
  generalize other.find? name = entry' at found ⊢
  cases found with
  | none => exact ⟨.none, { alike with misses := congrArg (· + 1) alike.misses }⟩
  | some same => exact ⟨.some same, { alike with hits := congrArg (· + 1) alike.hits }⟩

theorem put (alike : Alike kin store other) (name : String) {entry : α} {entry' : β}
    (same : kin entry entry') :
    Alike kin (store.put name (some entry)) (other.put name (some entry')) := by
  have entries := alike.entries.set name (.some same)
  unfold Store.put
  rw [alike.enabled]
  split
  · dsimp only
    rw [alike.capacity, entries.length_eq]
    exact ⟨rfl, rfl, alike.hits, alike.misses, by rw [alike.evictions],
      List.forall₂_drop _ entries⟩
  · exact alike

end Store.Alike

theorem Store.Alike.refl {kin : α → α → Prop} (same : ∀ value, kin value value) (store : Store α) :
    Store.Alike kin store store := by
  refine ⟨rfl, rfl, rfl, rfl, rfl, Dict.Related.refl (fun entry => ?_) store.entries⟩
  cases entry with
  | none => exact .none
  | some value => exact .some (same value)

theorem Store.eq_of_alike {store other : Store α} (alike : Store.Alike Eq store other) :
    store = other := by
  obtain ⟨enabled, capacity, hits, misses, evictions, entries⟩ := alike
  have same : store.entries = other.entries := by
    refine Dict.related_eq (entries.imp fun entry entry' related => ⟨related.1, ?_⟩)
    obtain ⟨-, same⟩ := related
    generalize entry.2 = held at same ⊢
    generalize entry'.2 = held' at same ⊢
    cases same with
    | none => rfl
    | some same => rw [same]
  obtain ⟨_, _, _, _, _, _⟩ := store
  obtain ⟨_, _, _, _, _, _⟩ := other
  simp_all

end Stencil
