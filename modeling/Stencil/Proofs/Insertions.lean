import Mathlib.Data.List.DropRight
import Stencil.Proofs.Dictionaries
import Stencil.Store

/-! Stores over a run. What an enabled store holds and counts is read off the operations since
it was last cleared: it keeps the last insertions, the oldest one first. -/
namespace Stencil.Store

variable {α : Type} {store : Store α} {capacity : Nat} {name : String} {value : α}

/-- What is asked of a store. -/
inductive Operation (α : Type)
  | put (name : String) (value : α)
  | get (name : String)
  | contains (name : String)
  | clear

def Operation.apply : Operation α → Store α → Store α
  | put name value, store => store.put name (some value)
  | get name, store => (store.get name).2
  | contains _, store => store
  | clear, store => store.clear

def Operation.clears : Operation α → Bool
  | clear => true
  | _ => false

/-- An enabled store after some operations. -/
def after (capacity : Nat) (operations : List (Operation α)) : Store α :=
  operations.foldl (fun store operation => operation.apply store) (.empty true capacity)

/-! ### Histories -/

/-- An operation, with the store that it met. -/
abbrev Moment (α : Type) := Store α × Operation α

/-- Operations one after the other, each with the store that it met. -/
def meeting : Store α → List (Operation α) → List (Moment α)
  | _, [] => []
  | store, operation :: rest => (store, operation) :: meeting (operation.apply store) rest

/-- What happened since the store was last cleared. -/
def recent (capacity : Nat) (operations : List (Operation α)) : List (Moment α) :=
  (meeting (.empty true capacity) operations).rtakeWhile fun moment => !moment.2.clears

/-- The name under which a moment inserts: the one of a put that met it absent. -/
def Moment.inserts? : Moment α → Option String
  | (store, .put name _) => if store.has name then none else some name
  | _ => none

def Moment.asks : Moment α → Bool
  | (_, .get _) => true
  | _ => false

/-- Whether a moment asks for a name that is present. -/
def Moment.answers : Moment α → Bool
  | (store, .get name) => store.has name
  | _ => false

/-- The names that were inserted since the store was last cleared, the oldest insertion first. -/
def inserted (capacity : Nat) (operations : List (Operation α)) : List String :=
  (recent capacity operations).filterMap Moment.inserts?

/-- The value of the last put of a name. -/
def lastPut (name : String) (operations : List (Operation α)) : Option α :=
  operations.reverse.findSome? fun
    | .put other value => if other = name then some value else none
    | _ => none

theorem after_concat (operations : List (Operation α)) (operation : Operation α) :
    after capacity (operations ++ [operation]) = operation.apply (after capacity operations) := by
  rw [after, List.foldl_append]
  rfl

theorem meeting_concat (store : Store α) (operations : List (Operation α))
    (operation : Operation α) :
    meeting store (operations ++ [operation]) = meeting store operations ++
      [(operations.foldl (fun store operation => operation.apply store) store, operation)] := by
  induction operations generalizing store with
  | nil => rfl
  | cons first rest ih => exact congrArg ((store, first) :: ·) (ih _)

theorem recent_concat (operations : List (Operation α)) (operation : Operation α) :
    recent capacity (operations ++ [operation]) =
      if operation.clears then []
      else recent capacity operations ++ [(after capacity operations, operation)] := by
  rw [recent, meeting_concat, List.rtakeWhile_concat]
  cases operation <;> rfl

theorem inserted_concat (operations : List (Operation α)) (operation : Operation α) :
    inserted capacity (operations ++ [operation]) =
      if operation.clears then []
      else inserted capacity operations ++
        (Moment.inserts? (after capacity operations, operation)).toList := by
  rw [inserted, recent_concat]
  split
  · rfl
  · rw [List.filterMap_append]
    cases found : Moment.inserts? (after capacity operations, operation) <;>
      simp [inserted, found]

theorem lastPut_concat (name : String) (operations : List (Operation α))
    (operation : Operation α) :
    lastPut name (operations ++ [operation]) = match operation with
      | .put other value => if other = name then some value else lastPut name operations
      | _ => lastPut name operations := by
  rw [lastPut, List.reverse_append, List.reverse_singleton, List.singleton_append,
    List.findSome?_cons]
  cases operation with
  | put other value =>
    by_cases same : other = name
    · simp only [if_pos same]
    · simp only [if_neg same]
      rfl
  | _ => rfl

/-! ### Entries -/

theorem has_iff : store.has name = true ↔ name ∈ store.names := by
  constructor
  · intro present
    obtain ⟨entry, found⟩ := Option.isSome_iff_exists.mp present
    exact List.mem_map_of_mem (f := (·.1)) (Dict.mem_of_get? found)
  · intro member
    obtain ⟨⟨key, entry⟩, kept, rfl⟩ := List.mem_map.mp member
    by_contra absent
    have differs := List.lookup_eq_none_iff.mp (Option.not_isSome_iff_eq_none.mp absent) _ kept
    simp at differs

theorem length_names (store : Store α) : store.names.length = store.size := List.length_map _

/-- A name that is present keeps its place, and any other one comes last. -/
theorem keys_set (store : Store α) (name : String) (entry : Option α) :
    (Dict.set store.entries name entry).keys =
      if store.has name then store.names else store.names ++ [name] := by
  rcases Dict.keys_set store.entries name entry with same | ⟨absent, more⟩
  · have member : name ∈ (Dict.set store.entries name entry).keys := by
      by_contra absent
      have found := Dict.get?_set store.entries name entry name
      rw [if_pos rfl, Dict.get?_eq_none absent] at found
      contradiction
    rw [same] at member
    rw [if_pos (has_iff.mpr member), same]
    rfl
  · rw [if_neg fun present => absent (has_iff.mp present), more]
    rfl

theorem put_eq (enabled : store.enabled = true) (name : String) (entry : Option α) :
    store.put name entry = { store with
      entries := (Dict.set store.entries name entry).drop
        ((Dict.set store.entries name entry).length - store.capacity)
      evictions := store.evictions +
        ((Dict.set store.entries name entry).length - store.capacity) } := by
  rw [put, if_pos enabled]

theorem length_set (store : Store α) (name : String) (entry : Option α) :
    (Dict.set store.entries name entry).length =
      if store.has name then store.size else store.size + 1 := by
  have keys := congrArg List.length (keys_set store name entry)
  rw [Dict.keys, List.length_map] at keys
  rw [keys]
  split <;> simp [length_names]

theorem find?_eq_none (absent : store.has name = false) : store.find? name = none := by
  have none : Dict.get? store.entries name = none := by simpa [has, Dict.has] using absent
  rw [find?, none]
  rfl

/-! ### Steps -/

/-- A store is what its history tells. -/
structure Follows (capacity : Nat) (operations : List (Operation α)) (store : Store α) : Prop where
  enabled : store.enabled = true
  bound : store.capacity = capacity
  once : store.names.Nodup
  names : store.names =
    (inserted capacity operations).drop ((inserted capacity operations).length - capacity)
  values {name : String} {entry : Option α} (member : (name, entry) ∈ store.entries) :
    ∃ value, entry = some value ∧ lastPut name operations = some value
  insertions : store.size + store.evictions = (inserted capacity operations).length
  hits : store.hits = (recent capacity operations).countP Moment.answers
  lookups : store.hits + store.misses = (recent capacity operations).countP Moment.asks

variable {operations : List (Operation α)}

namespace Follows

theorem size_eq (follows : Follows capacity operations store) :
    store.size = min (inserted capacity operations).length capacity := by
  rw [← length_names, follows.names, List.length_drop]
  omega

/-- A name that is present holds the value of its last put. -/
theorem find?_eq (follows : Follows capacity operations store) (present : store.has name = true) :
    store.find? name = lastPut name operations ∧ (lastPut name operations).isSome := by
  obtain ⟨entry, found⟩ := Option.isSome_iff_exists.mp present
  obtain ⟨value, rfl, last⟩ := follows.values (Dict.mem_of_get? found)
  have kept : store.find? name = some value := by
    rw [find?, found]
    rfl
  exact ⟨kept.trans last.symm, last ▸ rfl⟩

/-- What a look-up counts. -/
theorem get_snd (follows : Follows capacity operations store) (name : String) :
    (store.get name).2 = { store with
      hits := store.hits + (store.has name).toNat
      misses := store.misses + (!store.has name).toNat } := by
  cases present : store.has name with
  | true =>
    obtain ⟨kept, some⟩ := follows.find?_eq present
    obtain ⟨value, last⟩ := Option.isSome_iff_exists.mp some
    rw [Store.get, kept, last]
    rfl
  | false =>
    rw [Store.get, find?_eq_none present]
    rfl

end Follows

theorem follows_empty : Follows capacity [] (empty true capacity : Store α) where
  enabled := rfl
  bound := rfl
  once := List.nodup_nil
  names := List.drop_nil.symm
  values member := absurd member List.not_mem_nil
  insertions := rfl
  hits := rfl
  lookups := rfl

/-! ### Steps -/

namespace Follows

variable (met : after capacity operations = store) (follows : Follows capacity operations store)
include met follows

/-- A put of a name that is present leaves all in its place. Any other put inserts the name
last, and the oldest one goes if there is no room. -/
theorem names_put (value : α) :
    (store.put name (some value)).names =
      (inserted capacity (operations ++ [.put name value])).drop
        ((inserted capacity (operations ++ [.put name value])).length - capacity) := by
  have keys := keys_set store name (some value)
  have length := length_set store name (some value)
  have size := follows.size_eq
  rw [put_eq follows.enabled, Store.names, Dict.keys, List.map_drop, ← Dict.keys, follows.bound]
  cases present : store.has name with
  | true =>
    have same : inserted capacity (operations ++ [.put name value]) =
        inserted capacity operations := by
      simp [inserted_concat, Operation.clears, Moment.inserts?, met, present]
    rw [present, if_pos rfl] at keys length
    have room : store.size - capacity = 0 := by omega
    rw [same, keys, length, room, List.drop_zero]
    exact follows.names
  | false =>
    have more : inserted capacity (operations ++ [.put name value]) =
        inserted capacity operations ++ [name] := by
      simp [inserted_concat, Operation.clears, Moment.inserts?, met, present]
    rw [present, if_neg Bool.false_ne_true] at keys length
    rw [more, keys, length, follows.names, ← List.drop_append_of_le_length (by omega),
      List.drop_drop, List.length_append, List.length_singleton]
    congr 1
    omega

theorem insertions_put (value : α) :
    (store.put name (some value)).size + (store.put name (some value)).evictions =
      (inserted capacity (operations ++ [.put name value])).length := by
  have length := length_set store name (some value)
  have counted := follows.insertions
  rw [put_eq follows.enabled, size, List.length_drop, inserted_concat, met]
  simp only [Operation.clears, Bool.false_eq_true, if_false, List.length_append, Moment.inserts?]
  cases present : store.has name with
  | true =>
    rw [present, if_pos rfl] at length
    simp only [length, if_true, Option.toList_none, List.length_nil]
    omega
  | false =>
    rw [present, if_neg Bool.false_ne_true] at length
    simp only [length, Bool.false_eq_true, if_false, Option.toList_some, List.length_singleton]
    omega

theorem put (name : String) (value : α) :
    Follows capacity (operations ++ [.put name value]) (store.put name (some value)) := by
  refine ⟨?_, ?_, ?_, names_put met follows value, fun {key entry} member => ?_,
    insertions_put met follows value, ?_, ?_⟩ <;> simp only [put_eq follows.enabled] at *
  · exact follows.enabled
  · exact follows.bound
  · exact ((List.drop_sublist _ _).map Prod.fst).nodup (Dict.nodup_set follows.once _ _)
  · simp only [lastPut_concat]
    rcases Dict.mem_set_cases follows.once (List.mem_of_mem_drop member) with
      ⟨rfl, rfl⟩ | ⟨apart, before⟩
    · exact ⟨value, rfl, if_pos rfl⟩
    · rw [if_neg apart.symm]
      exact follows.values before
  · simp [recent_concat, Operation.clears, Moment.answers, follows.hits]
  · simp [recent_concat, Operation.clears, Moment.asks, ← follows.lookups]

theorem get (name : String) :
    Follows capacity (operations ++ [.get name]) (store.get name).2 := by
  have same : inserted capacity (operations ++ [.get name]) = inserted capacity operations := by
    simp [inserted_concat, Operation.clears, Moment.inserts?]
  rw [follows.get_snd]
  refine ⟨follows.enabled, follows.bound, follows.once, ?_, fun member => ?_, ?_, ?_, ?_⟩
  · rw [same]
    exact follows.names
  · rw [lastPut_concat]
    exact follows.values member
  · rw [same]
    exact follows.insertions
  · cases present : store.has name <;>
      simp [recent_concat, Operation.clears, Moment.answers, met, present, follows.hits]
  · cases present : store.has name <;>
      simp [recent_concat, Operation.clears, Moment.asks, ← follows.lookups] <;> omega

omit met in
theorem contains (name : String) :
    Follows capacity (operations ++ [.contains name]) store := by
  have same :
      inserted capacity (operations ++ [.contains name]) = inserted capacity operations := by
    simp [inserted_concat, Operation.clears, Moment.inserts?]
  refine ⟨follows.enabled, follows.bound, follows.once, ?_, fun member => ?_, ?_, ?_, ?_⟩
  · rw [same]
    exact follows.names
  · rw [lastPut_concat]
    exact follows.values member
  · rw [same]
    exact follows.insertions
  · simp [recent_concat, Operation.clears, Moment.answers, follows.hits]
  · simp [recent_concat, Operation.clears, Moment.asks, follows.lookups]

omit met in
theorem clear : Follows capacity (operations ++ [.clear]) store.clear := by
  have nothing : inserted capacity (operations ++ [.clear]) = [] := inserted_concat _ _
  have none : recent capacity (operations ++ [.clear]) = [] := recent_concat _ _
  refine ⟨follows.enabled, follows.bound, List.nodup_nil, ?_,
    fun member => absurd member List.not_mem_nil, ?_, ?_, ?_⟩
  · rw [nothing, List.drop_nil]
    rfl
  · rw [nothing]
    rfl
  · rw [none]
    rfl
  · rw [none]
    rfl

end Follows

/-- After any run a store is what its history tells. -/
theorem follows_after (capacity : Nat) (operations : List (Operation α)) :
    Follows capacity operations (after capacity operations) := by
  induction operations using List.reverseRecOn with
  | nil => exact follows_empty
  | append_singleton operations operation ih =>
    rw [after_concat]
    cases operation with
    | put name value => exact ih.put rfl name value
    | get name => exact ih.get rfl name
    | contains name => exact ih.contains name
    | clear => exact ih.clear

/-! ### Runs -/

/-- What is among the last items of a list: its last occurrence has fewer items behind it. -/
theorem mem_drop_iff {names : List String} {room : Nat} :
    name ∈ names.drop (names.length - room) ↔
      ∃ before later, names = before ++ name :: later ∧ name ∉ later ∧ later.length < room := by
  constructor
  · intro member
    obtain ⟨later, before, parts, fresh⟩ := List.eq_append_cons_of_mem (List.mem_reverse.mpr member)
    have parts : names.drop (names.length - room) = before.reverse ++ name :: later.reverse := by
      rw [← List.reverse_reverse (names.drop _), parts]
      simp
    have length := congrArg List.length parts
    rw [List.length_drop, List.length_append, List.length_cons] at length
    refine ⟨names.take (names.length - room) ++ before.reverse, later.reverse, ?_,
      fun member => fresh (List.mem_reverse.mp member), by omega⟩
    rw [List.append_assoc, ← parts, List.take_append_drop]
  · rintro ⟨before, later, rfl, _, few⟩
    rw [List.drop_append_of_le_length (by simp; omega)]
    exact List.mem_append_right _ List.mem_cons_self

/-- A store keeps the last insertions, in their order, and what was last put under a name. Its
counters tell the insertions and the look-ups since it was last cleared. -/
theorem first_in_first_out (capacity : Nat) (operations : List (Operation α)) :
    let store := after capacity operations
    let inserted := inserted capacity operations
    store.names.Nodup ∧ store.size ≤ capacity ∧
    (∀ name, store.has name = true ↔
      ∃ before later, inserted = before ++ name :: later ∧ name ∉ later ∧ later.length < capacity) ∧
    store.names = inserted.drop (inserted.length - capacity) ∧
    (∀ name, (store.get name).1 = if store.has name then lastPut name operations else none) ∧
    (∀ name, store.has name = true → (lastPut name operations).isSome) ∧
    store.size + store.evictions = inserted.length ∧
    store.hits = (recent capacity operations).countP Moment.answers ∧
    store.hits + store.misses = (recent capacity operations).countP Moment.asks := by
  intro store inserted
  have follows : Follows capacity operations store := follows_after capacity operations
  refine ⟨follows.once, ?_, fun name => ?_, follows.names, fun name => ?_, fun name present => ?_,
    follows.insertions, follows.hits, follows.lookups⟩
  · rw [follows.size_eq]
    exact Nat.min_le_right _ _
  · rw [has_iff, follows.names]
    exact mem_drop_iff
  · have looked : (store.get name).1 = store.find? name := by
      rw [get]
      split <;> simp [*]
    rw [looked]
    cases present : store.has name with
    | true => exact (follows.find?_eq present).1
    | false => exact find?_eq_none present
  · exact (follows.find?_eq present).2

example : (after 2 [.put "a" 1, .put "b" 2, .put "a" 3, .put "c" 4, .get "a", .put "a" 5]).names =
    ["c", "a"] := by cbv

end Stencil.Store
