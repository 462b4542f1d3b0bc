import Stencil.Library.Functions
import Stencil.Operator
import Stencil.Proofs.Runs
import Stencil.Scope
import Stencil.Token
import Stencil.Value.Equality
import Stencil.Value.Order

/-! Values without marks. Nothing but a filter marks a text as safe: what is taken out of values
that hold no such text, computed from them or put together of them holds none. -/
namespace Stencil

/-! ### Results -/

/-- If the computation succeeds, then with a result that is known. -/
def Grants {ε α : Type} (known : α → Prop) (result : Except ε α) : Prop :=
  ∀ a, result = .ok a → known a

section Grants

variable {ε α β : Type} {known : α → Prop} {fine : β → Prop}

theorem grants_ok {a : α} (one : known a) : Grants known (.ok a : Except ε α) := by
  rintro b ⟨rfl⟩
  exact one

theorem grants_error (e : ε) : Grants known (.error e : Except ε α) := by
  intro a done
  contradiction

theorem grants_bind {result : Except ε α} {next : α → Except ε β}
    (later : ∀ a, result = .ok a → Grants fine (next a)) : Grants fine (result >>= next) := by
  cases result with
  | error e => exact grants_error e
  | ok a => exact later a rfl

theorem grants_liftFault {result : Except Fault α} (grants : Grants known result) :
    Grants known (liftFault result) := by
  cases result with
  | error fault => exact grants_error _
  | ok a => exact grants_ok (grants a rfl)

end Grants

/-! ### Marks -/

namespace Value

mutual
/-- A text in the value is marked as safe. -/
def marked : Value → Bool
  | safe _ => true
  | list items => anyMarked items
  | dict entries => anyEntryMarked entries
  | _ => false
termination_by structural v => v
def anyMarked : List Value → Bool
  | [] => false
  | item :: rest => item.marked || anyMarked rest
termination_by structural items => items
def anyEntryMarked : List (String × Value) → Bool
  | [] => false
  | (_, item) :: rest => item.marked || anyEntryMarked rest
termination_by structural entries => entries
end

abbrev Unmarked (value : Value) : Prop := value.marked = false

/-- A dictionary, or bindings, without marked values. -/
abbrev AllUnmarked (entries : Dict Value) : Prop := ∀ entry ∈ entries, entry.2.Unmarked

theorem unmarked_list {items : List Value} :
    (list items).Unmarked ↔ ∀ item ∈ items, item.Unmarked := by
  change anyMarked items = false ↔ _
  induction items with
  | nil => simp [anyMarked]
  | cons item rest ih => simp only [anyMarked, Bool.or_eq_false_iff, ih, List.forall_mem_cons]

theorem unmarked_dict {entries : List (String × Value)} :
    (dict entries).Unmarked ↔ AllUnmarked entries := by
  change anyEntryMarked entries = false ↔ _
  induction entries with
  | nil => simp [anyEntryMarked]
  | cons entry rest ih => simp only [anyEntryMarked, Bool.or_eq_false_iff, ih, List.forall_mem_cons]

theorem ofNumber_unmarked (n : Number) : (ofNumber n).Unmarked := by
  cases n <;> rfl

theorem map_unmarked {α : Type} (wrap : α → Value) (each : ∀ a, (wrap a).Unmarked)
    (items : List α) : (list (items.map wrap)).Unmarked := by
  refine unmarked_list.mpr fun item member => ?_
  obtain ⟨a, -, rfl⟩ := List.mem_map.mp member
  exact each a

mutual
theorem settled_unmarked (frame : Nat) (place : List Nat) :
    (value : Value) → value.Unmarked → (value.settled frame place).Unmarked
  | undefined, _ | null, _ | bool _, _ | int _, _ | text _, _ | date _, _ | datetime _, _
  | duration _, _ | method _, _ => rfl
  | float x, _ => by
    rw [settled.eq_def]
    cases x with
    | nan source => cases source <;> rfl
    | infinity | finite => rfl
  | list items, all => settledItems_unmarked frame place 0 items all
  | dict entries, all => settledEntries_unmarked frame place 0 entries all
theorem settledItems_unmarked (frame : Nat) (place : List Nat) (index : Nat) :
    (items : List Value) → anyMarked items = false →
      anyMarked (settledItems frame place index items) = false
  | [], _ => rfl
  | item :: rest, all => by
    obtain ⟨first, later⟩ := Bool.or_eq_false_iff.mp all
    exact Bool.or_eq_false_iff.mpr ⟨settled_unmarked frame _ item first,
      settledItems_unmarked frame place _ rest later⟩
theorem settledEntries_unmarked (frame : Nat) (place : List Nat) (index : Nat) :
    (entries : List (String × Value)) → anyEntryMarked entries = false →
      anyEntryMarked (settledEntries frame place index entries) = false
  | [], _ => rfl
  | (_, item) :: rest, all => by
    obtain ⟨first, later⟩ := Bool.or_eq_false_iff.mp all
    exact Bool.or_eq_false_iff.mpr ⟨settled_unmarked frame _ item first,
      settledEntries_unmarked frame place _ rest later⟩
end

/-! ### Parts -/

theorem get?_unmarked {entries : Dict Value} (all : AllUnmarked entries) (name : String) :
    ((Dict.get? entries name).getD undefined).Unmarked := by
  cases found : Dict.get? entries name with
  | none => rfl
  | some value => exact all _ (Dict.mem_of_get? found)

theorem numberField?_unmarked {value part : Value} (unmarked : value.Unmarked) {broken : Bool}
    {name : String} (found : numberField? value broken name = some part) : part.Unmarked := by
  unfold numberField? at found
  split at found
  · exact Option.some.inj found ▸ unmarked
  · cases broken <;> cases found <;> rfl
  · cases broken with
    | true => cases found
    | false => exact Option.some.inj found ▸ unmarked
  · cases broken with
    | true => cases found
    | false => exact Option.some.inj found ▸ rfl
  · cases found

theorem dateField?_unmarked {d : Date} {name : String} {part : Value}
    (found : dateField? d name = some part) : part.Unmarked := by
  unfold dateField? at found
  split at found <;> cases found <;> rfl

theorem momentField?_unmarked {t : DateTime} {name : String} {part : Value}
    (found : momentField? t name = some part) : part.Unmarked := by
  unfold momentField? at found
  split at found
  all_goals first | exact dateField?_unmarked found | cases found; rfl

theorem durationField?_unmarked {time : Duration} {name : String} {part : Value}
    (found : durationField? time name = some part) : part.Unmarked := by
  unfold durationField? at found
  split at found <;> cases found <;> rfl

theorem field?_unmarked {value part : Value} (unmarked : value.Unmarked) {name : String}
    (found : value.field? name = some part) : part.Unmarked := by
  cases value with
  | undefined | null | method m => cases found
  | bool b => exact numberField?_unmarked rfl found
  | int n | float x => exact numberField?_unmarked unmarked found
  | text s | safe s | list items =>
    rw [field?] at found
    split at found <;> cases found
    rfl
  | dict entries => exact unmarked_dict.mp unmarked _ (Dict.mem_of_get? found)
  | date d => exact dateField?_unmarked found
  | datetime t => exact momentField?_unmarked found
  | duration time => exact durationField?_unmarked found

theorem property_unmarked (standing : Owner → Nat) {value : Value} (unmarked : value.Unmarked)
    (name : String) : (value.property standing name).Unmarked := by
  rw [property]
  cases found : value.field? name with
  | some part => exact field?_unmarked unmarked found
  | none => cases value.method? standing name <;> rfl

theorem itemAt_unmarked {α : Type} {items : List α} {wrap : α → Value}
    (each : ∀ item ∈ items, (wrap item).Unmarked) (place : Place) :
    (itemAt items wrap place).Unmarked := by
  unfold itemAt
  split
  · rename_i n
    cases found : items[n]? with
    | none => rfl
    | some item => exact each item (List.mem_of_getElem? found)
  · rfl
  · rfl

theorem index_unmarked {value : Value} (unmarked : value.Unmarked) (key : Value) :
    Grants Unmarked (value.index key) := by
  unfold index
  split
  · exact grants_ok (itemAt_unmarked (unmarked_list.mp unmarked) _)
  · exact grants_ok (itemAt_unmarked (fun _ _ => rfl) _)
  · exact grants_ok (itemAt_unmarked (fun _ _ => rfl) _)
  · split
    · exact grants_ok rfl
    · exact grants_ok rfl
    · exact grants_bind fun name _ => grants_ok (get?_unmarked (unmarked_dict.mp unmarked) name)
  · exact grants_ok rfl

/-! ### Sorting -/

theorem sortByText_of {known : Value → Prop} {items : List Value}
    (all : ∀ item ∈ items, known item) : Grants (∀ item ∈ ·, known item) (sortByText items) := by
  refine grants_bind fun texts _ => grants_ok fun item member => ?_
  obtain ⟨pair, sorted, rfl⟩ := List.mem_map.mp member
  exact all _ (List.of_mem_zip (List.mem_mergeSort.mp sorted)).2

/-- Sorting gives no items but those it was given. -/
theorem sort_of {known : Value → Prop} {items : List Value} (all : ∀ item ∈ items, known item) :
    Grants (∀ item ∈ ·, known item) (sort items) := by
  unfold sort
  split
  · rename_i sorted done
    refine grants_ok ?_
    unfold sorted? at done
    split at done
    · exact Sorting.byRuns_of all done
    · split at done
      · cases done
        exact fun item member => all item (List.mem_mergeSort.mp member)
      · contradiction
  · exact sortByText_of all

end Value

theorem Literal.value_unmarked (literal : Literal) : literal.value.Unmarked := by
  cases literal with
  | number n => exact Value.ofNumber_unmarked n
  | text | bool | null => rfl

/-! ### Operators -/

namespace Operator

open Value

theorem shortCut?_unmarked {op : Operator} {left value : Value} (unmarked : left.Unmarked)
    (cut : op.shortCut? left = some value) : value.Unmarked := by
  unfold shortCut? at cut
  split at cut
  · split at cut
    · contradiction
    · cases cut
      exact unmarked
  · split at cut
    · cases cut
      exact unmarked
    · contradiction
  · contradiction

theorem chooseBy_unmarked {left right : Value} (here : left.Unmarked) (there : right.Unmarked)
    (symbol : String) : Grants Unmarked (chooseBy symbol left right) := by
  have chosen (op : Operator) : ((shortCut? op left).getD right).Unmarked := by
    cases cut : shortCut? op left with
    | none => exact there
    | some value => exact shortCut?_unmarked here cut
  unfold chooseBy
  split
  · exact grants_ok (chosen and)
  · exact grants_ok (chosen or)
  · exact grants_error _

theorem joined_unmarked (left right : Value) : Grants Unmarked (joined left right) :=
  grants_bind fun _ _ => grants_bind fun _ _ => grants_ok rfl

theorem number_unmarked (result : Except Fault Number) :
    Grants Unmarked (liftFault do return ofNumber (← result)) :=
  grants_liftFault (grants_bind fun n _ => grants_ok (ofNumber_unmarked n))

theorem sum_unmarked (strict : Bool) (left right : Value) :
    Grants Unmarked (sum strict left right) := by
  have missing : Grants Unmarked (sum.missing strict left right) := by
    unfold sum.missing
    split
    · exact grants_bind fun _ _ => grants_bind fun _ _ => grants_error _
    · exact grants_liftFault (joined_unmarked left right)
  unfold sum
  split
  · exact grants_liftFault (joined_unmarked left right)
  · split
    · split
      · exact missing
      · exact number_unmarked _
    · exact missing

theorem divide_unmarked (strict : Bool) (symbol : String)
    (compute : Number → Number → Except Fault Number) (a b : Number) :
    Grants Unmarked (divide strict symbol compute a b) := by
  unfold divide
  split
  · split
    · exact grants_error _
    · exact grants_ok rfl
  · exact number_unmarked _

theorem computeBy_unmarked (strict : Bool) (symbol : String) (left right : Value) :
    Grants Unmarked (computeBy strict symbol left right) := by
  unfold computeBy
  split
  · exact sum_unmarked strict left right
  · split
    · split
      · exact number_unmarked _
      · exact number_unmarked _
      · exact divide_unmarked strict symbol _ _ _
      · exact divide_unmarked strict symbol _ _ _
      · exact grants_error _
    · split
      · exact grants_error _
      · exact grants_ok rfl

/-- An operator gives one of its operands, a verdict, a number or a text that is not marked. -/
theorem apply_unmarked (strict : Bool) (op : Operator) {left right : Value}
    (here : left.Unmarked) (there : right.Unmarked) :
    Grants Unmarked (op.apply strict left right) := by
  unfold apply
  split
  · exact grants_liftFault (chooseBy_unmarked here there _)
  · exact grants_liftFault (grants_bind fun _ _ => grants_ok rfl)
  · exact computeBy_unmarked strict _ left right

end Operator

/-! ### Functions -/

namespace Functions

open Value

theorem arg_unmarked {args : List Value} (all : ∀ arg ∈ args, arg.Unmarked) (i : Nat)
    {default : Value} (unmarked : default.Unmarked) : (arg args i default).Unmarked := by
  unfold arg
  rw [List.getD_eq_getElem?_getD]
  cases found : args[i]? with
  | none => exact unmarked
  | some value => exact all value (List.mem_of_getElem? found)

theorem length_unmarked (value : Value) : (length value).Unmarked := by
  cases value <;> rfl

theorem keys_unmarked (value : Value) : (keys value).Unmarked := by
  cases value with
  | dict entries => exact map_unmarked text (fun _ => rfl) _
  | _ => rfl

theorem values_unmarked {value : Value} (unmarked : value.Unmarked) :
    (values value).Unmarked := by
  cases value with
  | dict entries =>
    refine unmarked_list.mpr fun item member => ?_
    obtain ⟨entry, listed, rfl⟩ := List.mem_map.mp member
    exact unmarked_dict.mp unmarked entry listed
  | _ => rfl

theorem range_unmarked (start stop step : Value) : Grants Unmarked (range start stop step) := by
  unfold range
  split
  rename_i first last same
  split
  · exact grants_ok (map_unmarked int (fun _ => rfl) _)
  · refine grants_bind fun numbers _ => ?_
    split
    · exact grants_ok (map_unmarked ofNumber ofNumber_unmarked _)
    · exact grants_error _

theorem orDefault_unmarked {value fallback : Value} (here : value.Unmarked)
    (there : fallback.Unmarked) : (orDefault value fallback).Unmarked := by
  unfold orDefault
  split
  · exact there
  · exact here

theorem random_unmarked (draw : Double) (low high : Value) :
    Grants Unmarked (random draw low high) :=
  grants_bind fun _ _ => grants_bind fun _ _ => grants_bind fun n _ =>
    grants_ok (ofNumber_unmarked n)

theorem round_unmarked {value : Value} (unmarked : value.Unmarked) (decimals : Value) :
    Grants Unmarked (round value decimals) := by
  unfold round
  split
  · exact grants_ok unmarked
  · refine grants_bind fun places _ => grants_bind fun rounded _ => ?_
    split
    · exact grants_bind fun _ _ => grants_ok rfl
    · exact grants_ok (ofNumber_unmarked rounded)

/-- No function marks a text. -/
theorem all_unmarked (s : Surroundings) {builtin : Builtin} (member : builtin ∈ all s)
    {args : List Value} (unmarked : ∀ arg ∈ args, arg.Unmarked) :
    Grants Unmarked (builtin.body args) := by
  have arg (i : Nat) {default : Value} (own : default.Unmarked) := arg_unmarked unmarked i own
  simp only [all, List.mem_cons, List.not_mem_nil, or_false] at member
  rcases member with rfl | rfl | rfl | rfl | rfl | rfl | rfl | rfl
  · exact grants_ok (length_unmarked _)
  · exact grants_ok (keys_unmarked _)
  · exact grants_ok (values_unmarked (arg 0 rfl))
  · exact range_unmarked _ _ _
  · exact grants_ok (orDefault_unmarked (arg 0 rfl) (arg 1 rfl))
  · exact grants_ok rfl
  · exact random_unmarked _ _ _
  · exact round_unmarked (arg 0 rfl) _

end Functions

/-! ### Scopes -/

namespace Scope

/-- No frame binds a name to a value that holds a marked text. -/
abbrev Unmarked (scope : Scope) : Prop := ∀ frame ∈ scope.frames, Value.AllUnmarked frame

variable {scope : Scope}

theorem Unmarked.get (unmarked : scope.Unmarked) (name : String) : (scope.get name).Unmarked := by
  have literal : ((Dict.get? literals name).getD .undefined).Unmarked :=
    Value.get?_unmarked (by decide) name
  unfold Scope.get
  cases found : scope.find? name with
  | none => exact literal
  | some value =>
    obtain ⟨frame, listed, bound⟩ := List.exists_of_findSome?_eq_some found
    exact unmarked frame listed _ (Dict.mem_of_get? bound)

theorem Unmarked.push (unmarked : scope.Unmarked) {bindings : Dict Value}
    (bound : Value.AllUnmarked bindings) : (scope.push bindings).Unmarked := by
  intro frame listed
  rcases List.mem_cons.mp listed with rfl | listed
  · exact bound
  · exact unmarked frame listed

end Scope
end Stencil
