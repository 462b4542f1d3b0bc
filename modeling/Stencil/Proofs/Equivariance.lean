import Mathlib.Data.List.GetD
import Stencil.Library
import Stencil.Operator
import Stencil.Proofs.Images
import Stencil.Proofs.Renaming
import Stencil.Proofs.Steadiness

/-! The operators, functions and filters compute from renamed values what they compute from the
values, renamed. -/
namespace Stencil

variable (r : Renaming)

namespace Value

variable (items : List Value)

/-! ### Sorting -/

theorem byImages_before? : Sorting.byImages (renamed r) before? = before? := by
  funext v w
  exact before?_renamed r v w

theorem allInOrder_renamed : allInOrder (items.map (renamed r)) = allInOrder items := by
  induction items with
  | nil => rfl
  | cons item rest ih => simp [allInOrder, ih, List.all_map, Function.comp_def]

theorem inOrder_renamed : inOrder (items.map (renamed r)) = inOrder items := by
  simp [inOrder, uniform, allInOrder_renamed, List.all_map, Function.comp_def]

theorem sortInOrder_renamed :
    sortInOrder (items.map (renamed r)) = (sortInOrder items).map (renamed r) := by
  refine (List.map_mergeSort fun a _ b _ => ?_).symm
  simp [before]

theorem sortByText_renamed :
    sortByText (items.map (renamed r)) = (sortByText items).map (List.map (renamed r)) := by
  unfold sortByText
  rw [itemTexts_renamed]
  cases itemTexts items with
  | error => rfl
  | ok texts =>
    let keyed (pair : String × Value) : String × Value := (pair.1, pair.2.renamed r)
    have zipped : texts.zip (items.map (renamed r)) = (texts.zip items).map keyed :=
      List.zip_map_right
    have sorted := List.map_mergeSort (f := keyed) (l := texts.zip items)
      (r := fun a b => !charsLt b.1 a.1) (s := fun a b => !charsLt b.1 a.1) fun _ _ _ _ => rfl
    change Except.ok (((texts.zip (items.map (renamed r))).mergeSort _).map (·.2)) =
      Except.ok ((((texts.zip items).mergeSort _).map (·.2)).map (renamed r))
    rw [zipped, ← sorted, List.map_map, List.map_map]
    rfl

theorem sorted?_renamed :
    sorted? (items.map (renamed r)) = (sorted? items).map (List.map (renamed r)) := by
  have nans : anyNan (items.map (renamed r)) = anyNan items := by
    rw [← renamedItems_eq, anyNan_renamedItems]
  have runs := Sorting.byRuns_image (renamed r) before? items
  rw [byImages_before?] at runs
  simp only [sorted?, nans, runs, inOrder_renamed, sortInOrder_renamed]
  split
  · rfl
  · split <;> rfl

@[simp] theorem sort_renamed :
    Value.sort (items.map (renamed r)) = (Value.sort items).map (List.map (renamed r)) := by
  rw [Value.sort, Value.sort, sorted?_renamed, sortByText_renamed]
  cases sorted? items <;> rfl

end Value

/-! ### Functions -/

namespace Functions
open Value

variable (v w : Value)

@[simp] theorem length_renamed : length (v.renamed r) = (length v).renamed r := by
  cases v <;> simp [length, ofNat]

@[simp] theorem keys_renamed : keys (v.renamed r) = (keys v).renamed r := by
  cases v <;> simp [keys, Dict.keys]

@[simp] theorem values_renamed : values (v.renamed r) = (values v).renamed r := by
  cases v <;> simp [values, Dict.values]

@[simp] theorem orDefault_renamed :
    orDefault (v.renamed r) (w.renamed r) = (orDefault v w).renamed r := by
  simp [orDefault, apply_ite (Value.renamed r)]

@[simp] theorem bound_renamed : bound (v.renamed r) = (bound v).renamed r := by
  simp [bound, apply_ite (Number.renamed r)]

theorem numbersFrom_renamed (stop step : Number) (fuel : Nat) (current : Number)
    (earlier : List Number) :
    numbersFrom (stop.renamed r) (step.renamed r) fuel (current.renamed r)
        (earlier.map (Number.renamed r)) =
      (numbersFrom stop step fuel current earlier).map (Option.map (List.map (Number.renamed r))) := by
  induction fuel generalizing current earlier with
  | zero => rfl
  | succ fuel ih =>
    have lt (a b : Number) : (a.renamed r).lt (b.renamed r) = a.lt b := Number.lt_renamed r a b
    have positive := lt (.int 0) step
    have negative := lt step (.int 0)
    rw [Number.renamed_int] at positive negative
    rw [numbersFrom, numbersFrom, lt, lt, positive, negative]
    split
    · exact bind_image (Number.add_renamed r current step) fun next => ih next (current :: earlier)
    · rw [← List.map_reverse]
      rfl

theorem enough_renamed (first last : Number) :
    enough (first.renamed r) (last.renamed r) = enough first last := by
  have same (number : Number) : extent (number.renamed r) = extent number := by
    rcases number with n | _ | _ | _ <;> rfl
  rw [enough, enough, same, same]

/-- The bounds of a range. -/
def ends (start stop : Value) : Number × Number :=
  match stop with
  | null => (.int 0, bound start)
  | _ => (bound start, bound stop)

/-- The list of the numbers of a range that ends. -/
def listed : Option (List Number) → Except Fault Value
  | some numbers => .ok (list (numbers.map ofNumber))
  | none => .error .endless

/-- The numbers between bounds. -/
def between (first last step : Number) : Except Fault Value :=
  match first, last, step with
  | .int a, .int b, .int s => .ok (list ((ints a b s).map int))
  | a, b, s => numbersFrom b s (enough a b) a [] >>= listed

theorem range_eq (start stop step : Value) :
    range start stop step = between (ends start stop).1 (ends start stop).2 (bound step) := by
  cases stop <;> rfl

theorem ends_renamed (start stop : Value) :
    ends (start.renamed r) (stop.renamed r) =
      Prod.map (Number.renamed r) (Number.renamed r) (ends start stop) := by
  have first := bound_renamed r start
  have last := bound_renamed r stop
  cases stop with
  | null => exact Prod.ext rfl first
  | _ => exact Prod.ext first last

theorem listed_renamed (numbers : Option (List Number)) :
    listed (numbers.map (List.map (Number.renamed r))) = (listed numbers).map (renamed r) := by
  cases numbers with
  | none => rfl
  | some numbers =>
    have items := List.map_congr_left fun a (_ : a ∈ numbers) => renamed_ofNumber r a
    simp only [listed, Option.map_some, Except.map, renamed_list, List.map_map, Function.comp_def,
      items]

theorem between_renamed (first last step : Number) :
    between (first.renamed r) (last.renamed r) (step.renamed r) =
      (between first last step).map (renamed r) := by
  have numbers : numbersFrom (last.renamed r) (step.renamed r)
      (enough (first.renamed r) (last.renamed r)) (first.renamed r) [] >>= listed =
        (numbersFrom last step (enough first last) first [] >>= listed).map (renamed r) := by
    rw [enough_renamed]
    exact bind_image (numbersFrom_renamed r last step _ first []) (listed_renamed r)
  cases first <;> cases last <;> cases step
  · simp [between, Except.map]
  all_goals exact numbers

@[simp] theorem range_renamed (start stop step : Value) :
    range (start.renamed r) (stop.renamed r) (step.renamed r) =
      (range start stop step).map (renamed r) := by
  rw [range_eq, range_eq, ends_renamed, bound_renamed]
  exact between_renamed r _ _ _

@[simp] theorem round_renamed : round (v.renamed r) (w.renamed r) = (round v w).map (renamed r) := by
  unfold round
  rw [toNumber_renamed]
  cases v.toNumber with
  | none => rfl
  | some number =>
    simp only [Option.map_some, numberOrZero_renamed, Number.toInt_renamed]
    refine bind_same _ fun places => ?_
    refine bind_image (Number.roundTo_renamed r number places) fun rounded => ?_
    rw [Number.toInt_renamed]
    split
    · exact bind_same _ fun n => rfl
    · exact congrArg Except.ok (renamed_ofNumber r rounded).symm

section Arguments

variable (args : List Value) (i : Nat)

theorem arg_renamed (default : Value) :
    arg (args.map (renamed r)) i (default.renamed r) = (arg args i default).renamed r :=
  List.getD_map args default (renamed r)

@[simp] theorem arg_undefined_renamed :
    arg (args.map (renamed r)) i undefined = (arg args i undefined).renamed r :=
  arg_renamed r args i undefined

@[simp] theorem arg_null_renamed :
    arg (args.map (renamed r)) i null = (arg args i null).renamed r :=
  arg_renamed r args i null

@[simp] theorem arg_int_renamed (n : Int) :
    arg (args.map (renamed r)) i (int n) = (arg args i (int n)).renamed r :=
  arg_renamed r args i (int n)

@[simp] theorem arg_text_renamed (s : String) :
    arg (args.map (renamed r)) i (text s) = (arg args i (text s)).renamed r :=
  arg_renamed r args i (text s)

end Arguments

end Functions

/-! ### Filters -/

namespace Filters
open Value

variable (v w : Value)

@[simp] theorem onText_renamed (change : List Char → List Char) :
    onText change (v.renamed r) = (onText change v).map (renamed r) := by
  rw [onText, onText, toText_renamed]
  exact bind_same _ fun s => rfl

@[simp] theorem asItself_renamed : asItself (v.renamed r) = (asItself v).map (renamed r) := by
  rw [asItself, asItself, asText?_renamed, toText_renamed]
  split
  · rfl
  · exact bind_same _ fun s => rfl

@[simp] theorem reverse_renamed : reverse (v.renamed r) = (reverse v).map (renamed r) := by
  have text := onText_renamed r v List.reverse
  cases v with
  | list items => simp [reverse, Except.map]
  | _ => exact text

@[simp] theorem sort_renamed : sort (v.renamed r) = (sort v).map (renamed r) := by
  cases v with
  | list items =>
    rw [renamed_list]
    exact bind_image (Value.sort_renamed r items) fun sorted =>
      congrArg Except.ok (renamed_list r sorted).symm
  | _ => rfl

@[simp] theorem join_renamed : join (v.renamed r) (w.renamed r) = (join v w).map (renamed r) := by
  have text := asItself_renamed r v
  cases v with
  | list items =>
    rw [renamed_list, join, join, itemTexts_renamed, toText_renamed]
    exact bind_same _ fun glue => bind_same _ fun texts => rfl
  | _ => exact text

@[simp] theorem split_renamed : split (v.renamed r) (w.renamed r) = (split v w).map (renamed r) := by
  rw [split, split, toText_renamed, toText_renamed]
  refine bind_same _ fun mark => bind_same _ fun shown => congrArg Except.ok ?_
  rw [renamed_list, List.map_map]
  rfl

@[simp] theorem whole_renamed : whole (v.renamed r) = whole v := by
  simp [whole]

theorem slice_map {α β : Type} (f : α → β) (items : List α) (start : Int) (stop : Option Int) :
    Text.slice (items.map f) start stop = (Text.slice items start stop).map f := by
  cases stop <;> simp [Text.slice, List.map_take, List.map_drop]

@[simp] theorem slice_renamed (start stop : Value) :
    slice (v.renamed r) (start.renamed r) (stop.renamed r) = (slice v start stop).map (renamed r) := by
  rw [slice, slice, whole_renamed, whole_renamed, isMissing_renamed]
  refine bind_same _ fun first => ?_
  have text (last : Option Int) := onText_renamed r v (Text.slice · first last)
  cases v with
  | list items =>
    have cut (last : Option Int) :
        (.ok (list (Text.slice (renamedItems r items) first last)) : Except Fault Value) =
          (Except.ok (list (Text.slice items first last))).map (renamed r) := by
      rw [renamedItems_eq, slice_map]
      exact congrArg Except.ok (renamed_list r _).symm
    cases stop.isMissing with
    | true => exact cut none
    | false => exact bind_same _ fun last => cut last
  | _ =>
    cases stop.isMissing with
    | true => exact text none
    | false => exact bind_same _ fun last => text last

@[simp] theorem first_renamed : first (v.renamed r) = (first v).map (renamed r) := by
  have text := onText_renamed r v (·.take 1)
  cases v with
  | list items => cases items <;> simp [first, Except.map]
  | _ => exact text

@[simp] theorem last_renamed : last (v.renamed r) = (last v).map (renamed r) := by
  have text := onText_renamed r v fun chars => chars.drop (chars.length - 1)
  cases v with
  | list items =>
    have item : (items.map (renamed r)).getLastD undefined =
        (items.getLastD undefined).renamed r := by
      rw [List.getLastD_eq_getLast?, List.getLastD_eq_getLast?, List.getLast?_map, getD_renamed]
    rw [renamed_list, last, last, item]
    rfl
  | _ => exact text

@[simp] theorem escape_renamed : escape (v.renamed r) = (escape v).map (renamed r) := by
  rw [escape, escape, toText_renamed]
  exact bind_same _ fun s => rfl

@[simp] theorem markSafe_renamed : markSafe (v.renamed r) = (markSafe v).map (renamed r) := by
  rw [markSafe, markSafe, toText_renamed]
  exact bind_same _ fun s => rfl

theorem ofMillis_renamed (n : Number) : moment?.ofMillis (n.renamed r) = moment?.ofMillis n := by
  have quotient := Number.div_renamed r n (.int 1000)
  rw [Number.renamed_int] at quotient
  rw [moment?.ofMillis, moment?.ofMillis, quotient]
  match n.div (.int 1000) with
  | .error _ | .ok (.int _) | .ok (.real (.nan _)) | .ok (.real (.infinity _))
  | .ok (.real (.finite ..)) => rfl

@[simp] theorem moment?_renamed : moment? (v.renamed r) = moment? v := by
  cases v with
  | float x => exact ofMillis_renamed r (.real x)
  | _ => rfl

@[simp] theorem formatted_renamed :
    formatted (v.renamed r) (w.renamed r) = (formatted v w).map (renamed r) := by
  rw [formatted, formatted, moment?_renamed]
  cases moment? v with
  | none => exact asItself_renamed r v
  | some t => exact onText_renamed r w _

@[simp] theorem truncate_renamed (length suffix : Value) :
    truncate (v.renamed r) (length.renamed r) (suffix.renamed r) =
      (truncate v length suffix).map (renamed r) := by
  refine bind_image (asItself_renamed r v) fun shown => ?_
  rw [toText_renamed, whole_renamed, toText_renamed]
  refine bind_same _ fun chars => bind_same _ fun limit => ?_
  split
  · exact bind_same _ fun s => rfl
  · rfl

@[simp] theorem pluralize_renamed (count singular plural : Value) :
    pluralize (count.renamed r) (singular.renamed r) (plural.renamed r) =
      (pluralize count singular plural).map (renamed r) := by
  have one : (count.renamed r).toNumber.any (Number.eq (.int 1)) =
      count.toNumber.any (Number.eq (.int 1)) := by
    rw [toNumber_renamed]
    exact any_renamed r (Number.eq_renamed r (.int 1)) count.toNumber
  simp only [pluralize, one, asItself_renamed, isMissing_renamed, asText?_renamed, toText_renamed]
  split
  · rfl
  · split
    · exact bind_same _ fun s => rfl
    · rfl

@[simp] theorem currency_renamed (symbol : Value) :
    currency (v.renamed r) (symbol.renamed r) = (currency v symbol).map (renamed r) := by
  have cents (x : Double) : Decimal.cents (x.renamed r) = Decimal.cents x := by cases x <;> rfl
  rw [currency, currency, toNumber_renamed, isMissing_renamed, toText_renamed]
  cases v.toNumber with
  | none => rfl
  | some number =>
    simp only [Option.map_some]
    split
    · rfl
    · refine bind_same _ fun mark => bind_image (Number.toDouble_renamed r number) fun x => ?_
      rw [cents]
      rfl

@[simp] theorem json_renamed : json (v.renamed r) = (json v).map (renamed r) := by
  have text : (do return text (← (v.renamed r).toJson (.indented 0))) =
      (do return text (← v.toJson (.indented 0)) : Except Fault Value).map (renamed r) := by
    rw [toJson_renamed]
    exact bind_same _ fun s => rfl
  cases v with
  | undefined => rfl
  | _ => exact text

end Filters

/-! ### Operators -/

theorem liftFault_map {α β : Type} (f : α → β) (result : Except Fault α) :
    liftFault (result.map f) = (liftFault result).map f := by
  cases result <;> rfl

namespace Operator
open Value

variable (left right : Value)

@[simp] theorem looseEqual_renamed :
    looseEqual (left.renamed r) (right.renamed r) = looseEqual left right := by
  simp only [looseEqual, isMissing_renamed, asText?_renamed, numeric?_renamed, toNumber_renamed,
    same_renamed, Option.isSome_map]
  cases left.toNumber with
  | none => rfl
  | some a =>
    cases right.toNumber with
    | none => rfl
    | some b => simp only [Option.map_some, Number.eq_renamed]

def Comparable.renamed : Comparable → Comparable
  | texts a b => texts a b
  | numbers a b => numbers (a.renamed r) (b.renamed r)

theorem comparable?_renamed :
    comparable? (left.renamed r) (right.renamed r) =
      (comparable? left right).map (Comparable.renamed r) := by
  simp only [comparable?, asText?_renamed, isMissing_renamed, toNumber_renamed]
  cases left.asText? <;> cases right.asText? <;> cases left.toNumber <;> cases right.toNumber <;>
    cases left.isMissing <;> cases right.isMissing <;> rfl

theorem ordered?_renamed (op : Operator) (pair : Comparable) :
    ordered? op (pair.renamed r) = ordered? op pair := by
  cases pair with
  | texts a b => rfl
  | numbers a b =>
    simp [ordered?, Comparable.renamed, Comparable.lt, Comparable.gt, Comparable.le, Comparable.ge]

@[simp] theorem compareBy_renamed (symbol : String) :
    compareBy symbol (left.renamed r) (right.renamed r) = compareBy symbol left right := by
  simp only [compareBy, looseEqual_renamed, comparable?_renamed]
  cases comparable? left right with
  | none => rfl
  | some pair => simp only [Option.map_some, ordered?_renamed]

@[simp] theorem shortCut?_renamed (op : Operator) :
    op.shortCut? (left.renamed r) = (op.shortCut? left).map (Value.renamed r) := by
  cases op <;> simp [shortCut?, apply_ite (Option.map (Value.renamed r))]

@[simp] theorem chooseBy_renamed (symbol : String) :
    chooseBy symbol (left.renamed r) (right.renamed r) =
      (chooseBy symbol left right).map (Value.renamed r) := by
  simp only [chooseBy, shortCut?_renamed, Option.getD_map]
  split <;> rfl

@[simp] theorem joined_renamed :
    joined (left.renamed r) (right.renamed r) = (joined left right).map (Value.renamed r) := by
  rw [joined, joined, toText_renamed, toText_renamed]
  exact bind_same _ fun s => bind_same _ fun t => rfl

theorem missing_renamed (strict : Bool) :
    sum.missing strict (left.renamed r) (right.renamed r) =
      (sum.missing strict left right).map (Value.renamed r) := by
  have list (v : Value) : isList (v.renamed r) = isList v := by cases v <;> rfl
  simp only [sum.missing, list, toText_renamed, joined_renamed, liftFault_map]
  split
  · exact bind_same _ fun shown => bind_same _ fun other => rfl
  · rfl

/-- The value of a number that was computed. -/
theorem computed_renamed (result : Except Fault Number) :
    (liftFault do return ofNumber (← result.map (Number.renamed r))) =
      (liftFault do return ofNumber (← result)).map (Value.renamed r) := by
  cases result with
  | error => rfl
  | ok n => exact congrArg Except.ok (renamed_ofNumber r n).symm

theorem sum_renamed (strict : Bool) :
    sum strict (left.renamed r) (right.renamed r) =
      (sum strict left right).map (Value.renamed r) := by
  simp only [sum, asText?_renamed, isMissing_renamed, toNumber_renamed, joined_renamed,
    missing_renamed, liftFault_map]
  split
  · rfl
  · cases left.toNumber with
    | none => rfl
    | some a =>
      cases right.toNumber with
      | none => rfl
      | some b =>
        simp only [Option.map_some, Number.add_renamed]
        split
        · rfl
        · exact computed_renamed r (a.add b)

theorem divide_renamed (strict : Bool) (symbol : String)
    {compute : Number → Number → Except Fault Number}
    (natural : ∀ a b, compute (a.renamed r) (b.renamed r) = (compute a b).map (Number.renamed r))
    (a b : Number) :
    divide strict symbol compute (a.renamed r) (b.renamed r) =
      (divide strict symbol compute a b).map (Value.renamed r) := by
  simp only [divide, Number.isZero_renamed, natural]
  split
  · split <;> rfl
  · exact computed_renamed r (compute a b)

theorem computeBy_renamed (strict : Bool) (symbol : String) :
    computeBy strict symbol (left.renamed r) (right.renamed r) =
      (computeBy strict symbol left right).map (Value.renamed r) := by
  have failed : (if strict then .error (.ofTrouble (.nonNumeric symbol))
      else .ok (.float (.nan .arithmetic))) =
      (if strict then .error (.ofTrouble (.nonNumeric symbol))
        else .ok (.float (.nan .arithmetic)) : Except Failure Value).map (Value.renamed r) := by
    cases strict with
    | true => rfl
    | false => exact congrArg (fun source => Except.ok (Value.float (.nan source))) r.arithmetic.symm
  simp only [computeBy, sum_renamed, toNumber_renamed]
  split
  · rfl
  · cases left.toNumber with
    | none => exact failed
    | some a =>
      cases right.toNumber with
      | none => exact failed
      | some b =>
        simp only [Option.map_some, Number.sub_renamed, Number.mul_renamed,
          divide_renamed r strict symbol (Number.div_renamed r),
          divide_renamed r strict symbol (Number.mod_renamed r)]
        split
        · exact computed_renamed r (a.sub b)
        · exact computed_renamed r (a.mul b)
        · rfl
        · rfl
        · rfl

/-- An operator gives of renamed operands what it gives, renamed. -/
theorem apply_renamed (strict : Bool) (op : Operator) :
    op.apply strict (left.renamed r) (right.renamed r) =
      (op.apply strict left right).map (Value.renamed r) := by
  unfold apply
  rw [chooseBy_renamed, compareBy_renamed, computeBy_renamed, liftFault_map]
  cases op.family with
  | logical => rfl
  | comparison => cases compareBy op.symbol left right <;> rfl
  | _ => rfl

end Operator

/-! ### Libraries -/

/-- The built-in computes of renamed arguments what it computes, renamed. -/
def Builtin.Natural (builtin : Builtin) : Prop :=
  ∀ args : List Value, builtin.body (args.map (Value.renamed r)) =
    (builtin.body args).map (Value.renamed r)

/-- The routine keeps no state, and computes of renamed arguments what it computes, renamed. -/
def Routine.Natural {σ : Type} (routine : Routine σ) : Prop :=
  ∃ compute : List Value → Except Failure Value,
    (∀ args state, routine args state = (compute args, state)) ∧
      ∀ args, compute (args.map (Value.renamed r)) = (compute args).map (Value.renamed r)

theorem Filters.natural {builtin : Builtin} (member : builtin ∈ Filters.all) :
    builtin.Natural r := by
  intro args
  simp only [Filters.all, List.mem_cons, List.not_mem_nil, or_false] at member
  rcases member with rfl | rfl | rfl | rfl | rfl | rfl | rfl | rfl | rfl | rfl | rfl | rfl | rfl |
    rfl | rfl | rfl | rfl | rfl | rfl <;> simp [upper, lower, capitalize, trim, subject, Except.map]

/-- Two functions read the surroundings, the others compute. -/
theorem Functions.natural {s : Surroundings} {builtin : Builtin} (member : builtin ∈ Functions.all s)
    (timeless : builtin.name ≠ "now") (undrawn : builtin.name ≠ "random") :
    builtin.Natural r := by
  intro args
  simp only [Functions.all, List.mem_cons, List.not_mem_nil, or_false] at member
  rcases member with rfl | rfl | rfl | rfl | rfl | rfl | rfl | rfl
  all_goals first | exact absurd rfl timeless | exact absurd rfl undrawn | simp [Except.map]

variable {σ : Type}

theorem Builtin.Natural.routine {builtin : Builtin} (natural : builtin.Natural r) :
    (builtin.routine : Routine σ).Natural r := by
  refine ⟨fun args => liftFault (builtin.run args), fun _ _ => rfl, fun args => ?_⟩
  have same : builtin.run (args.map (Value.renamed r)) =
      (builtin.run args).map (Value.renamed r) := by
    rw [run, run, List.length_map, natural]
    split <;> rfl
  exact (congrArg liftFault same).trans (liftFault_map _ _)

theorem Routine.Natural.guarded {routine : Routine σ} (natural : routine.Natural r)
    (wrap : String → Trouble) : (Library.guarded wrap routine).Natural r := by
  obtain ⟨compute, runs, same⟩ := natural
  refine ⟨fun args => (compute args).mapError (Library.wrapped wrap), fun args state => ?_,
    fun args => ?_⟩
  · rw [Library.guarded, runs]
  · simp only [same]
    cases compute args <;> rfl

theorem Routine.natural_error (failure : Failure) :
    Routine.Natural r (fun _ state => (.error failure, state) : Routine σ) :=
  ⟨fun _ => .error failure, fun _ _ => rfl, fun _ => rfl⟩

/-- Known functions and all filters compute of renamed values what they compute, renamed. -/
structure Library.Natural (functions : String → Prop) (library : Library σ) : Prop where
  call {name : String} (known : functions name) : (library.call name).Natural r
  applyFilter (name : String) : (library.applyFilter name).Natural r

theorem Library.standard_natural (s : Surroundings) :
    (Library.standard s : Library σ).Natural r fun name => name ≠ "now" ∧ name ≠ "random" where
  call := by
    rintro name ⟨timeless, undrawn⟩
    unfold Library.call
    cases found : Dict.get? (standard s : Library σ).functions name with
    | none => exact Routine.natural_error r _
    | some routine =>
      obtain ⟨builtin, member, rfl, rfl⟩ := exists_builtin found
      exact (Functions.natural r member timeless undrawn).routine.guarded r _
  applyFilter name := by
    unfold Library.applyFilter
    cases found : Dict.get? (standard s : Library σ).filters name with
    | none => exact Routine.natural_error r _
    | some routine =>
      obtain ⟨builtin, member, -, rfl⟩ := exists_builtin found
      exact (Filters.natural r member).routine.guarded r _

end Stencil
