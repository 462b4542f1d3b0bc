import Mathlib.Logic.Function.Basic
import Stencil.Value.Access
import Stencil.Value.Equality
import Stencil.Value.Order

/-! Values in which what is no number came up at other places. Only whether two such are the same
one is ever asked, so places that are renamed without being confused change no text, no comparison
and no order, and what is computed from the values is renamed alike. -/
namespace Stencil

/-- What is no number came up before the frame of a number was pushed: in a loop of an earlier frame,
or in no loop at all. -/
def NanSource.Before (frame : Nat) : NanSource → Prop
  | looped other _ => other < frame
  | _ => True

/-- New names for the places where what is no number came up. Only places in loops get new ones. -/
structure Renaming where
  source : NanSource → NanSource
  injective : Function.Injective source
  elsewhere {given : NanSource} (unlooped : given.Before 0) : source given = given

namespace Renaming

/-- Every place keeps its name. -/
def none : Renaming := ⟨id, fun _ _ same => same, fun _ => rfl⟩

theorem fresh (r : Renaming) : r.source .fresh = .fresh := r.elsewhere trivial

theorem arithmetic (r : Renaming) : r.source .arithmetic = .arithmetic := r.elsewhere trivial

/-- Below one place of a frame places take the names that they have below another. -/
def Takes (r : Renaming) (frame frame' : Nat) (place place' : List Nat) : Prop :=
  ∀ inner, r.source (.looped frame (inner ++ place)) = .looped frame' (inner ++ place')

variable (r : Renaming) {source : NanSource} {frame frame' : Nat} {place place' : List Nat}

theorem Takes.inside {r : Renaming} (takes : r.Takes frame frame' place place') (index : Nat) :
    r.Takes frame frame' (index :: place) (index :: place') := by
  intro inner
  have below := takes (inner ++ [index])
  rwa [List.append_assoc, List.append_assoc] at below

theorem Takes.next {r : Renaming} {index index' : Nat}
    (takes : ∀ i, r.Takes frame frame' ((index + i) :: place) ((index' + i) :: place')) (i : Nat) :
    r.Takes frame frame' ((index + 1 + i) :: place) ((index' + 1 + i) :: place') := by
  rw [Nat.add_assoc, Nat.add_assoc]
  exact takes (1 + i)

@[simp] theorem source_eq_fresh : r.source source = .fresh ↔ source = .fresh := by
  constructor
  · intro same
    exact r.injective (same.trans r.fresh.symm)
  · rintro rfl
    exact r.fresh

end Renaming

variable (r : Renaming)

/-! ### Numbers -/

namespace Double

def renamed : Double → Double
  | nan source => nan (r.source source)
  | x => x

@[simp] theorem renamed_nan (source : NanSource) :
    (nan source).renamed r = nan (r.source source) :=
  rfl

@[simp] theorem renamed_infinity (negative : Bool) :
    (infinity negative).renamed r = infinity negative :=
  rfl

@[simp] theorem renamed_finite (negative : Bool) (units : Nat) :
    (finite negative units).renamed r = finite negative units :=
  rfl

@[simp] theorem undetermined_renamed : undetermined.renamed r = undetermined :=
  congrArg nan r.fresh

@[simp] theorem ofUnits_renamed (negative : Bool) (numerator denominator : Nat) :
    (ofUnits negative numerator denominator).renamed r = ofUnits negative numerator denominator := by
  unfold ofUnits
  dsimp only
  split <;> rfl

@[simp] theorem ofRatio_renamed (negative : Bool) (numerator denominator : Nat) :
    (ofRatio negative numerator denominator).renamed r = ofRatio negative numerator denominator :=
  ofUnits_renamed r negative _ denominator

variable (x y : Double)

@[simp] theorem isFinite_renamed : (x.renamed r).isFinite = x.isFinite := by
  cases x <;> rfl

@[simp] theorem isIntegral_renamed : (x.renamed r).isIntegral = x.isIntegral := by
  cases x <;> rfl

@[simp] theorem truncate?_renamed : (x.renamed r).truncate? = x.truncate? := by
  cases x <;> rfl

@[simp] theorem isZero_renamed : (x.renamed r).isZero = x.isZero := by
  cases x <;> rfl

@[simp] theorem isSameNan_renamed :
    (x.renamed r).isSameNan (y.renamed r) = x.isSameNan y := by
  cases x with
  | nan a =>
    cases y with
    | nan b => simp [renamed, isSameNan, Bool.beq_eq_decide_eq, bne, r.injective.eq_iff]
    | infinity | finite => rfl
  | infinity | finite => cases y <;> rfl

/-- A result that is no number has no other place than its own. -/
@[simp] theorem asResult_renamed : (x.renamed r).asResult = (x.asResult).renamed r := by
  cases x with
  | nan source => exact (undetermined_renamed r).symm
  | infinity | finite => rfl

@[simp] theorem neg_renamed : (x.renamed r).neg = x.neg.renamed r := by
  cases x with
  | nan source => exact (undetermined_renamed r).symm
  | infinity | finite => rfl

@[simp] theorem add_renamed : (x.renamed r).add (y.renamed r) = (x.add y).renamed r := by
  cases x <;> cases y <;> simp [add, apply_ite (renamed r)]

@[simp] theorem sub_renamed : (x.renamed r).sub (y.renamed r) = (x.sub y).renamed r := by
  simp [sub]

@[simp] theorem mul_renamed : (x.renamed r).mul (y.renamed r) = (x.mul y).renamed r := by
  cases x <;> cases y <;> simp [mul, apply_ite (renamed r)]

@[simp] theorem div_renamed : (x.renamed r).div (y.renamed r) = (x.div y).renamed r := by
  cases x <;> cases y <;> simp [div, apply_ite (renamed r)]

@[simp] theorem remainder?_renamed :
    (x.renamed r).remainder? (y.renamed r) = (x.remainder? y).map (renamed r) := by
  cases x <;> cases y <;> simp [remainder?, apply_ite (renamed r)]

@[simp] theorem roundPlaces_renamed (places : Int) :
    (x.renamed r).roundPlaces places = (x.roundPlaces places).renamed r := by
  cases x <;> simp [roundPlaces, apply_ite (renamed r)]

end Double

namespace Number

def renamed : Number → Number
  | int n => int n
  | real x => real (x.renamed r)

@[simp] theorem renamed_int (n : Int) : (int n).renamed r = int n := rfl

@[simp] theorem renamed_real (x : Double) : (real x).renamed r = real (x.renamed r) := rfl

variable (a b : Number)

/-- What is not a number has no rank, wherever it came up. -/
@[simp] theorem rank?_renamed : (a.renamed r).rank? = a.rank? := by
  cases a with
  | int n => rfl
  | real x => cases x <;> rfl

@[simp] theorem eq_renamed : (a.renamed r).eq (b.renamed r) = a.eq b := by
  simp [Number.eq, compare?]

@[simp] theorem lt_renamed : (a.renamed r).lt (b.renamed r) = a.lt b := by
  simp [Number.lt, compare?]

@[simp] theorem le_renamed : (a.renamed r).le (b.renamed r) = a.le b := by
  simp [Number.le]

@[simp] theorem isZero_renamed : (a.renamed r).isZero = a.isZero := by
  cases a <;> simp [isZero]

@[simp] theorem inRange_renamed (fault : Fault) (x : Double) :
    inRange fault (x.renamed r) = (inRange fault x).map (Double.renamed r) := by
  cases x <;> rfl

@[simp] theorem toDouble_renamed : (a.renamed r).toDouble = a.toDouble.map (Double.renamed r) := by
  cases a with
  | int n =>
    have same : (Double.ofInt n).renamed r = Double.ofInt n := Double.ofRatio_renamed r _ _ _
    rw [renamed, toDouble, ← inRange_renamed, same]
  | real x => rfl

@[simp] theorem toInt_renamed : (a.renamed r).toInt = a.toInt := by
  cases a with
  | int n => rfl
  | real x => cases x <;> rfl

theorem combine_renamed {broken : Double → Double → Double}
    (natural : ∀ x y : Double, broken (x.renamed r) (y.renamed r) = (broken x y).renamed r)
    (whole : Int → Int → Int) :
    combine whole broken (a.renamed r) (b.renamed r) =
      (combine whole broken a b).map (renamed r) := by
  have mixed (x y : Except Fault Double) :
      (do return real (broken (← x.map (Double.renamed r)) (← y.map (Double.renamed r)))) =
        (do return real (broken (← x) (← y))).map (renamed r) := by
    cases x with
    | error => rfl
    | ok =>
      cases y with
      | error => rfl
      | ok => exact congrArg (fun z => Except.ok (real z)) (natural _ _)
  have doubles := mixed a.toDouble b.toDouble
  rw [← toDouble_renamed, ← toDouble_renamed] at doubles
  cases a <;> cases b
  · rfl
  all_goals exact doubles

@[simp] theorem add_renamed : (a.renamed r).add (b.renamed r) = (a.add b).map (renamed r) :=
  combine_renamed r a b (Double.add_renamed r) _

@[simp] theorem sub_renamed : (a.renamed r).sub (b.renamed r) = (a.sub b).map (renamed r) :=
  combine_renamed r a b (Double.sub_renamed r) _

@[simp] theorem mul_renamed : (a.renamed r).mul (b.renamed r) = (a.mul b).map (renamed r) :=
  combine_renamed r a b (Double.mul_renamed r) _

theorem return_real_renamed (result : Except Fault Double) :
    (do return real (← result.map (Double.renamed r))) =
      (do return real (← result)).map (renamed r) := by
  cases result <;> rfl

@[simp] theorem div_renamed : (a.renamed r).div (b.renamed r) = (a.div b).map (renamed r) := by
  have broken (whole : Int → Int → Int) := combine_renamed r a b (Double.div_renamed r) whole
  cases a with
  | int m =>
    cases b with
    | int n =>
      have quotient := return_real_renamed r (inRange .quotientTooLarge
        (Double.ofRatio ((m < 0) != (n < 0)) m.natAbs n.natAbs))
      rwa [← inRange_renamed, Double.ofRatio_renamed] at quotient
    | real y => exact broken fun _ _ => 0
  | real x => exact broken fun _ _ => 0

@[simp] theorem mod_renamed : (a.renamed r).mod (b.renamed r) = (a.mod b).map (renamed r) := by
  rw [mod, mod, toDouble_renamed, toDouble_renamed]
  cases a.toDouble with
  | error => rfl
  | ok x =>
    cases b.toDouble with
    | error => rfl
    | ok y =>
      have remainder := Double.remainder?_renamed r x y
      simp only [Except.map, bind, Except.bind, remainder]
      cases x.remainder? y with
      | none => rfl
      | some z =>
        have part := toInt_renamed r (real z)
        cases a <;> cases b
        · simp only [Option.map_some, renamed_int]
          rw [← renamed_real, part]
          cases (real z).toInt <;> rfl
        all_goals rfl

@[simp] theorem roundTo_renamed (places : Int) :
    (a.renamed r).roundTo places = (a.roundTo places).map (renamed r) := by
  cases a with
  | int n => rfl
  | real x =>
    have rounded := return_real_renamed r (inRange .roundedTooLarge (x.roundPlaces places))
    have zero : Double.zero.mul (x.renamed r) = (Double.zero.mul x).renamed r :=
      Double.mul_renamed r .zero x
    simp only [renamed_real, roundTo, Double.isFinite_renamed, Double.asResult_renamed, zero,
      Double.roundPlaces_renamed, inRange_renamed, rounded, apply_ite (Except.map (renamed r))]
    rfl

end Number

/-! ### Readings -/

namespace Reading

theorem ofDecimal_renamed (negative : Bool) (mantissa : Nat) (exponent : Int) :
    (ofDecimal negative mantissa exponent).renamed r = ofDecimal negative mantissa exponent := by
  simp [ofDecimal, apply_ite (Double.renamed r)]

theorem special?_renamed (negative : Bool) (text : List Char) :
    (special? negative text).map (Double.renamed r) = special? negative text := by
  simp [special?, apply_ite (Option.map (Double.renamed r))]

/-- What is read from a text came up nowhere else. -/
theorem double?_renamed (text : List Char) :
    (double? text).map (Double.renamed r) = double? text := by
  have named := special?_renamed r (sign (Text.trim text)).1 (sign (Text.trim text)).2
  unfold double?
  dsimp only
  generalize special? _ _ = special at named ⊢
  cases special with
  | some x => exact named
  | none => simp [apply_ite (Option.map (Double.renamed r)), ofDecimal_renamed]

end Reading

/-! ### Values -/

namespace Value

mutual
def renamed : Value → Value
  | float x => float (x.renamed r)
  | list items => list (renamedItems items)
  | dict entries => dict (renamedEntries entries)
  | value => value
termination_by structural v => v
def renamedItems : List Value → List Value
  | [] => []
  | item :: rest => item.renamed :: renamedItems rest
termination_by structural items => items
def renamedEntries : List (String × Value) → List (String × Value)
  | [] => []
  | (key, item) :: rest => (key, item.renamed) :: renamedEntries rest
termination_by structural entries => entries
end

variable (items : List Value) (entries : List (String × Value))

theorem renamedItems_eq : renamedItems r items = items.map (renamed r) := by
  induction items with
  | nil => rfl
  | cons item rest ih => rw [renamedItems, ih, List.map_cons]

theorem renamedEntries_eq :
    renamedEntries r entries = entries.map fun entry => (entry.1, entry.2.renamed r) := by
  induction entries with
  | nil => rfl
  | cons entry rest ih => rw [renamedEntries, ih, List.map_cons]

section Forms

@[simp] theorem renamed_undefined : undefined.renamed r = undefined := rfl

@[simp] theorem renamed_null : null.renamed r = null := rfl

@[simp] theorem renamed_bool (b : Bool) : (bool b).renamed r = bool b := rfl

@[simp] theorem renamed_int (n : Int) : (int n).renamed r = int n := rfl

@[simp] theorem renamed_float (x : Double) : (float x).renamed r = float (x.renamed r) := rfl

@[simp] theorem renamed_text (s : String) : (text s).renamed r = text s := rfl

@[simp] theorem renamed_safe (s : String) : (safe s).renamed r = safe s := rfl

@[simp] theorem renamed_date (d : Date) : (date d).renamed r = date d := rfl

@[simp] theorem renamed_datetime (t : DateTime) : (datetime t).renamed r = datetime t := rfl

@[simp] theorem renamed_duration (time : Duration) : (duration time).renamed r = duration time := rfl

@[simp] theorem renamed_method (m : Method) : (method m).renamed r = method m := rfl

@[simp] theorem renamed_list : (list items).renamed r = list (items.map (renamed r)) :=
  congrArg list (renamedItems_eq r items)

@[simp] theorem renamed_dict :
    (dict entries).renamed r = dict (entries.map fun entry => (entry.1, entry.2.renamed r)) :=
  congrArg dict (renamedEntries_eq r entries)

@[simp] theorem renamed_ofNumber (a : Number) : (ofNumber a).renamed r = ofNumber (a.renamed r) := by
  cases a <;> rfl

end Forms

/-! ### What tells nothing of places -/

theorem numberOfText_renamed (text : List Char) :
    (numberOfText text).map (Number.renamed r) = numberOfText text := by
  have read := Reading.double?_renamed r (Text.trim text)
  unfold numberOfText
  dsimp only
  split
  · rfl
  · generalize Reading.double? (Text.trim text) = number at read ⊢
    cases number with
    | none => rfl
    | some x =>
      cases x with
      | nan source =>
        have kept : r.source source = source := by simpa using read
        simp [kept]
      | infinity negative => rfl
      | finite negative units => simp [apply_ite (Option.map (Number.renamed r))]

section Views

variable (v w : Value)

@[simp] theorem isMissing_renamed : (v.renamed r).isMissing = v.isMissing := by
  cases v <;> rfl

@[simp] theorem asText?_renamed : (v.renamed r).asText? = v.asText? := by
  cases v <;> rfl

@[simp] theorem isSafe_renamed : (v.renamed r).isSafe = v.isSafe := by
  cases v <;> rfl

@[simp] theorem truthy_renamed : (v.renamed r).truthy = v.truthy := by
  cases v <;> simp [truthy]

@[simp] theorem toNumber_renamed : (v.renamed r).toNumber = v.toNumber.map (Number.renamed r) := by
  cases v with
  | text s | safe s => exact (numberOfText_renamed r s.toList).symm
  | _ => rfl

@[simp] theorem numeric?_renamed : (v.renamed r).numeric? = v.numeric?.map (Number.renamed r) := by
  cases v <;> rfl

@[simp] theorem isSameNan_renamed (x : Double) :
    (v.renamed r).isSameNan (x.renamed r) = v.isSameNan x := by
  cases v <;> simp [isSameNan]

@[simp] theorem numberOrZero_renamed : (v.renamed r).numberOrZero = v.numberOrZero.renamed r := by
  rw [numberOrZero, toNumber_renamed, numberOrZero]
  cases v.toNumber <;> rfl

end Views

/-! ### Written forms -/

theorem renderedDouble_renamed (x : Double) : renderedDouble (x.renamed r) = renderedDouble x := by
  cases x <;> rfl

theorem doubleText_renamed (x : Double) : doubleText (x.renamed r) = doubleText x := by
  cases x <;> rfl

theorem jsonDouble_renamed (x : Double) : jsonDouble (x.renamed r) = jsonDouble x := by
  cases x <;> rfl

mutual
@[simp] theorem toJson_renamed (layout : Layout) : (v : Value) →
    (v.renamed r).toJson layout = v.toJson layout
  | undefined | null | bool _ | int _ | text _ | safe _ | date _ | datetime _ | duration _
  | method _ => rfl
  | float x => congrArg Except.ok (jsonDouble_renamed r x)
  | list items => by
    rw [renamed, toJson, toJson, jsonItems_renamed]
  | dict entries => by
    rw [renamed, toJson, toJson, jsonEntries_renamed]
theorem jsonItems_renamed (layout : Layout) : (items : List Value) →
    jsonItems layout (renamedItems r items) = jsonItems layout items
  | [] => rfl
  | item :: rest => by
    rw [renamedItems, jsonItems, jsonItems, toJson_renamed, jsonItems_renamed]
theorem jsonEntries_renamed (layout : Layout) : (entries : List (String × Value)) →
    jsonEntries layout (renamedEntries r entries) = jsonEntries layout entries
  | [] => rfl
  | (key, item) :: rest => by
    rw [renamedEntries, jsonEntries, jsonEntries, toJson_renamed, jsonEntries_renamed]
end

mutual
@[simp] theorem toText_renamed : (v : Value) → (v.renamed r).toText = v.toText
  | undefined | null | bool _ | int _ | text _ | safe _ | date _ | datetime _ | duration _
  | method _ => rfl
  | float x => renderedDouble_renamed r x
  | list items => by rw [renamed, toText, toText, itemTexts_renamedItems]
  | dict entries => toJson_renamed r .line (dict entries)
theorem itemTexts_renamedItems : (items : List Value) →
    itemTexts (renamedItems r items) = itemTexts items
  | [] => rfl
  | item :: rest => by
    rw [renamedItems, itemTexts, itemTexts, toText_renamed, itemTexts_renamedItems]
end

@[simp] theorem itemTexts_renamed : itemTexts (items.map (renamed r)) = itemTexts items := by
  rw [← renamedItems_eq, itemTexts_renamedItems]

mutual
@[simp] theorem printed_renamed : (v : Value) → (v.renamed r).printed = v.printed
  | undefined | null | bool _ | int _ | text _ | safe _ | date _ | datetime _ | duration _
  | method _ => rfl
  | float x => congrArg Except.ok (doubleText_renamed r x)
  | list items => by rw [renamed, printed, printed, printedItems_renamed]
  | dict entries => by rw [renamed, printed, printed, printedEntries_renamed]
theorem printedItems_renamed : (items : List Value) →
    printedItems (renamedItems r items) = printedItems items
  | [] => rfl
  | item :: rest => by
    rw [renamedItems, printedItems, printedItems, printed_renamed, printedItems_renamed]
theorem printedEntries_renamed : (entries : List (String × Value)) →
    printedEntries (renamedEntries r entries) = printedEntries entries
  | [] => rfl
  | (key, item) :: rest => by
    rw [renamedEntries, printedEntries, printedEntries, printed_renamed, printedEntries_renamed]
end

@[simp] theorem keyText_renamed (v : Value) : (v.renamed r).keyText = v.keyText := by
  have shown := printed_renamed r v
  cases v <;> first | rfl | exact shown

/-! ### Equality and order -/

theorem lookup_renamedEntries (key : String) (entries : List (String × Value)) :
    (renamedEntries r entries).lookup key = (entries.lookup key).map (renamed r) := by
  induction entries with
  | nil => rfl
  | cons entry rest ih =>
    rw [renamedEntries, List.lookup_cons, List.lookup_cons, ih]
    split <;> rfl

theorem length_renamedEntries (entries : List (String × Value)) :
    (renamedEntries r entries).length = entries.length := by
  rw [renamedEntries_eq, List.length_map]

theorem any_renamed {known other : Number → Bool} (same : ∀ a, other (a.renamed r) = known a)
    (number : Option Number) : (number.map (Number.renamed r)).any other = number.any known := by
  cases number with
  | none => rfl
  | some a => exact same a

mutual
/-- Values that are the same stay so, and no others become the same. -/
@[simp] theorem same_renamed : (v w : Value) → (v.renamed r).same (w.renamed r) = v.same w
  | undefined, w | null, w | date _, w | datetime _, w | duration _, w | method _, w => by
    cases w <;> rfl
  | bool b, w => by
    rw [renamed_bool, same, same, numeric?_renamed]
    exact any_renamed r (Number.eq_renamed r (.int _)) w.numeric?
  | int n, w => by
    rw [renamed_int, same, same, numeric?_renamed]
    exact any_renamed r (Number.eq_renamed r (.int _)) w.numeric?
  | float x, w => by
    rw [renamed_float, same, same, numeric?_renamed, isSameNan_renamed]
    exact congrArg (· || _) (any_renamed r (Number.eq_renamed r (.real x)) w.numeric?)
  | text s, w | safe s, w => by
    cases w <;> rfl
  | list items, w => by
    cases w with
    | list others => exact sameItems_renamed items others
    | _ => rfl
  | dict entries, w => by
    cases w with
    | dict others =>
      rw [renamed, renamed, same, same, length_renamedEntries, length_renamedEntries,
        sameEntries_renamed]
    | _ => rfl
theorem sameItems_renamed : (items others : List Value) →
    sameItems (renamedItems r items) (renamedItems r others) = sameItems items others
  | [], [] | [], _ :: _ | _ :: _, [] => rfl
  | item :: rest, other :: more => by
    rw [renamedItems, renamedItems, sameItems, sameItems,
      same_renamed, sameItems_renamed]
theorem sameEntries_renamed : (entries others : List (String × Value)) →
    sameEntries (renamedEntries r entries) (renamedEntries r others) = sameEntries entries others
  | [], _ => rfl
  | (key, item) :: rest, others => by
    rw [renamedEntries, sameEntries, sameEntries, lookup_renamedEntries, sameEntries_renamed]
    cases others.lookup key with
    | none => rfl
    | some other => simp only [Option.map_some, same_renamed]
end

theorem map_renamed {known other : Number → Bool} (same : ∀ a, other (a.renamed r) = known a)
    (number : Option Number) : (number.map (Number.renamed r)).map other = number.map known := by
  cases number with
  | none => rfl
  | some a => exact congrArg some (same a)

mutual
@[simp] theorem before?_renamed : (v w : Value) → before? (v.renamed r) (w.renamed r) = before? v w
  | undefined, w | null, w | dict _, w | date _, w | datetime _, w | duration _, w | method _, w => by
    cases w <;> rfl
  | bool b, w => by
    rw [renamed_bool, before?, before?, numeric?_renamed]
    exact map_renamed r (Number.lt_renamed r (.int _)) w.numeric?
  | int n, w => by
    rw [renamed_int, before?, before?, numeric?_renamed]
    exact map_renamed r (Number.lt_renamed r (.int _)) w.numeric?
  | float x, w => by
    rw [renamed_float, before?, before?, numeric?_renamed]
    exact map_renamed r (Number.lt_renamed r (.real x)) w.numeric?
  | text s, w | safe s, w => by
    cases w <;> rfl
  | list items, w => by
    cases w with
    | list others => exact itemsBefore?_renamed items others
    | _ => rfl
theorem itemsBefore?_renamed : (items others : List Value) →
    itemsBefore? (renamedItems r items) (renamedItems r others) = itemsBefore? items others
  | [], [] | [], _ :: _ | _ :: _, [] => rfl
  | item :: rest, other :: more => by
    rw [renamedItems, renamedItems, itemsBefore?, itemsBefore?,
      same_renamed, before?_renamed, itemsBefore?_renamed]
end

mutual
@[simp] theorem hasNan_renamed : (v : Value) → hasNan (v.renamed r) = hasNan v
  | undefined | null | bool _ | int _ | text _ | safe _ | date _ | datetime _ | duration _
  | method _ | dict _ => rfl
  | float x => by cases x <;> rfl
  | list items => anyNan_renamedItems items
theorem anyNan_renamedItems : (items : List Value) → anyNan (renamedItems r items) = anyNan items
  | [] => rfl
  | item :: rest => by
    rw [renamedItems, anyNan, anyNan, hasNan_renamed, anyNan_renamedItems]
end

/-! ### Parts -/

theorem get?_renamed (name : String) :
    Dict.get? (entries.map fun entry => (entry.1, entry.2.renamed r)) name =
      (Dict.get? entries name).map (renamed r) := by
  rw [← renamedEntries_eq]
  exact lookup_renamedEntries r name entries

theorem getD_renamed (value : Option Value) :
    (value.map (renamed r)).getD undefined = (value.getD undefined).renamed r := by
  cases value <;> rfl

theorem field?_renamed (v : Value) (name : String) :
    (v.renamed r).field? name = (v.field? name).map (renamed r) := by
  cases v with
  | dict entries =>
    rw [renamed_dict, field?, field?, get?_renamed]
  | list items =>
    rw [renamed_list, field?, field?, List.length_map]
    split <;> rfl
  | text s | safe s =>
    simp only [renamed_text, renamed_safe, field?]
    split <;> rfl
  | bool b | int n | float x =>
    simp only [renamed_bool, renamed_int, renamed_float, field?, numberField?]
    split <;> rfl
  | date d =>
    simp only [renamed_date, field?, dateField?]
    split <;> rfl
  | datetime t =>
    simp only [renamed_datetime, field?, momentField?, dateField?]
    repeat' split
    all_goals rfl
  | duration time =>
    simp only [renamed_duration, field?, durationField?]
    split <;> rfl
  | undefined | null | method m => rfl

/-- What is no number is one object, wherever it came up. -/
theorem method?_renamed (standing : Owner → Nat) (v : Value) (name : String) :
    (v.renamed r).method? standing name = v.method? standing name := by
  cases v with
  | float x => cases x <;> rfl
  | _ => rfl

@[simp] theorem property_renamed (standing : Owner → Nat) (v : Value) (name : String) :
    (v.renamed r).property standing name = (v.property standing name).renamed r := by
  rw [property, property, field?_renamed, method?_renamed]
  cases v.field? name with
  | some part => rfl
  | none => cases v.method? standing name <;> rfl

@[simp] theorem placeOf_renamed (v : Value) : placeOf (v.renamed r) = placeOf v := by
  cases v <;> simp [placeOf]

theorem itemAt_renamed {α β : Type} {f : α → β} {wrap : α → Value} {other : β → Value}
    (natural : ∀ a, other (f a) = (wrap a).renamed r) (items : List α) (place : Place) :
    itemAt (items.map f) other place = (itemAt items wrap place).renamed r := by
  cases place with
  | «at» position =>
    cases position with
    | ofNat n =>
      simp only [itemAt, List.getElem?_map, ← getD_renamed, Option.map_map]
      exact congrArg (fun g => (Option.map g items[n]?).getD undefined) (funext natural)
    | negSucc n => rfl
  | size => simp only [itemAt, List.length_map]; rfl
  | nowhere => rfl

@[simp] theorem index_renamed (v key : Value) :
    (v.renamed r).index (key.renamed r) = (v.index key).map (renamed r) := by
  cases v with
  | list items =>
    have item : itemAt (items.map (renamed r)) id (placeOf key) =
        (itemAt items id (placeOf key)).renamed r := itemAt_renamed r (by intro; rfl) items _
    rw [renamed_list, index, index, placeOf_renamed, item]
    rfl
  | text s | safe s =>
    let shown (c : Char) : Value := ofChars [c]
    have char : itemAt (s.toList.map id) shown (placeOf key) =
        (itemAt s.toList shown (placeOf key)).renamed r := itemAt_renamed r (by intro; rfl) _ _
    rw [List.map_id] at char
    simp only [renamed_text, renamed_safe, index, placeOf_renamed]
    exact congrArg Except.ok char
  | dict entries =>
    let others := entries.map fun entry => (entry.1, entry.2.renamed r)
    have found : (do return (Dict.get? others (← keyText (key.renamed r))).getD undefined) =
        (do return (Dict.get? entries (← keyText key)).getD undefined :
          Except Fault Value).map (renamed r) := by
      rw [keyText_renamed]
      cases keyText key with
      | error => rfl
      | ok name =>
        have entry := get?_renamed r entries name
        exact congrArg Except.ok ((congrArg (Option.getD · undefined) entry).trans (getD_renamed r _))
    rw [renamed_dict]
    cases key <;> first | rfl | exact found
  | _ => rfl

/-! ### Items of loops -/

theorem settled_of_ne {source : NanSource} (other : source ≠ .fresh) (frame : Nat)
    (place : List Nat) :
    (float (.nan source)).settled frame place = float (.nan source) := by
  cases source <;> first | rfl | contradiction

mutual
theorem settled_renamed {frame frame' : Nat} {place place' : List Nat}
    (takes : r.Takes frame frame' place place') : (v : Value) →
    (v.renamed r).settled frame' place' = (v.settled frame place).renamed r
  | undefined | null | bool _ | int _ | text _ | safe _ | date _ | datetime _ | duration _
  | method _ | float (.infinity _) | float (.finite ..) => rfl
  | float (.nan source) => by
    rw [renamed_float, Double.renamed_nan]
    by_cases own : source = .fresh
    · subst own
      rw [r.fresh]
      exact congrArg (fun source => float (.nan source)) (takes []).symm
    · rw [settled_of_ne own, settled_of_ne (mt r.source_eq_fresh.mp own), renamed_float,
        Double.renamed_nan]
  | list items => congrArg list (settledItems_renamed (fun i => takes.inside (0 + i)) items)
  | dict entries =>
    congrArg dict (settledEntries_renamed (fun i => takes.inside (0 + i)) entries)
theorem settledItems_renamed {frame frame' index index' : Nat} {place place' : List Nat}
    (takes : ∀ i, r.Takes frame frame' ((index + i) :: place) ((index' + i) :: place')) :
    (items : List Value) → settledItems frame' place' index' (renamedItems r items) =
      renamedItems r (settledItems frame place index items)
  | [] => rfl
  | item :: rest => by
    have here := settled_renamed (takes 0) item
    have later := settledItems_renamed (Renaming.Takes.next takes) rest
    exact congrArg₂ List.cons here later
theorem settledEntries_renamed {frame frame' index index' : Nat} {place place' : List Nat}
    (takes : ∀ i, r.Takes frame frame' ((index + i) :: place) ((index' + i) :: place')) :
    (entries : List (String × Value)) → settledEntries frame' place' index' (renamedEntries r entries) =
      renamedEntries r (settledEntries frame place index entries)
  | [] => rfl
  | (key, item) :: rest => by
    have here := settled_renamed (takes 0) item
    have later := settledEntries_renamed (Renaming.Takes.next takes) rest
    exact congrArg₂ (fun value more => (key, value) :: more) here later
end

/-! ### Values that keep their places -/

mutual
/-- Where what is no number in a value came up. -/
def nans : Value → List NanSource
  | float (.nan source) => [source]
  | list items => itemNans items
  | dict entries => entryNans entries
  | _ => []
termination_by structural v => v
def itemNans : List Value → List NanSource
  | [] => []
  | item :: rest => item.nans ++ itemNans rest
termination_by structural items => items
def entryNans : List (String × Value) → List NanSource
  | [] => []
  | (_, item) :: rest => item.nans ++ entryNans rest
termination_by structural entries => entries
end

mutual
theorem renamed_eq_self : (v : Value) → (∀ source ∈ v.nans, r.source source = source) →
    v.renamed r = v
  | undefined, _ | null, _ | bool _, _ | int _, _ | text _, _ | safe _, _ | date _, _
  | datetime _, _ | duration _, _ | method _, _ | float (.infinity _), _ | float (.finite ..), _ => rfl
  | float (.nan source), kept =>
    congrArg (fun source => float (.nan source)) (kept source List.mem_cons_self)
  | list items, kept => congrArg list (renamedItems_eq_self items kept)
  | dict entries, kept => congrArg dict (renamedEntries_eq_self entries kept)
theorem renamedItems_eq_self : (items : List Value) →
    (∀ source ∈ itemNans items, r.source source = source) → renamedItems r items = items
  | [], _ => rfl
  | item :: rest, kept => by
    rw [renamedItems,
      renamed_eq_self item fun source here => kept source (List.mem_append_left _ here),
      renamedItems_eq_self rest fun source later => kept source (List.mem_append_right _ later)]
theorem renamedEntries_eq_self : (entries : List (String × Value)) →
    (∀ source ∈ entryNans entries, r.source source = source) →
    renamedEntries r entries = entries
  | [], _ => rfl
  | (key, item) :: rest, kept => by
    rw [renamedEntries,
      renamed_eq_self item fun source here => kept source (List.mem_append_left _ here),
      renamedEntries_eq_self rest fun source later => kept source (List.mem_append_right _ later)]
end

/-- What is no number in the value came up before the frame of a number was pushed. -/
def Before (frame : Nat) (v : Value) : Prop := ∀ source ∈ v.nans, source.Before frame

theorem renamed_of_unlooped {v : Value} (unlooped : v.Before 0) : v.renamed r = v :=
  renamed_eq_self r v fun source member => r.elsewhere (unlooped source member)

@[simp] theorem renamed_none (v : Value) : v.renamed .none = v :=
  renamed_eq_self .none v fun _ _ => rfl

end Value
end Stencil
