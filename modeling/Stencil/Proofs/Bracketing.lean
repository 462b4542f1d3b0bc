import Stencil.Proofs.Quotation

/-! Balanced brackets. Between a bracket and the one that closes it stand balanced texts, string
literals and characters that are neither brackets nor quotes. From an opening bracket the search for
the closing one ends at the end of such a text, and it fails where no such text begins. -/
namespace Stencil.Markup

/-! ### Balanced texts -/

mutual
/-- A text from an opening bracket to the closing one of its kind. -/
inductive Balanced : List Char → Prop
  | enclosed {opener closer : Char} {inner : List Char}
      (pair : (opener, closer) ∈ [('(', ')'), ('[', ']')]) (inside : Items inner) :
      Balanced (opener :: (inner ++ [closer]))
/-- What may stand between brackets. -/
inductive Items : List Char → Prop
  | nil : Items []
  | group {first rest : List Char} (balanced : Balanced first) (later : Items rest) :
      Items (first ++ rest)
  | literal {quote : Char} {content rest : List Char} (quotes : quote ∈ ['\'', '"'])
      (inner : Content quote content) (later : Items rest) :
      Items (quote :: (content ++ quote :: rest))
  | plain {c : Char} {rest : List Char} (apart : c ∉ ['(', ')', '[', ']', '\'', '"'])
      (later : Items rest) : Items (c :: rest)
end

section Kinds

variable {c opener closer : Char}

theorem mem_pairs_iff :
    (opener, closer) ∈ [('(', ')'), ('[', ']')] ↔ closerOf? opener = some closer := by
  unfold closerOf?
  split <;> simp_all [eq_comm]

theorem mem_quotes_iff : c ∈ ['\'', '"'] ↔ isQuote c = true := by
  simp [isQuote]

theorem isCloser_of_closerOf (pair : closerOf? opener = some closer) : isCloser closer = true := by
  have known := mem_pairs_iff.mpr pair
  simp only [List.mem_cons, Prod.mk.injEq, List.not_mem_nil, or_false] at known
  rcases known with ⟨-, rfl⟩ | ⟨-, rfl⟩ <;> rfl

theorem apart_iff : c ∉ ['(', ')', '[', ']', '\'', '"'] ↔
    isQuote c = false ∧ isOpener c = false ∧ isCloser c = false := by
  have opens : isOpener c = false ↔ c ≠ '(' ∧ c ≠ '[' := by
    unfold isOpener closerOf?
    split <;> simp_all
  rw [opens]
  simp only [isQuote, isCloser, List.mem_cons, List.not_mem_nil, or_false, Bool.or_eq_false_iff,
    beq_eq_false_iff_ne]
  tauto

end Kinds

/-! ### Every balanced text is passed over -/

/-- A search inside of brackets passes over the text. -/
def Passed (text : List Char) : Prop :=
  ∀ stack ≠ [], ∀ offset rest,
    closingFrom stack none offset (text ++ rest) =
      closingFrom stack none (offset + text.length) rest

section Passed

variable {q c opener closer : Char} {content inner text more : List Char}

theorem Content.closingFrom (inner : Content q content) (bare : q ≠ '\\') (stack : List Char)
    (offset : Nat) (rest : List Char) :
    closingFrom stack (some q) offset (content ++ q :: rest) =
      closingFrom stack none (offset + content.length + 1) rest := by
  induction inner generalizing offset with
  | nil => simp [closingFrom_within bare]
  | escaped c later ih =>
    rw [List.cons_append, List.cons_append, closingFrom_escaped, ih, List.length_cons,
      List.length_cons]
    congr 1
    omega
  | plain other apart later ih =>
    rw [List.cons_append, closingFrom_within apart, if_neg (by simpa using other), ih,
      List.length_cons]
    congr 1
    omega

theorem passed_nil : Passed [] := fun _ _ _ _ => rfl

theorem Passed.append (first : Passed text) (second : Passed more) : Passed (text ++ more) := by
  intro stack inside offset rest
  rw [List.append_assoc, first stack inside, second stack inside, List.length_append, Nat.add_assoc]

theorem passed_plain (apart : c ∉ ['(', ')', '[', ']', '\'', '"']) : Passed [c] := by
  obtain ⟨quotes, opens, closes⟩ := apart_iff.mp apart
  exact fun _ _ _ _ => closingFrom_plain quotes opens closes

theorem passed_literal (quotes : isQuote q = true) (inner : Content q content) :
    Passed (q :: (content ++ [q])) := by
  intro stack _ offset rest
  have shape : q :: (content ++ [q]) ++ rest = q :: (content ++ q :: rest) := by simp
  rw [shape, closingFrom_quote quotes, inner.closingFrom (ne_backslash_of_isQuote quotes)]
  congr 1
  simp only [List.length_cons, List.length_append, List.length_nil]
  omega

/-- Behind the inner text the search finds the closing bracket, and goes on where more is open. -/
theorem Passed.closingFrom_enclosed (passed : Passed inner)
    (pair : closerOf? opener = some closer) (stack : List Char) (offset : Nat) (rest : List Char) :
    closingFrom stack none offset (opener :: (inner ++ closer :: rest)) =
      if stack.isEmpty then some (offset + 1 + inner.length)
      else closingFrom stack none (offset + 1 + inner.length + 1) rest := by
  rw [closingFrom_opens pair, passed _ (List.cons_ne_nil _ _),
    closingFrom_closes (isCloser_of_closerOf pair)]

theorem Passed.enclosed (passed : Passed inner) (pair : closerOf? opener = some closer) :
    Passed (opener :: (inner ++ [closer])) := by
  intro stack inside offset rest
  have shape : opener :: (inner ++ [closer]) ++ rest = opener :: (inner ++ closer :: rest) := by
    simp
  rw [shape, passed.closingFrom_enclosed pair, if_neg (by simpa using inside)]
  congr 1
  simp only [List.length_cons, List.length_append, List.length_nil]
  omega

mutual
theorem Balanced.passed : {group : List Char} → Balanced group → Passed group
  | _, .enclosed pair inside => inside.passed.enclosed (mem_pairs_iff.mp pair)
theorem Items.passed : {inner : List Char} → Items inner → Passed inner
  | _, .nil => passed_nil
  | _, .group balanced later => balanced.passed.append later.passed
  | _, .literal quotes inner later => by
    have whole := (passed_literal (mem_quotes_iff.mp quotes) inner).append later.passed
    rwa [List.cons_append, List.append_assoc, List.singleton_append] at whole
  | _, .plain apart later => (passed_plain apart).append later.passed
end

end Passed

/-! ### Every search that ends has passed over a balanced text -/

/-- The text closes the open brackets from the innermost out, and ends with the outermost. -/
def ClosesAll : List Char → List Char → Prop
  | [], text => text = []
  | closer :: outer, text =>
    ∃ inner rest, text = inner ++ closer :: rest ∧ Items inner ∧ ClosesAll outer rest

/-- The text closes the open quote first. -/
def ClosesQuote (stack : List Char) : Option Char → List Char → Prop
  | none, text => ClosesAll stack text
  | some q, text => ∃ content rest, text = content ++ q :: rest ∧ Content q content ∧
      ClosesAll stack rest

/-- A front of the text that ends at `close` has a property. -/
def EndsAt (close offset : Nat) (property : List Char → Prop) (text : List Char) : Prop :=
  ∃ front back, text = front ++ back ∧ offset + front.length = close + 1 ∧ property front

section Search

variable {stack text rest : List Char} {close offset : Nat} {property other : List Char → Prop}

theorem EndsAt.prepend (piece : List Char) (ends : EndsAt close (offset + piece.length) other rest)
    (grows : ∀ front, other front → property (piece ++ front)) :
    EndsAt close offset property (piece ++ rest) := by
  obtain ⟨front, back, rfl, place, known⟩ := ends
  refine ⟨piece ++ front, back, (List.append_assoc ..).symm, ?_, grows front known⟩
  rw [List.length_append]
  omega

theorem ClosesAll.prepend {piece : List Char}
    (grows : ∀ inner, Items inner → Items (piece ++ inner)) (inside : stack ≠ [])
    (closes : ClosesAll stack text) : ClosesAll stack (piece ++ text) := by
  cases stack with
  | nil => contradiction
  | cons closer outer =>
    obtain ⟨inner, rest, rfl, items, later⟩ := closes
    exact ⟨piece ++ inner, rest, (List.append_assoc ..).symm, grows inner items, later⟩

/-- Where a search ends, the text up to there closes what was open when it began. -/
theorem endsAt_of_closingFrom {quote : Option Char} (inside : stack ≠ [])
    (found : closingFrom stack quote offset text = some close) :
    EndsAt close offset (ClosesQuote stack quote) text := by
  fun_induction closingFrom stack quote offset text with
  | case1 | case2 | case7 | case8 => contradiction
  | case3 stack offset c q escape d more ih =>
    obtain rfl := beq_iff_eq.mp escape
    refine (ih inside found).prepend ['\\', d] ?_
    rintro _ ⟨content, rest, rfl, inner, closes⟩
    exact ⟨'\\' :: d :: content, rest, rfl, .escaped d inner, closes⟩
  | case4 stack offset c rest q bare ih =>
    refine (ih inside found).prepend [c] fun front closes => ?_
    by_cases ends : c = q
    · subst ends
      rw [if_pos (beq_self_eq_true c)] at closes
      exact ⟨[], front, rfl, .nil, closes⟩
    · rw [if_neg (by simpa using ends)] at closes
      obtain ⟨content, rest, rfl, inner, closes⟩ := closes
      exact ⟨c :: content, rest, rfl, .plain ends (by simpa using bare) inner, closes⟩
  | case5 stack offset c rest quotes ih =>
    -- The quote that opens and what closes it are a literal in front of the innermost items.
    refine (ih inside found).prepend [c] ?_
    rintro _ ⟨content, rest, rfl, inner, closes⟩
    have grows (more : List Char) (later : Items more) : Items (c :: (content ++ [c]) ++ more) := by
      simpa using Items.literal (mem_quotes_iff.mpr quotes) inner later
    simpa [ClosesQuote] using closes.prepend grows inside
  | case6 stack offset c rest free closer pair ih =>
    -- What closes the new bracket makes up a group with it, in front of the items further out.
    refine (ih (List.cons_ne_nil _ _) found).prepend [c] ?_
    rintro _ ⟨inner, rest, rfl, items, closes⟩
    have grows (more : List Char) (later : Items more) : Items (c :: (inner ++ [closer]) ++ more) :=
      .group (.enclosed (mem_pairs_iff.mpr pair) items) later
    simpa [ClosesQuote] using closes.prepend grows inside
  | case9 offset c rest free single closes expected outer same last =>
    obtain rfl : expected = c := by simpa using same
    obtain rfl := List.isEmpty_iff.mp last
    obtain rfl := Option.some.inj found
    exact ⟨[expected], rest, rfl, rfl, [], [], rfl, .nil, rfl⟩
  | case10 offset c rest free single closes expected outer same more ih =>
    obtain rfl : expected = c := by simpa using same
    refine (ih (by simpa using more) found).prepend [expected] fun front closes => ?_
    exact ⟨[], front, rfl, .nil, closes⟩
  | case11 stack offset c rest free single closes ih =>
    have apart : c ∉ ['(', ')', '[', ']', '\'', '"'] :=
      apart_iff.mpr ⟨by simpa using free, by simp [isOpener, single], by simpa using closes⟩
    refine (ih inside found).prepend [c] fun front all => ?_
    exact ClosesAll.prepend (fun inner items => .plain apart items) inside all

end Search

/-! ### The closing bracket -/

section Closing

variable {text : List Char} {start stop : Nat}

theorem closing_eq_some_iff {opener : Char} {rest : List Char} (opens : isOpener opener = true)
    (shape : text.drop start = opener :: rest) :
    closing? text start = some stop ↔ EndsAt stop start Balanced (text.drop start) := by
  obtain ⟨closer, pair⟩ := Option.isSome_iff_exists.mp opens
  rw [closing?, shape]
  constructor
  · intro found
    rw [closingFrom_opens pair] at found
    refine (endsAt_of_closingFrom (List.cons_ne_nil _ _) found).prepend [opener] ?_
    rintro _ ⟨inner, _, rfl, items, rfl⟩
    exact .enclosed (mem_pairs_iff.mpr pair) items
  · rintro ⟨group, back, split, place, balanced⟩
    cases balanced with
    | enclosed pair inside =>
      rw [split, List.cons_append, List.append_assoc, List.singleton_append,
        inside.passed.closingFrom_enclosed (mem_pairs_iff.mp pair)]
      simp only [List.length_cons, List.length_append, List.length_nil] at place
      rw [List.isEmpty_nil, if_pos rfl, Option.some.injEq]
      omega

theorem Balanced.ne_nil (balanced : Balanced text) : text ≠ [] := by
  cases balanced
  exact List.cons_ne_nil _ _

theorem endsAt_iff_slice : EndsAt stop start Balanced (text.drop start) ↔
    stop < text.length ∧ Balanced ((text.take (stop + 1)).drop start) := by
  rw [List.drop_take]
  constructor
  · rintro ⟨front, back, split, place, balanced⟩
    have size := congrArg List.length split
    have some := List.length_pos_of_ne_nil balanced.ne_nil
    rw [List.length_drop, List.length_append] at size
    have span : stop + 1 - start = front.length := by omega
    rw [split, span, List.take_left]
    exact ⟨by omega, balanced⟩
  · rintro ⟨within, balanced⟩
    have some := List.length_pos_of_ne_nil balanced.ne_nil
    refine ⟨_, _, (List.take_append_drop (stop + 1 - start) _).symm, ?_, balanced⟩
    rw [List.length_take, List.length_drop] at some ⊢
    omega

end Closing

/-- From an opening bracket the search finds a place if and only if the text up to there is
balanced, and it fails if and only if the text is balanced up to no place. -/
theorem closing_iff_balanced {text : List Char} {start : Nat}
    (opens : text[start]? = some '(' ∨ text[start]? = some '[') :
    (∀ stop, closing? text start = some stop ↔
      stop < text.length ∧ Balanced ((text.take (stop + 1)).drop start)) ∧
    (closing? text start = none ↔
      ∀ stop < text.length, ¬ Balanced ((text.take (stop + 1)).drop start)) := by
  obtain ⟨opener, bracket, rest, shape⟩ : ∃ opener, isOpener opener = true ∧
      ∃ rest, text.drop start = opener :: rest := by
    rcases opens with here | here <;> obtain ⟨within, same⟩ := List.getElem?_eq_some_iff.mp here
    · exact ⟨'(', rfl, _, same ▸ List.drop_eq_getElem_cons within⟩
    · exact ⟨'[', rfl, _, same ▸ List.drop_eq_getElem_cons within⟩
  have each (stop : Nat) : closing? text start = some stop ↔
      stop < text.length ∧ Balanced ((text.take (stop + 1)).drop start) :=
    (closing_eq_some_iff bracket shape).trans endsAt_iff_slice
  refine ⟨each, ?_⟩
  rw [Option.eq_none_iff_forall_ne_some]
  exact forall_congr' fun stop => by rw [ne_eq, each, not_and]

/-- Brackets in literals, one of them behind an escaped quote, and brackets that cross. -/
theorem closing_iff_balanced_in_call :
    let call := ['f', '(', '\'', ')', '\\', '\'', '\'', '[', '"', ']', '"', ']', ')', ')']
    let crossed := ['(', '[', ')', ']']
    (call[1]? = some '(' ∧ closing? call 1 = some 12 ∧ Balanced ((call.take 13).drop 1)) ∧
    (crossed[0]? = some '(' ∧ closing? crossed 0 = none ∧
      ∀ stop < 4, ¬ Balanced ((crossed.take (stop + 1)).drop 0)) := by
  intro call crossed
  have first : call[1]? = some '(' := rfl
  have second : crossed[0]? = some '(' := rfl
  have found : closing? call 1 = some 12 := by decide
  have missing : closing? crossed 0 = none := by decide
  exact ⟨⟨first, found, (((closing_iff_balanced (.inl first)).1 12).mp found).2⟩,
    second, missing, (closing_iff_balanced (.inl second)).2.mp missing⟩

end Stencil.Markup
