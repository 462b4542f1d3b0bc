import Stencil.Proofs.Presence

/-! Quotation. String literals are found by a search for quotes; the search for a closing bracket and
the search for characters outside of brackets each keep track of quotes on their own. In a text in
which every quote is closed all three take the same characters for quoted, so what structures a text
is no part of a literal. -/
namespace Stencil.Markup
open Notation (scan_eq_scanFrom protectedIntervals_eq scanFrom_string_cons)

/-! ### Quotes from left to right -/

/-- Which quote is open, and whether a backslash inside it takes the next character with it. -/
structure Quoting where
  quote : Option Char
  escaped : Bool

namespace Quoting

def outside : Quoting := ⟨none, false⟩

def next (state : Quoting) (c : Char) : Quoting :=
  match state.quote with
  | none => if isQuote c then ⟨some c, false⟩ else outside
  | some q =>
    if state.escaped then ⟨some q, false⟩
    else if c == '\\' then ⟨some q, true⟩
    else if c == q then outside
    else ⟨some q, false⟩

/-- The state after a text. -/
def after (state : Quoting) (text : List Char) : Quoting := text.foldl next state

/-- A quote itself counts as quoted. -/
def covers (state : Quoting) (c : Char) : Bool := state.quote.isSome || (state.next c).quote.isSome

/-- Which characters are quoted. -/
def flags (state : Quoting) : List Char → List Bool
  | [] => []
  | c :: rest => state.covers c :: flags (state.next c) rest

/-- The intervals from an opening quote to the one that closes it; `start` is where the open one
stands. -/
def runsFrom (state : Quoting) (start offset : Nat) : List Char → List (Nat × Nat)
  | [] => []
  | c :: rest =>
    let next := state.next c
    match state.quote, next.quote with
    | none, some _ => runsFrom next offset (offset + 1) rest
    | some _, none => (start, offset + 1) :: runsFrom next 0 (offset + 1) rest
    | _, _ => runsFrom next start (offset + 1) rest

end Quoting

/-- Every quote that is opened is closed. -/
def Closed (text : List Char) : Prop := (Quoting.outside.after text).quote = none

instance (text : List Char) : Decidable (Closed text) :=
  inferInstanceAs (Decidable ((Quoting.outside.after text).quote = none))

/-- The quoted parts of a text. -/
def quotedRuns (text : List Char) : List (Nat × Nat) := Quoting.outside.runsFrom 0 0 text

/-- The literal that an interval from quote to quote is. -/
def literalAt (text : List Char) (run : Nat × Nat) : Match :=
  let size := run.2 - run.1
  Hit.toMatch ⟨size, [(0, 1), (1, size - 2)]⟩ .string (text.drop run.1) run.1

/-! ### Texts with closed quotes -/

/-- What may stand between two quotes. -/
inductive Content (quote : Char) : List Char → Prop
  | nil : Content quote []
  | escaped (c : Char) {rest : List Char} (later : Content quote rest) :
      Content quote ('\\' :: c :: rest)
  | plain {c : Char} {rest : List Char} (inner : c ≠ quote) (bare : c ≠ '\\')
      (later : Content quote rest) : Content quote (c :: rest)

/-- Characters outside of quotes, and literals. -/
inductive Quoted : List Char → Prop
  | nil : Quoted []
  | plain {c : Char} {rest : List Char} (free : isQuote c = false) (later : Quoted rest) :
      Quoted (c :: rest)
  | literal {quote : Char} {content rest : List Char} (quotes : isQuote quote = true)
      (inner : Content quote content) (later : Quoted rest) :
      Quoted (quote :: (content ++ quote :: rest))

section Closed

variable {q : Char} {content text rest : List Char} {start offset : Nat}

theorem ne_backslash_of_isQuote (quotes : isQuote q = true) : q ≠ '\\' := by
  rintro rfl
  exact absurd quotes (by decide)

theorem exists_content (bare : q ≠ '\\')
    (closed : ((Quoting.mk (some q) false).after text).quote = none) :
    ∃ content rest, text = content ++ q :: rest ∧ Content q content ∧ Closed rest := by
  induction length : text.length using Nat.strong_induction_on generalizing text with
  | _ size ih =>
    subst length
    match text with
    | [] => cases closed
    | c :: rest =>
      by_cases escape : c = '\\'
      · subst escape
        match rest with
        | [] => cases closed
        | d :: more =>
          have later : ((Quoting.mk (some q) false).after more).quote = none := closed
          obtain ⟨content, rest, rfl, inner, closed⟩ :=
            ih more.length (by simp only [List.length_cons]; omega) later rfl
          exact ⟨'\\' :: d :: content, rest, rfl, .escaped d inner, closed⟩
      · by_cases ends : c = q
        · subst ends
          have outside : (Quoting.mk (some c) false).next c = Quoting.outside := by
            simp [Quoting.next, escape]
          rw [Quoting.after, List.foldl_cons, outside] at closed
          exact ⟨[], rest, rfl, .nil, closed⟩
        · have same : (Quoting.mk (some q) false).next c = ⟨some q, false⟩ := by
            simp [Quoting.next, escape, ends]
          rw [Quoting.after, List.foldl_cons, same] at closed
          obtain ⟨content, rest, rfl, inner, closed⟩ := ih rest.length (by simp) closed rfl
          exact ⟨c :: content, rest, rfl, .plain ends escape inner, closed⟩

theorem Closed.quoted (closed : Closed text) : Quoted text := by
  induction length : text.length using Nat.strong_induction_on generalizing text with
  | _ size ih =>
    subst length
    cases text with
    | nil => exact .nil
    | cons c rest =>
      cases quotes : isQuote c with
      | false =>
        have same : Quoting.outside.next c = Quoting.outside := by
          simp [Quoting.next, Quoting.outside, quotes]
        rw [Closed, Quoting.after, List.foldl_cons, same] at closed
        exact .plain quotes (ih rest.length (by simp) closed rfl)
      | true =>
        have opened : Quoting.outside.next c = ⟨some c, false⟩ := by
          simp [Quoting.next, Quoting.outside, quotes]
        rw [Closed, Quoting.after, List.foldl_cons, opened] at closed
        obtain ⟨content, rest, rfl, inner, closed⟩ :=
          exists_content (ne_backslash_of_isQuote quotes) closed
        refine .literal quotes inner (ih rest.length ?_ closed rfl)
        simp only [List.length_cons, List.length_append]
        omega

theorem Content.quotedSize (inner : Content q content) (bare : q ≠ '\\') (size : Nat)
    (rest : List Char) :
    quotedSize q size (content ++ q :: rest) = some (size + content.length) := by
  induction inner generalizing size with
  | nil =>
    rw [List.nil_append, Markup.quotedSize.eq_def]
    simp
  | escaped c later ih =>
    rw [List.cons_append, List.cons_append, Markup.quotedSize.eq_def]
    simp only [ih, List.length_cons]
    congr 1
    omega
  | plain other apart later ih =>
    rw [List.cons_append, Markup.quotedSize.eq_def]
    simp only [beq_iff_eq, other, if_false, ih, List.length_cons]
    congr 1
    omega

theorem next_of_free {c : Char} (free : isQuote c = false) :
    Quoting.outside.next c = Quoting.outside := by
  simp [Quoting.next, Quoting.outside, free]

theorem next_of_quote (quotes : isQuote q = true) : Quoting.outside.next q = ⟨some q, false⟩ := by
  simp [Quoting.next, Quoting.outside, quotes]

theorem next_of_same (bare : q ≠ '\\') : (Quoting.mk (some q) false).next q = Quoting.outside := by
  simp [Quoting.next, bare]

theorem next_of_plain {c : Char} (inner : c ≠ q) (bare : c ≠ '\\') :
    (Quoting.mk (some q) false).next c = ⟨some q, false⟩ := by
  simp [Quoting.next, bare, inner]

theorem Content.flags (inner : Content q content) (bare : q ≠ '\\') (rest : List Char) :
    (Quoting.mk (some q) false).flags (content ++ q :: rest) =
      List.replicate (content.length + 1) true ++ Quoting.outside.flags rest := by
  induction inner with
  | nil =>
    rw [List.nil_append, Quoting.flags, next_of_same bare]
    rfl
  | escaped c later ih =>
    change true :: true :: (Quoting.mk (some q) false).flags (_ ++ q :: rest) = _
    rw [ih]
    rfl
  | plain other apart later ih =>
    rw [List.cons_append, Quoting.flags, next_of_plain other apart, ih]
    rfl

theorem Content.runsFrom (inner : Content q content) (bare : q ≠ '\\') (start : Nat)
    {offset stop : Nat} (ends : offset + content.length + 1 = stop) (rest : List Char) :
    (Quoting.mk (some q) false).runsFrom start offset (content ++ q :: rest) =
      (start, stop) :: Quoting.outside.runsFrom 0 stop rest := by
  induction inner generalizing offset with
  | nil =>
    subst ends
    simp only [List.nil_append, Quoting.runsFrom, next_of_same bare]
    rfl
  | @escaped c more later ih =>
    rw [List.length_cons, List.length_cons] at ends
    have behind : offset + 1 + 1 + more.length + 1 = stop := by omega
    exact ih behind
  | plain other apart later ih =>
    rw [List.length_cons] at ends
    simp only [List.cons_append, Quoting.runsFrom, next_of_plain other apart]
    exact ih (by omega)

theorem runsFrom_plain {c : Char} (free : isQuote c = false) (offset : Nat) (rest : List Char) :
    Quoting.outside.runsFrom 0 offset (c :: rest) =
      Quoting.outside.runsFrom 0 (offset + 1) rest := by
  simp only [Quoting.runsFrom, next_of_free free]
  rfl

theorem runsFrom_literal (quotes : isQuote q = true) (inner : Content q content) (offset : Nat)
    (rest : List Char) :
    Quoting.outside.runsFrom 0 offset (q :: (content ++ q :: rest)) =
      (offset, offset + content.length + 2) ::
        Quoting.outside.runsFrom 0 (offset + content.length + 2) rest := by
  simp only [Quoting.runsFrom, next_of_quote quotes]
  exact inner.runsFrom (ne_backslash_of_isQuote quotes) offset (by omega) rest

/-- A search for literals finds the quoted parts. -/
theorem Quoted.scanFrom_string (quoted : Quoted text) (previous : Option Char) (before : List Char) :
    scanFrom stringLiteral .string previous before.length 0 text =
      (Quoting.outside.runsFrom 0 before.length text).map (literalAt (before ++ text)) := by
  induction quoted generalizing previous before with
  | nil => rfl
  | @plain c rest free later ih =>
    have here := ih (some c) (before ++ [c])
    rw [List.length_append, List.length_singleton, List.append_assoc, List.singleton_append] at here
    rw [scanFrom_string_cons free, here, runsFrom_plain free]
  | @literal q content rest quotes inner later ih =>
    have word : q :: (content ++ q :: rest) = (q :: (content ++ [q])) ++ rest := by simp
    have size : (q :: (content ++ [q])).length = content.length + 2 := by simp
    have hits : stringLiteral previous ((q :: (content ++ [q])) ++ rest) =
        some ⟨content.length + 2, [(0, 1), (1, content.length)]⟩ := by
      rw [← word, stringLiteral]
      simp [quotes, inner.quotedSize (ne_backslash_of_isQuote quotes)]
    have first : scanFrom stringLiteral .string previous before.length 0 (_ ++ rest) = _ :=
      scanFrom_of_hit hits size.symm (List.cons_ne_nil _ _) before.length
    have here := ih ((q :: (content ++ [q])).getLast?.or previous) (before ++ (q :: (content ++ [q])))
    rw [List.length_append, size, ← Nat.add_assoc, List.append_assoc] at here
    rw [runsFrom_literal quotes inner, List.map_cons, word, first, size, ← Nat.add_assoc, here]
    have span : before.length + content.length + 2 - before.length = content.length + 2 := by omega
    simp only [literalAt, span, Nat.add_sub_cancel, List.drop_left]

theorem scan_string (closed : Closed text) :
    scan .string text 0 [] = (quotedRuns text).map (literalAt text) := by
  rw [scan_eq_scanFrom]
  exact closed.quoted.scanFrom_string none []

theorem Quoted.bounds_of_mem_runsFrom (quoted : Quoted text) {run : Nat × Nat}
    (member : run ∈ Quoting.outside.runsFrom 0 offset text) :
    offset ≤ run.1 ∧ run.1 ≤ run.2 ∧ run.2 ≤ offset + text.length := by
  induction quoted generalizing offset with
  | nil => cases member
  | plain free later ih =>
    rw [runsFrom_plain free] at member
    have := ih member
    rw [List.length_cons]
    omega
  | literal quotes inner later ih =>
    rw [runsFrom_literal quotes inner] at member
    simp only [List.length_cons, List.length_append]
    rcases List.mem_cons.mp member with rfl | member
    · omega
    · have := ih member
      omega

theorem protectedIntervals_of_closed (closed : Closed text) :
    protectedIntervals text = quotedRuns text := by
  have each : ∀ run ∈ quotedRuns text,
      ((literalAt text run).start, (literalAt text run).stop) = run := by
    intro run member
    obtain ⟨-, upward, inside⟩ := closed.quoted.bounds_of_mem_runsFrom member
    have stop : run.1 + min (run.2 - run.1) (text.length - run.1) = run.2 := by omega
    simp [literalAt, Hit.toMatch, Match.stop, stop]
  rw [protectedIntervals, scan_string closed, List.map_map]
  exact (List.map_congr_left each).trans (List.map_id' _)

/-- The characters of the quoted parts are the quoted characters. -/
theorem Quoted.getElem?_flags (quoted : Quoted text) (offset : Nat) {i : Nat} (inside : i < text.length) :
    (Quoting.outside.flags text)[i]? =
      some (Markup.inside (offset + i) (Quoting.outside.runsFrom 0 offset text)) := by
  induction quoted generalizing offset i with
  | nil => cases inside
  | @plain c rest free later ih =>
    rw [runsFrom_plain free, Quoting.flags, next_of_free free]
    cases i with
    | zero =>
      have plain : Quoting.outside.covers c = false := by rw [Quoting.covers, next_of_free free]; rfl
      have clear : Markup.inside offset (Quoting.outside.runsFrom 0 (offset + 1) rest) = false := by
        refine List.any_eq_false.mpr fun run member => ?_
        have := later.bounds_of_mem_runsFrom member
        simp only [Bool.and_eq_true, decide_eq_true_eq, not_and]
        omega
      rw [List.getElem?_cons_zero, plain, Nat.add_zero, clear]
    | succ i =>
      rw [List.getElem?_cons_succ, ih (offset + 1) (by simpa using inside)]
      congr 2
      omega
  | @literal q content rest quotes inner later ih =>
    have bare := ne_backslash_of_isQuote quotes
    have covered : Quoting.outside.covers q = true := by
      rw [Quoting.covers, next_of_quote quotes]
      rfl
    have flags : Quoting.outside.flags (q :: (content ++ q :: rest)) =
        List.replicate (content.length + 2) true ++ Quoting.outside.flags rest := by
      rw [Quoting.flags, next_of_quote quotes, inner.flags bare, covered]
      rfl
    rw [flags, runsFrom_literal quotes inner, Markup.inside, List.any_cons]
    -- The literal is the first run; a place behind it is left to the runs of the rest.
    by_cases within : i < content.length + 2
    · have covers : offset + i < offset + content.length + 2 := by omega
      rw [List.getElem?_append_left (by simpa using within)]
      simp [within, covers]
    · have size : i < content.length + (rest.length + 1) + 1 := by simpa using inside
      have place : offset + content.length + 2 + (i - (content.length + 2)) = offset + i := by omega
      have behind : decide (offset + i < offset + content.length + 2) = false := by
        rw [decide_eq_false_iff_not]
        omega
      rw [List.getElem?_append_right (by simpa using within), List.length_replicate,
        ih (offset + content.length + 2) (by omega), place, behind, Bool.and_false, Bool.false_or]
      rfl

/-- Characters with whether they stand in a literal. -/
def marked (text : List Char) : List (Char × Bool) :=
  text.zipIdx.map fun place => (place.1, inside place.2 (protectedIntervals text))

theorem getElem?_marked (text : List Char) (i : Nat) :
    (marked text)[i]? = text[i]?.map fun c => (c, inside i (protectedIntervals text)) := by
  rw [marked, List.getElem?_map, List.getElem?_zipIdx, Option.map_map, Nat.zero_add]
  rfl

theorem marked_eq (closed : Closed text) :
    marked text = text.zip (Quoting.outside.flags text) := by
  refine List.ext_getElem? fun i => ?_
  rw [getElem?_marked, List.zip_eq_zipWith, List.getElem?_zipWith, protectedIntervals_of_closed closed]
  by_cases within : i < text.length
  · rw [List.getElem?_eq_getElem within, closed.quoted.getElem?_flags 0 within, Nat.zero_add]
    rfl
  · rw [List.getElem?_eq_none (Nat.le_of_not_lt within)]
    rfl

end Closed

/-! ### Brackets and free characters -/

/-- Offset of the bracket that empties the stack of expected closers, among characters that may be
quoted. -/
def closingAmong (stack : List Char) (offset : Nat) : List (Char × Bool) → Option Nat
  | [] => none
  | (c, quoted) :: rest =>
    if quoted then closingAmong stack (offset + 1) rest
    else match closerOf? c with
      | some closer => closingAmong (closer :: stack) (offset + 1) rest
      | none =>
        if isCloser c then
          match stack with
          | [] => none
          | expected :: outer =>
            if expected != c then none
            else if outer.isEmpty then some offset
            else closingAmong outer (offset + 1) rest
        else closingAmong stack (offset + 1) rest

/-- Which characters stand outside brackets, among characters that may be quoted. -/
def outsideAmong (depth : Nat) : List (Char × Bool) → List Bool
  | [] => [true]
  | (c, quoted) :: rest =>
    if quoted then false :: outsideAmong depth rest
    else if isOpener c then false :: outsideAmong (depth + 1) rest
    else if isCloser c then false :: outsideAmong (depth - 1) rest
    else (depth == 0) :: outsideAmong depth rest

section Searches

variable {c q : Char} {stack text : List Char} {offset depth : Nat} {rest : List Char}

theorem zip_flags_plain (free : ¬ isQuote c = true) (rest : List Char) :
    (c :: rest).zip ((Quoting.mk none false).flags (c :: rest)) =
      (c, false) :: rest.zip ((Quoting.mk none false).flags rest) := by
  have same : (Quoting.mk none false).next c = ⟨none, false⟩ := next_of_free (by simpa using free)
  rw [Quoting.flags, same, List.zip_cons_cons, Quoting.covers, same]
  rfl

theorem zip_flags_quote (quotes : isQuote q = true) (rest : List Char) :
    (q :: rest).zip ((Quoting.mk none false).flags (q :: rest)) =
      (q, true) :: rest.zip ((Quoting.mk (some q) false).flags rest) := by
  have opened : (Quoting.mk none false).next q = ⟨some q, false⟩ := next_of_quote quotes
  rw [Quoting.flags, opened, List.zip_cons_cons, Quoting.covers, opened]
  rfl

theorem zip_flags_within (escaped : Bool) (rest : List Char) :
    (c :: rest).zip ((Quoting.mk (some q) escaped).flags (c :: rest)) =
      (c, true) :: rest.zip (((Quoting.mk (some q) escaped).next c).flags rest) := rfl

theorem next_of_bare (bare : c ≠ '\\') :
    (Quoting.mk (some q) false).next c = ⟨if c == q then none else some q, false⟩ := by
  simp only [Quoting.next, Quoting.outside, beq_iff_eq, bare, Bool.false_eq_true, if_false]
  split <;> rfl

/-- The search for a closing bracket passes over the quoted characters and over no others. -/
theorem closingFrom_eq (stack : List Char) (quote : Option Char) (offset : Nat) (text : List Char) :
    closingFrom stack quote offset text =
      closingAmong stack offset (text.zip ((Quoting.mk quote false).flags text)) := by
  fun_induction closingFrom stack quote offset text with
  | case1 => rfl
  | case2 stack offset c q escape =>
    rfl
  | case3 stack offset c q escape d more ih =>
    obtain rfl := beq_iff_eq.mp escape
    rw [ih]
    rfl
  | case4 stack offset c rest q bare ih =>
    rw [zip_flags_within, next_of_bare (by simpa using bare), ih]
    rfl
  | case5 stack offset c rest quotes ih =>
    rw [zip_flags_quote quotes, ih]
    rfl
  | case6 stack offset c rest free closer opens ih =>
    rw [zip_flags_plain free, closingAmong.eq_def, ih]
    simp [opens]
  | case7 offset c rest free single closes =>
    rw [zip_flags_plain free, closingAmong.eq_def]
    simp [single, closes]
  | case8 offset c rest free single closes expected outer other =>
    rw [zip_flags_plain free, closingAmong.eq_def]
    simp [single, closes, bne_iff_ne.mp other]
  | case9 offset c rest free single closes expected outer same last =>
    rw [zip_flags_plain free, closingAmong.eq_def]
    simp [single, closes, same, last]
  | case10 offset c rest free single closes expected outer same more ih =>
    rw [zip_flags_plain free, closingAmong.eq_def, ih]
    simp [single, closes, same, more]
  | case11 stack offset c rest free single closes ih =>
    rw [zip_flags_plain free, closingAmong.eq_def, ih]
    simp [single, closes]

/-- The search for characters outside of brackets keeps the same track of quotes. -/
theorem outsideFrom_cons (state : Quoting) (depth : Nat) (c : Char) (rest : List Char) :
    outsideFrom state.quote state.escaped depth (c :: rest) =
      (!state.covers c && !isOpener c && !isCloser c && depth == 0) ::
        outsideFrom (state.next c).quote (state.next c).escaped
          (if state.covers c then depth
            else if isOpener c then depth + 1
            else if isCloser c then depth - 1
            else depth) rest := by
  obtain ⟨quote, escaped⟩ := state
  cases quote with
  | none =>
    by_cases quotes : isQuote c = true
    · simp [outsideFrom, Quoting.covers, Quoting.next, quotes]
    · by_cases opens : isOpener c = true
      · simp [outsideFrom, Quoting.covers, Quoting.next, Quoting.outside, quotes, opens]
      · by_cases closes : isCloser c = true <;>
          simp [outsideFrom, Quoting.covers, Quoting.next, Quoting.outside, quotes, opens, closes]
  | some q =>
    cases escaped with
    | true => simp [outsideFrom, Quoting.covers, Quoting.next]
    | false =>
      by_cases bare : c = '\\'
      · simp [outsideFrom, Quoting.covers, Quoting.next, bare]
      · simp [outsideFrom, Quoting.covers, next_of_bare bare, bare]

theorem outsideFrom_eq (state : Quoting) (depth : Nat) (text : List Char) :
    outsideFrom state.quote state.escaped depth text =
      outsideAmong depth (text.zip (state.flags text)) := by
  induction text generalizing state depth with
  | nil => rfl
  | cons c rest ih =>
    rw [outsideFrom_cons, ih, Quoting.flags, List.zip_cons_cons, outsideAmong]
    cases state.covers c <;> cases isOpener c <;> cases isCloser c <;> simp

theorem outsideAmong_of_quoted {depth : Nat} {pairs : List (Char × Bool)} {i : Nat}
    (quoted : pairs[i]? = some (c, true)) : (outsideAmong depth pairs)[i]? = some false := by
  induction pairs generalizing depth i with
  | nil => cases quoted
  | cons first rest ih =>
    obtain ⟨d, flag⟩ := first
    cases i with
    | zero =>
      obtain ⟨rfl, rfl⟩ := Prod.mk.inj (Option.some.inj quoted)
      rfl
    | succ i =>
      rw [outsideAmong]
      split
      · exact ih quoted
      · split
        · exact ih quoted
        · split <;> exact ih quoted

theorem drop_flags (state : Quoting) (text : List Char) (start : Nat) :
    (state.flags text).drop start = (state.after (text.take start)).flags (text.drop start) := by
  induction text generalizing state start with
  | nil => simp [Quoting.flags]
  | cons c rest ih =>
    cases start with
    | zero => rfl
    | succ start => exact ih (state.next c) start

/-- From a place outside of quotes on the text is read as if it began there. -/
theorem drop_marked {start : Nat} (closed : Closed text)
    (free : inside start (protectedIntervals text) = false) :
    (marked text).drop start =
      (text.drop start).zip ((Quoting.mk none false).flags (text.drop start)) := by
  rw [marked_eq closed, List.zip_eq_zipWith, List.drop_zipWith, ← List.zip_eq_zipWith, drop_flags]
  by_cases within : start < text.length
  · have flag := closed.quoted.getElem?_flags 0 within
    rw [Nat.zero_add, ← quotedRuns, ← protectedIntervals_of_closed closed, free] at flag
    have first := congrArg (·[0]?) (drop_flags Quoting.outside text start)
    obtain ⟨c, rest, shape⟩ := List.exists_cons_of_ne_nil
      (fun empty => absurd within (Nat.not_lt.mpr (List.drop_eq_nil_iff.mp empty)))
    rw [shape] at first ⊢
    simp only [List.getElem?_drop, Nat.add_zero, flag, Quoting.flags, List.getElem?_cons_zero,
      Option.some.injEq] at first
    generalize Quoting.outside.after (text.take start) = state at first ⊢
    obtain ⟨quote, escaped⟩ := state
    cases quote with
    | none => rfl
    | some q => cases first
  · rw [List.drop_eq_nil_of_le (Nat.le_of_not_lt within)]
    rfl

theorem getElem?_behind {pair other : Char × Bool} {pairs : List (Char × Bool)} {close : Nat}
    (found : offset + 1 ≤ close ∧ pairs[close - (offset + 1)]? = some pair) :
    offset ≤ close ∧ (other :: pairs)[close - offset]? = some pair := by
  have place : close - offset = close - (offset + 1) + 1 := by omega
  rw [place, List.getElem?_cons_succ]
  exact ⟨by omega, found.2⟩

/-- The bracket that is found is not quoted. -/
theorem exists_of_closingAmong {pairs : List (Char × Bool)} {close : Nat}
    (found : closingAmong stack offset pairs = some close) :
    ∃ c, offset ≤ close ∧ pairs[close - offset]? = some (c, false) := by
  fun_induction closingAmong stack offset pairs with
  | case1 | case4 | case5 => cases found
  | case6 offset c flag rest free single closes expected outer same last =>
    obtain rfl := Option.some.inj found
    exact ⟨c, Nat.le_refl _, by simpa using free⟩
  | case2 stack offset c rest ih =>
    exact (ih found).imp fun _ => getElem?_behind
  | case3 stack offset c flag rest free closer opens ih =>
    exact (ih found).imp fun _ => getElem?_behind
  | case7 offset c flag rest free single closes expected outer same more ih =>
    exact (ih found).imp fun _ => getElem?_behind
  | case8 stack offset c flag rest free single closes ih =>
    exact (ih found).imp fun _ => getElem?_behind

end Searches

/-- Where every quote is closed, the literals that are found are the parts from an opening quote to
its closing one, in order; the search for characters outside of brackets and, from any place outside
of these parts on, the search for a closing bracket take the characters of these parts and no others
for quoted. So neither a character that may separate nor a bracket that closes stands in a literal. -/
theorem quotes_are_seen_alike {text : List Char} (closed : Closed text) :
    scan .string text 0 [] = (quotedRuns text).map (literalAt text) ∧
    outside text = outsideAmong 0 (marked text) ∧
    (∀ start, inside start (protectedIntervals text) = false →
      closing? text start = closingAmong [] start ((marked text).drop start) ∧
      ∀ close, closing? text start = some close →
        inside close (protectedIntervals text) = false) ∧
    ∀ i < text.length, (outside text)[i]? = some true →
      inside i (protectedIntervals text) = false := by
  have depths : outside text = outsideAmong 0 (marked text) := by
    rw [marked_eq closed]
    exact outsideFrom_eq .outside 0 text
  refine ⟨scan_string closed, depths, fun start free => ?_, fun i within free => ?_⟩
  · have search : closing? text start = closingAmong [] start ((marked text).drop start) := by
      rw [drop_marked closed free]
      exact closingFrom_eq [] none start (text.drop start)
    refine ⟨search, fun close found => ?_⟩
    obtain ⟨c, behind, bracket⟩ := exists_of_closingAmong (search ▸ found)
    rw [List.getElem?_drop, Nat.add_sub_cancel' behind, getElem?_marked] at bracket
    obtain ⟨_, -, pair⟩ := Option.map_eq_some_iff.mp bracket
    exact (Prod.mk.inj pair).2
  · by_contra quoted
    rw [Bool.not_eq_false] at quoted
    have pair : (marked text)[i]? = some (text[i], true) := by
      rw [getElem?_marked, List.getElem?_eq_getElem within, quoted]
      rfl
    rw [depths, outsideAmong_of_quoted pair] at free
    cases free

/-- Brackets and the other kind of quotes inside of quotes, and a backslash before a quote. -/
theorem quotes_are_seen_alike_in_call :
    let text := ['f', '(', '\'', ')', '\\', '\'', '"', '\'', ',', '"', '[', '"', ')', '\\', 'x']
    Closed text ∧ quotedRuns text = [(2, 8), (9, 12)] ∧
      scan .string text 0 [] = [(2, 8), (9, 12)].map (literalAt text) ∧
      closing? text 1 = some 12 ∧ inside 12 (protectedIntervals text) = false := by
  intro text
  have closed : Closed text := by decide
  have runs : quotedRuns text = [(2, 8), (9, 12)] := by decide
  obtain ⟨literals, -, brackets, -⟩ := quotes_are_seen_alike closed
  have found : closing? text 1 = some 12 := by decide
  have free : inside 1 (protectedIntervals text) = false := by
    rw [protectedIntervals_of_closed closed, runs]
    decide
  exact ⟨closed, runs, runs ▸ literals, found, (brackets 1 free).2 12 found⟩

end Stencil.Markup
