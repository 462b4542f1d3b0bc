import Stencil.Proofs.Candidates

/-! Every element of a printed expression is found: no hit before it reaches into it, no string
covers its start, and no call or chain that starts before it spans it. -/
namespace Stencil.Markup
open Text

/-! ### Scans in two -/

section Scan

variable {matcher : Matcher} {category : Category}

theorem getLast_or_cons (c : Char) (text : List Char) (previous : Option Char) :
    (c :: text).getLast?.or previous = text.getLast?.or (some c) := by
  rw [List.getLast?_cons]
  cases text.getLast? <;> rfl

theorem scanFrom_skip (previous : Option Char) (offset : Nat) (passed rest : List Char) :
    scanFrom matcher category previous offset passed.length (passed ++ rest) =
      scanFrom matcher category (passed.getLast?.or previous) (offset + passed.length) 0 rest := by
  induction passed generalizing previous offset with
  | nil => rfl
  | cons c passed ih =>
    rw [List.length_cons, List.cons_append, scanFrom, ih, getLast_or_cons]
    congr 1
    omega

theorem scanFrom_of_hit {previous : Option Char} {word rest : List Char} {hit : Hit}
    (hits : matcher previous (word ++ rest) = some hit) (size : hit.size = word.length)
    (full : word ≠ []) (offset : Nat) :
    scanFrom matcher category previous offset 0 (word ++ rest) =
      hit.toMatch category (word ++ rest) offset ::
        scanFrom matcher category (word.getLast?.or previous) (offset + word.length) 0 rest := by
  obtain ⟨c, tail, rfl⟩ := List.exists_cons_of_ne_nil full
  have positive : (hit.size == 0) = false := by simp [size]
  have span : hit.size - 1 = tail.length := by simp [size]
  rw [List.cons_append] at hits ⊢
  rw [scanFrom, hits]
  simp only [positive, Bool.false_eq_true, if_false, span, scanFrom_skip, getLast_or_cons]
  congr 2
  rw [List.length_cons]
  omega

/-- Where no hit of the first text reaches out of it, the rest is scanned for itself. -/
theorem exists_scanFrom_append {first rest : List Char} {previous : Option Char} {skip : Nat}
    (within : ∀ u v hit, first = u ++ v → v ≠ [] →
      matcher (u.getLast?.or previous) (v ++ rest) = some hit → hit.size ≤ v.length)
    (less : skip ≤ first.length) (offset : Nat) :
    ∃ found, scanFrom matcher category previous offset skip (first ++ rest) =
      found ++ scanFrom matcher category (first.getLast?.or previous) (offset + first.length) 0
        rest := by
  -- `skip` characters are left of a hit that began before, which ends in the first text.
  induction first generalizing previous offset skip with
  | nil =>
    obtain rfl : skip = 0 := Nat.le_zero.mp less
    exact ⟨[], rfl⟩
  | cons c first ih =>
    have further {skip : Nat} (less : skip ≤ first.length) :
        ∃ found, scanFrom matcher category (some c) (offset + 1) skip (first ++ rest) =
          found ++ scanFrom matcher category ((c :: first).getLast?.or previous)
            (offset + (c :: first).length) 0 rest := by
      have inside : ∀ u v hit, first = u ++ v → v ≠ [] →
          matcher (u.getLast?.or (some c)) (v ++ rest) = some hit → hit.size ≤ v.length := by
        intro u v hit shape full hits
        refine within (c :: u) v hit (by rw [shape, List.cons_append]) full ?_
        rwa [getLast_or_cons]
      rw [getLast_or_cons, List.length_cons, Nat.add_comm first.length, ← Nat.add_assoc]
      exact ih inside less (offset + 1)
    rw [List.cons_append]
    cases skip with
    | succ more => exact further (Nat.le_of_succ_le_succ less)
    | zero =>
      rw [scanFrom]
      split
      · exact further (Nat.zero_le _)
      · rename_i hit hits
        split
        · exact further (Nat.zero_le _)
        · have reach := within [] (c :: first) hit rfl (by simp) hits
          rw [List.length_cons] at reach
          obtain ⟨found, same⟩ := further (Nat.sub_le_of_le_add reach)
          exact ⟨_ :: found, congrArg (List.cons _) same⟩

/-- A hit is found where no hit before it reaches it. -/
theorem mem_scanFrom_of_hit {first rest : List Char} {hit : Hit}
    (within : ∀ u v hit, first = u ++ v → v ≠ [] →
      matcher u.getLast? (v ++ rest) = some hit → hit.size ≤ v.length) (full : rest ≠ [])
    (hits : matcher first.getLast? rest = some hit) (positive : 0 < hit.size) :
    hit.toMatch category rest first.length ∈
      scanFrom matcher category none 0 0 (first ++ rest) := by
  have inside : ∀ u v hit, first = u ++ v → v ≠ [] →
      matcher (u.getLast?.or none) (v ++ rest) = some hit → hit.size ≤ v.length := by
    simpa only [Option.or_none] using within
  obtain ⟨found, same⟩ : ∃ found, scanFrom matcher category none 0 0 (first ++ rest) = found ++
      scanFrom matcher category (first.getLast?.or none) (0 + first.length) 0 rest :=
    exists_scanFrom_append inside (Nat.zero_le _) 0
  obtain ⟨c, text, rfl⟩ := List.exists_cons_of_ne_nil full
  have some : (hit.size == 0) = false := by
    rw [beq_eq_false_iff_ne]
    omega
  rw [same, Option.or_none, scanFrom, hits, Nat.zero_add]
  simp [some]

/-- Matches of a scan stand side by side. -/
theorem pairwise_scanFrom (previous : Option Char) (offset skip : Nat) (text : List Char) :
    (scanFrom matcher category previous offset skip text).Pairwise fun m n =>
      m.start < n.start ∧ m.stop ≤ n.start := by
  induction text generalizing previous offset skip with
  | nil => exact .nil
  | cons c rest ih =>
    cases skip with
    | succ more => exact ih _ _ _
    | zero =>
      rw [scanFrom]
      split
      · exact ih _ _ _
      · split
        · exact ih _ _ _
        · refine .cons ?_ (ih _ _ _)
          intro m later
          obtain ⟨before, -, -, -, -, skipped, -, -, rfl⟩ := mem_scanFrom later
          simp only [Hit.toMatch, Match.stop, List.length_take]
          omega

theorem pairwise_scan (text : List Char) (base : Nat) (exclude : List (Nat × Nat)) :
    (scan category text base exclude).Pairwise fun m n =>
      m.start < n.start ∧ m.stop ≤ n.start := by
  have starts : (scanFrom category.matcher category none 0 0 text).Pairwise fun m n =>
      m.start < n.start ∧ m.stop ≤ n.start := pairwise_scanFrom none 0 0 text
  rw [scan, scanWith, List.pairwise_map]
  refine (starts.filter _).imp ?_
  intro m n before
  simp only [Match.shift, Match.stop] at before ⊢
  omega

end Scan

/-- A match is kept where no match that starts before it spans its start. -/
theorem mem_outermost {build : Match → Option Match} {base reached : Nat} {heads : List Match}
    {head m : Match} (ascending : heads.Pairwise (·.start < ·.start)) (member : head ∈ heads)
    (built : build head = some m) (free : reached ≤ head.start)
    (clear : ∀ other ∈ heads, other.start < head.start → ∀ n, build other = some n →
      n.stop - base ≤ head.start) : m ∈ outermost build base reached heads := by
  induction heads generalizing reached with
  | nil => contradiction
  | cons first rest ih =>
    obtain ⟨earlier, later⟩ := List.pairwise_cons.mp ascending
    have others := fun other inside => clear other (List.mem_cons_of_mem first inside)
    rw [outermost]
    rcases List.mem_cons.mp member with rfl | inside
    · rw [if_neg (by omega), built]
      exact List.mem_cons_self
    · have before := earlier head inside
      split
      · exact ih later inside free others
      · split
        · exact ih later inside free others
        · rename_i n found
          have reach := clear first List.mem_cons_self before n found
          exact List.mem_cons_of_mem n (ih later inside reach others)

end Stencil.Markup

namespace Stencil.Notation
open Text Markup

/-! ### Strings -/

section Strings

variable {free : Char → Bool} {stack text : List Char}

theorem scanFrom_string_cons {c : Char} (quotes : isQuote c = false) (previous : Option Char)
    (offset : Nat) (rest : List Char) :
    scanFrom stringLiteral .string previous offset 0 (c :: rest) =
      scanFrom stringLiteral .string (some c) (offset + 1) 0 rest := by
  rw [scanFrom]
  simp [stringLiteral, quotes]

/-- The strings that a scan finds in the text before it goes on with the rest: they end in the
text, and what is outside of them closes what is open there. -/
structure FindsStrings (free : Char → Bool) (text rest : List Char) (previous : Option Char)
    (offset : Nat) (found : List Match) : Prop where
  scanned : ∃ last, scanFrom stringLiteral .string previous offset 0 (text ++ rest) =
    found ++ scanFrom stringLiteral .string last (offset + text.length) 0 rest
  within : ∀ literal ∈ found, literal.stop ≤ offset + text.length
  outside : ∀ u v, text = u ++ v → v ≠ [] →
    (∃ literal ∈ found, literal.start ≤ offset + u.length ∧ offset + u.length < literal.stop) ∨
      ∃ outer, Completes free outer v

theorem FindsStrings.cons {c : Char} {rest : List Char} {previous : Option Char} {offset : Nat}
    {found : List Match} (quotes : isQuote c = false) (whole : Completes free stack (c :: text))
    (later : FindsStrings free text rest (some c) (offset + 1) found) :
    FindsStrings free (c :: text) rest previous offset found := by
  have size : offset + (c :: text).length = offset + 1 + text.length := by
    rw [List.length_cons]
    omega
  constructor
  · obtain ⟨last, same⟩ := later.scanned
    exact ⟨last, by rw [List.cons_append, scanFrom_string_cons quotes, same, size]⟩
  · intro literal member
    rw [size]
    exact later.within literal member
  · intro u v split full
    cases u with
    | nil =>
      rw [List.nil_append] at split
      exact .inr ⟨stack, split ▸ whole⟩
    | cons d u =>
      obtain ⟨rfl, behind⟩ := List.cons.inj split
      have place : offset + (c :: u).length = offset + 1 + u.length := by
        rw [List.length_cons]
        omega
      rw [place]
      exact later.outside u v behind full

theorem FindsStrings.quoted {content rest : List Char} {previous : Option Char} {offset : Nat}
    {found : List Match} (complete : Completes free stack text)
    (later : FindsStrings free text rest ((quote content).getLast?.or previous)
      (offset + (quote content).length) found) :
    ∃ literal, FindsStrings free (quote content ++ text) rest previous offset
      (literal :: found) := by
  have hits : stringLiteral previous (quote content ++ (text ++ rest)) = _ :=
    stringLiteral_append content
  have full : quote content ≠ [] := by simp [quote]
  have first : scanFrom stringLiteral .string previous offset 0 (quote content ++ (text ++ rest)) =
      _ := scanFrom_of_hit hits rfl full offset
  have size : offset + (quote content ++ text).length =
      offset + (quote content).length + text.length := by
    rw [List.length_append]
    omega
  generalize named : Hit.toMatch _ Category.string _ offset = m at first
  have start : m.start = offset := by rw [← named]; rfl
  have stop : m.stop = offset + (quote content).length := by
    rw [← named]
    simp [Match.stop, Hit.toMatch]
  refine ⟨m, ?_, ?_, ?_⟩
  · obtain ⟨last, same⟩ := later.scanned
    exact ⟨last, by rw [List.append_assoc, first, same, size, List.cons_append]⟩
  · intro literal member
    rw [size]
    rcases List.mem_cons.mp member with rfl | inside
    · omega
    · exact later.within literal inside
  · intro u v split some
    -- A place within the literal is covered by it; any other lies in the text behind it.
    rcases List.append_eq_append_iff.mp split with ⟨w, front, back⟩ | ⟨w, front, back⟩
    · rcases later.outside w v back some with ⟨literal, inside, covers⟩ | outer
      · refine .inl ⟨literal, List.mem_cons_of_mem m inside, ?_⟩
        rw [front, List.length_append]
        omega
      · exact .inr outer
    · by_cases empty : w = []
      · subst empty
        rw [List.nil_append] at back
        exact .inr ⟨stack, back ▸ complete⟩
      · have positive := List.length_pos_iff.mpr empty
        have sizes := congrArg List.length front
        rw [List.length_append] at sizes
        exact .inl ⟨m, List.mem_cons_self, by omega, by omega⟩

theorem Completes.exists_strings (complete : Completes free stack text) (rest : List Char)
    (previous : Option Char) (offset : Nat) :
    ∃ found, FindsStrings free text rest previous offset found := by
  induction complete generalizing previous offset with
  | nil =>
    refine ⟨[], ⟨previous, rfl⟩, by simp, fun u v split full => absurd ?_ full⟩
    exact (List.append_eq_nil_iff.mp split.symm).2
  | @plain c _ _ plain apart later ih =>
    obtain ⟨quotes, -⟩ := isPlain_iff.mp plain
    obtain ⟨found, finds⟩ := ih (some c) (offset + 1)
    exact ⟨found, finds.cons quotes (.plain plain apart later)⟩
  | @opens c _ _ _ pair later ih =>
    obtain ⟨found, finds⟩ := ih (some c) (offset + 1)
    exact ⟨found, finds.cons (not_isQuote_of_closerOf pair) (.opens pair later)⟩
  | @closes c _ _ closing later ih =>
    have quotes : isQuote c = false := by
      rcases isCloser_cases closing with rfl | rfl <;> rfl
    obtain ⟨found, finds⟩ := ih (some c) (offset + 1)
    exact ⟨found, finds.cons quotes (.closes closing later)⟩
  | @quoted content stack text unclosed later ih =>
    obtain ⟨found, finds⟩ :=
      ih ((quote content).getLast?.or previous) (offset + (quote content).length)
    obtain ⟨literal, first⟩ := finds.quoted later
    exact ⟨literal :: found, first⟩

theorem scan_eq_scanFrom (category : Category) (text : List Char) :
    scan category text 0 [] = scanFrom category.matcher category none 0 0 text := by
  have all : (scanFrom category.matcher category none 0 0 text).filter
      (fun m => !inside m.start []) = scanFrom category.matcher category none 0 0 text :=
    List.filter_eq_self.mpr fun m _ => rfl
  have still : (fun m : Match => m.shift 0) = id := funext shift_zero
  rw [scan, scanWith, all, still, List.map_id]

theorem protectedIntervals_eq (text : List Char) :
    protectedIntervals text =
      (scanFrom stringLiteral .string none 0 0 text).map fun m => (m.start, m.stop) := by
  rw [protectedIntervals, scan_eq_scanFrom]
  rfl

/-- A place where no string starts is not protected if the text before it is complete. -/
theorem not_protected (complete : Completes free [] text) {c : Char} (quotes : isQuote c = false)
    (rest : List Char) : inside text.length (protectedIntervals (text ++ c :: rest)) = false := by
  obtain ⟨found, ⟨last, same⟩, within, -⟩ := complete.exists_strings (c :: rest) none 0
  rw [protectedIntervals_eq, same, scanFrom_string_cons quotes, inside, List.any_eq_false]
  intro interval member
  obtain ⟨m, inside, rfl⟩ := List.mem_map.mp member
  simp only [Bool.and_eq_true, decide_eq_true_eq, not_and]
  rcases List.mem_append.mp inside with front | back
  · have reach := within m front
    omega
  · obtain ⟨before, -, -, -, -, -, -, -, rfl⟩ := mem_scanFrom back
    simp only [Hit.toMatch]
    omega

/-- A place in a complete text is protected, or what is behind it closes what is open there. -/
theorem protected_or_completes (complete : Completes free [] text) {other : Char → Bool}
    {u v : List Char} (next : Completes other [] (u ++ v)) (full : v ≠ []) (rest : List Char) :
    inside (text.length + u.length) (protectedIntervals (text ++ ((u ++ v) ++ rest))) = true ∨
      ∃ outer, Completes other outer v := by
  obtain ⟨found, ⟨last, same⟩, -, -⟩ := complete.exists_strings ((u ++ v) ++ rest) none 0
  obtain ⟨more, ⟨final, rest'⟩, -, outside⟩ := next.exists_strings rest last (0 + text.length)
  rcases outside u v rfl full with ⟨literal, member, before, after⟩ | outer
  · refine .inl ?_
    rw [protectedIntervals_eq, same, rest', inside, List.any_eq_true]
    refine ⟨(literal.start, literal.stop), ?_, ?_⟩
    · exact List.mem_map_of_mem (List.mem_append_right _ (List.mem_append_left _ member))
    · simp only [Bool.and_eq_true, decide_eq_true_eq]
      omega
  · exact .inr outer

end Strings

/-! ### Reach -/

section Reach

variable {previous : Option Char} {rest : List Char} {category : Category} {hit : Hit}

/-- A word without blanks that starts before the stop ends before it. -/
theorem exists_of_solid {text word after : List Char} (stops : Stops rest)
    (shape : text ++ rest = word ++ after) (solid : ' ' ∉ word) :
    ∃ left, text = word ++ left ∧ after = left ++ rest := by
  rcases List.append_eq_append_iff.mp shape with ⟨z, front, back⟩ | ⟨z, front, back⟩
  · cases z with
    | nil => exact ⟨[], by simp [front], by simpa using back.symm⟩
    | cons c z =>
      rcases stops with rfl | ⟨more, rfl, -⟩
      · simp at back
      · rw [List.cons_append, List.cons.injEq] at back
        exact absurd (by simp [front, ← back.1]) solid
  · exact ⟨z, front, back⟩

theorem exists_of_cons {text tail : List Char} {c : Char} (stops : Stops rest)
    (shape : text ++ rest = c :: tail) (other : c ≠ ' ') :
    ∃ more, text = c :: more ∧ tail = more ++ rest := by
  have split : text ++ rest = [c] ++ tail := shape
  exact exists_of_solid stops split (by simpa using other.symm)

/-- A hit that starts in a part stays in it. -/
theorem hit_within_part (known : category ∈ Category.lexical) (string : category ≠ .string)
    {part : Part} (sits : part.Sits previous rest) {u v : List Char} (inside : part.text = u ++ v)
    (full : v ≠ []) (hits : category.matcher (u.getLast?.or previous) (v ++ rest) = some hit) :
    hit.size ≤ v.length := by
  obtain ⟨c, text, rfl⟩ := List.exists_cons_of_ne_nil full
  have begins := starts_of_hit known hits
  cases part with
  | blank =>
    rw [not_starts_blank known inside] at begins
    contradiction
  | mark op =>
    have member : c ∈ op.symbol.toList := by
      rw [show op.symbol.toList = u ++ c :: text from inside]
      simp
    obtain rfl := category_of_sign known member begins
    by_cases left : u = []
    · subst left
      have own : operatorSign previous (op.symbol.toList ++ rest) = _ := operatorSign_append sits
      rw [show op.symbol.toList = c :: text from inside] at own
      obtain rfl := Option.some.inj (own.symm.trans hits)
      exact Nat.le_refl _
    · have sign : operatorSign (u.getLast?.or previous) (c :: text ++ rest) = some hit := hits
      rw [not_operatorSign_inside inside left full sits] at sign
      contradiction
  | atom a =>
    by_cases call : category = .function
    · subst call
      obtain ⟨name, blanks, after, shape, valid, -, blank, rfl⟩ := hit_of_callHead hits
      obtain ⟨inner, same⟩ := call_within sits.2 valid blank shape
      rw [same]
      simp only [List.length_append, List.length_cons]
      omega
    · obtain ⟨word, after, shape, size, solid⟩ := solid_of_hit known hits string call
      obtain ⟨left, same, -⟩ := exists_of_solid sits.2 shape solid
      rw [← size, same, List.length_append]
      omega

end Reach

/-! ### Growth -/

section Growth

variable {free : Char → Bool} {stack rest : List Char}

/-- The bracket that opens a text is closed inside it. -/
theorem Completes.exists_bracket {opener closer : Char} {inner : List Char}
    (complete : Completes free stack (opener :: inner)) (pair : closerOf? opener = some closer)
    (offset : Nat) : ∃ inside after, inner = inside ++ closer :: after ∧
      Completes free stack after ∧ ∀ rest, closingFrom [] none offset (opener :: (inner ++ rest)) =
        some (offset + 1 + inside.length) := by
  have opened : Completes free ([] ++ closer :: stack) inner := complete.behind_opener pair
  obtain ⟨inside, after, split, later, found⟩ := opened.exists_closingFrom (offset + 1)
  refine ⟨inside, after, split, later, fun rest => ?_⟩
  rw [closingFrom_opens pair]
  exact found rest

/-- A call that grows inside a text that closes what it opens stays inside. -/
theorem callMatch_within {previous : Option Char} (stops : Stops rest) {before text : List Char}
    {base : Nat} {hit : Hit} {m : Match} (complete : Completes free stack text)
    (hits : callHead previous (text ++ rest) = some hit)
    (grown : callMatch? (before ++ (text ++ rest)) base
      (hit.toMatch .function (text ++ rest) before.length) = some m) :
    m.stop ≤ base + (before ++ text).length := by
  obtain ⟨name, blanks, after, shape, valid, -, blank, rfl⟩ := hit_of_callHead hits
  obtain ⟨inner, rfl⟩ := call_within stops valid blank shape
  have behind := (complete.behind_plain fun c member =>
    isPlain_of_isNamePart (isWord_of_isName valid c member)).behind_plain fun c member =>
    isPlain_of_isBlank (blank c member)
  generalize named : Hit.toMatch _ Category.function _ before.length = head at grown
  have start : head.start = before.length := by rw [← named]; rfl
  have place : head.stop - 1 = (before ++ (name ++ blanks)).length := by
    rw [← named]
    simp only [Match.stop, Hit.toMatch, List.length_take, List.length_append, List.length_cons]
    omega
  obtain ⟨inside, left, split, -, closes⟩ := behind.exists_bracket rfl (head.stop - 1)
  have whole : before ++ (name ++ (blanks ++ '(' :: inner) ++ rest) =
      (before ++ (name ++ blanks)) ++ '(' :: (inner ++ rest) := by simp
  have close : closing? (before ++ (name ++ (blanks ++ '(' :: inner) ++ rest)) (head.stop - 1) =
      some (head.stop - 1 + 1 + inside.length) := by
    rw [closing?, whole]
    conv_lhs => arg 4; rw [place]
    rw [List.drop_left]
    exact closes rest
  rw [callMatch?, close] at grown
  simp only [Option.bind_eq_bind, Option.bind_some, Option.pure_def, Option.some.injEq] at grown
  rw [List.length_append, List.length_append] at place
  rw [← grown, Match.stop]
  simp only [List.length_take, split, List.length_append, List.length_cons]
  omega

/-- A chain that grows inside a text that closes what it opens ends inside. -/
theorem segmentsFrom_within (stops : Stops rest) (base fuel offset : Nat) {text : List Char}
    (complete : Completes free stack text) :
    (segmentsFrom base fuel offset (text ++ rest)).2 ≤ offset + text.length := by
  induction fuel generalizing offset stack text with
  | zero => simp [segmentsFrom]
  | succ fuel ih =>
    unfold segmentsFrom
    split
    · rename_i found shape
      obtain ⟨rfl, rfl, rfl⟩ := found
      obtain ⟨more, rfl, rfl⟩ := exists_of_cons stops shape (by decide)
      dsimp only
      split
      · simp
      · rename_i some
        obtain ⟨name, after, split, leads, valid⟩ :=
          eq_append_of_leadingName (more ++ rest) (by simpa using some)
        obtain ⟨left, rfl, -⟩ := exists_of_solid stops split (not_mem_of_isName valid rfl)
        have point : ∀ c ∈ ['.'], isPlain c = true := by simp; decide
        have behind := (complete.behind_plain point).behind_plain fun c member =>
          isPlain_of_isNamePart (isWord_of_isName valid c member)
        rw [leads, List.append_assoc, List.drop_left]
        refine Nat.le_trans (ih _ behind) ?_
        simp only [List.length_cons, List.length_append]
        omega
    · rename_i found shape
      obtain ⟨rfl, rfl, rfl⟩ := found
      obtain ⟨more, rfl, rfl⟩ := exists_of_cons stops shape (by decide)
      obtain ⟨inside, after, rfl, later, closes⟩ := complete.exists_bracket rfl 0
      have left : (inside ++ ']' :: after ++ rest).drop (0 + 1 + inside.length) = after ++ rest := by
        rw [Nat.zero_add, Nat.add_comm, ← List.drop_drop, List.append_assoc, List.drop_left]
        rfl
      rw [closes]
      dsimp only
      rw [left]
      refine Nat.le_trans (ih _ later) ?_
      simp only [List.length_cons, List.length_append]
      omega
    · simp

theorem pathMatch_within {previous : Option Char} (stops : Stops rest) {before text : List Char}
    {base : Nat} {hit : Hit} {m : Match} (complete : Completes free stack text)
    (hits : pathHead previous (text ++ rest) = some hit)
    (grown : pathMatch? (before ++ (text ++ rest)) base
      (hit.toMatch .accessor (text ++ rest) before.length) = some m) :
    m.stop ≤ base + (before ++ text).length := by
  obtain ⟨name, d, after, shape, valid, -, -, rfl⟩ := hit_of_pathHead hits
  obtain ⟨left, rfl, -⟩ := exists_of_solid stops shape (not_mem_of_isName valid rfl)
  have behind := complete.behind_plain fun c member =>
    isPlain_of_isNamePart (isWord_of_isName valid c member)
  generalize named : Hit.toMatch _ Category.accessor _ before.length = head at grown
  have start : head.start = before.length := by rw [← named]; rfl
  have stop : head.stop = before.length + name.length := by
    rw [← named]
    simp [Match.stop, Hit.toMatch]
  have tail : (before ++ (name ++ left ++ rest)).drop head.stop = left ++ rest := by
    rw [stop, ← List.drop_drop, List.drop_left, List.append_assoc, List.drop_left]
  have reach := segmentsFrom_within stops base (left ++ rest).length head.stop behind
  obtain ⟨segments, stop, walk, -, rfl⟩ := exists_of_pathMatch grown
  rw [tail] at walk
  rw [walk] at reach
  rw [Match.stop]
  simp only [List.length_take, List.length_append]
  omega

/-- What grows from a head in a part, outside of strings, stays in the part. -/
theorem grown_within_part {category : Category} (kind : category = .function ∨ category = .accessor)
    {previous : Option Char} {part : Part} (sits : part.Sits previous rest) {u v before : List Char}
    (inside : part.text = u ++ v) (full : v ≠ []) {hit : Hit}
    (hits : category.matcher (u.getLast?.or previous) (v ++ rest) = some hit)
    (complete : Completes isUnseparated [] before)
    (clear : Markup.inside (before.length + u.length)
      (protectedIntervals (before ++ ((u ++ v) ++ rest))) = false) {base : Nat} {m : Match}
    (grown : grow (before ++ ((u ++ v) ++ rest)) base
      (hit.toMatch category (v ++ rest) (before.length + u.length)) = some m) :
    m.stop ≤ base + (before.length + part.text.length) := by
  have known : category ∈ Category.lexical := by
    rcases kind with rfl | rfl <;> simp [Category.lexical]
  obtain ⟨c, text, rfl⟩ := List.exists_cons_of_ne_nil full
  have begins := starts_of_hit known hits
  cases part with
  | blank =>
    have blank := not_starts_blank known inside
    rw [blank] at begins
    contradiction
  | mark op =>
    have member : c ∈ op.symbol.toList := by
      rw [show op.symbol.toList = u ++ c :: text from inside]
      simp
    have sign := category_of_sign known member begins
    rcases kind with rfl | rfl <;> contradiction
  | atom a =>
    have next : Completes isUnbarred [] (u ++ c :: text) := inside ▸ a.complete
    have outer : ∃ outer, Completes isUnbarred outer (c :: text) := by
      rcases protected_or_completes complete next full rest with covered | outer
      · rw [covered] at clear
        contradiction
      · exact outer
    obtain ⟨outer, behind⟩ := outer
    have assoc : before ++ ((u ++ c :: text) ++ rest) = (before ++ u) ++ (c :: text ++ rest) := by
      simp
    rw [assoc, ← List.length_append] at grown
    rw [inside, ← List.length_append, ← List.append_assoc]
    rcases kind with rfl | rfl
    · exact callMatch_within sits.2 behind hits grown
    · exact pathMatch_within sits.2 behind hits grown

end Growth

/-! ### Elements are found -/

theorem Part.complete (part : Part) : Completes isUnseparated [] part.text := by
  cases part with
  | blank => exact .plain rfl (fun _ => rfl) .nil
  | mark op =>
    refine .of_plain fun c member => ?_
    obtain ⟨plain, comma, colon⟩ := Operator.isPlain_of_mem_symbol member
    exact ⟨plain, by simp [isUnseparated, comma, colon]⟩
  | atom a => exact a.complete.mono fun _ => isUnseparated_of_isUnbarred

theorem textOf_complete (parts : List Part) : Completes isUnseparated [] (textOf parts) := by
  induction parts with
  | nil => exact .nil
  | cons part rest ih => exact part.complete.and_then ih

section Elements

variable {before after : List Part} {part : Part} {base : Nat} {e : Match}

/-- A place before a part lies in one of the parts before it, and these parts are laid out. -/
theorem exists_part_before (laid : Laid none (before ++ part :: after)) {x z : List Char}
    (split : textOf before = x ++ z) (full : z ≠ []) :
    ∃ earlier, ∃ inner : Part, ∃ between u v, inner.text = u ++ v ∧ v ≠ [] ∧ x = textOf earlier ++ u ∧
      z = v ++ textOf between ∧
      inner.Sits (textOf earlier).getLast? (textOf (between ++ part :: after)) ∧
      textOf before = textOf earlier ++ (inner.text ++ textOf between) := by
  obtain ⟨earlier, inner, between, u, v, rfl, inside, some, left, right⟩ := exists_part split full
  rw [List.append_assoc, List.cons_append] at laid
  have sits := sits_of_laid laid
  rw [Option.or_none] at sits
  exact ⟨earlier, inner, between, u, v, inside, some, left, right, sits, by simp⟩

/-- The head of an element is scanned. -/
theorem mem_scanFrom_of_element (laid : Laid none (before ++ part :: after)) {category : Category}
    (known : category ∈ Category.lexical) (string : category ≠ .string) {hit : Hit}
    (hits : category.matcher (textOf before).getLast? (part.text ++ textOf after) = some hit)
    (positive : 0 < hit.size) (full : part.text ≠ []) :
    hit.toMatch category (part.text ++ textOf after) (textOf before).length ∈
      scanFrom category.matcher category none 0 0 (textOf (before ++ part :: after)) := by
  rw [textOf_append, textOf_cons]
  refine mem_scanFrom_of_hit ?_ (by simp [full]) hits positive
  intro x z other split some hits
  obtain ⟨front, inner, between, u, v, inside, right, rfl, rfl, sits, -⟩ :=
    exists_part_before laid split some
  rw [List.getLast?_append, List.append_assoc] at hits
  have reach := hit_within_part known string sits inside right (by simpa using hits)
  rw [List.length_append]
  omega

theorem not_quote_of_starts {category : Category} (known : category ∈ Category.lexical)
    (string : category ≠ .string) {c : Char} (begins : category.starts c = true) :
    isQuote c = false := by
  rw [← Bool.not_eq_true]
  intro quotes
  have each : ∀ category ∈ Category.lexical, category ≠ .string →
      category.starts '\'' = false ∧ category.starts '"' = false := by decide
  obtain ⟨single, double⟩ := each category known string
  have marks : c = '\'' ∨ c = '"' := by simpa [isQuote] using quotes
  rcases marks with rfl | rfl
  · rw [single] at begins
    contradiction
  · rw [double] at begins
    contradiction

theorem mem_scan_of_mem_scanFrom {category : Category} {text : List Char}
    {exclude : List (Nat × Nat)} {m : Match}
    (found : m ∈ scanFrom category.matcher category none 0 0 text)
    (clear : inside m.start exclude = false) (base : Nat) :
    m.shift base ∈ scan category text base exclude := by
  rw [scan, scanWith]
  exact List.mem_map_of_mem (List.mem_filter.mpr ⟨found, by rw [clear]; rfl⟩)

theorem element_mem_scan_string (before : List Part) (base : Nat) {hit : Hit} {c : Char} {more : List Char}
    (shape : part.text ++ textOf after = c :: more)
    (hits : stringLiteral none (c :: more) = some hit) (positive : 0 < hit.size) :
    (hit.toMatch .string (c :: more) (textOf before).length).shift base ∈
      scan .string (textOf (before ++ part :: after)) base [] := by
  obtain ⟨found, ⟨last, same⟩, -, -⟩ := (textOf_complete before).exists_strings (c :: more) none 0
  have some : (hit.size == 0) = false := by
    rw [beq_eq_false_iff_ne]
    omega
  have first : stringLiteral last (c :: more) = Option.some hit := hits
  refine mem_scan_of_mem_scanFrom ?_ rfl base
  rw [textOf_append, textOf_cons, shape]
  simp only [Category.matcher]
  rw [same, scanFrom, first, Nat.zero_add]
  simp [some]

/-- What grows from a head before a part ends before it. -/
theorem grown_before (laid : Laid none (before ++ part :: after)) {category : Category}
    (kind : category = .function ∨ category = .accessor) {head m : Match}
    (found : head ∈ scan category (textOf before ++ (part.text ++ textOf after)) 0
      (protectedIntervals (textOf before ++ (part.text ++ textOf after))))
    (earlier : head.start < (textOf before).length)
    (grown : grow (textOf before ++ (part.text ++ textOf after)) base head = some m) :
    m.stop - base ≤ (textOf before).length := by
  obtain ⟨x, y, hit, shape, full, hits, -, clear, rfl⟩ := exists_hit_of_mem_scan found
  rw [shift_zero] at earlier grown
  obtain ⟨z, split, some, rest⟩ : ∃ z, textOf before = x ++ z ∧ z ≠ [] ∧
      y = z ++ (part.text ++ textOf after) := by
    have short : x.length < (textOf before).length := earlier
    obtain ⟨z, same⟩ : x <+: textOf before :=
      List.prefix_of_prefix_length_le ⟨y, shape.symm⟩ ⟨_, rfl⟩ (by omega)
    refine ⟨z, same.symm, ?_, ?_⟩
    · rintro rfl
      rw [← same, List.append_nil] at short
      omega
    · rw [← same, List.append_assoc] at shape
      exact (List.append_cancel_left shape).symm
  obtain ⟨front, inner, between, u, v, inside, right, rfl, rfl, sits, whole⟩ :=
    exists_part_before laid split some
  have text : textOf before ++ (part.text ++ textOf after) =
      textOf front ++ ((u ++ v) ++ textOf (between ++ part :: after)) := by
    rw [whole, ← inside]
    simp
  have behind : y = v ++ textOf (between ++ part :: after) := by
    rw [rest]
    simp
  rw [behind, List.getLast?_append] at hits
  rw [text, behind, List.length_append] at grown
  rw [text, List.length_append] at clear
  have reach := grown_within_part kind sits inside right hits (textOf_complete front) clear grown
  rw [whole, List.length_append, List.length_append]
  omega

theorem element_mem_elements (laid : Laid none (before ++ part :: after))
    (element : part.element? (base + (textOf before).length) = some e) :
    e ∈ elements (textOf (before ++ part :: after)) base := by
  have sits := sits_of_laid laid
  rw [Option.or_none] at sits
  obtain ⟨hit, hits, positive, grown⟩ := leadsTo_of_element sits element
  have known := category_of_element element
  have full := part.nonempty
  obtain ⟨c, more, shape⟩ : ∃ c more, part.text ++ textOf after = c :: more :=
    List.exists_cons_of_ne_nil (by simp [full])
  simp only [elements, List.mem_append, List.mem_mergeSort]
  -- Strings are scanned for first; everything else has to start outside of those found.
  by_cases string : e.category = .string
  · rw [string, shape] at hits grown
    have found := element_mem_scan_string before base shape hits positive
    rw [show _ = e from Option.some.inj grown] at found
    exact .inl (.inl (.inl found))
  · have found := mem_scanFrom_of_element laid known string hits positive full
    have quotes := not_quote_of_starts known string (starts_of_hit known (shape ▸ hits))
    have clear : inside (textOf before).length
        (protectedIntervals (textOf (before ++ part :: after))) = false := by
      rw [textOf_append, textOf_cons, shape]
      exact not_protected (textOf_complete before) quotes more
    have heads := mem_scan_of_mem_scanFrom found clear
    rw [textOf_append, textOf_cons] at heads ⊢
    by_cases call : e.category = .function
    · rw [call] at heads grown
      have head := heads 0
      rw [shift_zero] at head
      refine .inl (.inl (.inr ?_))
      refine mem_outermost ((pairwise_scan _ _ _).imp And.left) head grown (Nat.zero_le _) ?_
      intro other member earlier n built
      have kind := category_of_mem_scan member
      exact grown_before laid (.inl rfl) member earlier (by simp only [grow, kind, built])
    · by_cases path : e.category = .accessor
      · rw [path] at heads grown
        have head := heads 0
        rw [shift_zero] at head
        refine .inl (.inr ?_)
        refine mem_outermost ((pairwise_scan _ _ _).imp And.left) head grown (Nat.zero_le _) ?_
        intro other member earlier n built
        have kind := category_of_mem_scan member
        exact grown_before laid (.inr rfl) member earlier (by simp only [grow, kind, built])
      · refine .inr (List.mem_flatMap.mpr ⟨e.category, ?_, ?_⟩)
        · simpa [Category.lexical, string, call, path] using known
        · generalize named : hit.toMatch e.category (part.text ++ textOf after)
            (textOf before).length = head at heads grown
          have kind : head.category = e.category := by rw [← named]; rfl
          rw [grow_of_plain (by rwa [kind]) (by rwa [kind])] at grown
          have member := heads base
          rwa [Option.some.inj grown] at member

end Elements

end Stencil.Notation
