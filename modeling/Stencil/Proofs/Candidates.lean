import Stencil.Proofs.Parts
import Stencil.Proofs.Scanning

/-! The candidates for the elements of a printed expression: each stands in one of the parts, and is
the element of that part or has to give way to it. -/
namespace Stencil.Markup

/-- The order in which the categories claim their places. -/
def Category.rank : Category → Nat
  | .string | .function | .accessor => 0
  | .keywordLiteral => 1
  | .number => 2
  | .operator => 3
  | _ => 4

/-- The first match claims its place before the second. -/
def Precedes (m n : Match) : Prop :=
  m.category.rank < n.category.rank ∨
    m.category.rank = 0 ∧ n.category.rank = 0 ∧ m.start < n.start

end Stencil.Markup

namespace Stencil.Notation
open Text Markup

/-- The match grows from a hit in the text. -/
def IsCandidate (text : List Char) (base : Nat) (m : Match) : Prop :=
  ∃ category ∈ Category.lexical, ∃ x y hit, text = x ++ y ∧ y ≠ [] ∧
    category.matcher x.getLast? y = some hit ∧ hit.size ≠ 0 ∧
    grow text base (hit.toMatch category y x.length) = some m

/-! ### Where candidates come from -/

section Sources

variable {text : List Char} {base : Nat} {exclude : List (Nat × Nat)} {m : Match}

theorem shift_zero (m : Match) : m.shift 0 = m := by
  obtain ⟨category, text, start, detail⟩ := m
  cases detail <;> simp [Match.shift, Piece.shiftAll, Piece.shift]

theorem exists_hit_of_mem_scan {category : Category} (found : m ∈ scan category text base exclude) :
    ∃ x y hit, text = x ++ y ∧ y ≠ [] ∧ category.matcher x.getLast? y = some hit ∧
      hit.size ≠ 0 ∧ inside x.length exclude = false ∧ m = (hit.toMatch category y x.length).shift base := by
  simp only [scan, scanWith, List.mem_map, List.mem_filter] at found
  obtain ⟨n, ⟨member, clear⟩, rfl⟩ := found
  obtain ⟨x, y, hit, split, full, -, hits, size, rfl⟩ := mem_scanFrom member
  refine ⟨x, y, hit, split, full, by simpa using hits, size, ?_, by simp⟩
  simpa [Hit.toMatch] using clear

theorem category_of_mem_scan {category : Category} (found : m ∈ scan category text base exclude) :
    m.category = category := by
  obtain ⟨x, y, hit, -, -, -, -, -, rfl⟩ := exists_hit_of_mem_scan found
  rfl

theorem grow_of_plain {head : Match} (call : head.category ≠ .function)
    (path : head.category ≠ .accessor) : grow text base head = some (head.shift base) := by
  unfold grow
  split
  · contradiction
  · contradiction
  · rfl

theorem mem_of_mem_outermost {build : Match → Option Match} {reached : Nat} {heads : List Match}
    (found : m ∈ outermost build base reached heads) : ∃ head ∈ heads, build head = some m := by
  induction heads generalizing reached with
  | nil => simp [outermost] at found
  | cons head rest ih =>
    rw [outermost] at found
    split at found
    · obtain ⟨other, member, built⟩ := ih found
      exact ⟨other, List.mem_cons_of_mem head member, built⟩
    · split at found
      · obtain ⟨other, member, built⟩ := ih found
        exact ⟨other, List.mem_cons_of_mem head member, built⟩
      · rename_i n built
        rcases List.mem_cons.mp found with rfl | later
        · exact ⟨head, List.mem_cons_self, built⟩
        · obtain ⟨other, member, built⟩ := ih later
          exact ⟨other, List.mem_cons_of_mem head member, built⟩

/-- A call reaches to the parenthesis that closes it. -/
theorem exists_of_callMatch {head : Match} (built : callMatch? text base head = some m) :
    ∃ close, closing? text (head.stop - 1) = some close ∧
      m = ⟨.function, (text.drop head.start).take (close + 1 - head.start), base + head.start,
        .call (head.capture 0) ((text.drop (head.stop - 1 + 1)).take (close - (head.stop - 1) - 1))
          (arguments ',' ((text.drop (head.stop - 1 + 1)).take (close - (head.stop - 1) - 1))
            (base + (head.stop - 1) + 1))⟩ := by
  simp only [callMatch?, Option.bind_eq_bind, Option.bind_eq_some_iff, Option.pure_def,
    Option.some.injEq] at built
  obtain ⟨close, closed, rfl⟩ := built
  exact ⟨close, closed, rfl⟩

/-- A chain reaches over its steps, of which there is one at least. -/
theorem exists_of_pathMatch {head : Match} (built : pathMatch? text base head = some m) :
    ∃ segments stop, segmentsFrom base (text.drop head.stop).length head.stop
        (text.drop head.stop) = (segments, stop) ∧ segments ≠ [] ∧
      m = ⟨.accessor, (text.drop head.start).take (stop - head.start), base + head.start,
        .path (head.capture 0) segments⟩ := by
  unfold pathMatch? at built
  dsimp only at built
  rw [Option.ite_none_left_eq_some] at built
  exact ⟨_, _, rfl, by simpa using built.1, (Option.some.inj built.2).symm⟩

theorem isCandidate_of_mem_scan {category : Category} (known : category ∈ Category.lexical)
    (call : category ≠ .function) (path : category ≠ .accessor)
    (found : m ∈ scan category text base exclude) : IsCandidate text base m := by
  obtain ⟨x, y, hit, split, full, hits, size, -, rfl⟩ := exists_hit_of_mem_scan found
  exact ⟨category, known, x, y, hit, split, full, hits, size, grow_of_plain call path⟩

/-- An element is a match by itself, a call or a chain. -/
theorem mem_elements_cases (found : m ∈ elements text base) :
    (∃ category ∈ Category.lexical, category ≠ .function ∧ category ≠ .accessor ∧
      ∃ exclude, m ∈ scan category text base exclude) ∨
    m ∈ calls text base (protectedIntervals text) ∨
    m ∈ paths text base (protectedIntervals text) := by
  simp only [elements, List.mem_append, List.mem_mergeSort, List.mem_flatMap] at found
  rcases found with ((found | found) | found) | ⟨category, member, found⟩
  · exact .inl ⟨.string, by simp [Category.lexical], by simp, by simp, _, found⟩
  · exact .inr (.inl found)
  · exact .inr (.inr found)
  · simp only [List.mem_cons, List.not_mem_nil, or_false] at member
    rcases member with rfl | rfl | rfl | rfl <;>
      exact .inl ⟨_, by simp [Category.lexical], by simp, by simp, _, found⟩

theorem isCandidate_of_mem_elements (found : m ∈ elements text base) : IsCandidate text base m := by
  rcases mem_elements_cases found with ⟨category, known, call, path, _, found⟩ | found | found
  · exact isCandidate_of_mem_scan known call path found
  · obtain ⟨head, member, built⟩ := mem_of_mem_outermost found
    obtain ⟨x, y, hit, split, full, hits, size, -, rfl⟩ := exists_hit_of_mem_scan member
    rw [shift_zero] at built
    exact ⟨.function, by simp [Category.lexical], x, y, hit, split, full, hits, size, built⟩
  · obtain ⟨head, member, built⟩ := mem_of_mem_outermost found
    obtain ⟨x, y, hit, split, full, hits, size, -, rfl⟩ := exists_hit_of_mem_scan member
    rw [shift_zero] at built
    exact ⟨.accessor, by simp [Category.lexical], x, y, hit, split, full, hits, size, built⟩

theorem start_of_grow {head : Match} (grown : grow text base head = some m) :
    m.category = head.category ∧ m.start = base + head.start := by
  unfold grow at grown
  split at grown
  · rename_i category
    obtain ⟨close, -, rfl⟩ := exists_of_callMatch grown
    exact ⟨category.symm, rfl⟩
  · rename_i category
    obtain ⟨segments, stop, -, -, rfl⟩ := exists_of_pathMatch grown
    exact ⟨category.symm, rfl⟩
  · rw [← Option.some.inj grown]
    exact ⟨rfl, rfl⟩

theorem nonempty_of_isCandidate (candidate : IsCandidate text base m) (rank : m.category.rank ≠ 0) :
    m.start < m.stop := by
  obtain ⟨category, -, x, y, hit, -, full, -, size, grown⟩ := candidate
  have same : m.category = category := (start_of_grow grown).1
  rw [same] at rank
  rw [grow_of_plain (by rintro rfl; contradiction) (by rintro rfl; contradiction)] at grown
  obtain rfl := Option.some.inj grown
  have positive := List.length_pos_iff.mpr full
  simp only [Match.shift, Match.stop, Hit.toMatch, List.length_take]
  omega

end Sources

/-! ### What hits where -/

section Ranks

variable {category : Category} {previous : Option Char} {word rest : List Char} {hit : Hit}

/-- Neither a string nor a call nor a chain starts at a word. -/
theorem rank_ne_zero_of_word (known : category ∈ Category.lexical) (valid : IsWord word)
    (full : word ≠ []) (stops : Stops rest)
    (hits : category.matcher previous (word ++ rest) = some hit) : category.rank ≠ 0 := by
  intro rank
  have outside {d : Char} (mark : isNamePart d = false) : d ∉ word := by
    intro member
    rw [valid d member] at mark
    contradiction
  cases known using Category.lexical_cases with simp only [Category.matcher] at hits
  | string =>
    obtain ⟨c, more, shape, quotes⟩ := hit_of_stringLiteral hits
    obtain ⟨d, text, rfl⟩ := List.exists_cons_of_ne_nil full
    have plain := isPlain_of_isNamePart (valid d (by simp))
    rw [(List.cons.inj shape).1] at plain
    simp [isPlain, quotes] at plain
  | function =>
    obtain ⟨name, blanks, after, shape, name', -, blank, -⟩ := hit_of_callHead hits
    obtain ⟨inner, same⟩ := call_within stops name' blank shape
    exact outside (d := '(') rfl (by simp [same])
  | accessor =>
    obtain ⟨name, c, after, shape, name', -, mark, -⟩ := hit_of_pathHead hits
    rcases List.append_eq_append_iff.mp shape with ⟨z, front, back⟩ | ⟨z, front, back⟩
    · rcases stops with rfl | ⟨more, rfl, -⟩
      · simp at back
      · cases z with
        | nil => rcases mark with rfl | rfl <;> simp at back
        | cons d z =>
          rw [List.cons_append, List.cons.injEq] at back
          have member : ' ' ∈ name := by simp [front, ← back.1]
          exact not_mem_of_isName name' rfl member
    · cases z with
      | nil =>
        rcases stops with rfl | ⟨more, rfl, -⟩
        · simp at back
        · rcases mark with rfl | rfl <;> simp at back
      | cons d z =>
        rw [List.cons_append, List.cons.injEq] at back
        rw [← back.1] at front
        rcases mark with rfl | rfl
        · exact outside (d := '[') rfl (by simp [front])
        · exact outside (d := '.') rfl (by simp [front])
  | keywordLiteral | number | operator | identifier => contradiction

theorem not_starts_of_name {c : Char} {text after : List Char} (name : Name)
    (shape : c :: text = name.text ++ after) :
    Category.string.starts c = false ∧ Category.number.starts c = false ∧
      Category.operator.starts c = false := by
  have start := starts_of_isName name.valid shape
  exact ascii_forall (p := fun c => isNameStart c = true → Category.string.starts c = false ∧
    Category.number.starts c = false ∧ Category.operator.starts c = false)
    (by decide +kernel) c (ascii_of_isNameStart start) start

theorem keywordLiteral_name {name : Name} (free : name.text ∉ reserved) (stops : Stops rest) :
    keywordLiteral previous (name.text ++ rest) = none := by
  rw [Option.eq_none_iff_forall_ne_some]
  intro hit hits
  obtain ⟨word, after, -, leads, member, -⟩ := hit_of_keywordLiteral hits
  rw [takeWhile_append_of_stop (isWord_of_isName name.valid) (stops.head rfl)] at leads
  rw [leads] at member
  exact free member

theorem callHead_path (base : Name) (step : Step) (steps : List Step) :
    callHead previous ((Atom.path base step steps).print ++ rest) = none := by
  rw [Option.eq_none_iff_forall_ne_some]
  intro hit hits
  obtain ⟨name, blanks, after, shape, -, leads, blank, -⟩ := hit_of_callHead hits
  obtain ⟨d, more, mark, chain⟩ := step.print_cons
  rw [Atom.print, mark, List.append_assoc, List.cons_append, List.cons_append] at shape leads
  have halts : isNamePart d = false := by rcases chain with rfl | rfl <;> decide
  rw [leadingName_append base.valid (by simpa using halts)] at leads
  rw [← leads, List.append_cancel_left_eq] at shape
  cases blanks with
  | nil => rcases chain with rfl | rfl <;> simp at shape
  | cons e blanks =>
    have between := blank e (by simp)
    rw [← (List.cons.inj shape).1] at between
    rcases chain with rfl | rfl <;> contradiction

theorem pathHead_call (callee : Name) (args : List Phrase) :
    pathHead previous ((Atom.call callee args).print ++ rest) = none := by
  rw [Option.eq_none_iff_forall_ne_some]
  intro hit hits
  obtain ⟨name, d, after, shape, -, leads, chain, -⟩ := hit_of_pathHead hits
  rw [Atom.print, List.append_assoc, List.cons_append] at shape leads
  rw [leadingName_append callee.valid (by simp; decide)] at leads
  rw [← leads, List.append_cancel_left_eq] at shape
  rcases chain with rfl | rfl <;> simp at shape

/-- What else starts where an atom starts has to give way to it. -/
theorem rank_of_hit_at_start {atom : Atom} (known : category ∈ Category.lexical)
    (stops : Stops rest) (hits : category.matcher previous (atom.print ++ rest) = some hit) :
    category = atom.category ∨ atom.category.rank < category.rank := by
  have word (valid : IsWord atom.print) : category.rank ≠ 0 :=
    rank_ne_zero_of_word known valid atom.tight.nonempty stops hits
  obtain ⟨c, text, first⟩ := List.exists_cons_of_ne_nil atom.tight.nonempty
  have begins : category.starts c = true := by
    rw [first, List.cons_append] at hits
    exact starts_of_hit known hits
  -- The categories that do not give way are ruled out, each for a reason of its own.
  cases atom with
  | integer n short =>
    have nested := word (isWord_toDigits n)
    have member : c ∈ Nat.toDigits 10 n := by
      rw [show Nat.toDigits 10 n = c :: text from first]
      exact List.mem_cons_self
    have digit : Category.keywordLiteral.starts c = false :=
      forall_mem_toDigits (p := (Category.keywordLiteral.starts · = false)) (by decide) member
    cases known using Category.lexical_cases with
    | number => exact .inl rfl
    | operator | identifier => exact .inr (by simp [Atom.category, Category.rank])
    | string | function | accessor => exact absurd rfl nested
    | keywordLiteral => exact absurd begins (by simp [digit])
  | bool b =>
    have nested := word (isWord_boolWord b)
    cases known using Category.lexical_cases with
    | keywordLiteral => exact .inl rfl
    | number | operator | identifier => exact .inr (by simp [Atom.category, Category.rank])
    | string | function | accessor => exact absurd rfl nested
  | null =>
    have nested := word isWord_null
    cases known using Category.lexical_cases with
    | keywordLiteral => exact .inl rfl
    | number | operator | identifier => exact .inr (by simp [Atom.category, Category.rank])
    | string | function | accessor => exact absurd rfl nested
  | text content unclosed =>
    obtain ⟨rfl, -⟩ := List.cons.inj first
    cases known using Category.lexical_cases with
    | string => exact .inl rfl
    | keywordLiteral | number | operator | identifier =>
      exact .inr (by simp [Atom.category, Category.rank])
    | function | accessor => contradiction
  | name name free =>
    have nested := word (isWord_of_isName name.valid)
    have shape : c :: text = name.text ++ [] := by rw [List.append_nil, ← first, Atom.print]
    obtain ⟨-, number, operator⟩ := not_starts_of_name name shape
    have keyword : keywordLiteral previous (name.text ++ rest) = none := keywordLiteral_name free stops
    cases known using Category.lexical_cases with
    | identifier => exact .inl rfl
    | string | function | accessor => exact absurd rfl nested
    | keywordLiteral => exact absurd (keyword.symm.trans hits) (by simp)
    | number => exact absurd begins (by simp [number])
    | operator => exact absurd begins (by simp [operator])
  | path base step steps =>
    obtain ⟨quotes, -, -⟩ := not_starts_of_name base first.symm
    have call : callHead previous ((Atom.path base step steps).print ++ rest) = none :=
      callHead_path base step steps
    cases known using Category.lexical_cases with
    | accessor => exact .inl rfl
    | keywordLiteral | number | operator | identifier =>
      exact .inr (by simp [Atom.category, Category.rank])
    | function => exact absurd (call.symm.trans hits) (by simp)
    | string => exact absurd begins (by simp [quotes])
  | call callee args =>
    obtain ⟨quotes, -, -⟩ := not_starts_of_name callee first.symm
    have chain : pathHead previous ((Atom.call callee args).print ++ rest) = none :=
      pathHead_call callee args
    cases known using Category.lexical_cases with
    | function => exact .inl rfl
    | keywordLiteral | number | operator | identifier =>
      exact .inr (by simp [Atom.category, Category.rank])
    | accessor => exact absurd (chain.symm.trans hits) (by simp)
    | string => exact absurd begins (by simp [quotes])

theorem not_isSign_of_isNamePart {c : Char} (part : isNamePart c = true) : isSign c = false := by
  rw [isSign, List.any_eq_false]
  intro sign member same
  have each : ∀ sign ∈ operatorSigns, sign.head?.all (!isNamePart ·) = true :=
    forall_mem_of_all (by decide)
  have other := each sign member
  rw [eq_of_beq same, Option.all_some, part] at other
  contradiction

/-- Nothing starts inside a word. -/
theorem not_hit_inside_word (known : category ∈ Category.lexical) {u v : List Char}
    (valid : IsWord (u ++ v)) (left : u ≠ []) (right : v ≠ [])
    (hits : category.matcher (u.getLast?.or previous) (v ++ rest) = some hit) : False := by
  obtain ⟨c, text, rfl⟩ := List.exists_cons_of_ne_nil right
  have part : isNamePart c = true := valid c (by simp)
  have begins := starts_of_hit known hits
  have running : freeBefore (u.getLast?.or previous) = false := by
    have last := List.getLast_mem left
    rw [List.getLast?_eq_some_getLast left]
    simp [freeBefore, valid _ (List.mem_append_left _ last)]
  by_cases string : category = .string
  · subst string
    have plain := isPlain_of_isNamePart part
    have quotes : isQuote c = true := begins
    simp [isPlain, quotes] at plain
  · by_cases operator : category = .operator
    · subst operator
      rw [show Category.operator.starts c = isSign c from rfl, not_isSign_of_isNamePart part]
        at begins
      contradiction
    · rw [freeBefore_of_hit known hits string operator] at running
      contradiction

/-- What starts inside an atom starts inside a string, a call or a chain. -/
theorem rank_of_hit_inside {atom : Atom} (known : category ∈ Category.lexical) {u v : List Char}
    (shape : atom.print = u ++ v) (left : u ≠ []) (right : v ≠ [])
    (hits : category.matcher (u.getLast?.or previous) (v ++ rest) = some hit) :
    atom.category.rank = 0 := by
  have word (valid : IsWord atom.print) : False := by
    rw [shape] at valid
    exact not_hit_inside_word known valid left right hits
  cases atom with
  | integer n short => exact (word (isWord_toDigits n)).elim
  | bool b => exact (word (isWord_boolWord b)).elim
  | null => exact (word isWord_null).elim
  | text content unclosed => rfl
  | name name free => exact (word (isWord_of_isName name.valid)).elim
  | path base first steps => rfl
  | call callee args => rfl

theorem not_starts_blank (known : category ∈ Category.lexical) {u text : List Char} {c : Char}
    (inside : Part.blank.text = u ++ c :: text) : category.starts c = false := by
  have each : ∀ category ∈ Category.lexical, category.starts ' ' = false :=
    forall_mem_of_all (by decide)
  have blank : c = ' ' := by
    cases u with
    | nil => exact (List.cons.inj inside).1.symm
    | cons d u => simp [Part.text] at inside
  rw [blank]
  exact each category known

theorem category_of_sign (known : category ∈ Category.lexical) {op : Operator} {c : Char}
    (member : c ∈ op.symbol.toList) (begins : category.starts c = true) :
    category = .operator := by
  have each : op.symbol.toList.all (fun c => Category.lexical.all fun category =>
      decide (category.starts c = true → category = .operator)) = true := by
    cases op <;> decide
  exact forall_mem_of_all (List.all_eq_true.mp each c member) category known begins

/-- No operator starts inside another one that has a blank behind it. -/
theorem not_operatorSign_inside {op : Operator} {u v : List Char}
    (shape : op.symbol.toList = u ++ v) (left : u ≠ []) (right : v ≠ [])
    (apart : op = .sub ∨ ∃ more, rest = ' ' :: more) : operatorSign previous (v ++ rest) = none := by
  obtain ⟨c, u, rfl⟩ := List.exists_cons_of_ne_nil left
  obtain ⟨d, v, rfl⟩ := List.exists_cons_of_ne_nil right
  have size : op.symbol.toList.length ≤ 2 := by cases op <;> decide
  have short : u = [] ∧ v = [] := by
    rw [shape] at size
    simp only [List.cons_append, List.length_cons, List.length_append] at size
    exact ⟨List.length_eq_zero_iff.mp (by omega), List.length_eq_zero_iff.mp (by omega)⟩
  obtain ⟨rfl, rfl⟩ := short
  rcases apart with rfl | ⟨more, rfl⟩
  · simp [Operator.symbol] at shape
  · cases op <;> simp [Operator.symbol] at shape <;> obtain ⟨rfl, rfl⟩ := shape <;> rfl

end Ranks

/-! ### Candidates in parts -/

theorem element_start {part : Part} {offset : Nat} {e : Match}
    (element : part.element? offset = some e) :
    e.start = offset ∧ e.stop = offset + part.text.length := by
  cases part with
  | blank => contradiction
  | mark op =>
    cases element
    exact ⟨rfl, rfl⟩
  | atom a =>
    cases element
    exact ⟨rfl, rfl⟩

/-- Where a part starts only its element starts, or what gives way to it. -/
theorem rank_of_hit_at_part {part : Part} {previous : Option Char} {rest : List Char}
    {category : Category} {hit : Hit} (known : category ∈ Category.lexical)
    (sits : part.Sits previous rest)
    (hits : category.matcher previous (part.text ++ rest) = some hit) (offset : Nat) :
    ∃ e, part.element? offset = some e ∧
      (category = e.category ∨ e.category.rank < category.rank) := by
  obtain ⟨c, text, first⟩ := List.exists_cons_of_ne_nil part.nonempty
  have begins : category.starts c = true := by
    rw [first, List.cons_append] at hits
    exact starts_of_hit known hits
  cases part with
  | blank =>
    rw [not_starts_blank known (u := []) first] at begins
    contradiction
  | mark op =>
    have member : c ∈ op.symbol.toList := by
      rw [show op.symbol.toList = c :: text from first]
      exact List.mem_cons_self
    exact ⟨_, rfl, .inl (category_of_sign known member begins)⟩
  | atom a => exact ⟨_, rfl, rank_of_hit_at_start known sits.2 hits⟩

/-- What starts further inside a part starts inside a string, a call or a chain. -/
theorem rank_of_hit_inside_part {part : Part} {previous : Option Char} {rest : List Char}
    {category : Category} {hit : Hit} (known : category ∈ Category.lexical)
    (sits : part.Sits previous rest) {u v : List Char} (shape : part.text = u ++ v)
    (left : u ≠ []) (right : v ≠ [])
    (hits : category.matcher (u.getLast?.or previous) (v ++ rest) = some hit) (offset : Nat) :
    ∃ e, part.element? offset = some e ∧ e.category.rank = 0 := by
  cases part with
  | blank =>
    have size := congrArg List.length shape
    have front := List.length_pos_iff.mpr left
    have back := List.length_pos_iff.mpr right
    simp only [Part.text, List.length_append, List.length_cons, List.length_nil] at size
    omega
  | mark op =>
    obtain ⟨c, text, rfl⟩ := List.exists_cons_of_ne_nil right
    have member : c ∈ op.symbol.toList := by
      rw [show op.symbol.toList = u ++ c :: text from shape]
      simp
    obtain rfl := category_of_sign known member (starts_of_hit known hits)
    have sign : operatorSign (u.getLast?.or previous) (c :: text ++ rest) = some hit := hits
    rw [not_operatorSign_inside shape left right sits] at sign
    contradiction
  | atom a => exact ⟨_, rfl, rank_of_hit_inside known shape left right hits⟩

/-- What grows from a hit of the category of an element at its start is the element. -/
theorem eq_of_hit_at_part {part : Part} {before rest : List Char} {previous : Option Char}
    {base : Nat} {hit : Hit} {e m : Match} (sits : part.Sits previous rest)
    (element : part.element? (base + before.length) = some e)
    (hits : e.category.matcher previous (part.text ++ rest) = some hit)
    (grown : grow (before ++ (part.text ++ rest)) base
      (hit.toMatch e.category (part.text ++ rest) before.length) = some m) : m = e := by
  obtain ⟨own, hits', -, grown'⟩ := leadsTo_of_element sits element
  obtain rfl := Option.some.inj (hits.symm.trans hits')
  exact Option.some.inj (grown.symm.trans grown')

/-- A candidate starts in a part that is an element, and is this element or gives way to it. -/
theorem candidate_in_part {parts : List Part} (laid : Laid none parts) {base : Nat} {m : Match}
    (candidate : IsCandidate (textOf parts) base m) :
    ∃ before part after e, parts = before ++ part :: after ∧
      part.element? (base + (textOf before).length) = some e ∧ e.start ≤ m.start ∧
      m.start < e.stop ∧ (m = e ∨ Precedes e m) := by
  obtain ⟨category, known, x, y, hit, shape, full, hits, -, grown⟩ := candidate
  obtain ⟨before, part, after, u, v, split, inside, right, rfl, rfl⟩ := exists_part shape full
  obtain ⟨same, start⟩ := start_of_grow grown
  replace same : m.category = category := same
  replace start : m.start = base + ((textOf before).length + u.length) := by
    rw [start, Hit.toMatch, List.length_append]
  have positive : 0 < v.length := List.length_pos_iff.mpr right
  rw [split] at laid
  have sits := sits_of_laid laid
  rw [Option.or_none] at sits
  rw [List.getLast?_append] at hits
  have found {e : Match} (element : part.element? (base + (textOf before).length) = some e)
      (place : m = e ∨ Precedes e m) :
      ∃ before part after e, parts = before ++ part :: after ∧
        part.element? (base + (textOf before).length) = some e ∧ e.start ≤ m.start ∧
        m.start < e.stop ∧ (m = e ∨ Precedes e m) := by
    obtain ⟨starts, stops⟩ := element_start element
    rw [inside, List.length_append] at stops
    exact ⟨before, part, after, e, split, element, by omega, by omega, place⟩
  by_cases left : u = []
  · -- What starts where the part starts is its element or of a lower rank.
    subst left
    rw [List.nil_append] at inside
    rw [List.append_nil] at shape grown
    rw [← inside, List.getLast?_nil, Option.none_or] at hits
    rw [shape, ← inside] at grown
    obtain ⟨e, element, rank⟩ :=
      rank_of_hit_at_part known sits hits (base + (textOf before).length)
    rcases rank with rfl | lower
    · exact found element (.inl (eq_of_hit_at_part sits element hits grown))
    · exact found element (.inr (.inl (by rw [same]; exact lower)))
  · -- What starts further in starts behind an element that spans it.
    obtain ⟨e, element, rank⟩ :=
      rank_of_hit_inside_part known sits inside left right hits (base + (textOf before).length)
    have front := List.length_pos_iff.mpr left
    have begins := (element_start element).1
    refine found element (.inr ?_)
    by_cases zero : category.rank = 0
    · exact .inr ⟨rank, by rw [same, zero], by omega⟩
    · exact .inl (by rw [same]; omega)

end Stencil.Notation
