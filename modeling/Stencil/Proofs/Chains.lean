import Stencil.Proofs.Displacement
import Stencil.Proofs.Separators
import Stencil.Proofs.Silences

/-! Accessor chains as they are written: a name, then properties behind points and indices in
brackets, with whatever text between them. An expression that is one chain has that chain as its
only element, and an expression that has a path as its only element is one chain. -/
namespace Stencil.Markup
open Text Notation

/-! ### Chains -/

/-- A step as it is written. The bracket that opens an index is closed behind it and not before. -/
inductive Link
  | point (name : Name)
  | bracket (inner : List Char)
      (closed : closingFrom [] none 0 ('[' :: (inner ++ [']'])) = some (inner.length + 1))

namespace Link

def text : Link → List Char
  | point name => '.' :: name.text
  | bracket inner _ => '[' :: (inner ++ [']'])

def allText (links : List Link) : List Char := links.flatMap text

theorem allText_cons (link : Link) (links : List Link) :
    allText (link :: links) = link.text ++ allText links :=
  List.flatMap_cons

def segments (offset : Nat) : List Link → List Segment
  | [] => []
  | point name :: rest =>
    .property ⟨name.text, offset + 1⟩ :: segments (offset + 1 + name.text.length) rest
  | bracket inner _ :: rest =>
    .index (Piece.trim ⟨inner, offset + 1⟩) :: segments (offset + 2 + inner.length) rest

end Link

/-- An expression that is one chain, with blanks around it. -/
structure Accessor where
  lead : List Char
  base : Name
  links : List Link
  trail : List Char
  linked : links ≠ []
  blankLead : ∀ c ∈ lead, isBlank c = true
  blankTrail : ∀ c ∈ trail, isBlank c = true

namespace Accessor

variable (chain : Accessor)

def word : List Char := chain.base.text ++ Link.allText chain.links

def text : List Char := chain.lead ++ (chain.word ++ chain.trail)

/-- The element that the chain is where the expression stands at an offset. -/
def element (start : Nat) : Match :=
  ⟨.accessor, chain.word, start + chain.lead.length,
    .path chain.base.text
      (Link.segments (start + chain.lead.length + chain.base.text.length) chain.links)⟩

end Accessor

/-! ### Steps -/

/-- Where a bracket closes does not depend on what is behind it. -/
theorem closingFrom_append_iff {stack : List Char} {quote : Option Char} {offset close : Nat}
    {text : List Char} (rest : List Char) :
    closingFrom stack quote offset (text ++ rest) = some close ∧ close < offset + text.length ↔
      closingFrom stack quote offset text = some close := by
  have short {offset : Nat} {stack : List Char} {quote : Option Char} {rest : List Char} :
      closingFrom stack quote offset rest = some close → offset ≤ close := le_of_closingFrom
  have further (offset size : Nat) : offset + (size + 1) = offset + 1 + size := by omega
  -- A search that ends in the text ends there in both; elsewhere both go on by one step.
  fun_induction closingFrom stack quote offset text with
  | case1 stack quote offset =>
    refine iff_of_false ?_ (by simp)
    rintro ⟨found, inside⟩
    exact absurd (short found) (Nat.not_le.mpr inside)
  | case2 stack offset c q escape =>
    refine iff_of_false ?_ (by simp)
    obtain rfl := beq_iff_eq.mp escape
    rintro ⟨found, inside⟩
    cases rest with
    | nil => cases found
    | cons d rest =>
      have later : closingFrom stack (some q) (offset + 2) rest = some close := found
      have reach := short later
      simp only [List.length_singleton] at inside
      omega
  | case3 stack offset c q escape d more ih =>
    obtain rfl := beq_iff_eq.mp escape
    rw [List.cons_append, List.cons_append, closingFrom_escaped, List.length_cons,
      List.length_cons, further offset (more.length + 1), further (offset + 1) more.length]
    exact ih
  | case4 stack offset c more q bare ih =>
    rw [List.cons_append, closingFrom_within (by simpa using bare), List.length_cons,
      further offset more.length]
    exact ih
  | case5 stack offset c more quotes ih =>
    rw [List.cons_append, closingFrom_quote quotes, List.length_cons,
      further offset more.length]
    exact ih
  | case6 stack offset c more free closer opens ih =>
    rw [List.cons_append, closingFrom_opens opens, List.length_cons,
      further offset more.length]
    exact ih
  | case7 offset c more free single closes =>
    refine iff_of_false ?_ (by simp)
    rw [List.cons_append, closingFrom.eq_def]
    simp [free, single, closes]
  | case8 offset c more free single closes expected outer other =>
    refine iff_of_false ?_ (by simp)
    rw [List.cons_append, closingFrom.eq_def]
    simp [free, single, closes, other]
  | case9 offset c more free single closes expected outer same last =>
    obtain rfl : expected = c := by simpa using same
    rw [List.cons_append, closingFrom_closes closes, if_pos last]
    simp only [Option.some.injEq, List.length_cons]
    omega
  | case10 offset c more free single closes expected outer same deeper ih =>
    obtain rfl : expected = c := by simpa using same
    rw [List.cons_append, closingFrom_closes closes, if_neg deeper, List.length_cons,
      further offset more.length]
    exact ih
  | case11 stack offset c more free single closes ih =>
    have opens : isOpener c = false := by simpa [isOpener] using single
    rw [List.cons_append,
      closingFrom_plain (by simpa using free) opens (by simpa using closes),
      List.length_cons, further offset more.length]
    exact ih

theorem segmentsFrom_blank (base fuel offset : Nat) {rest : List Char}
    (blank : ∀ c ∈ rest, isBlank c = true) : segmentsFrom base fuel offset rest = ([], offset) := by
  rw [segmentsFrom]
  · rintro fewer more - rfl
    have point := blank '.' List.mem_cons_self
    contradiction
  · rintro fewer more - rfl
    have bracket := blank '[' List.mem_cons_self
    contradiction

theorem not_isNamePart_of_isBlank {c : Char} (blank : isBlank c = true) : isNamePart c = false := by
  rw [← Bool.not_eq_true]
  intro part
  rw [not_isBlank_of_isNamePart part] at blank
  contradiction

/-- No name goes on where a chain does or ends. -/
theorem head_allText (links : List Link) {rest : List Char} (blank : ∀ c ∈ rest, isBlank c = true) :
    (Link.allText links ++ rest).head?.all (!isNamePart ·) = true := by
  cases links with
  | cons link links => cases link <;> rfl
  | nil =>
    cases rest with
    | nil => rfl
    | cons c rest =>
      have other := not_isNamePart_of_isBlank (blank c List.mem_cons_self)
      simp [Link.allText, other]

theorem segmentsFrom_links (base : Nat) {fuel : Nat} (links : List Link) {rest : List Char}
    (blank : ∀ c ∈ rest, isBlank c = true) (room : (Link.allText links).length ≤ fuel)
    (offset : Nat) :
    segmentsFrom base fuel offset (Link.allText links ++ rest) =
      (Link.segments (base + offset) links, offset + (Link.allText links).length) := by
  -- Every link takes a character at least, so the fuel lasts for all of them.
  induction links generalizing fuel offset with
  | nil => exact segmentsFrom_blank base fuel offset blank
  | cons link links ih =>
    rw [Link.allText_cons, List.length_append] at room
    rw [Link.allText_cons, List.append_assoc]
    cases fuel with
    | zero => cases link <;> simp [Link.text] at room
    | succ fuel =>
      cases link with
      | point name =>
        have leads : leadingName (name.text ++ (Link.allText links ++ rest)) = name.text :=
          leadingName_append name.valid (head_allText links blank)
        have some : name.text.isEmpty = false := by simpa using name.nonempty
        rw [Link.text, List.length_cons] at room
        rw [Link.text, List.cons_append, segmentsFrom, leads, some]
        simp only [Bool.false_eq_true, if_false, List.drop_left]
        rw [ih (by omega)]
        simp [Link.segments, Nat.add_assoc, Nat.add_comm, Nat.add_left_comm]
      | bracket inner closed =>
        have closes := ((closingFrom_append_iff (Link.allText links ++ rest)).mpr closed).1
        rw [Link.text, List.length_cons, List.length_append] at room
        rw [List.cons_append] at closes
        rw [Link.text, List.cons_append, segmentsFrom, closes]
        have inside : (inner ++ [']'] ++ (Link.allText links ++ rest)).take inner.length = inner := by
          rw [List.append_assoc, List.take_left]
        have behind : (inner ++ [']'] ++ (Link.allText links ++ rest)).drop (inner.length + 1) =
            Link.allText links ++ rest := List.drop_left' (by simp)
        simp only [Nat.add_sub_cancel, inside, behind]
        rw [ih (by simp at room; omega)]
        have place : base + (offset + (inner.length + 1) + 1) = base + offset + 2 + inner.length := by
          omega
        rw [Link.segments, place]
        simp only [List.length_append, List.length_cons, List.length_nil]
        congr 1
        omega

/-! ### The only element -/

theorem not_isDigit_of_isBlank {c : Char} (blank : isBlank c = true) : isDigit c = false := by
  by_cases ascii : c.toNat < 128
  · exact ascii_forall (p := fun c => isBlank c = true → isDigit c = false)
      (by decide +kernel) c ascii blank
  · have apart : (blanks.all fun r =>
        zeros.all fun start => r.2 < start || start + 10 ≤ r.1) = true := by decide
    obtain ⟨r, member, within⟩ := List.any_eq_true.mp blank
    have clear := List.all_eq_true.mp (List.all_eq_true.mp apart r member)
    rw [isDigit, digitValue?, if_neg ascii, Option.isSome_map, Option.isSome_eq_false_iff,
      Option.isNone_iff_eq_none, List.find?_eq_none]
    intro start other inside
    have between := clear start other
    simp only [Bool.or_eq_true, Bool.and_eq_true, decide_eq_true_eq] at between within inside
    omega

theorem not_isNameStart_of_isBlank {c : Char} (blank : isBlank c = true) : isNameStart c = false := by
  rw [← Bool.not_eq_true]
  intro start
  have part := isNamePart_of_isNameStart start
  rw [not_isNamePart_of_isBlank blank] at part
  contradiction

/-- Nothing starts at a blank. -/
theorem not_starts_of_isBlank {category : Category} (known : category ∈ Category.lexical) {c : Char}
    (blank : isBlank c = true) : category.starts c = false := by
  have other {d : Char} (shown : isBlank d = false) : c ≠ d := by
    rintro rfl
    rw [shown] at blank
    contradiction
  simp only [Category.lexical, List.mem_cons, List.not_mem_nil, or_false] at known
  rcases known with rfl | rfl | rfl | rfl | rfl | rfl | rfl
  · simp [Category.starts, isQuote, other (d := '\'') rfl, other (d := '"') rfl]
  · exact not_isNameStart_of_isBlank blank
  · exact not_isNameStart_of_isBlank blank
  · simp [Category.starts, other (d := 't') rfl, other (d := 'f') rfl, other (d := 'n') rfl]
  · exact not_isDigit_of_isBlank blank
  · have marks : ∀ sign ∈ operatorSigns, sign.head?.all (!isBlank ·) = true :=
      forall_mem_of_all (by decide)
    rw [Category.starts, isSign, List.any_eq_false]
    intro sign member same
    have shown := marks sign member
    rw [eq_of_beq same, Option.all_some, blank] at shown
    contradiction
  · exact not_isNameStart_of_isBlank blank

namespace Accessor

variable (chain : Accessor)

theorem exists_cons : ∃ c more, Link.allText chain.links = c :: more ∧
    (c = '.' ∨ c = '[') := by
  cases shape : chain.links with
  | nil => exact absurd shape chain.linked
  | cons link links =>
    cases link with
    | point name => exact ⟨_, _, rfl, .inl rfl⟩
    | bracket inner closed => exact ⟨_, _, rfl, .inr rfl⟩

theorem leadingName_word : leadingName (chain.word ++ chain.trail) = chain.base.text := by
  rw [word, List.append_assoc]
  exact leadingName_append chain.base.valid (head_allText chain.links chain.blankTrail)

theorem freeBefore_lead : freeBefore chain.lead.getLast? = true := by
  cases last : chain.lead.getLast? with
  | none => rfl
  | some c =>
    have blank := chain.blankLead c (List.mem_of_getLast? last)
    have part := not_isNamePart_of_isBlank blank
    have point : c ≠ '.' := by
      rintro rfl
      contradiction
    simp [freeBefore, part, point]

theorem pathHead_word {previous : Option Char} (free : freeBefore previous = true) :
    pathHead previous (chain.word ++ chain.trail) =
      some ⟨chain.base.text.length, [(0, chain.base.text.length)]⟩ := by
  have some : chain.base.text.isEmpty = false := by simpa using chain.base.nonempty
  have behind : (chain.word ++ chain.trail).drop chain.base.text.length =
      Link.allText chain.links ++ chain.trail := by
    rw [word, List.append_assoc, List.drop_left]
  simp only [pathHead, whereFree, free, if_true, leadingName_word, behind, some]
  cases shape : chain.links with
  | nil => exact absurd shape chain.linked
  | cons link links =>
    cases link with
    | point name =>
      obtain ⟨c, more, same, start, -⟩ := exists_cons_of_isName name.valid
      simp [Link.allText, Link.text, same, start]
    | bracket inner closed => rfl

theorem callHead_word (previous : Option Char) :
    callHead previous (chain.word ++ chain.trail) = none := by
  rw [Option.eq_none_iff_forall_ne_some]
  intro hit hits
  obtain ⟨name, blanks, after, shape, -, leads, blank, -⟩ := hit_of_callHead hits
  rw [leadingName_word] at leads
  obtain ⟨c, more, links, mark⟩ := chain.exists_cons
  rw [word, ← leads, links, List.append_assoc, List.append_cancel_left_eq, List.cons_append] at shape
  cases blanks with
  | nil => rcases mark with rfl | rfl <;> simp at shape
  | cons d blanks =>
    have between := blank d List.mem_cons_self
    rw [← (List.cons.inj shape).1] at between
    rcases mark with rfl | rfl <;> contradiction

theorem pathMatch_of_head (start : Nat) {head : Match}
    (place : head.start = chain.lead.length) (named : head.text = chain.base.text)
    (capture : head.capture 0 = chain.base.text) :
    pathMatch? chain.text start head = some (chain.element start) := by
  have stop : head.stop = chain.lead.length + chain.base.text.length := by
    rw [Match.stop, place, named]
  have rest : chain.text.drop head.stop = Link.allText chain.links ++ chain.trail := by
    rw [stop, ← List.drop_drop, text, List.drop_left, word, List.append_assoc, List.drop_left]
  have walk : segmentsFrom start (Link.allText chain.links ++ chain.trail).length head.stop _ = _ :=
    segmentsFrom_links start chain.links chain.blankTrail (by simp) head.stop
  have some : (Link.segments (start + head.stop) chain.links).isEmpty = false := by
    cases shape : chain.links with
    | nil => exact absurd shape chain.linked
    | cons link links => cases link <;> rfl
  have size : head.stop + (Link.allText chain.links).length - head.start = chain.word.length := by
    rw [stop, place, word, List.length_append]
    omega
  rw [pathMatch?, rest, walk]
  simp only [some, Bool.false_eq_true, if_false, size]
  rw [place, text, List.drop_left, List.take_left, capture, stop, ← Nat.add_assoc]
  rfl

/-- What starts in the expression starts in the chain. -/
theorem place_of_hit {category : Category}
    (known : category ∈ Category.lexical) {x y : List Char} {hit : Hit}
    (shape : chain.text = x ++ y) (full : y ≠ []) (hits : category.matcher x.getLast? y = some hit) :
    chain.lead.length ≤ x.length ∧ x.length < chain.lead.length + chain.word.length := by
  obtain ⟨c, more, rfl⟩ := List.exists_cons_of_ne_nil full
  have begins := starts_of_hit known hits
  have visible : ¬ isBlank c = true := fun blank => by
    rw [not_starts_of_isBlank known blank] at begins
    contradiction
  have here : chain.text[x.length]? = some c := by
    rw [shape, List.getElem?_append_right (by simp)]
    simp
  rw [text] at here
  constructor
  · by_contra before
    rw [List.getElem?_append_left (by omega)] at here
    exact visible (chain.blankLead c (List.mem_of_getElem? here))
  · by_contra behind
    rw [List.getElem?_append_right (by omega), List.getElem?_append_right (by omega)] at here
    exact visible (chain.blankTrail c (List.mem_of_getElem? here))

theorem stop_element (start : Nat) :
    (chain.element start).stop = start + chain.lead.length + chain.word.length := rfl

/-- Where the chain starts, no string and no call does. -/
theorem eq_of_hit_at_word {category : Category}
    (known : category ∈ Category.lexical) (nests : category.rank = 0) {previous : Option Char}
    {hit : Hit}
    (hits : category.matcher previous (chain.word ++ chain.trail) = some hit) :
    category = .accessor ∧ hit = ⟨chain.base.text.length, [(0, chain.base.text.length)]⟩ := by
  obtain ⟨c, more, shape⟩ := List.exists_cons_of_ne_nil chain.base.nonempty
  have first : chain.word ++ chain.trail = c :: (more ++ Link.allText chain.links ++ chain.trail) := by
    rw [word, shape]
    rfl
  have quotes := (not_starts_of_name chain.base (shape.symm.trans (List.append_nil _).symm)).1
  simp only [Category.lexical, List.mem_cons, List.not_mem_nil, or_false] at known
  rcases known with rfl | rfl | rfl | rfl | rfl | rfl | rfl
  · rw [first] at hits
    have begins := starts_of_hit (by simp [Category.lexical]) hits
    rw [quotes] at begins
    contradiction
  · exact absurd (chain.callHead_word previous) (by rw [show callHead _ _ = _ from hits]; simp)
  · have free := freeBefore_of_hit (by simp [Category.lexical]) hits (by simp) (by simp)
    exact ⟨rfl, Option.some.inj (hits.symm.trans (chain.pathHead_word free))⟩
  all_goals contradiction

/-- The hit that the chain grows from. -/
def head : Match :=
  Hit.toMatch ⟨chain.base.text.length, [(0, chain.base.text.length)]⟩ .accessor
    (chain.word ++ chain.trail) chain.lead.length

theorem text_head : chain.head.text = chain.base.text := by
  rw [head, Hit.toMatch, word, List.append_assoc, List.take_left]

theorem capture_head : chain.head.capture 0 = chain.base.text := by
  rw [head, word, List.append_assoc]
  simp [Hit.toMatch, Match.capture, Match.captures]

/-- A candidate is the chain, or starts in it and has to give way to it. -/
theorem eq_of_isCandidate {start : Nat} {m : Match} (candidate : IsCandidate chain.text start m) :
    m = chain.element start ∨ Precedes (chain.element start) m ∧
      Lexeme.overlaps m (chain.element start) = true := by
  have spans := nonempty_of_isCandidate candidate
  obtain ⟨category, known, x, y, hit, shape, full, hits, size, grown⟩ := candidate
  obtain ⟨behind, within⟩ := chain.place_of_hit known shape full hits
  obtain ⟨kind, place⟩ := start_of_grow grown
  replace kind : m.category = category := kind
  replace place : m.start = start + x.length := place
  have here : (chain.element start).start = start + chain.lead.length := rfl
  have stop := chain.stop_element start
  have grows : m.start ≤ m.stop := Nat.le_add_right _ _
  have overlap (later : start + chain.lead.length < m.stop) :
      Lexeme.overlaps m (chain.element start) = true := by
    rw [Lexeme.overlaps, Bool.and_eq_true, decide_eq_true_eq, decide_eq_true_eq]
    omega
  -- Strings, calls and chains claim their places by where they start, all others after them.
  by_cases nests : category.rank = 0
  · by_cases first : x.length = chain.lead.length
    · obtain ⟨rfl, rfl⟩ := List.append_inj shape first.symm
      obtain ⟨rfl, rfl⟩ := chain.eq_of_hit_at_word known nests hits
      exact .inl (Option.some.inj (grown.symm.trans
        (chain.pathMatch_of_head start rfl chain.text_head chain.capture_head)))
    · exact .inr ⟨.inr ⟨rfl, kind ▸ nests, by omega⟩, overlap (by omega)⟩
  · have positive := spans (kind ▸ nests)
    exact .inr ⟨.inl (by rw [kind]; exact Nat.pos_of_ne_zero nests), overlap (by omega)⟩

/-- No string starts before the name of the chain or at it. -/
theorem not_protected_lead :
    inside chain.lead.length (protectedIntervals chain.text) = false := by
  rw [protectedIntervals_eq, inside, List.any_eq_false]
  intro interval member covers
  obtain ⟨m, found, rfl⟩ := List.mem_map.mp member
  obtain ⟨x, y, hit, shape, full, -, hits, -, rfl⟩ := mem_scanFrom found
  rw [Option.or_none] at hits
  have known : Category.string ∈ Category.lexical := by simp [Category.lexical]
  obtain ⟨behind, -⟩ := chain.place_of_hit known shape full hits
  rw [Bool.and_eq_true, decide_eq_true_eq] at covers
  have before : 0 + x.length ≤ chain.lead.length := covers.1
  obtain ⟨rfl, rfl⟩ := List.append_inj shape (by omega)
  have hit : Category.string.matcher chain.lead.getLast? (chain.word ++ chain.trail) = _ := hits
  have same := (chain.eq_of_hit_at_word known rfl hit).1
  contradiction

theorem element_mem_elements (start : Nat) :
    chain.element start ∈ elements chain.text start := by
  have known : Category.accessor ∈ Category.lexical := by simp [Category.lexical]
  have full : chain.word ++ chain.trail ≠ [] := by simp [word, chain.base.nonempty]
  have some : 0 < chain.base.text.length := List.length_pos_iff.mpr chain.base.nonempty
  have hits : Category.accessor.matcher chain.lead.getLast? (chain.word ++ chain.trail) = _ :=
    chain.pathHead_word chain.freeBefore_lead
  have alone (u v : List Char) (hit : Hit) (split : chain.lead = u ++ v) (left : v ≠ [])
      (hits : Category.accessor.matcher u.getLast? (v ++ (chain.word ++ chain.trail)) = .some hit) :
      hit.size ≤ v.length := by
    have shape : chain.text = u ++ (v ++ (chain.word ++ chain.trail)) := by
      rw [text, split, List.append_assoc]
    have place := (chain.place_of_hit known shape (by simp [left]) hits).1
    have positive := List.length_pos_iff.mpr left
    rw [split, List.length_append] at place
    omega
  have found : chain.head ∈ scanFrom Category.accessor.matcher .accessor none 0 0 chain.text :=
    mem_scanFrom_of_hit alone full hits some
  have head := mem_scan_of_mem_scanFrom found chain.not_protected_lead 0
  rw [shift_zero] at head
  simp only [elements, List.mem_append, List.mem_mergeSort]
  refine .inl (.inr (mem_outermost ((pairwise_scan _ _ _).imp And.left) head
    (chain.pathMatch_of_head start rfl chain.text_head chain.capture_head) (Nat.zero_le _) ?_))
  intro other member earlier n built
  obtain ⟨x, y, hit, shape, left, hits, -, -, rfl⟩ := exists_hit_of_mem_scan member
  rw [shift_zero] at earlier
  exact absurd earlier (Nat.not_lt.mpr (chain.place_of_hit known shape left hits).1)

/-- The chain is the only element of the expression that finds a place. -/
theorem selected_text (start : Nat) :
    Lexeme.selected ⟨chain.text, start⟩ = [chain.element start] := by
  have member := chain.element_mem_elements start
  have self : Lexeme.overlaps (chain.element start) (chain.element start) = true := by
    have some : 0 < chain.word.length := by
      rw [word, List.length_append]
      exact Nat.add_pos_left (List.length_pos_iff.mpr chain.base.nonempty) _
    have here : (chain.element start).start = start + chain.lead.length := rfl
    have stop := chain.stop_element start
    rw [Lexeme.overlaps, Bool.and_self, decide_eq_true_eq]
    omega
  have claims : (Lexeme.claim [] (elements chain.text start)).Nodup ∧
      ∀ m, m ∈ Lexeme.claim [] (elements chain.text start) ↔
        m ∈ [] ∨ m ∈ elements chain.text start ∧ m = chain.element start := by
    refine Lexeme.claim_spec (fun m n first second _ => first.trans second.symm) ?_ (by simp) .nil ?_
    · rintro m rfl
      exact self
    intro before m after shape other
    have candidate : IsCandidate chain.text start m :=
      isCandidate_of_mem_elements (by rw [shape]; simp)
    rcases chain.eq_of_isCandidate candidate with same | ⟨precedes, overlap⟩
    · contradiction
    · refine ⟨_, rfl, overlap, .inr ?_⟩
      have order := pairwise_elements chain.text start
      rw [shape] at member order
      rw [List.pairwise_append, List.pairwise_cons] at order
      rcases List.mem_append.mp member with earlier | later
      · exact earlier
      · rcases List.mem_cons.mp later with same | behind
        · exact absurd same.symm other
        · exact absurd precedes (order.2.1.1 _ behind)
  have single : (Lexeme.claim [] (elements chain.text start)).Perm [chain.element start] := by
    refine (List.perm_ext_iff_of_nodup claims.1 (by simp)).mpr fun m => (claims.2 m).trans ?_
    rw [List.mem_singleton]
    constructor
    · rintro (inside | ⟨-, same⟩)
      · contradiction
      · exact same
    · rintro rfl
      exact .inr ⟨member, rfl⟩
  exact List.perm_singleton.mp ((List.mergeSort_perm _ _).trans single)

theorem unclaimed_blank (found : List Match) (offset : Nat) {passed : List Char}
    (blank : ∀ c ∈ passed, isBlank c = true) (rest : List Char) :
    Lexeme.unclaimed found offset (passed ++ rest) =
      Lexeme.unclaimed found (offset + passed.length) rest := by
  induction passed generalizing offset with
  | nil => rfl
  | cons c passed ih =>
    rw [List.cons_append, Lexeme.unclaimed, blank c List.mem_cons_self, Bool.true_or, if_pos rfl,
      ih (offset + 1) fun d member => blank d (List.mem_cons_of_mem c member), List.length_cons]
    congr 1
    omega

/-- Every character that is not blank belongs to the chain. -/
theorem unclaimed_text (start : Nat) :
    Lexeme.unclaimed [chain.element start] start chain.text = [] := by
  have span : Lexeme.unclaimed [chain.element start] (start + chain.lead.length)
      (chain.word ++ chain.trail) = Lexeme.unclaimed [chain.element start]
        (start + chain.lead.length + chain.word.length) chain.trail :=
    unclaimed_span (List.mem_singleton_self _) (Nat.le_refl _) (Nat.le_refl _) chain.trail
  have trail := unclaimed_blank [chain.element start] (start + chain.lead.length + chain.word.length)
    chain.blankTrail []
  rw [List.append_nil] at trail
  rw [text, unclaimed_blank _ _ chain.blankLead, span, trail]
  rfl

/-! ### Every chain that is found -/

/-- What the steps of a chain are found in are links. -/
theorem exists_links (base fuel offset : Nat) (text : List Char) :
    ∃ links after, text = Link.allText links ++ after ∧
      segmentsFrom base fuel offset text =
        (Link.segments (base + offset) links, offset + (Link.allText links).length) := by
  fun_induction segmentsFrom base fuel offset text with
  | case1 | case3 | case5 => exact ⟨[], _, rfl, rfl⟩
  | case2 fuel offset rest name some more ih =>
    obtain ⟨links, after, behind, walk⟩ := ih
    obtain ⟨word, left, split, leads, valid⟩ := eq_append_of_leadingName rest (by simpa using some)
    obtain rfl : name = word := leads
    rw [split, List.drop_left] at behind
    have same : more = segmentsFrom base fuel (offset + 1 + name.length) (rest.drop name.length) := rfl
    refine ⟨.point ⟨name, valid⟩ :: links, after, ?_, ?_⟩
    · rw [Link.allText_cons, Link.text, split, behind]
      simp
    · rw [same, walk, Link.allText_cons, Link.text]
      simp [Link.segments, Nat.add_assoc, Nat.add_comm]
  | case4 fuel offset rest close closed inner more ih =>
    obtain ⟨links, after, behind, walk⟩ := ih
    have opened := closed
    rw [closingFrom_opens rfl] at opened
    obtain ⟨inside, left, rfl, rfl⟩ :=
      exists_of_closingFrom (by rfl : [']'].getLast? = some ']') opened
    have shape : '[' :: (inside ++ ']' :: left) = '[' :: (inside ++ [']']) ++ left := by simp
    have place : 0 + 1 + inside.length = inside.length + 1 := by omega
    rw [shape, place] at closed
    -- The bracket closes where it does whatever stands behind it.
    have alone := (closingFrom_append_iff left).mp ⟨closed, by simp⟩
    have drop : (inside ++ ']' :: left).drop (0 + 1 + inside.length) = left := by
      rw [place, List.append_cons, List.drop_left' (by simp)]
    have take : (inside ++ ']' :: left).take (0 + 1 + inside.length - 1) = inside :=
      List.take_left' (by omega)
    rw [drop] at behind
    refine ⟨.bracket inside alone :: links, after, ?_, ?_⟩
    · rw [Link.allText_cons, Link.text, behind]
      simp
    · have same : more = segmentsFrom base fuel (offset + (0 + 1 + inside.length) + 1) _ := rfl
      have within : inner = ⟨inside, base + offset + 1⟩ := by rw [← take]
      have next : base + (offset + (0 + 1 + inside.length) + 1) = base + offset + 2 + inside.length := by
        omega
      rw [same, walk, within, Link.allText_cons, Link.text, Link.segments, next]
      simp only [List.length_append, List.length_cons, List.length_nil]
      congr 1
      omega

/-- Only paths have steps. -/
theorem mem_paths_of_path {text : List Char} {start : Nat} {m : Match} {base : List Char}
    {segments : List Segment} (member : m ∈ elements text start)
    (path : m.detail = .path base segments) : m ∈ paths text start (protectedIntervals text) := by
  rcases mem_elements_cases member with ⟨category, -, -, -, exclude, found⟩ | found | found
  · obtain ⟨x, y, hit, -, -, -, -, -, rfl⟩ := exists_hit_of_mem_scan found
    cases path
  · obtain ⟨head, -, built⟩ := mem_of_mem_outermost found
    obtain ⟨close, -, rfl⟩ := exists_of_callMatch built
    cases path
  · exact found

/-- A path is a name with links behind it. -/
theorem exists_written {text : List Char} {start : Nat} {exclude : List (Nat × Nat)} {m : Match}
    (found : m ∈ paths text start exclude) :
    ∃ before after, ∃ base : Name, ∃ links, links ≠ [] ∧
      text = before ++ (base.text ++ Link.allText links) ++ after ∧
      m.start = start + before.length ∧
      m.stop = start + (before ++ (base.text ++ Link.allText links)).length := by
  obtain ⟨head, scanned, built⟩ := mem_of_mem_outermost found
  obtain ⟨before, y, hit, shape, -, hits, -, -, rfl⟩ := exists_hit_of_mem_scan scanned
  obtain ⟨name, c, rest, rfl, valid, -, -, rfl⟩ := hit_of_pathHead hits
  obtain ⟨links, after, split, walk⟩ :=
    exists_links start (c :: rest).length (before.length + name.length) (c :: rest)
  generalize named : Hit.toMatch _ Category.accessor _ before.length = head at built
  rw [shift_zero] at built
  have begin : head.start = before.length := by rw [← named]; rfl
  have stop : head.stop = before.length + name.length := by
    rw [← named]
    simp [Match.stop, Hit.toMatch]
  have drop : text.drop (before.length + name.length) = c :: rest := by
    rw [shape, ← List.drop_drop, List.drop_left, List.drop_left]
  obtain ⟨_, _, walked, full, rfl⟩ := exists_of_pathMatch built
  rw [stop, drop, walk] at walked
  cases walked
  refine ⟨before, after, ⟨name, valid⟩, links, ?_, ?_, ?_, ?_⟩
  · rintro rfl
    exact full rfl
  · rw [shape, split]
    simp
  · rw [begin]
  · rw [begin, Match.stop, shape, split]
    simp
    omega

/-- Every expression that has a path as its only element, and nothing else that is not blank, is
one chain. -/
theorem exists_accessor {piece : Piece} {m : Match} {base : List Char} {segments : List Segment}
    (only : Lexeme.selected piece = [m]) (path : m.detail = .path base segments)
    (silent : Lexeme.unclaimed [m] piece.start piece.text = []) :
    ∃ chain : Accessor, chain.text = piece.text := by
  have member : m ∈ elements piece.text piece.start :=
    Lexeme.mem_elements_of_mem_selected (by rw [only]; exact List.mem_singleton_self m)
  obtain ⟨before, after, name, links, linked, shape, start, stop⟩ :=
    exists_written (mem_paths_of_path member path)
  have outside {i : Nat} {c : Char} (here : piece.text[i]? = some c)
      (free : piece.start + i < m.start ∨ m.stop ≤ piece.start + i) : isBlank c = true := by
    by_contra visible
    have left : (piece.start + i, c) ∈ Lexeme.unclaimed [m] piece.start piece.text := by
      refine Lexeme.mem_unclaimed.mpr ⟨i, here, rfl, by simpa using visible, ?_⟩
      simp only [inside, List.map_cons, List.map_nil, List.any_cons, List.any_nil, interval,
        Bool.or_false, Bool.and_eq_false_iff, decide_eq_false_iff_not]
      omega
    rw [silent] at left
    contradiction
  refine ⟨⟨before, name, links, after, linked, ?lead, ?trail⟩, ?text⟩
  case lead =>
    intro d member
    obtain ⟨i, here⟩ := List.getElem?_of_mem member
    have bound := (List.getElem?_eq_some_iff.mp here).1
    refine outside (i := i) ?_ (.inl (by omega))
    rw [shape, List.append_assoc, List.getElem?_append_left bound, here]
  case trail =>
    intro d member
    obtain ⟨i, here⟩ := List.getElem?_of_mem member
    refine outside (i := (before ++ (name.text ++ Link.allText links)).length + i) ?_
      (.inr (by omega))
    rw [shape, List.getElem?_append_right (by omega), Nat.add_sub_cancel_left, here]
  case text =>
    refine Eq.trans ?_ shape.symm
    simp [text, word]

end Accessor

end Stencil.Markup
