import Mathlib.Data.List.Chain
import Stencil.Markup.Expression
import Stencil.Proofs.Characters
import Stencil.Proofs.Notation

/-! Texts in which quotes and brackets are complete: where brackets close, which characters stand
outside, and which pieces separators leave. -/
namespace Stencil.Markup
open Text

section Steps

variable {stack : List Char} {offset : Nat} {c quote closer : Char} {rest : List Char}

theorem closingFrom_escaped :
    closingFrom stack (some quote) offset ('\\' :: c :: rest) =
      closingFrom stack (some quote) (offset + 2) rest := by
  rw [closingFrom.eq_def]
  rfl

theorem closingFrom_within (free : c ≠ '\\') :
    closingFrom stack (some quote) offset (c :: rest) =
      closingFrom stack (if c == quote then none else some quote) (offset + 1) rest := by
  rw [closingFrom.eq_def]
  simp [free]

theorem closingFrom_quote (quotes : isQuote c = true) :
    closingFrom stack none offset (c :: rest) = closingFrom stack (some c) (offset + 1) rest := by
  rw [closingFrom.eq_def]
  simp [quotes]

theorem closingFrom_plain (quotes : isQuote c = false) (opens : isOpener c = false)
    (closes : isCloser c = false) :
    closingFrom stack none offset (c :: rest) = closingFrom stack none (offset + 1) rest := by
  have single : closerOf? c = none := by simpa [isOpener] using opens
  rw [closingFrom.eq_def]
  simp [quotes, single, closes]

theorem not_isQuote_of_closerOf (pair : closerOf? c = some closer) : isQuote c = false := by
  unfold closerOf? at pair
  split at pair
  · rfl
  · rfl
  · contradiction

theorem closingFrom_opens (pair : closerOf? c = some closer) :
    closingFrom stack none offset (c :: rest) =
      closingFrom (closer :: stack) none (offset + 1) rest := by
  rw [closingFrom.eq_def]
  simp [not_isQuote_of_closerOf pair, pair]

theorem isCloser_cases (closes : isCloser c = true) : c = ')' ∨ c = ']' := by
  simpa [isCloser] using closes

theorem closingFrom_closes (closes : isCloser c = true) :
    closingFrom (c :: stack) none offset (c :: rest) =
      if stack.isEmpty then some offset else closingFrom stack none (offset + 1) rest := by
  rw [closingFrom.eq_def]
  rcases isCloser_cases closes with rfl | rfl <;> simp [isQuote, closerOf?, isCloser]

end Steps

end Stencil.Markup

namespace Stencil.Notation
open Text Markup

/-! ### Quotes -/

theorem escape_cons (c : Char) (content : List Char) :
    escape (c :: content) = escapeChar c ++ escape content := rfl

theorem escapeChar_cases (c : Char) :
    (escapeChar c = ['\\', c] ∧ (c = '"' ∨ c = '\\')) ∨
      (escapeChar c = [c] ∧ c ≠ '"' ∧ c ≠ '\\') := by
  by_cases special : c = '"' ∨ c = '\\'
  · exact .inl ⟨by simp [escapeChar, special], special⟩
  · exact .inr ⟨by simp [escapeChar, special], not_or.mp special⟩

theorem quotedSize_escape (size : Nat) (content rest : List Char) :
    quotedSize '"' size (escape content ++ '"' :: rest) =
      some (size + (escape content).length) := by
  induction content generalizing size with
  | nil => simp [escape, quotedSize]
  | cons c content ih =>
    rw [escape_cons]
    rcases escapeChar_cases c with ⟨same, -⟩ | ⟨same, plain, free⟩
    · rw [same]
      simp only [List.cons_append, List.nil_append, quotedSize, ih, List.length_cons]
      congr 1
      omega
    · rw [same]
      have step (text : List Char) : quotedSize '"' size (c :: text) =
          quotedSize '"' (size + 1) text := by
        rw [quotedSize.eq_def]
        split
        · contradiction
        · rename_i equal
          exact absurd (List.cons.inj equal).1 free
        · rename_i equal
          obtain ⟨rfl, rfl⟩ := List.cons.inj equal
          rw [if_neg (by simpa using plain)]
      simp only [List.cons_append, List.nil_append, step, ih, List.length_cons]
      congr 1
      omega

theorem unescape_escape (content : List Char) : unescape (escape content) = content := by
  induction content with
  | nil => rfl
  | cons c content ih =>
    rw [escape_cons]
    rcases escapeChar_cases c with ⟨same, rfl | rfl⟩ | ⟨same, -, free⟩
    · rw [same]
      simp [unescape, escapeValue, ih]
    · rw [same]
      simp [unescape, escapeValue, ih]
    · rw [same, List.singleton_append, unescape.eq_def]
      split
      · contradiction
      · rename_i equal
        exact absurd (List.cons.inj equal).1 free
      · rename_i equal
        obtain ⟨rfl, rfl⟩ := List.cons.inj equal
        rw [ih]

theorem closingFrom_escape (stack : List Char) (offset : Nat) (content rest : List Char) :
    closingFrom stack (some '"') offset (escape content ++ '"' :: rest) =
      closingFrom stack none (offset + (escape content).length + 1) rest := by
  induction content generalizing offset with
  | nil => simp [escape, closingFrom_within]
  | cons c content ih =>
    rw [escape_cons]
    rcases escapeChar_cases c with ⟨same, -⟩ | ⟨same, plain, free⟩
    · rw [same]
      simp only [List.cons_append, List.nil_append, closingFrom_escaped, ih, List.length_cons]
      congr 1
      omega
    · rw [same]
      simp only [List.cons_append, List.nil_append, closingFrom_within free, beq_iff_eq, plain,
        if_false, ih, List.length_cons]
      congr 1
      omega

theorem closingFrom_quoted (stack : List Char) (offset : Nat) (content rest : List Char) :
    closingFrom stack none offset (quote content ++ rest) =
      closingFrom stack none (offset + (quote content).length) rest := by
  simp only [quote, List.cons_append, List.append_assoc, List.nil_append, List.length_cons,
    List.length_append, List.length_nil]
  rw [closingFrom_quote rfl, closingFrom_escape]
  congr 1
  omega

theorem outsideFrom_escape (depth : Nat) (content rest : List Char) :
    outsideFrom (some '"') false depth (escape content ++ '"' :: rest) =
      List.replicate ((escape content).length + 1) false ++ outsideFrom none false depth rest := by
  induction content with
  | nil =>
    simp only [escape, List.flatMap_nil, List.nil_append, List.length_nil]
    rw [outsideFrom]
    simp
  | cons c content ih =>
    rw [escape_cons]
    rcases escapeChar_cases c with ⟨same, -⟩ | ⟨same, plain, free⟩
    · rw [same]
      simp only [List.cons_append, List.nil_append]
      rw [outsideFrom, if_neg Bool.false_ne_true, if_pos (by rfl), outsideFrom, if_pos rfl, ih]
      rfl
    · rw [same]
      simp only [List.cons_append, List.nil_append]
      rw [outsideFrom]
      simp [free, plain, ih, List.replicate_succ]

theorem outsideFrom_quoted (depth : Nat) (content rest : List Char) :
    outsideFrom none false depth (quote content ++ rest) =
      List.replicate (quote content).length false ++ outsideFrom none false depth rest := by
  simp only [quote, List.cons_append, List.append_assoc, List.nil_append, List.length_cons,
    List.length_append, List.length_nil]
  rw [outsideFrom, if_pos (by rfl), outsideFrom_escape]
  rfl

/-! ### Completion -/

/-- A character that has no meaning of its own between other characters. -/
def isPlain (c : Char) : Bool := !isQuote c && !isOpener c && !isCloser c && c != '}'

theorem isPlain_iff {c : Char} : isPlain c = true ↔
    isQuote c = false ∧ isOpener c = false ∧ isCloser c = false ∧ c ≠ '}' := by
  simp only [isPlain, Bool.and_eq_true, Bool.not_eq_true', bne_iff_ne, and_assoc]

theorem isPlain_of_class {p : Char → Bool} {c : Char} (member : p c = true)
    (others : (['"', '\'', '(', ')', '[', ']', '}'].all (!p ·)) = true) : isPlain c = true := by
  have other {d : Char} (mark : d ∈ ['"', '\'', '(', ')', '[', ']', '}']) : c ≠ d := by
    rintro rfl
    have outside := List.all_eq_true.mp others c mark
    rw [member] at outside
    contradiction
  have opens : closerOf? c = none := by
    unfold closerOf?
    split
    · exact absurd rfl (other (by decide))
    · exact absurd rfl (other (by decide))
    · rfl
  simp [isPlain, isQuote, isOpener, isCloser, opens, other (d := '"') (by decide),
    other (d := '\'') (by decide), other (d := ')') (by decide), other (d := ']') (by decide),
    other (d := '}') (by decide)]

theorem isPlain_of_isNamePart {c : Char} (part : isNamePart c = true) : isPlain c = true :=
  isPlain_of_class part (by decide)

theorem isPlain_of_isBlank {c : Char} (blank : isBlank c = true) : isPlain c = true :=
  isPlain_of_class blank (by decide)

/-- The text closes the brackets of the stack and what it opens itself; what stands outside of
brackets and quotes is free. -/
inductive Completes (free : Char → Bool) : List Char → List Char → Prop
  | nil : Completes free [] []
  | plain {c : Char} {stack text : List Char} (plain : isPlain c = true)
      (apart : stack = [] → free c = true) (later : Completes free stack text) :
      Completes free stack (c :: text)
  | quoted {content stack text : List Char} (unclosed : ¬ ['}', '}'] <:+: content)
      (later : Completes free stack text) : Completes free stack (quote content ++ text)
  | opens {c closer : Char} {stack text : List Char} (pair : closerOf? c = some closer)
      (later : Completes free (closer :: stack) text) : Completes free stack (c :: text)
  | closes {c : Char} {stack text : List Char} (closing : isCloser c = true)
      (later : Completes free stack text) : Completes free (c :: stack) (c :: text)

namespace Completes

variable {free other : Char → Bool} {stack more text rest : List Char}

theorem append (first : Completes free stack text) (second : Completes other more rest)
    (weaker : more = [] → ∀ c, free c = true → other c = true) :
    Completes other (stack ++ more) (text ++ rest) := by
  induction first with
  | nil => exact second
  | plain plain apart _ ih =>
    refine .plain plain (fun empty => ?_) ih
    obtain ⟨rfl, rfl⟩ := List.append_eq_nil_iff.mp empty
    exact weaker rfl _ (apart rfl)
  | quoted unclosed _ ih =>
    rw [List.append_assoc]
    exact .quoted unclosed ih
  | opens pair _ ih => exact .opens pair ih
  | closes closing _ ih => exact .closes closing ih

theorem and_then (first : Completes free [] text) (second : Completes free [] rest) :
    Completes free [] (text ++ rest) :=
  first.append second fun _ _ free => free

theorem of_plain {word : List Char} (each : ∀ c ∈ word, isPlain c = true ∧ free c = true) :
    Completes free [] word := by
  induction word with
  | nil => exact .nil
  | cons c word ih =>
    obtain ⟨plain, apart⟩ := each c (by simp)
    exact .plain plain (fun _ => apart) (ih fun d member => each d (by simp [member]))

theorem bracketed {opener closer : Char} (pair : closerOf? opener = some closer)
    (closing : isCloser closer = true) (inside : Completes free [] text) :
    Completes other [] (opener :: (text ++ [closer])) := by
  refine .opens pair ?_
  exact inside.append (.closes closing .nil) (by simp)

theorem behind_plain {word : List Char}
    (complete : Completes free stack (word ++ text)) (plain : ∀ c ∈ word, isPlain c = true) :
    Completes free stack text := by
  induction word with
  | nil => exact complete
  | cons c word ih =>
    obtain ⟨quotes, opens, closes, -⟩ := isPlain_iff.mp (plain c (by simp))
    refine ih ?_ fun d member => plain d (by simp [member])
    generalize shape : (c :: word) ++ text = whole at complete
    cases complete with
    | nil => simp at shape
    | plain _ _ later =>
      obtain ⟨rfl, rfl⟩ := List.cons.inj shape
      exact later
    | quoted _ _ =>
      obtain ⟨rfl, -⟩ := List.cons.inj shape
      contradiction
    | opens pair _ =>
      obtain ⟨rfl, rfl⟩ := List.cons.inj shape
      simp [isOpener, pair] at opens
    | closes closing _ =>
      obtain ⟨rfl, rfl⟩ := List.cons.inj shape
      rw [closing] at closes
      contradiction

theorem behind_opener {opener closer : Char}
    (complete : Completes free stack (opener :: text)) (pair : closerOf? opener = some closer) :
    Completes free (closer :: stack) text := by
  generalize shape : opener :: text = whole at complete
  have quotes := not_isQuote_of_closerOf pair
  cases complete with
  | nil => simp at shape
  | plain plain _ _ =>
    obtain ⟨rfl, rfl⟩ := List.cons.inj shape
    simp [isPlain, isOpener, pair] at plain
  | quoted _ _ =>
    obtain ⟨rfl, -⟩ := List.cons.inj shape
    contradiction
  | opens other later =>
    obtain ⟨rfl, rfl⟩ := List.cons.inj shape
    rw [pair] at other
    obtain rfl := Option.some.inj other
    exact later
  | closes closing _ =>
    obtain ⟨rfl, rfl⟩ := List.cons.inj shape
    rcases isCloser_cases closing with rfl | rfl <;> contradiction

theorem closingFrom_append (complete : Completes free stack text) {more : List Char}
    (beyond : more ≠ []) (rest : List Char) (offset : Nat) :
    closingFrom (stack ++ more) none offset (text ++ rest) =
      closingFrom more none (offset + text.length) rest := by
  induction complete generalizing offset with
  | nil => rfl
  | plain plain _ _ ih =>
    obtain ⟨quotes, opens, closes, -⟩ := isPlain_iff.mp plain
    rw [List.cons_append, closingFrom_plain quotes opens closes, ih, List.length_cons]
    congr 1
    omega
  | @quoted content _ _ _ _ ih =>
    rw [List.append_assoc, closingFrom_quoted, ih, List.length_append, Nat.add_assoc]
  | opens pair _ ih =>
    rw [List.cons_append, closingFrom_opens pair, ← List.cons_append, ih, List.length_cons]
    congr 1
    omega
  | @closes c stack _ closing _ ih =>
    rw [List.cons_append, List.cons_append, closingFrom_closes closing, if_neg (by simp [beyond]),
      ih, List.length_cons]
    congr 1
    omega

/-- The bracket that closes a level of the stack stands in the text, and what is behind it
closes the levels further out. -/
theorem exists_closingFrom {inner outer : List Char} {c : Char}
    (complete : Completes free (inner ++ c :: outer) text) (offset : Nat) :
    ∃ before after, text = before ++ c :: after ∧ Completes free outer after ∧
      ∀ rest, closingFrom (inner ++ [c]) none offset (text ++ rest) =
        some (offset + before.length) := by
  generalize whole : inner ++ c :: outer = stack at complete
  induction complete generalizing inner offset with
  | nil => simp at whole
  | @plain d _ text plain _ _ ih =>
    obtain ⟨quotes, opens, closes, -⟩ := isPlain_iff.mp plain
    obtain ⟨before, after, split, later, found⟩ := ih (offset + 1) whole
    refine ⟨d :: before, after, by rw [split, List.cons_append], later, fun rest => ?_⟩
    rw [List.cons_append, closingFrom_plain quotes opens closes, found, List.length_cons]
    congr 1
    omega
  | @quoted content _ text _ _ ih =>
    obtain ⟨before, after, split, later, found⟩ := ih (offset + (quote content).length) whole
    refine ⟨quote content ++ before, after, by rw [split, List.append_assoc], later, fun rest => ?_⟩
    rw [List.append_assoc, closingFrom_quoted, found, List.length_append, Nat.add_assoc]
  | @opens d closer stack text pair _ ih =>
    have deeper : (closer :: inner) ++ c :: outer = closer :: stack := by
      rw [List.cons_append, whole]
    obtain ⟨before, after, split, later, found⟩ := ih (offset + 1) deeper
    refine ⟨d :: before, after, by rw [split, List.cons_append], later, fun rest => ?_⟩
    rw [List.cons_append, closingFrom_opens pair, ← List.cons_append, found, List.length_cons]
    congr 1
    omega
  | @closes d stack text closing complete ih =>
    cases inner with
    | nil =>
      obtain ⟨rfl, rfl⟩ := List.cons.inj whole
      refine ⟨[], text, rfl, complete, fun rest => ?_⟩
      rw [List.cons_append, List.nil_append, closingFrom_closes closing]
      rfl
    | cons first inner =>
      obtain ⟨rfl, same⟩ := List.cons.inj whole
      obtain ⟨before, after, split, later, found⟩ := ih (offset + 1) same
      refine ⟨first :: before, after, by rw [split, List.cons_append], later, fun rest => ?_⟩
      rw [List.cons_append, List.cons_append, closingFrom_closes closing, if_neg (by simp), found,
        List.length_cons]
      congr 1
      omega

/-- What counts as outside in a text that completes the open brackets is free. -/
theorem exists_outsideFrom (complete : Completes free stack text) :
    ∃ flags, flags.length = text.length ∧
      (∀ rest, outsideFrom none false stack.length (text ++ rest) =
        flags ++ outsideFrom none false 0 rest) ∧
      ∀ pair ∈ text.zip flags, pair.2 = true → free pair.1 = true := by
  -- Only plain characters with no bracket open count as outside, and those are free.
  induction complete with
  | nil => exact ⟨[], rfl, fun rest => rfl, by simp⟩
  | @plain c stack text plain apart _ ih =>
    obtain ⟨quotes, opens, closes, -⟩ := isPlain_iff.mp plain
    obtain ⟨flags, size, found, known⟩ := ih
    refine ⟨(stack.length == 0) :: flags, by simp [size], fun rest => ?_, ?_⟩
    · rw [List.cons_append, outsideFrom, quotes, opens, closes]
      simp only [Bool.false_eq_true, if_false, found, List.cons_append]
    · rw [List.zip_cons_cons, List.forall_mem_cons]
      exact ⟨fun outer => apart (List.length_eq_zero_iff.mp (by simpa using outer)), known⟩
  | @quoted content stack text _ _ ih =>
    obtain ⟨flags, size, found, known⟩ := ih
    refine ⟨List.replicate (quote content).length false ++ flags, by simp [size], fun rest => ?_, ?_⟩
    · rw [List.append_assoc, outsideFrom_quoted, found, List.append_assoc]
    · intro pair member outer
      rw [List.zip_append (by simp)] at member
      rcases List.mem_append.mp member with inside | later
      · have hidden := List.eq_of_mem_replicate (List.of_mem_zip inside).2
        rw [hidden] at outer
        contradiction
      · exact known pair later outer
  | @opens c closer stack text pair _ ih =>
    obtain ⟨flags, size, found, known⟩ := ih
    have opens : isOpener c = true := by simp [isOpener, pair]
    refine ⟨false :: flags, by simp [size], fun rest => ?_, ?_⟩
    · have inside := found rest
      rw [List.length_cons] at inside
      rw [List.cons_append, outsideFrom, not_isQuote_of_closerOf pair, opens]
      simp only [Bool.false_eq_true, if_false, if_true, inside, List.cons_append]
    · rw [List.zip_cons_cons, List.forall_mem_cons]
      exact ⟨fun outer => (Bool.false_ne_true outer).elim, known⟩
  | @closes c stack text closing _ ih =>
    obtain ⟨flags, size, found, known⟩ := ih
    refine ⟨false :: flags, by simp [size], fun rest => ?_, ?_⟩
    · rw [List.cons_append, outsideFrom]
      rcases isCloser_cases closing with rfl | rfl <;>
        simp [isQuote, isOpener, closerOf?, isCloser, found]
    · rw [List.zip_cons_cons, List.forall_mem_cons]
      exact ⟨fun outer => (Bool.false_ne_true outer).elim, known⟩

end Completes

/-! ### Pieces -/

theorem cutFrom_append {separator : Char} {pairs more : List (Char × Bool)} (start : Nat)
    (piece : List Char) (apart : ∀ pair ∈ pairs, pair.2 = true → pair.1 ≠ separator) :
    cutFrom separator start piece (pairs ++ more) =
      cutFrom separator start ((pairs.map (·.1)).reverse ++ piece) more := by
  induction pairs generalizing piece with
  | nil => rfl
  | cons pair pairs ih =>
    obtain ⟨c, free⟩ := pair
    have stays : (c == separator && free) = false := by
      rw [Bool.and_eq_false_iff, beq_eq_false_iff_ne]
      cases free with
      | false => exact .inr rfl
      | true => exact .inl (apart (c, true) (by simp) rfl)
    rw [List.cons_append, cutFrom, if_neg (by simp [stays]),
      ih (c :: piece) fun pair member => apart pair (by simp [member])]
    simp

/-- Texts between separators are the pieces, where the separators stand in none of them outside
of brackets and quotes. -/
theorem texts_cutFrom {separator : Char} (mark : isPlain separator = true)
    {texts : List (List Char)} (some : texts ≠ [])
    (each : ∀ text ∈ texts, Completes (· != separator) [] text) (start : Nat) :
    (cutFrom separator start []
      ((glueTogether [separator] texts).zip
        (outsideFrom none false 0 (glueTogether [separator] texts)))).map (·.text) = texts := by
  induction texts generalizing start with
  | nil => contradiction
  | cons text texts ih =>
    obtain ⟨flags, size, found, known⟩ := (each text (by simp)).exists_outsideFrom
    have apart : ∀ pair ∈ text.zip flags, pair.2 = true → pair.1 ≠ separator :=
      fun pair member outer => by simpa using known pair member outer
    have first : (text.zip flags).map (·.1) = text := List.map_fst_zip (by omega)
    cases texts with
    | nil =>
      have alone := found []
      rw [List.append_nil] at alone
      rw [glueTogether, show (0 : Nat) = ([] : List Char).length from rfl, alone,
        show text.zip (flags ++ outsideFrom none false 0 []) = text.zip flags ++ [] by
          rw [← List.append_nil text, List.zip_append size.symm]
          simp,
        cutFrom_append start [] apart, first]
      simp [cutFrom]
    | cons next texts =>
      obtain ⟨quotes, opens, closes, -⟩ := isPlain_iff.mp mark
      have later := ih (by simp) (fun other member => each other (by simp [member]))
      have whole := found ([separator] ++ glueTogether [separator] (next :: texts))
      rw [glueTogether, List.append_assoc, show (0 : Nat) = ([] : List Char).length from rfl, whole,
        List.zip_append size.symm, cutFrom_append start [] apart, first, List.singleton_append,
        outsideFrom, quotes, opens, closes]
      simp only [Bool.false_eq_true, if_false, List.zip_cons_cons, cutFrom, beq_self_eq_true,
        Bool.and_self, if_true, List.map_cons, later]
      simp
      simp

/-- The pieces between separators, without the blanks around them. -/
theorem texts_arguments {separator : Char} (mark : isPlain separator = true)
    {texts : List (List Char)} (each : ∀ text ∈ texts, Completes (· != separator) [] text)
    (visible : ∀ text ∈ texts, text.all isBlank = false) (base : Nat) :
    (arguments separator (glueTogether [separator] texts) base).map (·.text) =
      texts.map Text.trim := by
  cases texts with
  | nil => rfl
  | cons text texts =>
    have cuts : (cut separator (glueTogether [separator] (text :: texts))).map (·.text) =
        text :: texts := texts_cutFrom mark (by simp) each 0
    have shown : ∀ piece ∈ cut separator (glueTogether [separator] (text :: texts)),
        (!piece.isBlank) = true := by
      intro piece member
      have inside : piece.text ∈ text :: texts := by
        rw [← cuts]
        exact List.mem_map_of_mem member
      rw [Piece.isBlank, visible _ inside, Bool.not_false]
    rw [arguments, List.filter_eq_self.mpr shown, List.map_map]
    calc (cut separator (glueTogether [separator] (text :: texts))).map
          ((·.text) ∘ fun piece => piece.trim.shift base)
        = ((cut separator (glueTogether [separator] (text :: texts))).map (·.text)).map
            Text.trim := by
          rw [List.map_map]
          rfl
      _ = (text :: texts).map Text.trim := by rw [cuts]

end Stencil.Notation
