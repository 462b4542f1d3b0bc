import Stencil.Proofs.Derivation
import Stencil.Proofs.Sessions
import Stencil.Proofs.Tiling

/-! Texts in pieces. Whether a text is read as a whole or as its words, blanks and line ends, the
templates are built alike and rendered to the same result, unless a text that begins with blanks ends
an extension: in pieces the blanks are passed over like those between blocks. -/
namespace Stencil

/-! ### Tokens -/

theorem Lexing.run_of_fails {α : Type} {lines : Option Text.Lines} {reading : Lexing α}
    {fault : Fault} {problems : List Problem} (failed : Fails reading [] fault problems) :
    Lexing.run lines reading = .error fault := by
  have run : (ExceptT.run reading [] : Id _) = (.error fault, problems) := failed
  simp only [Lexing.run, run, Except.map]

namespace Token

def isText (token : Token) : Bool :=
  match token.content with
  | .text _ => true
  | _ => false

def textNode (token : Token) : Node := .text token.span token.text

/-- A text that begins with a blank and does not consist of blanks. -/
def isIndented (token : Token) : Bool :=
  token.isText && token.text.toList.head?.any Text.isBlank && !token.text.toList.all Text.isBlank

/-- Texts that are not empty and make up a text. -/
structure Makes (pieces : List Token) (text : String) : Prop where
  texts : ∀ piece ∈ pieces, piece.isText = true
  filled : ∀ piece ∈ pieces, piece.text.toList ≠ []
  whole : pieces.flatMap (·.text.toList) = text.toList

/-- The second tokens are the first, with texts in pieces. -/
inductive Divided : List Token → List Token → Prop
  | nil : Divided [] []
  | cons (token : Token) {rest others : List Token} (later : Divided rest others) :
      Divided (token :: rest) (token :: others)
  | text {token : Token} {pieces rest others : List Token} (whole : token.isText = true)
      (makes : Makes pieces token.text) (later : Divided rest others) :
      Divided (token :: rest) (pieces ++ others)

theorem ofRuns_makes (lines : Text.Lines) (start : Nat) (runs : List (TextKind × List Char))
    (filled : ∀ run ∈ runs, run.2 ≠ []) :
    Makes (ofRuns lines start runs) (String.ofList (runs.flatMap (·.2))) := by
  induction runs generalizing start with
  | nil => exact ⟨by simp [ofRuns], by simp [ofRuns], by simp [ofRuns]⟩
  | cons run rest ih =>
    obtain ⟨texts, full, whole⟩ :=
      ih (start + run.2.length) fun other member => filled other (List.mem_cons_of_mem _ member)
    rw [ofRuns]
    refine ⟨List.forall_mem_cons.mpr ⟨rfl, texts⟩, List.forall_mem_cons.mpr ⟨?_, full⟩, ?_⟩
    · simpa using filled run List.mem_cons_self
    · simpa using whole

theorem divided_ofText (lines : Text.Lines) (piece : Markup.Piece) {rest others : List Token}
    (later : Divided rest others) :
    Divided (ofText lines false piece ++ rest) (ofText lines true piece ++ others) := by
  unfold ofText
  split
  · exact later
  · obtain ⟨whole, filled⟩ := textRuns_tile .plain [] piece.text
    have makes := ofRuns_makes lines piece.start _ filled
    rw [whole] at makes
    exact .text rfl (by simpa using makes) later

theorem readFrom_divides (lines : Text.Lines) (offset : Nat) (rest : List Char)
    (constructs : List Markup.Match) :
    Mirrors False Eq Divided (readFrom lines false offset rest constructs)
      (readFrom lines true offset rest constructs) := by
  induction constructs generalizing offset rest with
  | nil => exact mirrors_pure (divided_ofText lines _ (.cons _ .nil))
  | cons m more ih =>
    refine (mirrors_refl (ofConstruct lines m)).bind_eq fun token => ?_
    refine (ih m.stop _).bind fun after after' divided => ?_
    exact mirrors_pure (divided_ofText lines _ (.cons token divided))

/-- Both readings of a text end at its end, with the same diagnostics. -/
theorem read_divides (text : List Char) :
    Accord False (fun read read' => read.2 = read'.2 ∧ Divided read.1 read'.1 ∧
        read.1.getLast?.map (·.span.stop) = read'.1.getLast?.map (·.span.stop))
      (read false text) (read true text) := by
  have ends {separate : Bool} {tokens : List Token} {diagnostics : List Diagnostic}
      (success : read separate text = .ok (tokens, diagnostics)) :
      tokens.getLast?.map (·.span.stop) = some text.length := by
    obtain ⟨parts, last, rfl, -, -, stop, -⟩ := tokens_tile_text success
    simp [stop]
  rcases readFrom_divides (Text.Lines.ofText text) 0 text (Markup.constructs text) [] [] rfl with
    ⟨tokens, problems, tokens', _, here, there, divided, rfl⟩ |
    ⟨fault, problems, _, here, there, rfl⟩ | ⟨impossible, -⟩
  · have first : read false text = .ok (tokens, _) := Lexing.run_ok.mpr ⟨problems, here, rfl⟩
    have second : read true text = .ok (tokens', _) := Lexing.run_ok.mpr ⟨problems, there, rfl⟩
    exact .inl ⟨_, _, first, second, rfl, divided, (ends first).trans (ends second).symm⟩
  · exact .inr (.inl ⟨fault, Lexing.run_of_fails here, Lexing.run_of_fails there⟩)
  · exact impossible.elim

end Token

/-! ### Stacks -/

namespace Stack

/-- The innermost open block is an extension. -/
def inExtension (stack : Stack) : Bool := stack.frames.head?.any (·.isExtension)

/-- At one of the tokens an indented text stands where an extension is open. -/
def meetsIndent (limit : Nat) (stack : Stack) (g : Gathered) : List Token → Bool
  | [] => false
  | token :: rest =>
    (token.isIndented && stack.inExtension) ||
      match (feed limit token none stack.frames stack.root).run g with
      | (.ok next, after) => meetsIndent limit next after rest
      | (.error _, _) => false

/-- The open blocks after extensions that have ended. -/
def settle (finished : Option Node) : List Frame → List Node → Stack
  | [], root => addAll ⟨[], root⟩ finished
  | frame :: outer, root =>
    let top := finished.elim frame frame.add
    if top.isExtension then settle (some top.finish) outer root else ⟨top :: outer, root⟩

section Texts

variable {limit : Nat} {token : Token} {stack other : Stack} {finished finished' : Option Node}
  {l : Likeness}

theorem settle_settled (finished : Option Node) (frames : List Frame) (root : List Node) :
    (settle finished frames root).Settled := by
  induction frames generalizing finished with
  | nil =>
    intro top member
    cases finished <;> cases member
  | cons frame outer ih =>
    rw [settle]
    split
    · exact ih _
    · rename_i plain
      exact settled_cons (Bool.eq_false_iff.mpr plain)

theorem settle_alike {frames frames' : List Frame} {root root' : List Node}
    (opened : List.Forall₂ (Frame.Alike l) frames frames')
    (inside : Node.AllAlike l root.reverse root'.reverse)
    (ended : Option.Rel (Node.Alike l) finished finished') :
    Alike l (settle finished frames root) (settle finished' frames' root') := by
  induction opened generalizing finished finished' with
  | nil =>
    have bottom : Alike l ⟨[], root⟩ ⟨[], root'⟩ := ⟨.nil, inside⟩
    exact bottom.addAll ended
  | cons here outer ih =>
    have top := top_alike here ended
    rw [settle, settle, top.isExtension]
    split
    · exact ih (.some top.finish)
    · exact ⟨.cons top outer, inside⟩

theorem content_of_isText (text : token.isText = true) : ∃ kind, token.content = .text kind := by
  unfold Token.isText at text
  split at text
  · rename_i kind content
    exact ⟨kind, content⟩
  · cases text

theorem ofToken_text (text : token.isText = true) (height : Nat) :
    Placement.ofToken limit height token = pure (.node token.textNode) := by
  obtain ⟨kind, content⟩ := content_of_isText text
  rw [Placement.ofToken, content]
  rfl

/-- A text that is more than blanks ends extensions. -/
theorem feed_words (text : token.isText = true) (words : isFiller token = false)
    (finished : Option Node) (frames : List Frame) (root : List Node) :
    feed limit token finished frames root =
      pure ((settle finished frames root).add token.textNode) := by
  have content := content_of_isText text
  induction frames generalizing finished with
  | nil => rw [feed, ofToken_text text, pure_bind, settle, Stack.put]
  | cons frame outer ih =>
    rw [feed, settle]
    split
    · have tag : blockTag? token = none := by
        obtain ⟨kind, content⟩ := content
        rw [blockTag?, content]
      rw [words, tag]
      exact ih _
    · obtain ⟨kind, content⟩ := content
      rw [content, ofToken_text text, pure_bind, Stack.put]

theorem feed_text (text : token.isText = true) (settled : stack.Settled) :
    feed limit token none stack.frames stack.root = pure (stack.add token.textNode) := by
  obtain ⟨frames, root⟩ := stack
  obtain ⟨kind, content⟩ := content_of_isText text
  cases frames with
  | nil => rw [feed, ofToken_text text, pure_bind, Stack.put, addAll, Option.elim_none]
  | cons top outer =>
    have plain := settled top rfl
    simp only [feed, Option.elim_none, plain, content, ofToken_text text, pure_bind, Stack.put,
      Bool.false_eq_true, if_false]

theorem feed_filler (blank : isFiller token = true) (extension : stack.inExtension = true) :
    feed limit token none stack.frames stack.root = pure stack := by
  obtain ⟨frames, root⟩ := stack
  cases frames with
  | nil => cases extension
  | cons top outer =>
    have opened : top.isExtension = true := extension
    simp only [feed, Option.elim_none, opened, blank, if_true]

/-! ### Runs of pieces -/

theorem not_done_of_isText (text : token.isText = true) : token.isDone = false := by
  obtain ⟨kind, content⟩ := content_of_isText text
  rw [Token.isDone, content]

theorem build_feed {next : Stack} (stop : Option Nat) (goesOn : token.isDone = false)
    (fed : feed limit token none stack.frames stack.root = pure next) (rest : List Token) :
    build limit stop stack (token :: rest) = build limit stop next rest := by
  rw [build, goesOn, fed]
  rfl

/-- Texts outside of extensions are added one after the other. -/
theorem build_texts (stop : Option Nat) {pieces : List Token}
    (texts : ∀ piece ∈ pieces, piece.isText = true) (settled : stack.Settled) (rest : List Token) :
    build limit stop stack (pieces ++ rest) =
      build limit stop (stack.append (pieces.map Token.textNode)) rest := by
  induction pieces generalizing stack with
  | nil => rfl
  | cons piece others ih =>
    obtain ⟨text, texts⟩ := List.forall_mem_cons.mp texts
    rw [List.cons_append, build_feed stop (not_done_of_isText text) (feed_text text settled)]
    exact ih texts (settled.add _)

/-- Blanks inside an extension change nothing. -/
theorem build_fillers (stop : Option Nat) {pieces : List Token}
    (texts : ∀ piece ∈ pieces, piece.isText = true) (blank : ∀ piece ∈ pieces, isFiller piece = true)
    (extension : stack.inExtension = true) (rest : List Token) :
    build limit stop stack (pieces ++ rest) = build limit stop stack rest := by
  induction pieces with
  | nil => rfl
  | cons piece others ih =>
    obtain ⟨text, texts⟩ := List.forall_mem_cons.mp texts
    obtain ⟨first, blank⟩ := List.forall_mem_cons.mp blank
    rw [List.cons_append, build_feed stop (not_done_of_isText text) (feed_filler first extension)]
    exact ih texts blank

theorem pieces_alike (cuts : l.cuts) (span : Span) {pieces : List Token} {text : String}
    (whole : pieces.flatMap (·.text.toList) = text.toList) :
    Node.AllAlike l [.text span text] (pieces.map Token.textNode) := by
  induction pieces generalizing text with
  | nil =>
    have empty : text = "" := by simpa using whole.symm
    rw [empty]
    exact .spent cuts span .nil
  | cons piece rest ih =>
    have split : text = piece.text ++ String.ofList (rest.flatMap (·.text.toList)) := by
      rw [← String.toList_inj, String.toList_append, String.toList_ofList, ← whole,
        List.flatMap_cons]
    rw [split]
    exact .cut cuts span piece.span piece.text _ (ih (by simp))

theorem append_alike (alike : Alike l stack other) (settled : stack.Settled)
    (settled' : other.Settled) {nodes nodes' : List Node} (same : Node.AllAlike l nodes nodes') :
    Alike l (stack.append nodes) (other.append nodes') := by
  obtain ⟨frames, root⟩ := stack
  obtain ⟨frames', root'⟩ := other
  obtain ⟨opened, inside⟩ := alike
  cases opened with
  | nil =>
    rw [append_root, append_root]
    refine ⟨.nil, ?_⟩
    simp only [List.reverse_append, List.reverse_reverse]
    exact inside.append same
  | cons top outer =>
    rw [append_cons (settled _ rfl), append_cons (settled' _ rfl)]
    refine ⟨.cons ⟨top.word, top.span, top.shape, ?_⟩ outer, inside⟩
    simp only [Frame.nodes, Frame.extend, List.reverse_append, List.reverse_reverse]
    exact top.nodes.append same

theorem settled_iff : stack.Settled ↔ stack.inExtension = false := by
  obtain ⟨_ | ⟨top, outer⟩, root⟩ := stack
  · exact ⟨fun _ => rfl, fun _ top member => by cases member⟩
  · exact ⟨fun settled => settled top rfl, settled_cons⟩

theorem Alike.inExtension (alike : Alike l stack other) :
    stack.inExtension = other.inExtension := by
  obtain ⟨opened, -⟩ := alike
  unfold Stack.inExtension
  generalize stack.frames = frames at opened ⊢
  generalize other.frames = frames' at opened ⊢
  cases opened with
  | nil => rfl
  | cons top _ => simp [top.isExtension]

theorem meetsIndent_of_feed {g g' : Gathered} {rest : List Token} {next : Stack}
    (clear : meetsIndent limit stack g (token :: rest) = false)
    (run : Returns (feed limit token none stack.frames stack.root) g next g') :
    meetsIndent limit next g' rest = false := by
  have fed : (feed limit token none stack.frames stack.root).run g = (.ok next, g') := run
  rw [meetsIndent, fed, Bool.or_eq_false_iff] at clear
  exact clear.2

theorem isFiller_text (text : token.isText = true) :
    isFiller token = token.text.toList.all Text.isBlank := by
  obtain ⟨kind, content⟩ := content_of_isText text
  rw [isFiller, content]

theorem fillers_of_filler {pieces : List Token} (text : token.isText = true)
    (makes : Token.Makes pieces token.text) (blank : isFiller token = true) :
    ∀ piece ∈ pieces, isFiller piece = true := by
  rw [isFiller_text text, ← makes.whole] at blank
  intro piece member
  rw [isFiller_text (makes.texts piece member), List.all_eq_true]
  intro c inside
  exact List.all_eq_true.mp blank c (List.mem_flatMap.mpr ⟨piece, member, inside⟩)

/-- Where a text is more than blanks and not indented, its first piece is more than blanks. -/
theorem first_piece {pieces : List Token} (text : token.isText = true)
    (makes : Token.Makes pieces token.text) (words : isFiller token = false)
    (plain : token.isIndented = false) :
    ∃ first more, pieces = first :: more ∧ isFiller first = false := by
  rw [isFiller_text text] at words
  rw [Token.isIndented, text, words, ← makes.whole] at plain
  rw [← makes.whole] at words
  cases pieces with
  | nil => cases words
  | cons first more =>
    refine ⟨first, more, rfl, ?_⟩
    rw [isFiller_text (makes.texts first List.mem_cons_self)]
    obtain ⟨c, others, same⟩ := List.exists_cons_of_ne_nil (makes.filled first List.mem_cons_self)
    simp_all

/-- A template is built alike from texts and from their pieces. -/
theorem build_divided (stop : Option Nat) {tokens tokens' : List Token}
    (divided : Token.Divided tokens tokens') {g : Gathered} (alike : Alike .cut stack other)
    (clear : meetsIndent limit stack g tokens = false) :
    MirrorsAt False Eq (Node.AllAlike .cut) (build limit stop stack tokens)
      (build limit stop other tokens') g g := by
  induction divided generalizing stack other g with
  | nil => exact runOut_mirrors stop alike.frames alike.root .none g g rfl
  | cons token later ih =>
    rw [build, build]
    split
    · exact unwind_mirrors alike.frames alike.root .none g g rfl
    · refine (feed_mirrors Likeness.cut_full (.refl limit) token alike.frames alike.root .none g g
        rfl).bind ?_ fun _ _ same => same
      rintro next g' next' _ run same rfl
      exact ih same (meetsIndent_of_feed clear run)
  | @text token pieces rest others whole makes later ih =>
    have goesOn := not_done_of_isText whole
    have whole_alike := pieces_alike (l := .cut) trivial token.span makes.whole
    have after {next : Stack} (fed : feed limit token none stack.frames stack.root = pure next) :
        meetsIndent limit next g rest = false :=
      meetsIndent_of_feed clear (by rw [fed]; exact returns_pure.mpr ⟨rfl, rfl⟩)
    -- Outside of extensions the pieces are added where the text is. Inside, a blank text is passed
    -- over with its pieces, and any other ends the extension with its first piece.
    cases extension : stack.inExtension with
    | false =>
      have settled := settled_iff.mpr extension
      have settled' := settled_iff.mpr (alike.inExtension.symm.trans extension)
      have fed : feed limit token none stack.frames stack.root = _ := feed_text whole settled
      rw [build_feed stop goesOn fed, build_texts stop makes.texts settled']
      exact ih (append_alike alike settled settled' whole_alike) (after fed)
    | true =>
      have extension' := alike.inExtension.symm.trans extension
      cases blank : isFiller token with
      | true =>
        have fed : feed limit token none stack.frames stack.root = _ := feed_filler blank extension
        rw [build_feed stop goesOn fed,
          build_fillers stop makes.texts (fillers_of_filler whole makes blank) extension']
        exact ih alike (after fed)
      | false =>
        -- A first piece of blanks alone would be passed over: the text would have to be indented.
        have plain : token.isIndented = false := by
          simpa [meetsIndent, extension] using (Bool.or_eq_false_iff.mp clear).1
        obtain ⟨first, more, rfl, words⟩ := first_piece whole makes blank plain
        obtain ⟨text, texts⟩ := List.forall_mem_cons.mp makes.texts
        have fed : feed limit token none stack.frames stack.root = _ :=
          feed_words whole blank none stack.frames stack.root
        have settled := settle_settled none stack.frames stack.root
        have settled' := settle_settled none other.frames other.root
        rw [build_feed stop goesOn fed, List.cons_append,
          build_feed stop (not_done_of_isText text) (feed_words text words none _ _),
          build_texts stop texts (settled'.add _)]
        exact ih (append_alike (settle_alike alike.frames alike.root .none) settled settled'
          whole_alike) (after fed)

end Texts

end Stack

/-! ### Templates -/

namespace Analysis

/-- An indented text of the source ends an extension. -/
def indentsExtension (limit : Nat) (source : String) : Bool :=
  match Token.read false source.toList with
  | .ok (tokens, _) => Stack.meetsIndent limit ⟨[], []⟩ Tree.start tokens
  | .error _ => false

theorem ofText_divided {options options' : Options} {source : String}
    (whole : options.preserveWhitespace.truthy = false)
    (pieces : options'.preserveWhitespace.truthy = true)
    (depth : options.maxDepth = options'.maxDepth)
    (clear : indentsExtension options.maxDepth source = false) :
    Accord False (Alike .cut) (ofText options source) (ofText options' source) := by
  refine ofText_alike ?_
  rw [whole, pieces, ← depth]
  rcases Token.read_divides source.toList with
    ⟨read, read', here, there, diagnostics, divided, ends⟩ | ⟨fault, here, there⟩ | ⟨impossible, -⟩
  · simp only [indentsExtension, here] at clear
    refine .inl ⟨read, read', here, there, diagnostics, ?_⟩
    rw [ends]
    exact Stack.build_divided _ divided ⟨.nil, .nil⟩ clear
  · exact .inr (.inl ⟨fault, here, there⟩)
  · exact impossible.elim

/-- The options with another whitespace mode, which divides texts if they do. -/
theorem ofText_whitespace {options : Options} {flag : Value} {source : String}
    (divides : options.preserveWhitespace.truthy = true → flag.truthy = true)
    (clear : indentsExtension options.maxDepth source = false) :
    Accord False (Alike .cut) (ofText options source)
      (ofText { options with preserveWhitespace := flag } source) := by
  by_cases differ : options.preserveWhitespace.truthy = false ∧ flag.truthy = true
  · exact ofText_divided differ.1 differ.2 rfl clear
  · let moded : Options := { options with preserveWhitespace := flag }
    have same : options.preserveWhitespace.truthy = moded.preserveWhitespace.truthy := by
      change _ = flag.truthy
      revert divides differ
      cases options.preserveWhitespace.truthy <;> cases flag.truthy <;> decide
    have depth : Reaches False options.maxDepth moded.maxDepth := .refl _
    exact ofText_repeats Likeness.cut_full same depth source

end Analysis

namespace Engine

variable {σ : Type} {engine : Engine σ} {templates : List (String × String)} {source : String}

/-- An engine that is like another, but for the whitespace mode. -/
def withWhitespace (engine : Engine σ) (flag : Value) : Engine σ :=
  { engine with options := { engine.options with preserveWhitespace := flag } }

theorem renderAmong_divided (engine : Engine σ) (flag : Value)
    (divides : engine.options.preserveWhitespace.truthy = true → flag.truthy = true)
    (clear : ∀ text ∈ source :: templates.map Prod.snd,
      Analysis.indentsExtension engine.options.maxDepth text = false)
    (context : Dict Value) (name : Option String) (routines : σ) :
    (renderAmong templates source context name (engine, routines)).1 =
      (renderAmong templates source context name (engine.withWhitespace flag, routines)).1 := by
  let known (text : String) : Prop := Analysis.indentsExtension engine.options.maxDepth text = false
  have matched : Matches ⟨.cut, False⟩ Eq known Eq
      (renderAmong templates source context name : Work σ _)
      (renderAmong templates source context name) := by
    refine (precompileAll_matches fun entry member => ?_).bind_eq fun _ => ?_
    · exact clear entry.2 (List.mem_cons_of_mem _ (List.mem_map_of_mem member))
    · refine render_matches (fun _ _ => rfl) ?_ trivial (clear source List.mem_cons_self) name
      rintro given _ rfl
      exact ⟨⟨fun _ => rfl, fun _ => rfl, rfl⟩, fun _ => rfl⟩
  have abreast : Abreast ⟨.cut, False⟩ Eq known (engine, routines)
      (engine.withWhitespace flag, routines) := by
    refine ⟨⟨⟨⟨rfl, .inl rfl, .refl _, .refl _⟩, rfl, rfl⟩, rfl, fun listed => ?_, ?_, ?_, rfl, rfl⟩,
      rfl⟩
    · exact Analysis.ofText_whitespace divides listed
    · exact Store.Alike.refl (.refl Likeness.cut_full) engine.store
    · exact Dict.Related.refl (.refl Likeness.cut_full) engine.catalogue
  exact (matched.accord abreast).eq

/-- Two engines that differ in the whitespace mode only render a template among others to the same
result, where no indented text ends an extension. -/
theorem whitespace_mode_keeps_result (flag : Value)
    (clear : ∀ text ∈ source :: templates.map Prod.snd,
      Analysis.indentsExtension engine.options.maxDepth text = false)
    (context : Dict Value) (name : Option String) (routines : σ) :
    (renderAmong templates source context name (engine, routines)).1 =
      (renderAmong templates source context name (engine.withWhitespace flag, routines)).1 := by
  cases plain : flag.truthy with
  | true => exact renderAmong_divided engine flag (fun _ => plain) clear context name routines
  | false =>
    have back := renderAmong_divided (engine.withWhitespace flag)
      engine.options.preserveWhitespace (fun divided => by
        rw [show (engine.withWhitespace flag).options.preserveWhitespace = flag from rfl, plain]
          at divided
        cases divided) clear context name routines
    exact back.symm

/-- Blanks between a tag and a comment, and a text of two words. -/
def article : String := "\x7b% extends 'base' %\x7d \x7b# #\x7ds  t"

set_option maxRecDepth 8000 in
theorem article_clear :
    [article, "B"].all (fun text =>
      !Analysis.indentsExtension Options.standard.maxDepth text) = true := by
  cbv

theorem article_renders_in_both_modes :
    (∀ text ∈ article :: [("base", "B")].map Prod.snd,
      Analysis.indentsExtension Options.standard.maxDepth text = false) ∧
    (renderAmong [("base", "B")] article [] none fresh).1 =
      (renderAmong [("base", "B")] article [] none (fresh.1.withWhitespace (.bool true), ())).1 := by
  have clear : ∀ text ∈ article :: [("base", "B")].map Prod.snd,
      Analysis.indentsExtension Options.standard.maxDepth text = false := fun text member => by
    simpa using List.all_eq_true.mp article_clear text member
  exact ⟨clear, whitespace_mode_keeps_result (.bool true) clear [] none ()⟩

/-- It extends a page, with an indented text behind. -/
def indented : String := "\x7b% extends 'base' %\x7d hello"

set_option maxRecDepth 8000 in
theorem indented_whole :
    (renderAmong [("base", "B")] indented [] none fresh).1 = .ok "B hello" := by
  cbv

set_option maxRecDepth 8000 in
theorem indented_pieces :
    (renderAmong [("base", "B")] indented [] none (fresh.1.withWhitespace (.bool true), ())).1 =
      .ok "Bhello" := by
  cbv

/-- In pieces the blank before a text that ends an extension is not put out. -/
theorem extension_takes_indentation :
    (renderAmong [("base", "B")] indented [] none fresh).1 ≠
      (renderAmong [("base", "B")] indented [] none
        (fresh.1.withWhitespace (.bool true), ())).1 := by
  rw [indented_whole, indented_pieces]
  decide

end Engine
end Stencil
