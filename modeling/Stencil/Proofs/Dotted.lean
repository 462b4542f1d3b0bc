import Stencil.Proofs.Enclosure
import Stencil.Proofs.Lexemes
import Stencil.Rendering.Evaluation

/-! Names with points between them. As an expression they have the value that a scope gives for
the path of the same text: what the first name stands for, and from there one property after the
other. -/
namespace Stencil.Notation
open Text Markup

def dotted (names : List Name) : List Char := glueTogether ['.'] (names.map (·.text))

/-- A path of properties, or a name that is no reserved word. -/
def dottedAtom (first : Name) :
    (rest : List Name) → (rest = [] → first.text ∉ reserved) → Atom
  | [], free => .name first (free rfl)
  | second :: more, _ => .path first (.property second) (more.map .property)

/-! ### Print -/

theorem dotted_cons (first : Name) (rest : List Name) :
    dotted (first :: rest) = first.text ++ printSteps (rest.map .property) := by
  induction rest generalizing first with
  | nil => simp [dotted, glueTogether, printSteps]
  | cons second more ih =>
    have behind : glueTogether ['.'] ((second :: more).map (·.text)) =
        second.text ++ printSteps (more.map .property) := ih second
    rw [dotted, List.map_cons, List.map_cons, glueTogether, ← List.map_cons, behind]
    · simp [printSteps, Step.print]
    · simp

theorem print_dottedAtom (first : Name) (rest : List Name)
    (free : rest = [] → first.text ∉ reserved) :
    (dottedAtom first rest free).print = dotted (first :: rest) := by
  rw [dotted_cons]
  cases rest with
  | nil => simp [dottedAtom, Atom.print, printSteps]
  | cons second more => rfl

theorem piecesFrom_properties (rest : List Name) (piece : List Char) :
    piecesFrom ['.'] 0 piece (printSteps (rest.map .property)) =
      piece.reverse :: rest.map (·.text) := by
  induction rest generalizing piece with
  | nil => rfl
  | cons name rest ih =>
    have apart := not_mem_of_isName (c := '.') name.valid (by decide)
    have point : piecesFrom ['.'] 0 piece ('.' :: (name.text ++ printSteps (rest.map .property))) =
        piece.reverse :: piecesFrom ['.'] 0 [] (name.text ++ printSteps (rest.map .property)) := by
      simp [piecesFrom, List.isPrefixOf]
    rw [List.map_cons, printSteps, Step.print, List.cons_append, point, piecesFrom_append apart, ih]
    simp

theorem pieces_dotted (first : Name) (rest : List Name) :
    pieces ['.'] (dotted (first :: rest)) = first.text :: rest.map (·.text) := by
  have apart := not_mem_of_isName (c := '.') first.valid (by decide)
  rw [dotted_cons, pieces, piecesFrom_append apart, piecesFrom_properties]
  simp

/-! ### Meaning -/

/-- The properties of these names, one after the other. -/
def keys (names : List Name) : List String := names.map fun name => String.ofList name.text

theorem term_dottedAtom (first : Name) (rest : List Name)
    (free : rest = [] → first.text ∉ reserved) :
    (dottedAtom first rest free).term =
      (keys rest).foldl .property (.name (String.ofList first.text)) := by
  have walk (names : List Name) (object : Term) :
      stepsTerm object (names.map .property) = (keys names).foldl .property object := by
    induction names generalizing object with
    | nil => rfl
    | cons name names ih => exact ih _
  cases rest with
  | nil => rfl
  | cons second more => exact walk more _

theorem depth_properties (object : Term) (keys : List String) :
    (keys.foldl .property object).depth = object.depth := by
  induction keys generalizing object with
  | nil => rfl
  | cons key keys ih => exact ih (.property object key)

theorem path_dotted (scope : Scope) (memory : Memory) (first : Name) (rest : List Name) :
    scope.path memory (String.ofList (dotted (first :: rest))) =
      (keys rest).foldl (Value.property (memory (String.ofList first.text)))
        (scope.get (String.ofList first.text)) := by
  rw [Scope.path, String.toList_ofList, pieces_dotted, keys, List.foldl_map]
  exact List.foldl_map

section Value
variable {σ : Type} (setting : Setting σ) (world : World σ)

/-- Its places do not matter to the value of a path, nor to where the objects on it stand. -/
theorem returns_of_term {base : String} {keys : List String} {e : Expression}
    (same : e.term = keys.foldl .property (.name base)) :
    e.standing setting.memory = setting.memory base ∧
      Returns (e.evaluate setting) world
        (keys.foldl (Value.property (setting.memory base)) (world.scope.get base)) world := by
  induction keys using List.reverseRecOn generalizing e with
  | nil =>
    cases e with
    | name span word =>
      cases same
      exact ⟨rfl, rfl⟩
    | _ => cases same
  | append_singleton keys key ih =>
    rw [List.foldl_append, List.foldl_cons, List.foldl_nil] at same
    cases e with
    | property span object key' =>
      obtain ⟨inside, rfl⟩ := Term.property.inj same
      obtain ⟨stands, found⟩ := ih inside
      refine ⟨stands, returns_bind.mpr ⟨_, world, found, ?_⟩⟩
      rw [List.foldl_append, List.foldl_cons, List.foldl_nil, stands]
      rfl
    | _ => cases same

end Value

end Stencil.Notation
