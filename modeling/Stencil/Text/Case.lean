import Stencil.Text.CaseTable

/-! Upper and lower case of whole texts. A character may become several, and a sigma at
the end of a word has a lower case of its own. -/
namespace Stencil.Text

def CaseRun.covers (run : CaseRun) (code : Nat) : Bool :=
  run.first ≤ code && code ≤ run.last && (code - run.first) % run.stride == 0

/-- The case partner of one character, itself if it has none. -/
def changeCase (runs : List CaseRun) (expansions : List (Nat × List Nat)) (c : Char) : List Char :=
  match runs.find? (·.covers c.toNat) with
  | some run => [Char.ofNat (c.toNat + run.shift).toNat]
  | none => match expansions.lookup c.toNat with
    | some codes => codes.map Char.ofNat
    | none => [c]

def upperChar (c : Char) : List Char :=
  if c.toNat < 128 then [c.toUpper] else changeCase upperRuns upperExpansions c

def lowerChar (c : Char) : List Char :=
  if c.toNat < 128 then [c.toLower] else changeCase lowerRuns lowerExpansions c

def upper (text : List Char) : List Char := text.flatMap upperChar

/-- The nearest character that counts for case is cased. -/
def meetsCased (text : List Char) : Bool :=
  match text.dropWhile caseIgnorable.covers with
  | [] => false
  | c :: _ => cased.covers c

/-- Lower case of a text that follows `before`, read backwards. -/
def lowerAfter (before : List Char) : List Char → List Char
  | [] => []
  | c :: rest =>
    let lowered :=
      if c == 'Σ' then (if meetsCased before && !meetsCased rest then ['ς'] else ['σ'])
      else lowerChar c
    lowered ++ lowerAfter (c :: before) rest

def lower (text : List Char) : List Char := lowerAfter [] text

end Stencil.Text
