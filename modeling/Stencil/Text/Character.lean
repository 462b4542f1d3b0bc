import Stencil.Text.Hidden

/-! Classes of characters. ASCII is decided directly, the rest by the tables. -/
namespace Stencil.Text

def isBlank (c : Char) : Bool := blanks.covers c

/-- The control characters that separate files, groups, records and units. They are blanks
between words, but not around an integer. -/
def isInformationSeparator (c : Char) : Bool := '\x1c' ≤ c && c ≤ '\x1f'

/-- A blank that may stand around an integer. -/
def isPlainBlank (c : Char) : Bool := isBlank c && !isInformationSeparator c

def digitValue? (c : Char) : Option Nat :=
  if c.toNat < 128 then
    if '0' ≤ c && c ≤ '9' then some (c.toNat - 48) else none
  else
    (zeros.find? fun start => start ≤ c.toNat && c.toNat < start + 10).map (c.toNat - ·)

def isDigit (c : Char) : Bool := (digitValue? c).isSome

def isWord (c : Char) : Bool :=
  if c.toNat < 128 then c.isAlphanum || c == '_' else letters.covers c

def isNameStart (c : Char) : Bool := c.isAlpha || c == '_' || c == '$'

def isNamePart (c : Char) : Bool := isWord c || c == '$'

def isPrintable (c : Char) : Bool :=
  if c.toNat < 127 then 32 ≤ c.toNat else !hidden.covers c

/-- The longest name at the start of a text, empty if there is none. -/
def leadingName : List Char → List Char
  | [] => []
  | c :: rest => if isNameStart c then c :: rest.takeWhile isNamePart else []

def isName (text : List Char) : Bool := !text.isEmpty && leadingName text == text

end Stencil.Text
