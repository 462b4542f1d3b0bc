import Stencil.Markup.Construct
import Stencil.Value

/-! Matches as documents. -/
namespace Stencil.Markup

def Piece.toDocument (piece : Piece) : Value := .list [.ofChars piece.text, .ofNat piece.start]

def Segment.toDocument : Segment → Value
  | property piece => .list [.text "property", .ofChars piece.text, .ofNat piece.start]
  | index piece => .list [.text "index", .ofChars piece.text, .ofNat piece.start]

namespace Detail

/-- The captured texts. -/
def groups : Detail → Value
  | captured pieces => .list (pieces.map fun piece => .ofChars piece.text)
  | filter name text _ _ => .list [.ofChars name, .orNull (text.map .ofChars)]
  | call name text _ => .list [.ofChars name, .ofChars text]
  | path base segments =>
    let kind := match segments.getLast? with
      | some (.index _) => "array"
      | _ => "property"
    .list [.ofChars base, .text kind]

/-- What else is known of the parts. -/
def extra : Detail → Value
  | captured pieces => .dict [("group_starts", .list (pieces.map fun piece => .ofNat piece.start))]
  | filter _ _ arguments garbage =>
    .dict [("args", .list (arguments.map (·.toDocument))), ("garbage", .ofChars garbage)]
  | call _ _ arguments => .dict [("args", .list (arguments.map (·.toDocument)))]
  | path _ segments => .dict [("segments", .list (segments.map (·.toDocument)))]

end Detail

namespace Match

def fields (m : Match) : List (String × Value) := [
  ("category", .text m.category.label), ("text", .ofChars m.text), ("groups", m.detail.groups),
  ("start", .ofNat m.start), ("end", .ofNat m.stop)]

def toDocument (m : Match) : Value := .dict m.fields

def toFullDocument (m : Match) : Value := .dict (m.fields ++ [("extra", m.detail.extra)])

end Match

namespace Recognition

/-- Something of each list of matches, by the name of the list. -/
def perField (r : Recognition) (f : List Match → Value) : Value :=
  .dict (r.fields.map fun entry => (entry.1, f entry.2))

def summary (r : Recognition) : Value := r.perField fun list => .ofNat list.length

def toDocument (r : Recognition) : Value := r.perField fun list => .list (list.map (·.toDocument))

def extras (r : Recognition) : Value := r.perField fun list => .list (list.map (·.detail.extra))

end Recognition
end Stencil.Markup
