import Std.Data.HashSet

/-!
# Boundary marks

A text is split by putting a mark at every boundary and cutting at the marks, so the mark must be a
character that the text does not hold. The null character is preferred; private-use characters
follow in the order of their code points.
-/

namespace Reindent.Marker

/-- The preferred mark. -/
def preferred : Char := Char.ofNat 0

/-- The private-use characters that serve when the preferred mark is taken: U+E000 to U+F8FF, then
U+F0000 to U+10FFFD. -/
def fallbacks : List Char :=
  (List.range' 0xE000 0x1900 ++ List.range' 0xF0000 0x1FFFE).map Char.ofNat

/-- The first candidate that does not occur in the text, if there is one. -/
def pick? (text : List Char) : Option Char :=
  if text.contains preferred then
    let used := Std.HashSet.ofList (text.map Char.toNat)
    fallbacks.find? fun c => !used.contains c.toNat
  else some preferred

end Reindent.Marker
