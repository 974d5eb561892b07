import Reindent.Text.Blank
import Reindent.Text.Cut

/-!
# XML fragments

XML is cut in front of every tag and every namespace attribute, after the blanks between tags are
dropped.
-/

namespace Reindent.Xml

open Text

/-- Puts a character in front of a text in which no blanks stand between tags. -/
def consTight (c : Char) (s : List Char) : List Char :=
  if c = '>' then
    match s.dropWhile isBlank with
    | '<' :: r => '>' :: '<' :: r
    | _ => '>' :: s
  else c :: s

/-- Drops the blanks between a `>` and the next `<`. -/
def closeGaps (s : List Char) : List Char :=
  s.foldr consTight []

/-- Whether a text starts with something that starts a fragment. -/
def startsFragment (s : List Char) : Bool :=
  ['<'].isPrefixOf s || ['x', 'm', 'l', 'n', 's', ':'].isPrefixOf s ||
    ['x', 'm', 'l', 'n', 's', '='].isPrefixOf s

/-- The fragments of a text. The first one holds what stands before the first boundary. -/
def split (s : List Char) : List (List Char) :=
  cutBefore startsFragment (closeGaps s)

end Reindent.Xml
