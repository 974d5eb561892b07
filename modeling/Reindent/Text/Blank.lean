/-!
# Blanks

Which characters count as blank, and the operations that treat a run of blanks as one thing:
collapsing every run to a single space, stripping both ends, deleting all of them.
-/

namespace Reindent.Text

/-- Blank characters: the control characters that move the print position, the four information
separators, the space, and the spaces and line separators beyond ASCII. -/
def isBlank (c : Char) : Bool :=
  let n := c.toNat
  (9 ≤ n && n ≤ 13) || (28 ≤ n && n ≤ 32) || n == 0x85 || n == 0xA0 || n == 0x1680 ||
    (0x2000 ≤ n && n ≤ 0x200A) || n == 0x2028 || n == 0x2029 || n == 0x202F || n == 0x205F ||
    n == 0x3000

/-- Puts a character in front of a text whose blank runs are single spaces already. -/
def consCollapsed (c : Char) (s : List Char) : List Char :=
  if isBlank c then
    match s with
    | ' ' :: _ => s
    | _ => ' ' :: s
  else c :: s

/-- Replaces every maximal run of blanks by one space. -/
def collapse (s : List Char) : List Char :=
  s.foldr consCollapsed []

/-- Drops the blanks at both ends. -/
def strip (s : List Char) : List Char :=
  ((s.dropWhile isBlank).reverse.dropWhile isBlank).reverse

/-- Deletes every blank. -/
def deleteBlanks (s : List Char) : List Char :=
  s.filter fun c => !isBlank c

end Reindent.Text
