import Reindent.Json.Value
import Reindent.Text.Integer

/-!
# Writing JSON

A value is written with one item or member on a line, each level indented by one unit. Empty lists
and objects stay on their line. How many levels a value takes is told beside, since the machine
allows only so many.
-/

namespace Reindent.Json

open Text Decimal

/-- Floating-point numbers are written with the fewest digits, positionally for exponents from -4
to 15, and with an exponent of at least two digits otherwise. -/
def numberStyle : Style :=
  ⟨-4, 15, 2, ['N', 'a', 'N'], ['I', 'n', 'f', 'i', 'n', 'i', 't', 'y']⟩

/-- A character inside a string. Quotes, backslashes and control characters are escaped. -/
def writeChar (c : Char) : List Char :=
  if c = '"' then ['\\', '"']
  else if c = '\\' then ['\\', '\\']
  else if c = '\n' then ['\\', 'n']
  else if c = '\r' then ['\\', 'r']
  else if c = '\t' then ['\\', 't']
  else if c = '\x0c' then ['\\', 'f']
  else if c = '\x08' then ['\\', 'b']
  else if c.toNat < 0x20 then '\\' :: 'u' :: hexDigits 4 c.toNat
  else [c]

/-- A symbol inside a string. -/
def writeSymbol : Symbol → List Symbol
  | .char c => symbols (writeChar c)
  | .half n => [.half n]

/-- A string between quotes. -/
def writeString (s : List Symbol) : List Symbol :=
  .char '"' :: (s.flatMap writeSymbol ++ [.char '"'])

/-- A line end and the indentation of a level. -/
def newline (unit : List Char) (level : Nat) : List Symbol :=
  symbols ('\n' :: (List.replicate level unit).flatten)

mutual

/-- The text of a value whose line is indented by `level` units. -/
def write (unit : List Char) (level : Nat) : Json → List Symbol
  | .null => symbols ['n', 'u', 'l', 'l']
  | .bool true => symbols ['t', 'r', 'u', 'e']
  | .bool false => symbols ['f', 'a', 'l', 's', 'e']
  | .int n => symbols (showInt n)
  | .real x => symbols (x.render numberStyle)
  | .text s => writeString s
  | .list [] => symbols ['[', ']']
  | .list (item :: items) =>
    .char '[' :: (newline unit (level + 1) ++ write unit (level + 1) item ++
      writeItems unit (level + 1) items ++ newline unit level ++ [.char ']'])
  | .object [] => symbols ['\x7b', '\x7d']
  | .object ((name, value) :: members) =>
    .char '\x7b' :: (newline unit (level + 1) ++ writeString name ++ symbols [':', ' '] ++
      write unit (level + 1) value ++ writeMembers unit (level + 1) members ++
        newline unit level ++
      [.char '\x7d'])

/-- The items after the first, each after a comma on a line of its own. -/
def writeItems (unit : List Char) (level : Nat) : List Json → List Symbol
  | [] => []
  | item :: items =>
    .char ',' :: (newline unit level ++ write unit level item ++ writeItems unit level items)

/-- The members after the first, each after a comma on a line of its own. -/
def writeMembers (unit : List Char) (level : Nat) : List (List Symbol × Json) → List Symbol
  | [] => []
  | (name, value) :: members =>
    .char ',' :: (newline unit level ++ writeString name ++ symbols [':', ' '] ++
      write unit level value ++ writeMembers unit level members)

end

/-! ## Levels -/

mutual

/-- The levels that writing a value takes: one for each list or object around others, and one for
a floating-point number. -/
def levels : Json → Nat
  | .real _ => 1
  | .list (item :: items) => max (levels item) (itemLevels items) + 1
  | .object ((_, value) :: members) => max (levels value) (memberLevels members) + 1
  | _ => 0

/-- The levels that the deepest of some items takes. -/
def itemLevels : List Json → Nat
  | [] => 0
  | item :: items => max (levels item) (itemLevels items)

/-- The levels that the deepest of some members takes. -/
def memberLevels : List (List Symbol × Json) → Nat
  | [] => 0
  | (_, value) :: members => max (levels value) (memberLevels members)

end

end Reindent.Json
