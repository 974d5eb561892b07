import Reindent.Text.Blank

/-!
# Settling

A minifying pass is repeated until it changes nothing. A pass that changes a text makes it lighter,
so the weight of the text bounds the number of passes.
-/

namespace Reindent.Minify

open Text

/-- The length of a text, with every blank other than the space counted twice. -/
def weight (s : List Char) : Nat :=
  s.length + s.countP fun c => isBlank c && c != ' '

/-- Repeats a pass until it changes nothing, at most `fuel` times. -/
def settleWithin (pass : List Char → List Char) : Nat → List Char → List Char
  | 0, s => s
  | fuel + 1, s =>
    let t := pass s
    if t = s then s else settleWithin pass fuel t

/-- Repeats a pass until it changes nothing. -/
def settle (pass : List Char → List Char) (s : List Char) : List Char :=
  settleWithin pass (weight s + 1) s

end Reindent.Minify
