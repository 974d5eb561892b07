/-!
# Cutting texts

A text is split at a separator, which disappears, or cut in front of certain positions, which loses
nothing.
-/

namespace Reindent.Text

/-- Puts a character in front of the first piece. -/
def consFirst (c : Char) : List (List Char) → List (List Char)
  | [] => [[c]]
  | p :: ps => (c :: p) :: ps

/-- The pieces between the occurrences of a separator. -/
def splitOn (separator : Char) (s : List Char) : List (List Char) :=
  s.foldr (fun c ps => if c = separator then [] :: ps else consFirst c ps) [[]]

/-- Cuts in front of every position at which `starts` holds of the rest of the text. The first
piece is what stands in front of the first cut. -/
def cutBefore (starts : List Char → Bool) : List Char → List (List Char)
  | [] => [[]]
  | c :: s =>
    if starts (c :: s) then [] :: consFirst c (cutBefore starts s)
    else consFirst c (cutBefore starts s)

/-- Whether `part` occurs in a text. -/
def occurs (part : List Char) : List Char → Bool
  | [] => part.isEmpty
  | c :: s => part.isPrefixOf (c :: s) || occurs part s

end Reindent.Text
