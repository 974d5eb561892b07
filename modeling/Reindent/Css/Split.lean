import Reindent.Error
import Reindent.Marker
import Reindent.Text.Cut
import Reindent.Text.Pattern

/-!
# CSS fragments

A style sheet is cut after every opening brace and semicolon and around closing braces and
comments.
-/

namespace Reindent.Css

open Text

/-- Puts a mark behind a character. -/
def markBehind (mark c : Char) : Substitution :=
  ⟨[.char c], [c, mark]⟩

/-- Puts marks on both sides of a character. -/
def markAround (mark c : Char) : Substitution :=
  ⟨[.char c], [mark, c, mark]⟩

/-- Puts a mark in front of opening delimiters of comments. -/
def markOpening (mark : Char) : Substitution :=
  ⟨[.char '/', .char '*'], [mark, '/', '*']⟩

/-- Puts a mark behind closing delimiters of comments. -/
def markClosing (mark : Char) : Substitution :=
  ⟨[.char '*', .char '/'], ['*', '/', mark]⟩

/-- Joins marks with only blanks between them. -/
def joinMarks (mark : Char) : Substitution :=
  ⟨[.char mark, .blanks, .char mark], [mark]⟩

/-- The substitutions that put marks at the boundaries. -/
def splitRules (mark : Char) : List Substitution := [
  .oneSpace,
  markBehind mark '\x7b',
  markAround mark '\x7d',
  markBehind mark ';',
  markOpening mark,
  markClosing mark,
  joinMarks mark]

/-- The fragments of a text, with a given mark. -/
def splitWith (mark : Char) (text : List Char) : List (List Char) :=
  splitOn mark (Substitution.applyAll (splitRules mark) text)

/-- The fragments of a text. -/
def split (text : List Char) : Except FormatError (List (List Char)) :=
  match Marker.pick? text with
  | some mark => .ok (splitWith mark text)
  | none => .error .noMarkLeft

end Reindent.Css
