import Reindent.Minify.Settle
import Reindent.Text.Pattern

/-!
# Minifying JSON

Blanks next to brackets, braces, commas, colons and quotes are dropped. The substitutions look at
single characters and do not know where strings begin and end.
-/

namespace Reindent.Minify

open Text

/-- Drops the blanks between two characters. -/
def closeBetween (x y : Char) : Substitution :=
  ⟨[.char x, .blanks, .char y], [x, y]⟩

/-- Drops the blanks around an opening brace, if there are any behind it. -/
def closeOpenBrace : Substitution :=
  ⟨[.blanks, .char '\x7b', .blanks1], ['\x7b']⟩

/-- Drops the blanks in front of an opening bracket at the end. -/
def closeLastBracket : Substitution :=
  ⟨[.blanks, .char '[', .textEnd], ['[']⟩

/-- Drops the blanks behind an opening bracket. -/
def closeOpenBracket : Substitution :=
  ⟨[.char '[', .blanks], ['[']⟩

/-- Drops the blanks around a closing brace, if there are any in front of it. -/
def closeCloseBrace : Substitution :=
  ⟨[.blanks1, .char '\x7d', .blanks], ['\x7d']⟩

/-- Drops the blanks around a closing bracket. -/
def closeCloseBracket : Substitution :=
  ⟨[.blanks, .char ']', .blanks], [']']⟩

/-- Leaves one space of several blanks behind a comma. -/
def closeComma : Substitution :=
  ⟨[.char ',', .one isBlank, .blanks1], [',', ' ']⟩

/-- Drops the blanks between two lists. -/
def closeLists : Substitution :=
  ⟨[.char ']', .blanks, .char ',', .blanks, .char '['], [']', ',', '[']⟩

/-- The substitutions of a pass, in order. -/
def jsonRules : List Substitution := [
  closeOpenBrace,
  closeLastBracket,
  closeOpenBracket,
  closeBetween ':' '[',
  closeCloseBrace,
  closeCloseBracket,
  closeBetween '"' ',',
  closeBetween ',' '"',
  closeBetween '"' ':',
  closeBetween ':' '"',
  closeBetween ':' '[',
  closeBetween ',' '[',
  closeComma,
  closeLists]

/-- One pass over JSON. -/
def jsonPass (s : List Char) : List Char :=
  Substitution.applyAll jsonRules s

/-- Minified JSON. -/
def json (s : List Char) : List Char :=
  settle jsonPass s

end Reindent.Minify
