import Reindent.Minify.Settle
import Reindent.Text.Pattern

/-!
# Minifying SQL

Runs of blanks become single spaces, and none is left in front of a parenthesis.
-/

namespace Reindent.Minify

open Text

/-- Leaves out the blanks in front of a character. -/
def closeUp (x : Char) : Substitution :=
  ⟨[.blanks1, .char x], [x]⟩

/-- The substitutions of a pass, in order. -/
def sqlRules : List Substitution := [
  .oneSpace,
  closeUp '(',
  closeUp ')']

/-- One pass over SQL. -/
def sqlPass (s : List Char) : List Char :=
  Substitution.applyAll sqlRules s

/-- Minified SQL. -/
def sql (s : List Char) : List Char :=
  settle sqlPass s

end Reindent.Minify
