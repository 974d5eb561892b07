import Reindent.Minify.Xml
import Reindent.Text.Pattern

/-!
# Minifying CSS

Comments are dropped, runs of blanks become single spaces, and no blank is left at the ends or
after braces, semicolons and the delimiters of comments.
-/

namespace Reindent.Minify

open Text

/-- The number of characters up to the end of a comment whose body starts here. -/
def cssCommentBody? : List Char → Option Nat
  | [] => none
  | c :: s => if c = '*' && s.head? == some '/' then some 2 else (cssCommentBody? s).map (· + 1)

/-- The length of the comment at the start of a text. -/
def cssComment? : List Char → Option Nat
  | '/' :: '*' :: s => (cssCommentBody? s).map (· + 2)
  | _ => none

/-- Leaves out the blanks behind a text. -/
def trimBehind (front : List Char) : Substitution :=
  ⟨front.map .char ++ [.blanks1], front⟩

/-- The substitutions of a pass, in order. -/
def cssRules : List Substitution := [
  .oneSpace,
  trimBehind ['\x7b'],
  trimBehind ['\x7d'],
  trimBehind [';'],
  trimBehind ['/', '*'],
  trimBehind ['*', '/']]

/-- One pass over CSS. -/
def cssPass (preserveComments : Bool) (s : List Char) : List Char :=
  strip (Substitution.applyAll cssRules
    (if preserveComments then s else dropFound cssComment? 0 s))

/-- Minified CSS. -/
def css (preserveComments : Bool) (s : List Char) : List Char :=
  settle (cssPass preserveComments) s

end Reindent.Minify
