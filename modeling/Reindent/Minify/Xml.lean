import Reindent.Minify.Settle
import Reindent.Xml.Split

/-!
# Minifying XML

Comments and the blanks between tags are dropped. A comment starts with `<!` and two dashes,
possibly with blanks between, and goes on over characters other than a dash and over single dashes
with the character after them; the first two dashes after that must end it.
-/

namespace Reindent.Minify

/-- Blanks that may stand in the delimiters of a comment. -/
def isCommentBlank (c : Char) : Bool :=
  c == ' ' || c == '\r' || c == '\n' || c == '\t'

/-- The number of characters up to the end of a comment whose body starts here. -/
def xmlCommentBody? : List Char → Option Nat
  | [] => none
  | '-' :: '-' :: s =>
    match s.dropWhile isCommentBlank with
    | '>' :: _ => some (3 + (s.takeWhile isCommentBlank).length)
    | _ => none
  | '-' :: _ :: s => (xmlCommentBody? s).map (· + 2)
  | '-' :: [] => none
  | _ :: s => (xmlCommentBody? s).map (· + 1)

/-- The length of the comment at the start of a text. -/
def xmlComment? : List Char → Option Nat
  | '<' :: '!' :: s =>
    match s.dropWhile isCommentBlank with
    | '-' :: '-' :: r => (xmlCommentBody? r).map (· + 4 + (s.takeWhile isCommentBlank).length)
    | _ => none
  | _ => none

/-- Drops every occurrence of what `find?` measures at the start of a text; the first `skip`
characters belong to an occurrence that is being dropped. -/
def dropFound (find? : List Char → Option Nat) : Nat → List Char → List Char
  | _, [] => []
  | skip + 1, _ :: s => dropFound find? skip s
  | 0, c :: s =>
    match find? (c :: s) with
    | some (n + 1) => dropFound find? n s
    | _ => c :: dropFound find? 0 s

/-- One pass over XML. -/
def xmlPass (preserveComments : Bool) (s : List Char) : List Char :=
  Xml.closeGaps (if preserveComments then s else dropFound xmlComment? 0 s)

/-- Minified XML. -/
def xml (preserveComments : Bool) (s : List Char) : List Char :=
  settle (xmlPass preserveComments) s

end Reindent.Minify
