import Reindent.Text.Blank
import Reindent.Text.Word

/-!
# Patterns and substitutions

A pattern is a sequence of parts, each a class of characters taken once, any number of times or at
least once, or a condition on what follows. A repeated part takes as many characters as it can and
gives some back only if the rest of the pattern would fail otherwise. A substitution replaces every
occurrence of a pattern, from the left, without overlaps.
-/

namespace Reindent.Text

/-- One part of a pattern. -/
inductive Part where
  /-- One character of a class. -/
  | one (ok : Char → Bool)
  /-- Any number of characters of a class. -/
  | many (ok : Char → Bool)
  /-- One or more characters of a class. -/
  | many1 (ok : Char → Bool)
  /-- Nothing, where no word character follows. -/
  | wordEnd
  /-- Nothing, at the end of the text. -/
  | textEnd

/-- A sequence of parts. -/
abbrev Pattern := List Part

namespace Pattern

/-- Takes characters of a class, as many as possible, and then what `next` takes. -/
def takeMany (ok : Char → Bool) (next : List Char → Option Nat) : List Char → Option Nat
  | [] => next []
  | c :: s =>
    if ok c then
      match takeMany ok next s with
      | some n => some (n + 1)
      | none => next (c :: s)
    else next (c :: s)

/-- The number of characters that the pattern takes at the start of a text. -/
def span? : Pattern → List Char → Option Nat
  | [], _ => some 0
  | .one _ :: _, [] => none
  | .one ok :: p, c :: s => if ok c then (span? p s).map (· + 1) else none
  | .many ok :: p, s => takeMany ok (span? p) s
  | .many1 _ :: _, [] => none
  | .many1 ok :: p, c :: s => if ok c then (takeMany ok (span? p) s).map (· + 1) else none
  | .wordEnd :: p, s => if startsWord s then none else span? p s
  | .textEnd :: p, s => if s.isEmpty then span? p s else none

end Pattern

/-- The character `c` itself. -/
def Part.char (c : Char) : Part := .one (· == c)

/-- Any number of blanks. -/
def Part.blanks : Part := .many isBlank

/-- At least one blank. -/
def Part.blanks1 : Part := .many1 isBlank

/-- A pattern and what is written in its place. -/
structure Substitution where
  pattern : Pattern
  replacement : List Char

/-- Leaves one space of every run of blanks. -/
def Substitution.oneSpace : Substitution :=
  ⟨[.blanks1], [' ']⟩

/-- Replaces in a text of which the first `skip` characters belong to an occurrence that was
replaced already. -/
def Substitution.applyFrom (r : Substitution) : Nat → List Char → List Char
  | _, [] => []
  | skip + 1, _ :: s => r.applyFrom skip s
  | 0, c :: s =>
    match r.pattern.span? (c :: s) with
    | some (n + 1) => r.replacement ++ r.applyFrom n s
    | _ => c :: r.applyFrom 0 s

/-- Replaces every occurrence of the pattern. -/
def Substitution.apply (r : Substitution) (s : List Char) : List Char :=
  r.applyFrom 0 s

/-- Applies substitutions one after the other. -/
def Substitution.applyAll (rs : List Substitution) (s : List Char) : List Char :=
  rs.foldl (fun s r => r.apply s) s

end Reindent.Text
