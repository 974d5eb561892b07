import Reindent.Text.Blank
import Reindent.Text.Digit

/-!
# Integers in decimal notation

An integer is written with an optional sign and decimal digits of any script; single underscores
may stand between digits, and blanks around the whole. The information separators are not taken for
blanks here.
-/

namespace Reindent.Text

/-- The greatest number of digits that is read. -/
def maxDigits : Nat := 4300

/-- The wording for an integer with too many digits. -/
def overlongMessage (digits : Nat) : String :=
  s!"Exceeds the limit ({maxDigits} digits) for integer string conversion: " ++
    s!"value has {digits} digits; use sys.set_int_max_str_digits() to increase the limit"

/-- Blanks that may surround an integer. -/
def isMargin (c : Char) : Bool :=
  isBlank c && !(28 ≤ c.toNat && c.toNat ≤ 31)

/-- The digits of a sequence in which single underscores may stand between digits, each digit by
its value. -/
def digitsOf? : List Char → Option (List Nat)
  | [] => none
  | [c] => (digitValue? c).map fun d => [d]
  | c :: '_' :: s => do
    let d ← digitValue? c
    let ds ← digitsOf? s
    pure (d :: ds)
  | c :: s => do
    let d ← digitValue? c
    let ds ← digitsOf? s
    pure (d :: ds)

/-- The number that decimal digits stand for, the most significant one first. -/
def ofDigits (ds : List Nat) : Nat :=
  ds.foldl (fun n d => 10 * n + d) 0

/-- The natural number in a text of digits, if there are not too many. -/
def natural? (s : List Char) : Option Nat := do
  let ds ← digitsOf? s
  if ds.length ≤ maxDigits then pure (ofDigits ds) else none

/-- The integer that a text stands for. -/
def integer? (s : List Char) : Option Int :=
  match ((s.dropWhile isMargin).reverse.dropWhile isMargin).reverse with
  | '+' :: r => (natural? r).map fun n => (n : Int)
  | '-' :: r => (natural? r).map fun n => -(n : Int)
  | r => (natural? r).map fun n => (n : Int)

/-- A natural number in decimal digits. -/
def showNat (n : Nat) : List Char :=
  Nat.toDigits 10 n

/-- An integer in decimal digits, with a minus sign if it is negative. -/
def showInt (n : Int) : List Char :=
  if n < 0 then '-' :: showNat n.natAbs else showNat n.natAbs

end Reindent.Text
