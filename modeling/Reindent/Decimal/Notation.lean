import Reindent.Decimal.Shortest

/-!
# Notation of floating-point numbers

How the shortest digits of a number are laid out. What differs between the places that write
numbers is one record.
-/

namespace Reindent.Decimal

/-- Decisions on the notation of floating-point numbers. -/
structure Style where
  /-- The least exponent of ten that is written positionally. -/
  leastPositional : Int
  /-- The greatest exponent of ten that is written positionally. -/
  greatestPositional : Int
  /-- The least number of digits of a written exponent. -/
  exponentDigits : Nat
  /-- The text of what is no number. -/
  nan : List Char
  /-- The text of infinity, without a sign. -/
  infinity : List Char
deriving DecidableEq, Repr

/-- A number that is not negative, given its digits and the exponent of ten of the first one. -/
def layDigits (style : Style) (digits : List Char) (top : Int) : List Char :=
  if style.leastPositional ≤ top && top ≤ style.greatestPositional then
    if top < 0 then '0' :: '.' :: (List.replicate (-top - 1).toNat '0' ++ digits)
    else
      let whole := digits.take (top.toNat + 1)
      let rest := digits.drop (top.toNat + 1)
      whole ++ List.replicate (top.toNat + 1 - whole.length) '0' ++
        '.' :: (if rest.isEmpty then ['0'] else rest)
  else
    let shown := Nat.toDigits 10 top.natAbs
    let power := List.replicate (style.exponentDigits - shown.length) '0' ++ shown
    let sign := if top < 0 then '-' else '+'
    match digits with
    | [d] => d :: 'e' :: sign :: power
    | d :: ds => d :: '.' :: (ds ++ 'e' :: sign :: power)
    | [] => []

/-- The text of a number. -/
def Binary64.render (style : Style) : Binary64 → List Char
  | .nan => style.nan
  | .infinite negative => if negative then '-' :: style.infinity else style.infinity
  | .finite negative significand exponent =>
    let body :=
      if significand = 0 then layDigits style ['0'] 0
      else
        let (digits, place) := shortest significand exponent
        let shown := Nat.toDigits 10 digits
        layDigits style shown (place + (shown.length : Int) - 1)
    if negative then '-' :: body else body

end Reindent.Decimal
