/-!
# Binary floating-point numbers

Numbers with a significand of 53 bits and an exponent of two, in exact integer arithmetic: a finite
number is `± significand · 2 ^ exponent`. A ratio is rounded to the nearest one, a tie to the even
significand.
-/

namespace Reindent.Decimal

/-- A binary floating-point number of 64 bits. -/
inductive Binary64 where
  | nan
  | infinite (negative : Bool)
  | finite (negative : Bool) (significand : Nat) (exponent : Int)
deriving DecidableEq, Repr

namespace Binary64

/-- The exponent of the numbers nearest to zero. -/
def minExponent : Int := -1074

/-- The greatest exponent. -/
def maxExponent : Int := 971

/-- The least significand of 53 bits. -/
def leastNormal : Nat := 4503599627370496

/-- Zero with a sign. -/
def zero (negative : Bool) : Binary64 := .finite negative 0 minExponent

/-- The integer nearest to `num / den`, a tie going to the even one. -/
def roundDiv (num den : Nat) : Nat :=
  let q := num / den
  let r := num % den
  if 2 * r < den then q
  else if den < 2 * r then q + 1
  else if q % 2 = 0 then q else q + 1

/-- The greatest `e` with `2 ^ e ≤ num / den`, for positive `num` and `den`. -/
def log2Ratio (num den : Nat) : Int :=
  let e : Int := (num.log2 : Int) - (den.log2 : Int)
  let below : Bool :=
    if 0 ≤ e then decide (num < den * Nat.pow 2 e.toNat)
    else decide (num * Nat.pow 2 (-e).toNat < den)
  if below then e - 1 else e

/-- The number nearest to `± num / den`. -/
def ofRatio (negative : Bool) (num den : Nat) : Binary64 :=
  if num = 0 then zero negative
  else
    let q := max (log2Ratio num den - 52) minExponent
    let m := if 0 ≤ q then roundDiv num (den * Nat.pow 2 q.toNat)
      else roundDiv (num * Nat.pow 2 (-q).toNat) den
    let (m, q) := if m = 2 * leastNormal then (leastNormal, q + 1) else (m, q)
    if maxExponent < q then .infinite negative
    else if m = 0 then zero negative
    else .finite negative m q

/-- The number nearest to `± digits · 10 ^ exponent`. Exponents far beyond the range are settled at
once. -/
def ofDecimal (negative : Bool) (digits : Nat) (exponent : Int) : Binary64 :=
  if digits = 0 then zero negative
  else
    let places : Int := exponent + ((Nat.toDigits 10 digits).length : Int)
    if 310 < places then .infinite negative
    else if places < -330 then zero negative
    else if 0 ≤ exponent then ofRatio negative (digits * Nat.pow 10 exponent.toNat) 1
    else ofRatio negative digits (Nat.pow 10 (-exponent).toNat)

end Binary64

end Reindent.Decimal
