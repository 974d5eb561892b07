import Reindent.Decimal.Binary64

/-!
# Shortest decimals

The fewest decimal digits that read back as a given binary number; of several of that length the
nearest, and of two equally near the even one. The candidates of a length are the two neighbours of
the number on the grid of decimals of that length.
-/

namespace Reindent.Decimal

/-- The greatest `k` with `10 ^ k ≤ num / den`, for positive `num` and `den`. -/
def log10Ratio (num den : Nat) : Int :=
  if den ≤ num then ((Nat.toDigits 10 (num / den)).length : Int) - 1
  else
    Int.neg (Nat.toDigits 10 ((den + num - 1) / num - 1)).length

/-- The reals between `low / den` and `high / den`, with both ends or without them. -/
structure Interval where
  low : Nat
  high : Nat
  den : Nat
  closed : Bool
deriving DecidableEq, Repr

/-- Whether `digits · 10 ^ place` lies in the interval. -/
def Interval.holds (i : Interval) (digits : Nat) (place : Int) : Bool :=
  let x := if 0 ≤ place then digits * Nat.pow 10 place.toNat * i.den else digits * i.den
  let scale := if 0 ≤ place then 1 else Nat.pow 10 (-place).toNat
  if i.closed then i.low * scale ≤ x && x ≤ i.high * scale
  else i.low * scale < x && x < i.high * scale

/-- Of the neighbours `s` and `s + 1` of `num / den` on the grid of `10 ^ place`, the one to
write. -/
def nearestIn (i : Interval) (num den : Nat) (place : Int) : Option Nat :=
  let num' := if 0 ≤ place then num else num * Nat.pow 10 (-place).toNat
  let den' := if 0 ≤ place then den * Nat.pow 10 place.toNat else den
  let s := num' / den'
  let twice := 2 * (num' % den')
  match i.holds s place, i.holds (s + 1) place with
  | false, false => none
  | true, false => some s
  | false, true => some (s + 1)
  | true, true =>
    if twice < den' then some s
    else if den' < twice then some (s + 1)
    else if s % 2 = 0 then some s else some (s + 1)

/-- Tries lengths from `17 - fuel + 1` digits on; with seventeen digits there is always a hit. A
hit that ends in zero is the next power of ten. -/
def shortestFrom (i : Interval) (num den : Nat) (top : Int) : Nat → Nat × Int
  | 0 => (0, 0)
  | fuel + 1 =>
    let place := top - ((17 - (fuel + 1) : Nat) : Int)
    match nearestIn i num den place with
    | some digits => if digits % 10 = 0 then (digits / 10, place + 1) else (digits, place)
    | none => shortestFrom i num den top fuel

/-- The shortest decimal `digits · 10 ^ place` that reads back as `significand · 2 ^ exponent`, for
a positive significand. -/
def shortest (significand : Nat) (exponent : Int) : Nat × Int :=
  let e := exponent - 2
  let up := if 0 ≤ e then Nat.pow 2 e.toNat else 1
  let den := if 0 ≤ e then 1 else Nat.pow 2 (-e).toNat
  let below :=
    if significand = Binary64.leastNormal && exponent ≠ Binary64.minExponent then 1 else 2
  let i : Interval :=
    ⟨(4 * significand - below) * up, (4 * significand + 2) * up, den, significand % 2 == 0⟩
  let num := 4 * significand * up
  shortestFrom i num den (log10Ratio num den) 17

end Reindent.Decimal
