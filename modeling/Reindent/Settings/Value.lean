import Reindent.Decimal.Notation
import Reindent.Text.Integer

/-!
# Values of settings

A setting may be given a value of any type; whether the type is right is checked later. Dates and
times come from configuration files.
-/

namespace Reindent.Settings

open Text Decimal

/-- A day of the calendar. -/
structure Date where
  year : Nat
  month : Nat
  day : Nat
deriving DecidableEq, Repr

/-- A time of day, to the microsecond. -/
structure Time where
  hour : Nat
  minute : Nat
  second : Nat
  microsecond : Nat
deriving DecidableEq, Repr

/-- The value of a setting. -/
inductive Value where
  | null
  | bool (value : Bool)
  | int (value : Int)
  | real (value : Binary64)
  | text (value : List Char)
  | list (items : List Value)
  | table (entries : List (List Char × Value))
  | date (date : Date)
  | time (time : Time)
  /-- A moment, with its offset from universal time in minutes if it has one. -/
  | moment (date : Date) (time : Time) (offset : Option Int)
deriving Inhabited

/-- The last `width` decimal digits of a number. -/
def padded : Nat → Nat → List Char
  | 0, _ => []
  | width + 1, n => padded width (n / 10) ++ [Char.ofNat (48 + n % 10)]

/-- A day in year, month and day. -/
def Date.render (d : Date) : List Char :=
  padded 4 d.year ++ '-' :: (padded 2 d.month ++ '-' :: padded 2 d.day)

/-- A time of day; a fraction of a second is shown in six digits, and not at all when it is
zero. -/
def Time.render (t : Time) : List Char :=
  padded 2 t.hour ++ ':' :: (padded 2 t.minute ++ ':' :: padded 2 t.second) ++
    if t.microsecond = 0 then [] else '.' :: padded 6 t.microsecond

/-- An offset from universal time in hours and minutes. -/
def renderOffset (minutes : Int) : List Char :=
  (if minutes < 0 then '-' else '+') ::
    (padded 2 (minutes.natAbs / 60) ++ ':' :: padded 2 (minutes.natAbs % 60))

/-- A moment, the day and the time divided by a letter. -/
def renderMoment (d : Date) (t : Time) (offset : Option Int) : List Char :=
  d.render ++ 'T' :: t.render ++ (offset.map renderOffset).getD []

/-- Floating-point numbers in settings. -/
def numberStyle : Style :=
  ⟨-4, 15, 2, ['n', 'a', 'n'], ['i', 'n', 'f']⟩

end Reindent.Settings
