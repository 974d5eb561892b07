import Reindent.Text.LowerCase

/-!
# Letters in whatever case

Two characters are one letter if they have the same small form, or small forms that share a
capital.
-/

namespace Reindent.Text

/-- Small letters that share their capital with another one, each with the first of those. -/
def sharedCapitals : List (Nat × Nat) := [
  (0x131, 0x69), (0x17F, 0x73), (0x3B9, 0x345), (0x3BC, 0xB5), (0x3C3, 0x3C2), (0x3D0, 0x3B2),
  (0x3D1, 0x3B8), (0x3D5, 0x3C6), (0x3D6, 0x3C0), (0x3F0, 0x3BA), (0x3F1, 0x3C1), (0x3F5, 0x3B5),
  (0x1C80, 0x432), (0x1C81, 0x434), (0x1C82, 0x43E), (0x1C83, 0x441), (0x1C84, 0x442),
  (0x1C85, 0x442),
  (0x1C86, 0x44A), (0x1C87, 0x463), (0x1E9B, 0x1E61), (0x1FBE, 0x345), (0x1FD3, 0x390),
  (0x1FE3, 0x3B0),
  (0xA64B, 0x1C88), (0xFB06, 0xFB05)]

/-- The small form of a character: that of the dotted capital I is the plain small letter. -/
def smallForm (c : Char) : Char :=
  if c.toNat < 0x80 then c.toLower
  else if c.toNat = 0x130 then 'i'
  else lowerChar c

/-- The character that stands for a letter in all its forms. -/
def letterOf (c : Char) : Char :=
  let small := smallForm c
  match sharedCapitals.lookup small.toNat with
  | some n => Char.ofNat n
  | none => small

/-- Whether two characters are one letter. In ASCII only letters have other forms. -/
def sameLetter (a b : Char) : Bool :=
  if a.toNat < 0x80 && !a.isAlpha then a == b else letterOf a == letterOf b

end Reindent.Text
