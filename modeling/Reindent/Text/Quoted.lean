import Reindent.Text.Printable

/-!
# Quoted texts

How a text is shown inside a message: between quotes, with a backslash in front of the quote and of
a backslash, and with escapes for what cannot be printed.
-/

namespace Reindent.Text

/-- A hexadecimal digit, in lower case. -/
def hexDigit (n : Nat) : Char :=
  if n < 10 then Char.ofNat (48 + n) else Char.ofNat (87 + n)

/-- The last `width` hexadecimal digits of a number. -/
def hexDigits : Nat → Nat → List Char
  | 0, _ => []
  | width + 1, n => hexDigits width (n / 16) ++ [hexDigit (n % 16)]

/-- One character of a text quoted by `quote`. -/
def quotedChar (quote c : Char) : List Char :=
  if c = quote || c = '\\' then ['\\', c]
  else if c = '\n' then ['\\', 'n']
  else if c = '\r' then ['\\', 'r']
  else if c = '\t' then ['\\', 't']
  else if isPrintable c then [c]
  else if c.toNat < 0x100 then '\\' :: 'x' :: hexDigits 2 c.toNat
  else if c.toNat < 0x10000 then '\\' :: 'u' :: hexDigits 4 c.toNat
  else '\\' :: 'U' :: hexDigits 8 c.toNat

/-- The quote of a text: the single one, unless the text holds that one and not the double one. -/
def quoteOf (s : List Char) : Char :=
  if s.contains '\x27' && !s.contains '"' then '"' else '\x27'

/-- A text between quotes. -/
def quoted (s : List Char) : List Char :=
  quoteOf s :: (s.flatMap (quotedChar (quoteOf s)) ++ [quoteOf s])

end Reindent.Text
