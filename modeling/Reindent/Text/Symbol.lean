import Reindent.Text.Quoted

/-!
# Symbols

An escape in a JSON string can name one half of a surrogate pair alone. Such a half is no character
and cannot be written as UTF-8, but it is carried along until something is written.
-/

namespace Reindent.Text

/-- A position of a text that came from escapes: a character, or a lone half of a surrogate
pair. -/
inductive Symbol where
  | char (c : Char)
  | half (code : Nat)
deriving DecidableEq, Repr

/-- A text as symbols. -/
def symbols (s : List Char) : List Symbol :=
  s.map Symbol.char

/-- Whether a symbol is a lone half. -/
def Symbol.isHalf : Symbol → Bool
  | .char _ => false
  | .half _ => true

/-- The first run of lone halves in a text that is to be written: its first half, its position and
length. -/
structure LoneHalves where
  code : Nat
  start : Nat
  length : Nat
deriving DecidableEq, Repr

/-- The wording of the refusal to write lone halves; one half is shown, several are only
counted. -/
def LoneHalves.message (h : LoneHalves) : String :=
  let first := h.start
  if h.length = 1 then
    let code := String.ofList (hexDigits 4 h.code)
    s!"'utf-8' codec can't encode character '\\u{code}' in position {first}: " ++
      "surrogates not allowed"
  else
    let last := h.start + h.length - 1
    s!"'utf-8' codec can't encode characters in position {first}-{last}: surrogates not allowed"

/-- The characters of a text without lone halves; otherwise the first run of them, counted from
`pos`. -/
def charsFrom (pos : Nat) : List Symbol → Except LoneHalves (List Char)
  | [] => .ok []
  | .char c :: s => (charsFrom (pos + 1) s).map (c :: ·)
  | .half n :: s => .error ⟨n, pos, 1 + (s.takeWhile Symbol.isHalf).length⟩

/-- The characters of a text without lone halves. -/
def chars (s : List Symbol) : Except LoneHalves (List Char) :=
  charsFrom 0 s

end Reindent.Text
