import Reindent.Text.Quoted

/-!
# UTF-8

Texts as octets. Decoding reads one octet at a time and stops at the first one that no text can
have there; the fault says where the unfinished character began and what was wrong with it.
-/

namespace Reindent.Text

/-- The octets of a text. -/
def encodeUtf8 (s : List Char) : List UInt8 :=
  s.flatMap String.utf8EncodeChar

/-- Why octets are not a text. -/
inductive Utf8Cause where
  | invalidStart
  | invalidContinuation
  | unexpectedEnd
deriving DecidableEq, Repr

/-- A character that cannot be decoded: the octet it starts with and the positions from `start` up
to and without `stop`. -/
structure Utf8Fault where
  cause : Utf8Cause
  octet : UInt8
  start : Nat
  stop : Nat
deriving DecidableEq, Repr

/-- The wording of a cause. -/
def Utf8Cause.message : Utf8Cause → String
  | .invalidStart => "invalid start byte"
  | .invalidContinuation => "invalid continuation byte"
  | .unexpectedEnd => "unexpected end of data"

/-- The wording of a fault; one octet is shown, several are only counted. -/
def Utf8Fault.message (f : Utf8Fault) : String :=
  let cause := f.cause.message
  let octet := String.ofList (hexDigits 2 f.octet.toNat)
  let last := f.stop - 1
  if f.start = last then s!"'utf-8' codec can't decode byte 0x{octet} in position {last}: {cause}"
  else
    let first := f.start
    s!"'utf-8' codec can't decode bytes in position {first}-{last}: {cause}"

/-- A character of which `owed` octets are still to come, the next one between `low` and `high`. -/
structure PartialChar where
  first : UInt8
  start : Nat
  owed : Nat
  low : UInt8
  high : UInt8
  code : Nat
deriving DecidableEq, Repr

/-- What the first octet of a longer character promises. -/
def PartialChar.ofFirst? (b : UInt8) (start : Nat) : Option PartialChar :=
  if b < 0xC2 then none
  else if b < 0xE0 then some ⟨b, start, 1, 0x80, 0xBF, b.toNat - 0xC0⟩
  else if b = 0xE0 then some ⟨b, start, 2, 0xA0, 0xBF, 0⟩
  else if b = 0xED then some ⟨b, start, 2, 0x80, 0x9F, b.toNat - 0xE0⟩
  else if b < 0xF0 then some ⟨b, start, 2, 0x80, 0xBF, b.toNat - 0xE0⟩
  else if b = 0xF0 then some ⟨b, start, 3, 0x90, 0xBF, 0⟩
  else if b < 0xF4 then some ⟨b, start, 3, 0x80, 0xBF, b.toNat - 0xF0⟩
  else if b = 0xF4 then some ⟨b, start, 3, 0x80, 0x8F, b.toNat - 0xF0⟩
  else none

/-- Decodes the octets from position `pos` on; `pending` is the character under way and `done`
holds the characters read so far, the last one first. -/
def decodeFrom (pending : Option PartialChar) (pos : Nat) (done : List Char) :
    List UInt8 → Except Utf8Fault (List Char)
  | [] =>
    match pending with
    | none => .ok done.reverse
    | some p => .error ⟨.unexpectedEnd, p.first, p.start, pos⟩
  | b :: r =>
    match pending with
    | none =>
      if b < 0x80 then decodeFrom none (pos + 1) (Char.ofNat b.toNat :: done) r
      else
        match PartialChar.ofFirst? b pos with
        | none => .error ⟨.invalidStart, b, pos, pos + 1⟩
        | some p => decodeFrom (some p) (pos + 1) done r
    | some p =>
      if p.low ≤ b && b ≤ p.high then
        let code := 64 * p.code + (b.toNat - 0x80)
        if p.owed ≤ 1 then decodeFrom none (pos + 1) (Char.ofNat code :: done) r
        else decodeFrom (some ⟨p.first, p.start, p.owed - 1, 0x80, 0xBF, code⟩) (pos + 1) done r
      else .error ⟨.invalidContinuation, p.first, p.start, pos⟩

/-- The text that octets stand for. -/
def decodeUtf8 (octets : List UInt8) : Except Utf8Fault (List Char) :=
  decodeFrom none 0 [] octets

/-- Turns every line end to a line feed. -/
def unifyNewlines : List Char → List Char
  | [] => []
  | '\r' :: '\n' :: s => '\n' :: unifyNewlines s
  | c :: s => (if c = '\r' then '\n' else c) :: unifyNewlines s

end Reindent.Text
