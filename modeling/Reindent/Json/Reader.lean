import Reindent.Json.Value
import Reindent.Text.Integer

/-!
# Reading JSON

A document is read from the left; the first thing that does not fit ends the reading, and its
position is told by line, column and offset. Beside the standard grammar the names of the special
numbers are read. An integer with too many digits is refused with an error of its own, and so are
values that nest deeper than the machine allows.
-/

namespace Reindent.Json

open Text Decimal

/-- What was wrong at some position of a document. -/
inductive Cause where
  | expectingValue
  | extraData
  | byteOrderMark
  | expectingName
  | expectingColon
  | expectingComma
  | unterminatedString
  | controlCharacter
  | invalidEscape
  | invalidUnicodeEscape
deriving DecidableEq, Repr

/-- What is wrong with a document, and the number of characters left there. -/
structure Fault where
  cause : Cause
  left : Nat
deriving DecidableEq, Repr

/-- Why reading stopped. -/
inductive Stop where
  /-- Something is wrong, which is reported once the reading has come back to its start. -/
  | fault (fault : Fault)
  /-- Something is wrong inside a value. It is reported at once, with so many levels left. -/
  | inner (fault : Fault) (room : Nat)
  /-- An integer has too many digits. -/
  | overlong (digits : Nat)
  /-- No level is left for a value. -/
  | tooDeep
deriving DecidableEq, Repr

/-- White space between tokens. -/
def isSpace (c : Char) : Bool :=
  c == ' ' || c == '\t' || c == '\n' || c == '\r'

/-- Drops the white space at the start. -/
def skipSpace (s : List Char) : List Char :=
  s.dropWhile isSpace

/-- The rest of a text after `lead`, if it starts so. -/
def after? : List Char → List Char → Option (List Char)
  | [], s => some s
  | _ :: _, [] => none
  | a :: lead, c :: s => if a = c then after? lead s else none

/-! ## Strings -/

/-- The value of a hexadecimal digit. -/
def hexValue? (c : Char) : Option Nat :=
  if '0' ≤ c && c ≤ '9' then some (c.toNat - 48)
  else if 'a' ≤ c && c ≤ 'f' then some (c.toNat - 87)
  else if 'A' ≤ c && c ≤ 'F' then some (c.toNat - 55)
  else none

/-- The number that four hexadecimal digits stand for. -/
def hexValue4? (a b c d : Char) : Option Nat := do
  let a ← hexValue? a
  let b ← hexValue? b
  let c ← hexValue? c
  let d ← hexValue? d
  pure (((a * 16 + b) * 16 + c) * 16 + d)

/-- The first half of a surrogate pair. -/
def isHighHalf (n : Nat) : Bool := 0xD800 ≤ n && n ≤ 0xDBFF

/-- The second half of a surrogate pair. -/
def isLowHalf (n : Nat) : Bool := 0xDC00 ≤ n && n ≤ 0xDFFF

/-- The symbol of an escaped code unit. -/
def unitSymbol (n : Nat) : Symbol :=
  if isHighHalf n || isLowHalf n then .half n else .char (Char.ofNat n)

/-- The character of a surrogate pair. -/
def pairSymbol (high low : Nat) : Symbol :=
  .char (Char.ofNat (0x10000 + (high - 0xD800) * 0x400 + (low - 0xDC00)))

/-- The character of a one-letter escape. -/
def shortEscape? (c : Char) : Option Char :=
  if c = '"' || c = '\\' || c = '/' then some c
  else if c = 'b' then some '\x08'
  else if c = 'f' then some '\x0c'
  else if c = 'n' then some '\n'
  else if c = 'r' then some '\r'
  else if c = 't' then some '\t'
  else none

/-- Puts a symbol in front of a string; a first half joins with a second half that follows it. -/
def consJoined (x : Symbol) (s : List Symbol) : List Symbol :=
  match x, s with
  | .half n, .half m :: r =>
    if isHighHalf n && isLowHalf m then pairSymbol n m :: r else .half n :: .half m :: r
  | x, s => x :: s

/-- Puts a symbol in front of a string that was read. -/
def consSymbol (x : Symbol) (r : Except Fault (List Symbol × List Char)) :
    Except Fault (List Symbol × List Char) :=
  r.map fun (s, rest) => (consJoined x s, rest)

/-- Reads the rest of a string after its opening quote, at which `start` characters were left. -/
def readString (start : Nat) : List Char → Except Fault (List Symbol × List Char)
  | [] => .error ⟨.unterminatedString, start⟩
  | c :: s =>
    if c = '"' then .ok ([], s)
    else if c = '\\' then
      match s with
      | [] => .error ⟨.unterminatedString, start⟩
      | e :: r =>
        if e = 'u' then
          match r with
          | h1 :: h2 :: h3 :: h4 :: t =>
            match hexValue4? h1 h2 h3 h4 with
            | none => .error ⟨.invalidUnicodeEscape, t.length + 5⟩
            | some n =>
              if t.isEmpty then .error ⟨.invalidUnicodeEscape, 5⟩
              else consSymbol (unitSymbol n) (readString start t)
          | _ => .error ⟨.invalidUnicodeEscape, r.length + 1⟩
        else
          match shortEscape? e with
          | some x => consSymbol (.char x) (readString start r)
          | none => .error ⟨.invalidEscape, r.length + 2⟩
    else if c.toNat < 0x20 then .error ⟨.controlCharacter, s.length + 1⟩
    else consSymbol (.char c) (readString start s)

/-! ## Numbers -/

/-- A decimal digit of JSON. -/
def isDigit (c : Char) : Bool := '0' ≤ c && c ≤ '9'

/-- The number that digits stand for. -/
def digitsValue (ds : List Char) : Nat :=
  ofDigits (ds.map fun c => c.toNat - 48)

/-- The digits in front of the point: a zero alone, or digits that do not start with zero. -/
def readWhole? : List Char → Option (List Char × List Char)
  | [] => none
  | c :: s =>
    if c = '0' then some (['0'], s)
    else if isDigit c then some (c :: s.takeWhile isDigit, s.dropWhile isDigit)
    else none

/-- The digits behind the point, none if no digit follows the point. -/
def readFraction : List Char → List Char × List Char
  | '.' :: s =>
    match s.takeWhile isDigit with
    | [] => ([], '.' :: s)
    | ds => (ds, s.dropWhile isDigit)
  | s => ([], s)

/-- Whether a minus stands at the start, and what follows the sign if there is one. -/
def readSign : List Char → Bool × List Char
  | '-' :: s => (true, s)
  | '+' :: s => (false, s)
  | s => (false, s)

/-- The exponent, if its mark is followed by digits with or without a sign. -/
def readExponent : List Char → Option Int × List Char
  | [] => (none, [])
  | e :: s =>
    if e = 'e' || e = 'E' then
      let (negative, r) := readSign s
      match r.takeWhile isDigit with
      | [] => (none, e :: s)
      | ds =>
        let n : Int := digitsValue ds
        (some (if negative then -n else n), r.dropWhile isDigit)
    else (none, e :: s)

/-- Reads a number without its sign. -/
def readUnsigned (negative : Bool) (s : List Char) : Option (Except Stop (Json × List Char)) := do
  let (whole, s) ← readWhole? s
  let (fraction, s) := readFraction s
  let (exponent, s) := readExponent s
  if fraction.isEmpty && exponent.isNone then
    if maxDigits < whole.length then pure (.error (.overlong whole.length))
    else
      let n : Int := digitsValue whole
      pure (.ok (.int (if negative then -n else n), s))
  else
    let power := exponent.getD 0 - (fraction.length : Int)
    pure (.ok (.real (Binary64.ofDecimal negative (digitsValue (whole ++ fraction)) power), s))

/-- Reads a number, a named one included. -/
def readNumber (s : List Char) : Except Stop (Json × List Char) :=
  let missing : Except Stop (Json × List Char) := .error (.fault ⟨.expectingValue, s.length⟩)
  match s with
  | '-' :: r =>
    match after? ['I', 'n', 'f', 'i', 'n', 'i', 't', 'y'] r with
    | some rest => .ok (.real (.infinite true), rest)
    | none => (readUnsigned true r).getD missing
  | _ => (readUnsigned false s).getD missing

/-! ## Documents -/

/-- The values that are written as a name. -/
def names : List (List Char × Json) :=
  [(['n', 'u', 'l', 'l'], .null), (['t', 'r', 'u', 'e'], .bool true),
    (['f', 'a', 'l', 's', 'e'], .bool false), (['N', 'a', 'N'], .real .nan),
    (['I', 'n', 'f', 'i', 'n', 'i', 't', 'y'], .real (.infinite false))]

/-- Reads a value that is written as a name. -/
def readName? (s : List Char) : Option (Json × List Char) :=
  names.findSome? fun (name, value) => (after? name s).map fun rest => (value, rest)

/-- Reads a name or a number. -/
def readScalar (s : List Char) : Except Stop (Json × List Char) :=
  match readName? s with
  | some found => .ok found
  | none => readNumber s

/-- The numbers that are written as names. -/
def numberNames : List (List Char) :=
  [['N', 'a', 'N'], ['I', 'n', 'f', 'i', 'n', 'i', 't', 'y'],
    ['-', 'I', 'n', 'f', 'i', 'n', 'i', 't', 'y']]

/-- Whether a text starts with the name of a number, which takes a level of its own. -/
def isNumberName (s : List Char) : Bool :=
  numberNames.any fun name => name.isPrefixOf s

mutual

/-- Reads the value at the start of a text. The first argument bounds the steps; twice the length
of the text and one is enough, since an opening bracket takes two steps. The second one is the
number of levels that are left; a list or an object takes one of them. -/
def readValue : Nat → Nat → List Char → Except Stop (Json × List Char)
  | 0, _, s => .error (.fault ⟨.expectingValue, s.length⟩)
  | fuel + 1, room, s =>
    match s with
    | '"' :: r =>
      ((readString s.length r).map fun (t, rest) => (.text t, rest)).mapError (.inner · room)
    | '{' :: r =>
      if room = 0 then .error .tooDeep
      else
        match skipSpace r with
        | '}' :: rest => .ok (.object [], rest)
        | r => readMembers fuel (room - 1) [] r
    | '[' :: r =>
      if room = 0 then .error .tooDeep
      else
        match skipSpace r with
        | ']' :: rest => .ok (.list [], rest)
        | r => readItems fuel (room - 1) [] r
    | _ => if room = 0 && isNumberName s then .error .tooDeep else readScalar s

/-- Reads the members of an object from a name on. -/
def readMembers :
    Nat → Nat → List (List Symbol × Json) → List Char → Except Stop (Json × List Char)
  | 0, _, _, s => .error (.fault ⟨.expectingName, s.length⟩)
  | fuel + 1, room, members, s =>
    match s with
    | '"' :: r => do
      let (name, r) ← (readString s.length r).mapError (.inner · room)
      match skipSpace r with
      | ':' :: r => do
        let (value, r) ← readValue fuel room (skipSpace r)
        let members := putMember name value members
        match skipSpace r with
        | '}' :: rest => pure (.object members, rest)
        | ',' :: r => readMembers fuel room members (skipSpace r)
        | r => .error (.inner ⟨.expectingComma, r.length⟩ room)
      | r => .error (.inner ⟨.expectingColon, r.length⟩ room)
    | _ => .error (.inner ⟨.expectingName, s.length⟩ room)

/-- Reads the items of a list; `done` holds those read so far, the last one first. -/
def readItems : Nat → Nat → List Json → List Char → Except Stop (Json × List Char)
  | 0, _, _, s => .error (.fault ⟨.expectingValue, s.length⟩)
  | fuel + 1, room, done, s => do
    let (value, r) ← readValue fuel room s
    match skipSpace r with
    | ']' :: rest => pure (.list (value :: done).reverse, rest)
    | ',' :: r => readItems fuel room (value :: done) (skipSpace r)
    | r => .error (.inner ⟨.expectingComma, r.length⟩ room)

end

/-- Reads a whole document, to so many levels. -/
def readDocument (room : Nat) (s : List Char) : Except Stop Json :=
  if s.head? = some (Char.ofNat 0xFEFF) then .error (.fault ⟨.byteOrderMark, s.length⟩)
  else do
    let (value, rest) ← readValue (2 * s.length + 1) room (skipSpace s)
    match skipSpace rest with
    | [] => pure value
    | rest => .error (.fault ⟨.extraData, rest.length⟩)

/-! ## Errors -/

/-- Why a text is no JSON document. -/
inductive ReadError where
  /-- Something is wrong at an offset, which is in this line and column. -/
  | malformed (cause : Cause) (line column offset : Nat)
  /-- An integer has too many digits. -/
  | overlong (digits : Nat)
  /-- The values are nested too deeply. -/
  | tooDeep
deriving DecidableEq, Repr

/-- The position at which something is wrong with a text. -/
def ReadError.at (s : List Char) (fault : Fault) : ReadError :=
  let offset := s.length - fault.left
  let before := s.take offset
  .malformed fault.cause (before.count '\n' + 1)
    ((before.reverse.takeWhile (· ≠ '\n')).length + 1) offset

/-- The levels that the report of something wrong inside a value takes. -/
def reportLevels : Nat := 3

/-- The error that a stop comes to. -/
def Stop.error (s : List Char) : Stop → ReadError
  | .fault f => .at s f
  | .inner f room => if room < reportLevels then .tooDeep else .at s f
  | .overlong digits => .overlong digits
  | .tooDeep => .tooDeep

/-- The value of a JSON document that nests to so many levels. -/
def read (room : Nat) (s : List Char) : Except ReadError Json :=
  (readDocument room s).mapError (Stop.error s)

/-- The wording of a cause. -/
def Cause.message : Cause → String
  | .expectingValue => "Expecting value"
  | .extraData => "Extra data"
  | .byteOrderMark => "Unexpected UTF-8 BOM (decode using utf-8-sig)"
  | .expectingName => "Expecting property name enclosed in double quotes"
  | .expectingColon => "Expecting ':' delimiter"
  | .expectingComma => "Expecting ',' delimiter"
  | .unterminatedString => "Unterminated string starting at"
  | .controlCharacter => "Invalid control character at"
  | .invalidEscape => "Invalid \\escape"
  | .invalidUnicodeEscape => "Invalid \\uXXXX escape"

end Reindent.Json
