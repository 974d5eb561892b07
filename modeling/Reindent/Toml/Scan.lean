import Reindent.Settings.Value

/-!
# Scalars of configuration files

Blanks and comments, strings, numbers, dates and times of TOML documents. A reader takes the start
of a text and gives what it read together with the rest.
-/

namespace Reindent.Toml

open Text Decimal Settings

/-- Why a text is no document. -/
inductive Error where
  | malformed
  /-- An integer has too many digits to be read. -/
  | overlong (digits : Nat)
  /-- Lists and tables are nested too deeply. -/
  | tooDeep
deriving DecidableEq, Repr

/-- Spaces and tabs. -/
def isSpace (c : Char) : Bool := c == ' ' || c == '\t'

/-- Spaces, tabs and line ends. -/
def isGap (c : Char) : Bool := isSpace c || c == '\n'

/-- Characters that may not stand in a text as they are; the tab may. -/
def isIllegal (c : Char) : Bool := (c.toNat < 32 && c != '\t') || c.toNat == 127

/-- Characters that may not stand in a text of several lines. -/
def isIllegalInLines (c : Char) : Bool := isIllegal c && c != '\n'

/-- Drops spaces and tabs. -/
def skipSpace (s : List Char) : List Char := s.dropWhile isSpace

/-- Drops a comment, up to the end of its line. -/
def skipComment (s : List Char) : Except Error (List Char) :=
  match s with
  | '#' :: r =>
    if (r.takeWhile (· ≠ '\n')).any isIllegal then .error .malformed
    else .ok (r.dropWhile (· ≠ '\n'))
  | _ => .ok s

/-- Drops blanks, line ends and comments, at most `fuel` of each. -/
def skipGapsWithin : Nat → List Char → Except Error (List Char)
  | 0, s => .ok s
  | fuel + 1, s => do
    let r ← skipComment (s.dropWhile isGap)
    if r.length = s.length then pure s else skipGapsWithin fuel r

/-- Drops blanks, line ends and comments. -/
def skipGaps (s : List Char) : Except Error (List Char) :=
  skipGapsWithin (s.length + 1) s

/-! ## Strings -/

/-- The rest of a literal string after its opening quote. -/
def readLiteral (s : List Char) : Except Error (List Char × List Char) :=
  let body := s.takeWhile (· ≠ '\x27')
  match s.dropWhile (· ≠ '\x27') with
  | [] => .error .malformed
  | _ :: rest => if body.any isIllegal then .error .malformed else .ok (body, rest)

/-- Up to two quotes that stand right after the three that end a string belong to the string. -/
def extraQuotes (quote : Char) (body rest : List Char) : List Char × List Char :=
  match rest with
  | a :: b :: r =>
    if a = quote then
      if b = quote then (body ++ [quote, quote], r) else (body ++ [quote], b :: r)
    else (body, rest)
  | [a] => if a = quote then (body ++ [quote], []) else (body, rest)
  | [] => (body, [])

/-- The rest of a literal string of several lines, up to three quotes. -/
def readLiteralLines : List Char → Except Error (List Char × List Char)
  | [] => .error .malformed
  | c :: s =>
    if ['\x27', '\x27', '\x27'].isPrefixOf (c :: s) then .ok ([], s.drop 2)
    else if isIllegalInLines c then .error .malformed
    else (readLiteralLines s).map fun (body, rest) => (c :: body, rest)

/-- The value of a hexadecimal digit. -/
def hexValue? (c : Char) : Option Nat :=
  if '0' ≤ c && c ≤ '9' then some (c.toNat - 48)
  else if 'a' ≤ c && c ≤ 'f' then some (c.toNat - 87)
  else if 'A' ≤ c && c ≤ 'F' then some (c.toNat - 55)
  else none

/-- The number that hexadecimal digits stand for. -/
def hexNumber? (ds : List Char) : Option Nat :=
  ds.foldl (fun n d => do
    let n ← n
    let d ← hexValue? d
    pure (16 * n + d)) (some 0)

/-- The character with the code point that `width` hexadecimal digits name. -/
def readCodePoint (width : Nat) (s : List Char) : Except Error (Char × List Char) :=
  let ds := s.take width
  if ds.length ≠ width then .error .malformed
  else
    match hexNumber? ds with
    | none => .error .malformed
    | some n => if n.isValidChar then .ok (Char.ofNat n, s.drop width) else .error .malformed

/-- The character of a one-letter escape. -/
def shortEscape? (c : Char) : Option Char :=
  if c = 'b' then some '\x08'
  else if c = 't' then some '\t'
  else if c = 'n' then some '\n'
  else if c = 'f' then some '\x0c'
  else if c = 'r' then some '\r'
  else if c = '"' || c = '\\' then some c
  else none

/-- What an escape stands for, read after its backslash: nothing for a line that is continued. -/
def readEscape (lines : Bool) (s : List Char) : Except Error (List Char × List Char) :=
  match s with
  | [] => .error .malformed
  | c :: r =>
    if lines && isGap c then
      if c = '\n' then .ok ([], r.dropWhile isGap)
      else
        match skipSpace r with
        | [] => .ok ([], [])
        | '\n' :: t => .ok ([], t.dropWhile isGap)
        | _ => .error .malformed
    else if c = 'u' then (readCodePoint 4 r).map fun (x, rest) => ([x], rest)
    else if c = 'U' then (readCodePoint 8 r).map fun (x, rest) => ([x], rest)
    else
      match shortEscape? c with
      | some x => .ok ([x], r)
      | none => .error .malformed

/-- The rest of a string with escapes, on one line or on several; the first argument bounds the
steps. -/
def readBasicWithin (lines : Bool) : Nat → List Char → Except Error (List Char × List Char)
  | 0, _ => .error .malformed
  | _ + 1, [] => .error .malformed
  | fuel + 1, c :: s =>
    if c = '"' && (!lines || ['"', '"'].isPrefixOf s) then
      .ok ([], if lines then s.drop 2 else s)
    else if c = '\\' then do
      let (x, r) ← readEscape lines s
      let (body, rest) ← readBasicWithin lines fuel r
      pure (x ++ body, rest)
    else if c ≠ '"' && (if lines then isIllegalInLines c else isIllegal c) then .error .malformed
    else (readBasicWithin lines fuel s).map fun (body, rest) => (c :: body, rest)

/-- The rest of a string with escapes. -/
def readBasic (lines : Bool) (s : List Char) : Except Error (List Char × List Char) :=
  readBasicWithin lines (s.length + 1) s

/-- Drops a line end at the start. -/
def dropNewline : List Char → List Char
  | '\n' :: s => s
  | s => s

/-- A string with or without escapes, on one line or on several, if the text starts with a
quote. -/
def readText? (s : List Char) : Option (Except Error (List Char × List Char)) :=
  match s with
  | '"' :: '"' :: '"' :: r => some <| do
    let (body, rest) ← readBasic true (dropNewline r)
    pure (extraQuotes '"' body rest)
  | '"' :: r => some (readBasic false r)
  | '\x27' :: '\x27' :: '\x27' :: r => some <| do
    let (body, rest) ← readLiteralLines (dropNewline r)
    pure (extraQuotes '\x27' body rest)
  | '\x27' :: r => some (readLiteral r)
  | _ => none

/-! ## Dates and times -/

/-- A decimal digit. -/
def isDigit (c : Char) : Bool := '0' ≤ c && c ≤ '9'

/-- The number that digits stand for. -/
def digitsValue (ds : List Char) : Nat :=
  ofDigits (ds.map fun c => c.toNat - 48)

/-- A number of exactly `width` digits that lies between two bounds. -/
def fixed? (width low high : Nat) (s : List Char) : Option (Nat × List Char) :=
  let ds := s.take width
  if ds.length = width && ds.all isDigit && low ≤ digitsValue ds && digitsValue ds ≤ high then
    some (digitsValue ds, s.drop width)
  else none

/-- The rest of a text after a character of a class. -/
def one? (ok : Char → Bool) : List Char → Option (List Char)
  | [] => none
  | c :: s => if ok c then some s else none

/-- A day as year, month and day, which need not exist. -/
def date? (s : List Char) : Option (Date × List Char) := do
  let (year, s) ← fixed? 4 0 9999 s
  let s ← one? (· == '-') s
  let (month, s) ← fixed? 2 1 12 s
  let s ← one? (· == '-') s
  let (day, s) ← fixed? 2 1 31 s
  pure (⟨year, month, day⟩, s)

/-- The microseconds behind the point of a second; further digits are dropped. -/
def fraction (s : List Char) : Nat × List Char :=
  match s with
  | '.' :: r =>
    match r.takeWhile isDigit with
    | [] => (0, s)
    | ds => (digitsValue ((ds ++ List.replicate 6 '0').take 6), r.dropWhile isDigit)
  | _ => (0, s)

/-- A time of day. -/
def time? (s : List Char) : Option (Time × List Char) := do
  let (hour, s) ← fixed? 2 0 23 s
  let s ← one? (· == ':') s
  let (minute, s) ← fixed? 2 0 59 s
  let s ← one? (· == ':') s
  let (second, s) ← fixed? 2 0 59 s
  let (microsecond, s) := fraction s
  pure (⟨hour, minute, second, microsecond⟩, s)

/-- An offset from universal time in minutes. -/
def offset? (s : List Char) : Option (Int × List Char) :=
  match s with
  | c :: r =>
    if c = 'Z' || c = 'z' then some (0, r)
    else if c = '+' || c = '-' then do
      let (hour, r) ← fixed? 2 0 23 r
      let r ← one? (· == ':') r
      let (minute, r) ← fixed? 2 0 59 r
      let n : Int := hour * 60 + minute
      pure (if c = '-' then -n else n, r)
    else none
  | [] => none

/-- The number of days of a month. -/
def daysIn (year month : Nat) : Nat :=
  if month = 2 then
    if year % 4 = 0 && (year % 100 ≠ 0 || year % 400 = 0) then 29 else 28
  else if month = 4 || month = 6 || month = 9 || month = 11 then 30
  else 31

/-- Whether a day exists. -/
def isRealDay (d : Date) : Bool :=
  1 ≤ d.year && d.day ≤ daysIn d.year d.month

/-- The time that follows a day, after a letter or a space. -/
def timeAfterDate? (s : List Char) : Option (Time × List Char) := do
  let s ← one? (fun c => c == 'T' || c == 't' || c == ' ') s
  time? s

/-- A day, a moment or a time of day, if the text starts with one. -/
def readMoment? (s : List Char) : Option (Except Error (Value × List Char)) :=
  match date? s with
  | some (d, s) =>
    if !isRealDay d then some (.error .malformed)
    else
      match timeAfterDate? s with
      | none => some (.ok (.date d, s))
      | some (t, s) =>
        match offset? s with
        | none => some (.ok (.moment d t none, s))
        | some (o, s) => some (.ok (.moment d t (some o), s))
  | none => (time? s).map fun (t, s) => .ok (.time t, s)

/-! ## Numbers -/

/-- Digits of a class, single underscores between them left out. -/
def moreDigits (ok : Char → Bool) : List Char → List Char × List Char
  | [] => ([], [])
  | [c] => if ok c then ([c], []) else ([], [c])
  | c :: d :: s =>
    if ok c then
      let (ds, rest) := moreDigits ok (d :: s)
      (c :: ds, rest)
    else if c = '_' && ok d then
      let (ds, rest) := moreDigits ok s
      (d :: ds, rest)
    else ([], c :: d :: s)

/-- At least one digit of a class. -/
def digits? (ok : Char → Bool) (s : List Char) : Option (List Char × List Char) :=
  match s with
  | [] => none
  | c :: r =>
    if ok c then
      let (ds, rest) := moreDigits ok r
      some (c :: ds, rest)
    else none

/-- An integer to the base sixteen, two or eight. -/
def basedInteger? (s : List Char) : Option (Int × List Char) := do
  let s ← one? (· == '0') s
  let (base, ok) ←
    match s.head? with
    | some 'x' => some (16, fun c => (hexValue? c).isSome)
    | some 'b' => some (2, fun c => c == '0' || c == '1')
    | some 'o' => some (8, fun c => '0' ≤ c && c ≤ '7')
    | _ => none
  let (ds, rest) ← digits? ok (s.drop 1)
  let n := ds.foldl (fun n d => base * n + (hexValue? d).getD 0) 0
  pure ((n : Int), rest)

/-- A sign, true for minus. -/
def readSign (s : List Char) : Bool × List Char :=
  match s with
  | '-' :: r => (true, r)
  | '+' :: r => (false, r)
  | _ => (false, s)

/-- The digits in front of the point: a zero alone, or digits that do not start with zero. -/
def whole? (s : List Char) : Option (List Char × List Char) :=
  match s with
  | '0' :: r => some (['0'], r)
  | _ => digits? isDigit s

/-- The digits behind the point. -/
def point? (s : List Char) : Option (List Char × List Char) := do
  let s ← one? (· == '.') s
  digits? isDigit s

/-- The exponent of ten. -/
def exponent? (s : List Char) : Option (Int × List Char) := do
  let s ← one? (fun c => c == 'e' || c == 'E') s
  let (negative, s) := readSign s
  let (ds, s) ← digits? isDigit s
  let n : Int := digitsValue ds
  pure (if negative then -n else n, s)

/-- A number in decimal digits. -/
def decimal? (s : List Char) : Option (Except Error (Value × List Char)) := do
  let (negative, s) := readSign s
  let (whole, s) ← whole? s
  let (behind, s, pointed) := match point? s with
    | some (ds, r) => (ds, r, true)
    | none => ([], s, false)
  let (power, s, raised) := match exponent? s with
    | some (n, r) => (n, r, true)
    | none => (0, s, false)
  if pointed || raised then
    pure (.ok (.real (Binary64.ofDecimal negative (digitsValue (whole ++ behind))
      (power - (behind.length : Int))), s))
  else if maxDigits < whole.length then pure (.error (.overlong whole.length))
  else
    let n : Int := digitsValue whole
    pure (.ok (.int (if negative then -n else n), s))

/-- A number that is written as a name, with or without a sign. -/
def namedNumber? (s : List Char) : Option (Value × List Char) :=
  let (negative, r) := readSign s
  match r with
  | 'i' :: 'n' :: 'f' :: rest => some (.real (.infinite negative), rest)
  | 'n' :: 'a' :: 'n' :: rest => some (.real .nan, rest)
  | _ => none

/-- A truth value. -/
def truth? (s : List Char) : Option (Value × List Char) :=
  match s with
  | 't' :: 'r' :: 'u' :: 'e' :: rest => some (.bool true, rest)
  | 'f' :: 'a' :: 'l' :: 's' :: 'e' :: rest => some (.bool false, rest)
  | _ => none

/-- A value that holds no other values. -/
def readScalar (s : List Char) : Except Error (Value × List Char) :=
  match readText? s with
  | some r => r.map fun (t, rest) => (.text t, rest)
  | none =>
    match truth? s with
    | some r => .ok r
    | none =>
      match readMoment? s with
      | some r => r
      | none =>
        match basedInteger? s with
        | some (n, rest) => .ok (.int n, rest)
        | none =>
          match decimal? s with
          | some r => r
          | none =>
            match namedNumber? s with
            | some r => .ok r
            | none => .error .malformed

end Reindent.Toml
