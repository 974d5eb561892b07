import Reindent.Toml.Scan

/-!
# Configuration files

Documents in TOML: lines of keys and values, headers of tables and of lists of tables. A table may
be opened once; lists and tables that are written inline cannot be added to. How deeply these may
nest is bounded by the number of calls that the machine holds open.
-/

namespace Reindent.Toml

open Text Settings

/-- A key with its parts. -/
abbrev Key := List (List Char)

/-- The entries of a table in order. -/
abbrev Entries := List (List Char × Value)

/-! ## Keys -/

/-- Characters of a key without quotes. -/
def isBare (c : Char) : Bool :=
  isDigit c || ('a' ≤ c && c ≤ 'z') || ('A' ≤ c && c ≤ 'Z') || c == '-' || c == '_'

/-- One part of a key. -/
def readKeyPart (s : List Char) : Except Error (List Char × List Char) :=
  match s with
  | '"' :: r => readBasic false r
  | '\x27' :: r => readLiteral r
  | _ =>
    match s.takeWhile isBare with
    | [] => .error .malformed
    | part => .ok (part, s.dropWhile isBare)

/-- A key of one or more parts with points between them; the first argument bounds their number. -/
def readKeyWithin : Nat → List Char → Except Error (Key × List Char)
  | 0, _ => .error .malformed
  | fuel + 1, s => do
    let (part, s) ← readKeyPart s
    match skipSpace s with
    | '.' :: s => do
      let (more, s) ← readKeyWithin fuel (skipSpace s)
      pure (part :: more, s)
    | s => pure ([part], s)

/-- A key, with the spaces after it. -/
def readKey (s : List Char) : Except Error (Key × List Char) :=
  readKeyWithin (s.length + 1) s

/-! ## Tables -/

/-- The value of a name. -/
def find? (name : List Char) : Entries → Option Value
  | [] => none
  | (n, v) :: rest => if n = name then some v else find? name rest

/-- Gives a name its value, in its place or at the end. -/
def put (name : List Char) (value : Value) : Entries → Entries
  | [] => [(name, value)]
  | (n, v) :: rest => if n = name then (n, value) :: rest else (n, v) :: put name value rest

/-- Changes the table at the end of a path and makes the tables that are missing on the way. A list
on the way leads to its last item, if `throughLists` allows. -/
def changeAt (throughLists : Bool) (change : Entries → Option Entries) :
    Key → Entries → Option Entries
  | [], entries => change entries
  | name :: path, entries =>
    match find? name entries with
    | none => (changeAt throughLists change path []).map fun e => put name (.table e) entries
    | some (.table inner) =>
      (changeAt throughLists change path inner).map fun e => put name (.table e) entries
    | some (.list items) =>
      match throughLists, items.getLast? with
      | true, some (.table inner) =>
        (changeAt throughLists change path inner).map fun e =>
          put name (.list (items.dropLast ++ [.table e])) entries
      | _, _ => none
    | some _ => none

/-- Adds a name that the table does not have yet. -/
def addNew (name : List Char) (value : Value) (entries : Entries) : Option Entries :=
  match find? name entries with
  | none => some (put name value entries)
  | some _ => none

/-- Adds an empty table to the list of a name. -/
def addItem (name : List Char) (entries : Entries) : Option Entries :=
  match find? name entries with
  | none => some (put name (.list [.table []]) entries)
  | some (.list items) => some (put name (.list (items ++ [.table []])) entries)
  | some _ => none

/-- Whether a value is a list or a table. -/
def isNest : Value → Bool
  | .list _ | .table _ => true
  | _ => false

/-- Whether a key lies at or below one of the keys that cannot be added to. -/
def isFrozen (frozen : List Key) (key : Key) : Bool :=
  frozen.any fun f => f.isPrefixOf key

/-! ## Values -/

/-- The calls that an inline list or table takes. -/
def nestCalls : Nat := 2

/-- The calls that a key with its value takes inside an inline table. -/
def entryCalls : Nat := 1

/-- The calls that are left once some more are open. -/
def descend (calls room : Nat) : Except Error Nat :=
  if room < calls then .error .tooDeep else .ok (room - calls)

mutual

/-- Reads a value; the first argument bounds the steps, and the second one is the number of calls
that may be opened. -/
def readValue : Nat → Nat → List Char → Except Error (Value × List Char)
  | 0, _, _ => .error .malformed
  | fuel + 1, room, s =>
    match s with
    | '[' :: r => do
      let room ← descend nestCalls room
      match ← skipGaps r with
      | ']' :: rest => pure (.list [], rest)
      | r => readItems fuel room [] r
    | '\x7b' :: r => do
      let room ← descend nestCalls room
      match skipSpace r with
      | '\x7d' :: rest => pure (.table [], rest)
      | r => readEntries fuel room [] [] r
    | _ => readScalar s

/-- Reads the items of a list; `done` holds those read so far, the last one first. -/
def readItems : Nat → Nat → List Value → List Char → Except Error (Value × List Char)
  | 0, _, _, _ => .error .malformed
  | fuel + 1, room, done, s => do
    let (value, s) ← readValue fuel room s
    match ← skipGaps s with
    | ']' :: rest => pure (.list (value :: done).reverse, rest)
    | ',' :: s => do
      match ← skipGaps s with
      | ']' :: rest => pure (.list (value :: done).reverse, rest)
      | s => readItems fuel room (value :: done) s
    | _ => .error .malformed

/-- Reads the entries of an inline table. -/
def readEntries :
    Nat → Nat → List Key → Entries → List Char → Except Error (Value × List Char)
  | 0, _, _, _, _ => .error .malformed
  | fuel + 1, room, frozen, entries, s => do
    let inside ← descend entryCalls room
    let (key, s) ← readKey s
    match s with
    | '=' :: s => do
      let (value, s) ← readValue fuel inside (skipSpace s)
      if isFrozen frozen key then .error .malformed
      else
        match changeAt false (addNew (key.getLastD []) value) key.dropLast entries with
        | none => .error .malformed
        | some entries =>
          match skipSpace s with
          | '\x7d' :: rest => pure (.table entries, rest)
          | ',' :: s =>
            let frozen := if isNest value then key :: frozen else frozen
            readEntries fuel room frozen entries (skipSpace s)
          | _ => .error .malformed
    | _ => .error .malformed

end

/-! ## Documents -/

/-- A document as far as it has been read. -/
structure Draft where
  entries : Entries := []
  /-- The table that the lines belong to. -/
  header : Key := []
  /-- Lists and tables that were written inline. -/
  frozen : List Key := []
  /-- Tables that were opened. -/
  opened : List Key := []
  /-- Tables that dotted keys made since the last header. -/
  pending : List Key := []

/-- The paths to the tables that a dotted key goes through, from a table on. -/
def wayPoints (header : Key) (key : Key) : List Key :=
  (List.range (key.length - 1)).map fun i => header ++ key.take (i + 1)

/-- Adds a key with its value. -/
def Draft.add (d : Draft) (key : Key) (value : Value) : Except Error Draft :=
  let between := wayPoints d.header key
  let path := d.header ++ key.dropLast
  if between.any d.opened.contains || isFrozen d.frozen path then .error .malformed
  else
    match changeAt true (addNew (key.getLastD []) value) path d.entries with
    | none => .error .malformed
    | some entries =>
      .ok { d with
        entries := entries
        pending := between ++ d.pending
        frozen := if isNest value then (d.header ++ key) :: d.frozen else d.frozen }

/-- Takes note of the tables that dotted keys made. -/
def Draft.settle (d : Draft) : Draft :=
  { d with opened := d.pending ++ d.opened, pending := [] }

/-- Opens a table. -/
def Draft.openTable (d : Draft) (key : Key) : Except Error Draft :=
  if d.opened.contains key || isFrozen d.frozen key then .error .malformed
  else
    match changeAt true some key d.entries with
    | none => .error .malformed
    | some entries => .ok { d with entries := entries, opened := key :: d.opened, header := key }

/-- Opens the next table of a list of tables; what was known of the one before is forgotten. -/
def Draft.openItem (d : Draft) (key : Key) : Except Error Draft :=
  if isFrozen d.frozen key then .error .malformed
  else
    let outside := fun (k : Key) => !key.isPrefixOf k
    match changeAt true (addItem (key.getLastD [])) key.dropLast d.entries with
    | none => .error .malformed
    | some entries =>
      .ok { d with
        entries := entries
        opened := key :: d.opened.filter outside
        frozen := d.frozen.filter outside
        header := key }

/-- Reads one statement. -/
def readStatement (room : Nat) (d : Draft) (s : List Char) : Except Error (Draft × List Char) :=
  match s with
  | '#' :: _ => .ok (d, s)
  | '[' :: '[' :: r => do
    let d := d.settle
    let (key, r) ← readKey (skipSpace r)
    let d ← d.openItem key
    match r with
    | ']' :: ']' :: rest => pure (d, skipSpace rest)
    | _ => .error .malformed
  | '[' :: r => do
    let d := d.settle
    let (key, r) ← readKey (skipSpace r)
    let d ← d.openTable key
    match r with
    | ']' :: rest => pure (d, skipSpace rest)
    | _ => .error .malformed
  | _ => do
    let (key, r) ← readKey s
    match r with
    | '=' :: r => do
      let (value, rest) ← readValue (r.length + 1) room (skipSpace r)
      let d ← d.add key value
      pure (d, skipSpace rest)
    | _ => .error .malformed

/-- Reads the statements of a document, each with the end of its line; the second argument bounds
their number. -/
def readStatements (room : Nat) : Nat → Draft → List Char → Except Error Draft
  | 0, d, _ => .ok d
  | fuel + 1, d, s =>
    match skipSpace s with
    | [] => .ok d
    | '\n' :: s => readStatements room fuel d s
    | s => do
      let (d, s) ← readStatement room d s
      match ← skipComment s with
      | [] => pure d
      | '\n' :: s => readStatements room fuel d s
      | _ => .error .malformed

/-- Line ends of two characters become line feeds. -/
def unixLines : List Char → List Char
  | [] => []
  | '\r' :: '\n' :: s => '\n' :: unixLines s
  | c :: s => c :: unixLines s

/-- The entries of a document, with so many calls for values inside values. -/
def read (room : Nat) (s : List Char) : Except Error Entries :=
  (readStatements room (s.length + 1) {} (unixLines s)).map Draft.entries

end Reindent.Toml
