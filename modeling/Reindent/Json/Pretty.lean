import Reindent.Json.Reader
import Reindent.Json.Writer
import Reindent.Limits

/-!
# Laying out JSON

What can be laid out is the text of a document or a structure in memory. A structure may hold
things that JSON has no form for: keys that are no names, objects of other types, a structure
inside itself. Both may nest deeper than the machine allows.
-/

namespace Reindent

open Text Decimal

/-- Data in memory. -/
inductive Datum where
  | null
  | bool (value : Bool)
  | int (value : Int)
  | real (value : Binary64)
  /-- A complex number, which JSON has no form for. -/
  | complex (re im : Binary64)
  | text (value : List Char)
  | sequence (items : List Datum)
  | mapping (entries : List (Datum × Datum))
  /-- An object that JSON has no form for, by the name of its type. -/
  | foreign (typeName : List Char)
  /-- The outermost structure again. -/
  | cycle
deriving Inhabited

/-- Why a structure has no JSON form. -/
inductive Unserializable where
  | badKey (typeName : List Char)
  | badValue (typeName : List Char)
  | cycle
deriving DecidableEq, Repr

/-- The wording of the reason. -/
def Unserializable.message : Unserializable → String
  | .badKey name => s!"keys must be str, int, float, bool or None, not {String.ofList name}"
  | .badValue name => s!"Object of type {String.ofList name} is not JSON serializable"
  | .cycle => "Circular reference detected"

/-- Why JSON cannot be laid out. -/
inductive Json.LayoutError where
  | unreadable (error : ReadError)
  | unserializable (error : Unserializable)
  /-- The values are nested too deeply to be written. -/
  | tooDeep
deriving DecidableEq, Repr

namespace Datum

/-- The real number among the data, if it is one. -/
def real? : Datum → Option Binary64
  | .real x => some x
  | .complex re (.finite _ 0 _) => some re
  | _ => none

/-- The finite numbers among the data, as significand and exponent of two. -/
def number? : Datum → Option (Int × Int)
  | .bool b => some (if b then 1 else 0, 0)
  | .int n => some (n, 0)
  | d =>
    match d.real? with
    | some (.finite negative m q) => some (if negative then -(m : Int) else m, q)
    | _ => none

/-- Whether two numbers, given by significand and exponent, are equal. -/
def sameNumber (x y : Int × Int) : Bool :=
  let low := min x.2 y.2
  x.1 * Int.ofNat (Nat.pow 2 (x.2 - low).toNat) == y.1 * Int.ofNat (Nat.pow 2 (y.2 - low).toNat)

/-- Whether two keys are one: equal texts, equal numbers of any type, null, or the same
infinity. -/
def sameKey (a b : Datum) : Bool :=
  match a, b with
  | .null, .null => true
  | .text s, .text t => s == t
  | a, b =>
    match a.number?, b.number?, a.real?, b.real? with
    | some x, some y, _, _ => sameNumber x y
    | _, _, some (.infinite m), some (.infinite n) => m == n
    | _, _, _, _ => false

/-- Adds an entry: to the key that is there already, or at the end. -/
def putEntry (key value : Datum) : List (Datum × Datum) → List (Datum × Datum)
  | [] => [(key, value)]
  | (k, v) :: rest =>
    if sameKey k key then (k, value) :: rest else (k, v) :: putEntry key value rest

/-- The mapping with the given entries, added one after the other. -/
def ofEntries (entries : List (Datum × Datum)) : Datum :=
  .mapping (entries.foldl (fun m e => putEntry e.1 e.2 m) [])

/-- The name of the type of complex numbers. -/
def complexName : List Char := ['c', 'o', 'm', 'p', 'l', 'e', 'x']

/-- The name of a key, with so many levels left. A floating-point number takes one. -/
def keyName (room : Nat) : Datum → Except Json.LayoutError (List Symbol)
  | .text s => .ok (symbols s)
  | .real x => if room = 0 then .error .tooDeep else .ok (symbols (x.render Json.numberStyle))
  | .complex _ _ => .error (.unserializable (.badKey complexName))
  | .bool true => .ok (symbols ['t', 'r', 'u', 'e'])
  | .bool false => .ok (symbols ['f', 'a', 'l', 's', 'e'])
  | .null => .ok (symbols ['n', 'u', 'l', 'l'])
  | .int n => .ok (symbols (showInt n))
  | .sequence _ => .error (.unserializable (.badKey ['t', 'u', 'p', 'l', 'e']))
  | .mapping _ => .error (.unserializable (.badKey ['d', 'i', 'c', 't']))
  | .foreign name => .error (.unserializable (.badKey name))
  | .cycle => .error (.unserializable .cycle)

/-- The refusal of an object that JSON has no form for, which takes two levels. -/
def refusal (room : Nat) (typeName : List Char) : Json.LayoutError :=
  if room < 2 then .tooDeep else .unserializable (.badValue typeName)

mutual

/-- The JSON value of data, to so many levels. The first obstacle met from the left ends the
search. -/
def toJson (room : Nat) : Datum → Except Json.LayoutError Json
  | .null => .ok .null
  | .bool b => .ok (.bool b)
  | .int n => .ok (.int n)
  | .real x => if room = 0 then .error .tooDeep else .ok (.real x)
  | .complex _ _ => .error (refusal room complexName)
  | .text s => .ok (.text (symbols s))
  | .sequence items =>
    if room = 0 && !items.isEmpty then .error .tooDeep
    else (toJsonItems (room - 1) items).map Json.list
  | .mapping entries =>
    if room = 0 && !entries.isEmpty then .error .tooDeep
    else (toJsonMembers (room - 1) entries).map Json.object
  | .foreign name => .error (refusal room name)
  | .cycle => .error (if room = 0 then .tooDeep else .unserializable .cycle)

/-- The JSON values of items. -/
def toJsonItems (room : Nat) : List Datum → Except Json.LayoutError (List Json)
  | [] => .ok []
  | item :: items => do
    let v ← toJson room item
    let vs ← toJsonItems room items
    pure (v :: vs)

/-- The members for the entries of a mapping. Keys of different types may have the same name. -/
def toJsonMembers (room : Nat) :
    List (Datum × Datum) → Except Json.LayoutError (List (List Symbol × Json))
  | [] => .ok []
  | (key, value) :: entries => do
    let name ← keyName room key
    let v ← toJson room value
    let vs ← toJsonMembers room entries
    pure ((name, v) :: vs)

end

end Datum

namespace Json

/-- The text of a value, if it nests to no more than so many levels. -/
def writeWithin (room : Nat) (unit : List Char) (value : Json) :
    Except LayoutError (List Symbol) :=
  if room < value.levels then .error .tooDeep else .ok (write unit 0 value)

/-- Lays out the text of a document. -/
def prettyText (limits : Limits) (unit s : List Char) : Except LayoutError (List Symbol) :=
  match read limits.jsonReading s with
  | .ok value => writeWithin limits.jsonWriting unit value
  | .error e => .error (.unreadable e)

/-- Lays out data: a text is taken for a document, a sequence or mapping is written as it is, and
for anything else there is no answer. -/
def pretty (limits : Limits) (unit : List Char) (d : Datum) :
    Except LayoutError (Option (List Symbol)) :=
  match d with
  | .text s => (prettyText limits unit s).map some
  | .sequence _ | .mapping _ =>
    (d.toJson limits.jsonWriting).map fun value => some (write unit 0 value)
  | _ => .ok none

end Json

end Reindent
