/-!
# Indentation

An indent table holds the start of a line for every depth: a line end and one unit of indentation
for each level. Depths below zero are taken for zero. Depths beyond the table take its last entry
or are refused, as its overflow policy says.
-/

namespace Reindent

/-- Signed machine words lie below this and not below its negative. -/
def wordBound : Int := 9223372036854775808

/-- What happens to depths beyond the table. -/
inductive Overflow where
  | clamp
  | error
deriving DecidableEq, Repr

/-- The name of a policy. -/
def Overflow.name : Overflow → List Char
  | .clamp => ['c', 'l', 'a', 'm', 'p']
  | .error => ['e', 'r', 'r', 'o', 'r']

/-- The policy of a name. -/
def Overflow.ofName? (name : List Char) : Option Overflow :=
  if name = Overflow.name .clamp then some .clamp
  else if name = Overflow.name .error then some .error
  else none

/-- A depth was asked for that the table does not have. -/
structure DepthExceeded where
  depth : Int
  maxDepth : Int
deriving DecidableEq, Repr

/-- The wording of the refusal. -/
def DepthExceeded.message (e : DepthExceeded) : String :=
  s!"Nesting depth {e.depth} exceeds the maximum supported depth of {e.maxDepth}"

/-- The line start with the indentation `margin` and `n` more, each one unit longer than the one
before. -/
def indentEntriesFrom (unit margin : List Char) : Nat → List (List Char)
  | 0 => ['\n' :: margin]
  | n + 1 => ('\n' :: margin) :: indentEntriesFrom unit (unit ++ margin) n

/-- The line starts for the depths from zero to `maxDepth`; a negative `maxDepth` leaves depth
zero. -/
def indentEntries (unit : List Char) (maxDepth : Int) : List (List Char) :=
  indentEntriesFrom unit [] maxDepth.toNat

/-- An indent table. -/
structure IndentTable where
  unit : List Char
  maxDepth : Int
  overflow : Overflow
  entries : List (List Char) := indentEntries unit maxDepth
  entries_eq : entries = indentEntries unit maxDepth := by rfl

namespace IndentTable

/-- The deepest level that a table may have. -/
def depthLimit : Int := 1000

/-- The unit that is used when none is given. -/
def defaultUnit : List Char := [' ', ' ']

/-- The deepest level that is used when none is given. -/
def defaultMaxDepth : Int := 100

/-- The table for a unit, a deepest level and a policy. -/
def of (unit : List Char) (maxDepth : Int) (overflow : Overflow) : IndentTable :=
  { unit, maxDepth, overflow }

/-- Two spaces a level, a hundred levels, deeper ones clamped. -/
def default : IndentTable := of defaultUnit defaultMaxDepth .clamp

/-- Why a table cannot be built. -/
inductive BuildError where
  | unknownPolicy (name : List Char)
  | tooDeep (maxDepth : Int)
deriving DecidableEq, Repr

/-- The wording of the reason. -/
def BuildError.message : BuildError → String
  | .unknownPolicy name => s!"Unknown depth overflow policy: {String.ofList name}"
  | .tooDeep n => s!"max_depth must not exceed {depthLimit}, got {n}"

/-- The table for a unit, a deepest level and the name of a policy. -/
def build (unit : List Char) (maxDepth : Int) (policy : List Char) :
    Except BuildError IndentTable :=
  match Overflow.ofName? policy with
  | none => .error (.unknownPolicy policy)
  | some overflow =>
    if depthLimit < maxDepth then .error (.tooDeep maxDepth) else .ok (of unit maxDepth overflow)

/-- The start of a line at a depth. -/
def shift (table : IndentTable) (depth : Int) : Except DepthExceeded (List Char) :=
  if depth < 0 then .ok (table.entries.headD [])
  else if table.maxDepth < depth then
    match table.overflow with
    | .error => .error ⟨depth, table.maxDepth⟩
    | .clamp => .ok (table.entries.getLastD [])
  else .ok (table.entries.getD depth.toNat [])

/-- Why an entry cannot be had. -/
inductive EntryError where
  | outOfRange
  | tooWide
deriving DecidableEq, Repr

/-- The wording of the reason. -/
def EntryError.message : EntryError → String
  | .outOfRange => "tuple index out of range"
  | .tooWide => "cannot fit 'int' into an index-sized integer"

/-- The entry at a position, negative positions counting from the end. Positions have 64 bits. -/
def entry (table : IndentTable) (position : Int) : Except EntryError (List Char) :=
  if wordBound ≤ position || position < -wordBound then .error .tooWide
  else
    let i := if position < 0 then position + table.entries.length else position
    if i < 0 then .error .outOfRange
    else
      match table.entries[i.toNat]? with
      | some e => .ok e
      | none => .error .outOfRange

end IndentTable

end Reindent
