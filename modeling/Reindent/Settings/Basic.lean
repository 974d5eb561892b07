import Reindent.Indent
import Reindent.Limits
import Reindent.Settings.Value
import Reindent.Text.LowerCase

/-!
# Settings

Six named settings. They are given by name, overridden, normalised (a number of spaces becomes a
unit of indentation, the name of a policy lower case) and checked. The checks run in a fixed order,
and the first that fails decides.
-/

namespace Reindent

open Text

/-- The settings of the formatter, each with a value of any type. -/
structure Settings where
  indentChars : Settings.Value := .text IndentTable.defaultUnit
  indentSpaces : Settings.Value := .null
  maxDepth : Settings.Value := .int IndentTable.defaultMaxDepth
  depthOverflow : Settings.Value := .text (Overflow.name .clamp)
  preserveComments : Settings.Value := .bool false
  maxFileSize : Settings.Value := .int 10485760

namespace Settings

/-- The names of the settings. -/
inductive Field where
  | indentChars
  | indentSpaces
  | maxDepth
  | depthOverflow
  | preserveComments
  | maxFileSize
deriving DecidableEq, Repr

namespace Field

/-- All settings. -/
def all : List Field :=
  [.indentChars, .indentSpaces, .maxDepth, .depthOverflow, .preserveComments, .maxFileSize]

/-- The name under which a setting is given. -/
def name : Field → String
  | .indentChars => "indent_chars"
  | .indentSpaces => "indent_spaces"
  | .maxDepth => "max_depth"
  | .depthOverflow => "depth_overflow"
  | .preserveComments => "preserve_comments"
  | .maxFileSize => "max_file_size"

/-- The setting of a name. -/
def ofName? (name : List Char) : Option Field :=
  all.find? fun f => f.name.toList == name

end Field

/-- The value of a setting. -/
def get (s : Settings) : Field → Value
  | .indentChars => s.indentChars
  | .indentSpaces => s.indentSpaces
  | .maxDepth => s.maxDepth
  | .depthOverflow => s.depthOverflow
  | .preserveComments => s.preserveComments
  | .maxFileSize => s.maxFileSize

/-- Gives a setting a value. -/
def set (s : Settings) (field : Field) (value : Value) : Settings :=
  match field with
  | .indentChars => { s with indentChars := value }
  | .indentSpaces => { s with indentSpaces := value }
  | .maxDepth => { s with maxDepth := value }
  | .depthOverflow => { s with depthOverflow := value }
  | .preserveComments => { s with preserveComments := value }
  | .maxFileSize => { s with maxFileSize := value }

/-! ## Setting by name -/

/-- A name that cannot be set. -/
inductive FieldError where
  | unknown (name : List Char)
  /-- The name belongs to the operation itself. -/
  | taken (operation : String) (name : List Char)
deriving DecidableEq, Repr

/-- The operation that makes settings. -/
def makeName : String := "FormatterConfig.__init__"

/-- The wording of an error. -/
def FieldError.message : FieldError → String
  | .unknown name =>
    let n := String.ofList name
    s!"{makeName}() got an unexpected keyword argument '{n}'"
  | .taken operation name =>
    let n := String.ofList name
    s!"{operation}() got multiple values for argument '{n}'"

/-- Sets named values one after the other. The first name that cannot be set is an error. -/
def setNamed : List (List Char × Value) → Settings → Except FieldError Settings
  | [], s => .ok s
  | (name, value) :: rest, s =>
    match Field.ofName? name with
    | some field => setNamed rest (s.set field value)
    | none =>
      if name = ['s', 'e', 'l', 'f'] then .error (.taken makeName name) else .error (.unknown name)

/-- Settings from named values; what is not named has its default. -/
def ofNamed (values : List (List Char × Value)) : Except FieldError Settings :=
  setNamed values {}

/-- Whether a value is given at all. -/
def Value.isGiven : Value → Bool
  | .null => false
  | _ => true

/-- Overrides settings. Null overrides nothing. A unit of indentation that is given without a
number of spaces replaces the number of spaces too. -/
def override (s : Settings) (values : List (List Char × Value)) : Except FieldError Settings :=
  let own := ['c', 'o', 'n', 'f', 'i', 'g']
  if values.any fun v => v.1 == own then .error (.taken "apply_overrides" own)
  else
    let given := values.filter fun v => v.2.isGiven
    let names (field : Field) : Bool := given.any fun v => v.1 == field.name.toList
    let s :=
      if names .indentChars && !names .indentSpaces then { s with indentSpaces := .null } else s
    setNamed given s

/-! ## Checks -/

/-- What is wrong with settings. -/
inductive Invalid where
  | notInteger (field : Field)
  | notPositive (field : Field)
  /-- The number of spaces does not fit into a machine word. -/
  | tooWide
  /-- So many spaces cannot be held in memory. -/
  | outOfMemory
  | emptyIndent
  | unknownPolicy
  | notBoolean
  | tooDeep
deriving DecidableEq, Repr

/-- The wording of an error. -/
def Invalid.message : Invalid → String
  | .notInteger field =>
    let n := field.name
    s!"`{n}` must be an integer"
  | .notPositive field =>
    let n := field.name
    s!"`{n}` must be a positive integer"
  | .tooWide => "cannot fit 'int' into an index-sized integer"
  | .outOfMemory => ""
  | .emptyIndent => "`indent_chars` must not be empty"
  | .unknownPolicy => "`depth_overflow` must be one of: clamp, error"
  | .notBoolean => "`preserve_comments` must be a boolean"
  | .tooDeep => s!"`max_depth` must not exceed {IndentTable.depthLimit}"

/-- The integer in a setting. -/
def integer (s : Settings) (field : Field) : Except Invalid Int :=
  match s.get field with
  | .int n => .ok n
  | _ => .error (.notInteger field)

/-- The unit of indentation that a number of spaces gives. -/
def spaces (s : Settings) (limits : Limits) : Except Invalid (List Char) := do
  let n ← s.integer .indentSpaces
  if n ≤ 0 then .error (.notPositive .indentSpaces)
  else if wordBound ≤ n then .error .tooWide
  else if limits.memory ≤ n then .error .outOfMemory
  else pure (List.replicate n.toNat ' ')

/-- The lower-case form of a text, and any other value itself. -/
def Value.lower : Value → Value
  | .text t => .text (lowerCase t)
  | v => v

/-- Normalised settings. -/
def normalize (s : Settings) (limits : Limits) : Except Invalid Settings := do
  let indentChars ←
    match s.indentSpaces with
    | .null => pure s.indentChars
    | _ => (s.spaces limits).map Value.text
  pure { s with indentChars := indentChars, depthOverflow := s.depthOverflow.lower }

/-- Settings whose values have the right types and ranges. -/
structure Checked where
  unit : List Char
  maxDepth : Int
  overflow : Overflow
  preserveComments : Bool
  maxFileSize : Int
deriving DecidableEq, Repr

/-- The unit of indentation. -/
def unit (s : Settings) : Except Invalid (List Char) :=
  match s.indentChars with
  | .text (c :: t) => .ok (c :: t)
  | _ => .error .emptyIndent

/-- The overflow policy. -/
def policy (s : Settings) : Except Invalid Overflow :=
  match s.depthOverflow with
  | .text name =>
    match Overflow.ofName? name with
    | some p => .ok p
    | none => .error .unknownPolicy
  | _ => .error .unknownPolicy

/-- Whether comments are kept. -/
def keepsComments (s : Settings) : Except Invalid Bool :=
  match s.preserveComments with
  | .bool b => .ok b
  | _ => .error .notBoolean

/-- Checks settings, in the order of the steps here. -/
def check (s : Settings) (limits : Limits) : Except Invalid Checked := do
  let s ← s.normalize limits
  let maxDepth ← s.integer .maxDepth
  let maxFileSize ← s.integer .maxFileSize
  match s.indentSpaces with
  | .null => pure ()
  | _ => let _ ← s.integer .indentSpaces
  let unit ← s.unit
  let overflow ← s.policy
  let preserveComments ← s.keepsComments
  if maxDepth ≤ 0 then throw (.notPositive .maxDepth)
  if maxFileSize ≤ 0 then throw (.notPositive .maxFileSize)
  if IndentTable.depthLimit < maxDepth then throw .tooDeep
  pure ⟨unit, maxDepth, overflow, preserveComments, maxFileSize⟩

end Settings

end Reindent
