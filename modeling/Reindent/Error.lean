import Reindent.Indent
import Reindent.Json.Pretty

/-!
# Errors of formatting

Everything that can keep a text from being formatted, with its wording.
-/

namespace Reindent

/-- Why a text cannot be formatted. -/
inductive FormatError where
  | noMarkLeft
  | depthExceeded (error : DepthExceeded)
  | invalidJson (cause : Json.Cause) (line column offset : Nat)
  | unserializable (error : Unserializable)
  | unsupportedLanguage (name : List Char)
deriving DecidableEq, Repr

/-- The wording of an error. -/
def FormatError.message : FormatError → String
  | .noMarkLeft => "No free character left to mark fragment boundaries"
  | .depthExceeded e => e.message
  | .invalidJson cause line column offset =>
    let m := cause.message
    s!"Invalid JSON: {m}: line {line} column {column} (char {offset})"
  | .unserializable e =>
    let m := e.message
    s!"Value is not JSON serializable: {m}"
  | .unsupportedLanguage name =>
    let n := String.ofList name
    s!"Unsupported language: {n}"

/-- A text cannot be formatted, or it holds an integer that is too long to be read at all, or
values that are nested too deeply for the machine. -/
inductive Failure where
  | format (error : FormatError)
  | overlongInteger (digits : Nat)
  | tooDeep
deriving DecidableEq, Repr

/-- The wording of a failure. -/
def Failure.message : Failure → String
  | .format e => e.message
  | .overlongInteger digits => Text.overlongMessage digits
  | .tooDeep => deepMessage

/-- The failure of laying out JSON. -/
def Failure.ofJson : Json.LayoutError → Failure
  | .unreadable (.malformed cause line column offset) =>
    .format (.invalidJson cause line column offset)
  | .unreadable (.overlong digits) => .overlongInteger digits
  | .unreadable .tooDeep | .tooDeep => .tooDeep
  | .unserializable e => .format (.unserializable e)

end Reindent
