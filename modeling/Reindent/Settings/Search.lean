import Reindent.Files.Resolve
import Reindent.Settings.Basic
import Reindent.Toml.Reader

/-!
# Settings in files

Settings stand in a table of a TOML file. The directories are searched from one up to the root, two
files in each; the first file that holds its table decides alone. A file that is missing or cannot
be read is passed over, and so is one whose text is malformed. Octets that are no text, an integer
that is too long and values that are nested too deeply end the search with an error.
-/

namespace Reindent.Settings

open Text Files

/-- A file that may hold settings, and the tables in it that may, each as a path of keys. -/
structure Candidate where
  file : Name
  tables : List (List (List Char))

/-- The key of the settings. -/
def tableKey : List Char := "pretty-markup".toList

/-- The table under `tool`. -/
def toolTable : List (List Char) := ["tool".toList, tableKey]

/-- The files in a directory that may hold settings. -/
def candidates : List Candidate := [
  ⟨"pyproject.toml".toList, [toolTable]⟩,
  ⟨".pretty-markup.toml".toList, [[tableKey], toolTable]⟩]

/-- Why settings cannot be had from files. -/
inductive SearchError where
  /-- The table is no table of settings. -/
  | badTable (table : List (List Char)) (file : Path)
  | invalid (error : Invalid)
  | undecodable (fault : Utf8Fault)
  | overlongInteger (digits : Nat)
  | tooDeep
  | access (error : AccessError)
  | circle (path : List Char)
  | field (error : FieldError)
deriving DecidableEq, Repr

/-- The wording of the reason. -/
def SearchError.message : SearchError → String
  | .badTable table file =>
    let t := String.ofList (['.'].intercalate table)
    let f := String.ofList file.render
    s!"Invalid `[{t}]` settings in {f}"
  | .invalid e => e.message
  | .undecodable fault => fault.message
  | .overlongInteger digits => Text.overlongMessage digits
  | .tooDeep => deepMessage
  | .access e => e.message
  | .circle path => (ResolveError.circle path).message
  | .field e => e.message

/-- The value at a path of keys. -/
def valueAt? : List (List Char) → Value → Option Value
  | [], v => some v
  | key :: keys, .table entries => (Toml.find? key entries).bind (valueAt? keys)
  | _ :: _, _ => none

/-- The first of some tables that is there, with its keys. -/
def firstTable? (tables : List (List (List Char))) (v : Value) :
    Option (List (List Char) × Value) :=
  tables.findSome? fun t => (valueAt? t v).map fun found => (t, found)

/-- The name of a setting, in which a dash stands for an underscore. -/
def settingName (key : List Char) : List Char :=
  key.map fun c => if c = '-' then '_' else c

/-- The settings in a table. -/
def ofTable (table : List (List Char)) (file : Path) : Value → Except SearchError Settings
  | .table entries =>
    (ofNamed (entries.map fun e => (settingName e.1, e.2))).mapError fun _ => .badTable table file
  | _ => .error (.badTable table file)

/-- The settings in the octets of a file, if it is TOML and holds one of the tables. -/
def ofOctets (limits : Limits) (tables : List (List (List Char))) (file : Path)
    (octets : List UInt8) : Except SearchError (Option Settings) := do
  let text ← (decodeUtf8 octets).mapError .undecodable
  match Toml.read limits.tomlCalls text with
  | .error .malformed => pure none
  | .error (.overlong digits) => throw (.overlongInteger digits)
  | .error .tooDeep => throw .tooDeep
  | .ok entries =>
    match firstTable? tables (.table entries) with
    | none => pure none
    | some (table, value) => (ofTable table file value).map some

/-- The settings in a candidate file of a directory, if there are any. -/
def ofCandidate (limits : Limits) (store : Store) (directory : Path) (c : Candidate) :
    Except SearchError (Option Settings) :=
  let file := directory.child c.file
  match store.lookUp true file.render with
  | .error e => if e.isAbsence then .ok none else .error (.access e)
  | .ok (_, .file f) =>
    if (store.readError? f).isSome then .ok none else ofOctets limits c.tables file f.octets
  | .ok _ => .ok none

/-- The settings in the first of some candidates that decides. -/
def firstOf (limits : Limits) (store : Store) :
    List (Path × Candidate) → Except SearchError (Option Settings)
  | [] => .ok none
  | (directory, c) :: rest => do
    match ← ofCandidate limits store directory c with
    | some s => pure (some s)
    | none => firstOf limits store rest

/-- The candidates in a directory and all directories above it, the nearest first. -/
def searchOrder (directory : Path) : List (Path × Candidate) :=
  (directory :: directory.parents).flatMap fun d => candidates.map fun c => (d, c)

/-- The error of a directory that cannot be resolved. -/
def SearchError.ofResolve : ResolveError → SearchError
  | .access e => .access e
  | .circle path => .circle path

/-- The normalised settings of the nearest file that has any, or the defaults. -/
def search (limits : Limits) (store : Store) (start : Path) : Except SearchError Settings := do
  let directory ← (store.resolve false start).mapError .ofResolve
  match ← firstOf limits store (searchOrder directory) with
  | some s => (s.normalize limits).mapError .invalid
  | none => pure {}

/-- The name of the starting directory among the arguments of `build`. -/
def startName : List Char := "search_path".toList

/-- The settings of the nearest file with overrides, normalised and checked. -/
def build (limits : Limits) (store : Store) (start : Path)
    (overrides : List (List Char × Value)) : Except SearchError Settings := do
  if overrides.any fun v => v.1 == startName then
    throw (.field (.taken "build_config" startName))
  let s ← search limits store start
  let s ← (s.override overrides).mapError .field
  let s ← (s.normalize limits).mapError .invalid
  let _ ← (s.check limits).mapError .invalid
  pure s

end Reindent.Settings
