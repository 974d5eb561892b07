import Reindent.Command.Options
import Reindent.Files.Language
import Reindent.Files.Source
import Reindent.Note
import Reindent.Settings.Search

/-!
# Running the command

A run takes arguments and what surrounds it (the file tree, the home directories, a limit on sizes,
the standard input, the machine and its disk) to a report: the exit code, what is written to both
outputs, and the file tree afterwards.
-/

namespace Reindent.Command

open Text Files

/-- What surrounds a run. -/
structure Surroundings where
  limits : Limits
  store : Store
  homes : Homes := {}
  /-- The limit on the size of files in the environment. -/
  sizeLimit? : Option (List Char) := none
  /-- The standard input. -/
  input : List UInt8 := []
  /-- The file tree when the result is written; others may have changed it since the text was
  read. -/
  later : Store := store
  /-- What the system makes of the steps of writing the result. -/
  disk : Disk := {}
  /-- The page that tells what the options do. -/
  helpPage : List Char := []

/-- An end that no message was made for. -/
inductive Crash where
  | nullCharacter
  | undecodable (fault : Utf8Fault)
  | unencodable (halves : LoneHalves)
  | overlongInteger (digits : Nat)
  | tooDeep
  | access (error : AccessError)
  | circle (path : List Char)
  | noHome
  | field (error : Settings.FieldError)
  | invalid (error : Settings.Invalid)
  | table (error : IndentTable.BuildError)
deriving DecidableEq, Repr

/-- The wording of a crash. -/
def Crash.message : Crash → String
  | .nullCharacter => AccessError.message .nullCharacter
  | .undecodable fault => fault.message
  | .unencodable halves => halves.message
  | .overlongInteger digits => Text.overlongMessage digits
  | .tooDeep => deepMessage
  | .access e => e.message
  | .circle path => (ResolveError.circle path).message
  | .noHome => PathError.message .noHome
  | .field e => e.message
  | .invalid e => e.message
  | .table e => e.message

/-- Why a run ends without a result. -/
inductive Stop where
  | usage (error : UsageError)
  | failure (message : String)
  | crash (crash : Crash)
deriving DecidableEq, Repr

/-- What a run comes to. -/
structure Report where
  exitCode : Nat
  output : List Char := []
  notes : List Note := []
  /-- The message on the error output, after the notes. -/
  message : List Char := []
  crash? : Option Crash := none
  store : Store

/-! ## Texts on the outputs -/

/-- The character of a symbol. -/
def symbolChar? : Symbol → Option Char
  | .char c => some c
  | .half _ => none

/-- What follows a control sequence of a terminal (an escape, a bracket, parameters and a letter),
if a text starts with one. -/
def afterSequence? : List Symbol → Option (List Symbol)
  | .char '\x1b' :: .char '[' :: rest =>
    match rest.dropWhile fun s =>
        (symbolChar? s).any fun c => c.isDigit || c == ';' || c == '?' with
    | .char c :: rest => if c.isAlpha then some rest else none
    | _ => none
  | _ => none

/-- Drops the control sequences of a terminal; the first argument is the number of symbols that are
still to be dropped. -/
def dropSequencesFrom : Nat → List Symbol → List Symbol
  | _, [] => []
  | skip + 1, _ :: rest => dropSequencesFrom skip rest
  | 0, s :: rest =>
    match afterSequence? (s :: rest) with
    | some after => dropSequencesFrom (rest.length - after.length) rest
    | none => s :: dropSequencesFrom 0 rest

/-- A text without the control sequences of a terminal. -/
def dropSequences (s : List Symbol) : List Symbol :=
  dropSequencesFrom 0 s

/-- A message as it is written. -/
def written (message : String) : List Char :=
  (dropSequences (symbols message.toList)).filterMap symbolChar?

/-- The form of the arguments. -/
def usageLine : String := "Usage: pretty-markup [OPTIONS] [FILEPATH]\n"

/-- The lines in front of an error in the arguments. -/
def usageLines : String := usageLine ++ "Try 'pretty-markup --help' for help.\n\n"

/-- The message of an error. -/
def errorLine (message : String) : List Char :=
  written s!"Error: {message}\n"

/-- The name and version of the program. -/
def versionLine : String := "pretty-markup, version 0.1.0\n"

/-! ## Stages of a run -/

/-- Refuses a path that is a directory or a file that must not be read. -/
def checkPath (store : Store) (r : Request) : Except Stop Unit :=
  if r.fromInput then .ok ()
  else
    match store.lookUp true r.path with
    | .error .nullCharacter => .error (.crash .nullCharacter)
    | .ok (_, .directory _) => .error (.usage (.isDirectory r.path))
    | .ok (_, .file f) =>
      if f.allow store.user .read then .ok () else .error (.usage (.notReadable r.path))
    | _ => .ok ()

/-- The stop for a path that names no file. -/
def stopOfPath : PathError → Stop
  | .circle path => .crash (.circle path)
  | .unusable e => .crash (.access e)
  | .noHome => .crash .noHome
  | e => .usage (.unusable e.message)

/-- The file that is asked for, if it is one, and the language. -/
def source (around : Surroundings) (r : Request) : Except Stop (Option Path × Language) :=
  if r.fromInput then
    if r.inPlace then .error (.usage (.unusable "--in-place requires a file path"))
    else
      match r.language with
      | some l => .ok (none, l)
      | none => .error (.usage (.unusable "--language is required when reading standard input"))
  else do
    let path ← (around.store.locate around.homes r.path).mapError stopOfPath
    match r.language.or (language? path) with
    | some l => pure (some path, l)
    | none => throw (.usage (.unusable (noLanguageMessage path)))

/-- The settings that are given as options. -/
def overrides (r : Request) : List (List Char × Settings.Value) :=
  let named (f : Settings.Field) (v : Option Settings.Value) := (f.name.toList, v.getD .null)
  [named .indentChars (r.indentChars.map .text),
    named .indentSpaces (r.indentSpaces.map .int),
    named .maxDepth (r.maxDepth.map .int),
    named .depthOverflow (r.depthOverflow.map fun p => .text p.name),
    named .preserveComments (if r.preserveComments then some (.bool true) else none)]

/-- The stop for settings that cannot be had. -/
def stopOfSearch : Settings.SearchError → Stop
  | .invalid .tooWide => .crash (.invalid .tooWide)
  | .invalid .outOfMemory => .crash (.invalid .outOfMemory)
  | .undecodable fault => .crash (.undecodable fault)
  | .overlongInteger digits => .crash (.overlongInteger digits)
  | .tooDeep => .crash .tooDeep
  | .access e => .crash (.access e)
  | .circle path => .crash (.circle path)
  | .field e => .crash (.field e)
  | e => .usage (.unusable e.message)

/-- The settings of a run, searched from the directory of the file or the working directory. -/
def settings (around : Surroundings) (r : Request) (path? : Option Path) : Except Stop Settings :=
  let start := match path? with
    | some p => p.parent
    | none => Store.pathOf around.store.workDir
  (Settings.build around.limits around.store start (overrides r)).mapError stopOfSearch

/-- The stop for a file that cannot be read or replaced. -/
def stopOfSource : SourceError → Stop
  | .nullCharacter => .crash .nullCharacter
  | .unencodable halves => .crash (.unencodable halves)
  | e => .failure e.message

/-- The limit on sizes in checked settings. -/
def settingsLimit (s : Settings) : Int :=
  match s.maxFileSize with
  | .int n => n
  | _ => 0

/-- The text of a file and its record, within the limit on sizes. -/
def readNamed (around : Surroundings) (s : Settings) (path : Path) :
    Except Stop (FileStat × List Char) := do
  let limit ← (sizeLimit (settingsLimit s) around.sizeLimit?).mapError fun e => .failure e.message
  let read : Except SourceError (FileStat × List Char) := do
    let stat ← around.store.stat path
    checkSize stat limit path
    pure (stat, ← around.store.readSource path)
  read.mapError stopOfSource

/-- The text on the standard input. -/
def readInput (around : Surroundings) : Except Stop (List Char) :=
  ((decodeUtf8 around.input).map unifyNewlines).mapError fun fault => .crash (.undecodable fault)

/-- The stop for a text that cannot be formatted. -/
def stopOfFailure : Failure → Stop
  | .format e => .failure e.message
  | .overlongInteger digits => .crash (.overlongInteger digits)
  | .tooDeep => .crash .tooDeep

/-- The stop for an engine that cannot be made. -/
def stopOfCreate : Engine.CreateError → Stop
  | .settings e => .crash (.invalid e)
  | .table e => .crash (.table e)

/-- A text that ends with a line end. -/
def endLine (text : List Symbol) : List Symbol :=
  if text.getLast? = some (.char '\n') then text else text ++ [.char '\n']

/-- Where the result goes: the file tree afterwards and the text on the standard output. -/
def deliver (around : Surroundings) (r : Request) (file? : Option (Path × FileStat))
    (text : List Symbol) : Store × Except Stop (List Char) :=
  match r.inPlace, file? with
  | true, some (path, stat) =>
    let (after, result) := around.later.rewrite around.disk path (endLine text) stat
    (after, (result.map fun _ => []).mapError stopOfSource)
  | _, _ =>
    (around.later, (chars (dropSequences (text ++ [.char '\n']))).mapError fun h =>
      .crash (.unencodable h))

/-- A text to format: where it came from, its language and the engine for it. -/
structure Job where
  file? : Option (Path × FileStat)
  language : Language
  text : List Char
  engine : Engine

/-- The job that a request makes. -/
def prepare (around : Surroundings) (r : Request) : Except Stop Job := do
  let (path?, language) ← source around r
  let s ← settings around r path?
  let (file?, text) ← match path? with
    | none => (readInput around).map fun text => (none, text)
    | some path => (readNamed around s path).map fun (stat, text) => (some (path, stat), text)
  let engine ← (Engine.create around.limits s).mapError stopOfCreate
  pure ⟨file?, language, text, engine⟩

/-- The result of a job, delivered. -/
def Job.finish (job : Job) (around : Surroundings) (r : Request) :
    Store × Except Stop (List Char) :=
  match job.engine.format job.language.name job.text r.minify with
  | .error e => (around.later, .error (stopOfFailure e))
  | .ok text => deliver around r job.file? text

/-- The notes of a job. -/
def Job.notes (job : Job) (r : Request) : List Note :=
  if r.verbose then job.engine.notes job.language job.text r.minify else []

/-! ## Reports -/

/-- The report of a run that stopped. -/
def Stop.report (store : Store) (notes : List Note) : Stop → Report
  | .usage e =>
    let head := if e.showsUsage then usageLines.toList else []
    { exitCode := 2, notes, message := head ++ errorLine e.message, store }
  | .failure m => { exitCode := 1, notes, message := errorLine m, store }
  | .crash c => { exitCode := 1, notes, crash? := some c, store }

/-- Carries out a request. -/
def Request.run (r : Request) (around : Surroundings) : Report :=
  match prepare around r with
  | .error stop => stop.report around.later []
  | .ok job =>
    match job.finish around r with
    | (store, .error stop) => stop.report store (job.notes r)
    | (store, .ok output) => { exitCode := 0, output, notes := job.notes r, store }

/-- The answer to the first option that asks about the program itself. -/
def answer? (helpPage : List Char) (options : List Given) : Option (List Char) :=
  options.findSome? fun o => match o.1 with
    | .version => some versionLine.toList
    | .help => some helpPage
    | _ => none

/-- The request in arguments, checked. -/
def readRequest (store : Store) (s : Scanned) : Except Stop Request := do
  let (r, extra) ← s.request.mapError .usage
  checkPath store r
  if !extra.isEmpty then throw (.usage (.extraArguments extra))
  pure r

/-- Runs the command. -/
def run (arguments : List (List Char)) (around : Surroundings) : Report :=
  match scan arguments with
  | .error e => (Stop.usage e).report around.later []
  | .ok s =>
    match answer? around.helpPage s.options with
    | some output => { exitCode := 0, output, store := around.later }
    | none =>
      match readRequest around.store s with
      | .error stop => stop.report around.later []
      | .ok r => r.run around

end Reindent.Command
