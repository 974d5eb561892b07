import Reindent.Command.Run

/-!
# The program

Reads the part of the file tree that a run can see, runs the command, and carries out what the
report says.
-/

namespace Reindent.Program

open Command Files

/-- A place as it is written. -/
def placeText (place : Place) : String :=
  String.ofList (Store.pathOf place).render

/-- All of a stream. -/
partial def readAll (stream : IO.FS.Stream) (done : ByteArray) : IO ByteArray := do
  let chunk ← stream.read 65536
  if chunk.isEmpty then pure done else readAll stream (done ++ chunk)

/-- What stands at a place. A link is known by where it ends, a file that cannot be read by the
error of the disk. -/
def readNode? (place : Place) : IO (Option Node) := do
  let text := placeText place
  try
    let path := (← IO.currentDir) / text
    let data ← path.symlinkMetadata
    match data.type with
    | .dir => pure (some (.directory openToAll))
    | .file =>
      let octets? ← try (pure (some (← IO.FS.readBinFile path))) catch _ => pure none
      let time := data.modified.sec * 1000000000 + data.modified.nsec.toNat
      pure (some (.file {
        mode := 0o644
        octets := (octets?.getD .empty).toList
        inode := 0
        mtime := time
        damage? := if octets?.isNone then some .accessDenied else none }))
    | .symlink =>
      let target ← try (pure (← IO.FS.realPath path).toString) catch _ => pure text
      pure (some (.link target.toList))
    | .other => pure (some .pipe)
  catch _ => pure none

/-- The places that a path goes through, by its text. -/
def stations (store : Store) (p : Path) : List Place :=
  (List.range (p.parts.length + 1)).map fun n =>
    (store.absolute (Path.render ⟨p.root, p.parts.take n⟩)).parts

/-- A place and all above it. -/
def upwards (place : Place) : List Place :=
  (List.range (place.length + 1)).map place.take

/-- Adds what stands at some places. -/
def readPlaces (store : Store) (places : List Place) : IO Store :=
  places.eraseDups.foldlM (fun s place => do
    match ← readNode? place with
    | some node => pure (s.put place node)
    | none => pure s) store

/-- The part of the file tree that a run on a path can see. -/
def readStore (workDir : Place) (homes : Homes) (path? : Option (List Char)) : IO Store := do
  let store : Store := { workDir }
  let named := match path? with
    | some text =>
      let path := Path.ofText text
      stations store ((path.expandHome homes).getD path)
    | none => []
  let chain := (workDir :: named).flatMap upwards
  let settingsFiles := chain.flatMap fun d => Settings.candidates.map fun c => d ++ [c.file]
  readPlaces store (chain ++ settingsFiles)

/-- Writes down the files that a run changed. -/
def writeChanges (before after : Store) : IO Unit :=
  after.nodes.forM fun (place, node) =>
    match node with
    | .file f =>
      if before.node? place = some node then pure ()
      else IO.FS.writeBinFile (placeText place) ⟨f.octets.toArray⟩
    | _ => pure ()

/-- Writes a text. -/
def writeText (stream : IO.FS.Stream) (text : List Char) : IO Unit :=
  stream.write ⟨(Text.encodeUtf8 text).toArray⟩

/-- The path that is asked for, a dash if none is; nothing if no text is needed. -/
def wanted? (arguments : List (List Char)) : Option (List Char) :=
  match scan arguments with
  | .ok s => if (answer? [] s.options).isSome then none else some (s.arguments.headD ['-'])
  | .error _ => none

/-- What the machine is taken to hold. -/
def limits : Limits :=
  { memory := 68719476736, jsonReading := 992, jsonWriting := 991, tomlCalls := 990 }

/-- The home directories: that of the environment, and those of the password database. -/
def readHomes : IO Homes := do
  let text ← try IO.FS.readFile "/etc/passwd" catch _ => pure ""
  let entries := (text.splitOn "\n").filterMap fun line => match line.splitOn ":" with
    | [name, _, _, _, _, home, _] => some (name.toList, home.toList)
    | _ => none
  pure { own? := (← IO.getEnv "HOME").map String.toList, named := entries }

/-- The options, as a page of their own. -/
def helpPage : List Char :=
  (usageLine ++ "\nOptions:\n" ++ String.join (Flag.all.map fun f => s!"  {f.long}\n")).toList

/-- Runs the program. -/
def start (arguments : List (List Char)) : IO UInt32 := do
  let workDir := Path.partsOf (← IO.currentDir).toString.toList
  let homes ← readHomes
  let sizeLimit? := (← IO.getEnv sizeVariable).map String.toList
  let path? := wanted? arguments
  let store ← readStore workDir homes path?
  let input ← if path? = some ['-'] then readAll (← IO.getStdin) .empty else pure .empty
  let report := run arguments
    { limits, store, homes, sizeLimit?, input := input.toList, helpPage }
  writeChanges store report.store
  writeText (← IO.getStdout) report.output
  let errors ← IO.getStderr
  for note in report.notes do
    let time ← IO.monoMsNow
    errors.putStr s!"{time} {note.line}"
  writeText errors report.message
  if let some crash := report.crash? then
    errors.putStrLn crash.message
  pure report.exitCode.toUInt32

end Reindent.Program

/-- The command line. -/
def main (arguments : List String) : IO UInt32 :=
  Reindent.Program.start (arguments.map String.toList)
