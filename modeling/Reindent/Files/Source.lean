import Reindent.Files.Resolve
import Reindent.Text.Integer
import Reindent.Text.Symbol

/-!
# Reading and replacing a file

The file to format is named by a path without links. Its size, identity and time are taken before
it is read and compared again before it is replaced. The new text goes to a temporary file in the
same directory, which is then moved over the old one. Each step may be refused by the system; the
temporary file is taken away then.
-/

namespace Reindent.Files

open Text

/-! ## Finding the file -/

/-- Why a path names no file that can be formatted. -/
inductive PathError where
  | throughLink (path : Path)
  | missing (path : Path)
  | unresolved (path : Path) (error : AccessError)
  | notRegular (path : Path)
  | nullCharacter
  | circle (path : List Char)
  /-- The absolute path cannot be used. -/
  | unusable (error : AccessError)
  /-- A tilde stands for no directory. -/
  | noHome
deriving DecidableEq, Repr

/-- The wording of the reason. -/
def PathError.message : PathError → String
  | .throughLink p =>
    let path := String.ofList p.render
    s!"Symlinks are not supported for security reasons: {path}"
  | .missing p =>
    let path := String.ofList p.render
    s!"{path} does not exist."
  | .unresolved p e =>
    let path := String.ofList p.render
    let error := e.message
    s!"Error resolving {path}: {error}"
  | .notRegular p =>
    let path := String.ofList p.render
    s!"{path} is not a regular file."
  | .nullCharacter => AccessError.message .nullCharacter
  | .circle path => (ResolveError.circle path).message
  | .unusable e => e.message
  | .noHome => "Could not determine home directory."

/-- The error of a path that cannot be resolved. -/
def PathError.ofResolve (p : Path) : ResolveError → PathError
  | .circle path => .circle path
  | .access .nullCharacter => .nullCharacter
  | .access (.system .notFound _) => .missing p
  | .access e => .unresolved p e

/-- The path in a text, with a home directory in place of a tilde. -/
def expandedPath (homes : Homes) (text : List Char) : Except PathError Path :=
  let path := Path.ofText text
  match path.expandHome homes with
  | some p => .ok p
  | none =>
    .error (if (path.parts.headD []).contains (Char.ofNat 0) then .nullCharacter else .noHome)

namespace Store

/-- Whether a path is a link. -/
def isLink (store : Store) (p : Path) : Bool :=
  match store.lookUp false p.render with
  | .ok (_, .link _) => true
  | _ => false

/-- Whether a path or a directory above it is a link. -/
def hasLink (store : Store) (p : Path) : Bool :=
  (p :: p.parents).any store.isLink

/-- The absolute path of the regular file that a path names. -/
def locate (store : Store) (homes : Homes) (text : List Char) : Except PathError Path := do
  let path ← expandedPath homes text
  if store.hasLink path then throw (.throughLink path)
  let resolved ← (store.resolve true path).mapError (.ofResolve path)
  match store.lookUp true resolved.render with
  | .ok (_, .file _) => pure resolved
  | .ok _ => throw (.notRegular resolved)
  | .error e => throw (if e.isAbsence then .notRegular resolved else .unusable e)

end Store

/-! ## Reading and writing -/

/-- What is remembered of a file. -/
structure FileStat where
  size : Nat
  mode : Nat
  inode : Nat
  mtime : Int
deriving DecidableEq, Repr

/-- What is remembered of a file. -/
def File.stat (f : File) : FileStat :=
  ⟨f.octets.length, f.mode, f.inode, f.mtime⟩

/-- Whether two records are of the same version of the same file. The permission bits do not
count. -/
def FileStat.sameVersion (a b : FileStat) : Bool :=
  a.inode == b.inode && a.size == b.size && a.mtime == b.mtime

/-- Why a file cannot be read or replaced. -/
inductive SourceError where
  | inaccessible (path : Path) (error : AccessError)
  | notRegular (path : Path)
  | tooLarge (path : Path) (limit : Int)
  | changed (path : Path)
  | undecodable (path : Path) (fault : Utf8Fault)
  | unreadable (path : Path) (error : AccessError)
  | unwritable (path : Path) (error : AccessError)
  /-- A temporary file cannot be taken away. -/
  | leftOver (error : AccessError)
  | unencodable (halves : LoneHalves)
  | nullCharacter
deriving DecidableEq, Repr

/-- The wording of the reason. -/
def SourceError.message : SourceError → String
  | .inaccessible p e =>
    let path := String.ofList p.render
    let error := e.message
    s!"Error accessing {path}: {error}"
  | .notRegular p =>
    let path := String.ofList p.render
    s!"{path} is not a regular file."
  | .tooLarge p limit =>
    let path := String.ofList p.render
    s!"{path} exceeds the maximum allowed size of {limit} bytes."
  | .changed p =>
    let path := String.ofList p.render
    s!"{path} changed during processing; refusing to overwrite."
  | .undecodable p f =>
    let path := String.ofList p.render
    let fault := f.message
    s!"Invalid UTF-8 sequence in {path}: {fault}"
  | .unreadable p e =>
    let path := String.ofList p.render
    let error := e.message
    s!"Error reading {path}: {error}"
  | .unwritable p e =>
    let path := String.ofList p.render
    let error := e.message
    s!"Error writing {path}: {error}"
  | .leftOver e => e.message
  | .unencodable h => h.message
  | .nullCharacter => AccessError.message .nullCharacter

/-- Refuses a file of more than `limit` octets. -/
def checkSize (stat : FileStat) (limit : Int) (p : Path) : Except SourceError Unit :=
  if limit < stat.size then .error (.tooLarge p limit) else .ok ()

/-- Refuses a file that is not the expected one any more. -/
def checkUnchanged (expected current : FileStat) (p : Path) : Except SourceError Unit :=
  if expected.sameVersion current then .ok () else .error (.changed p)

/-- What the names of temporary files start with. -/
def temporaryStem : Name := ".pretty-markup-".toList

/-- The number of characters after the stem. -/
def temporaryDigits : Nat := 8

/-- The temporary name with a number. -/
def temporaryName (n : Nat) : Name :=
  let digits := showNat n
  temporaryStem ++ (List.replicate (temporaryDigits - digits.length) '0' ++ digits)

/-! ### What the system refuses -/

/-- The steps of replacing a file that may be refused whatever the tree looks like. -/
inductive Operation where
  | create
  | write
  | flush
  | sync
  | close
  | setMode
  | move
  | remove
deriving DecidableEq, Repr

/-- What the system makes of the steps. -/
structure Disk where
  /-- The error that a step comes to. -/
  refuses : Operation → Option SystemError := fun _ => none
  /-- How many octets get to the disk if they are not all written. -/
  kept : Nat := 0

/-- Writes a text to a new file: the octets in it then, and whether all went well. The file is
closed in any case, and an error of that hides those before it. -/
def Disk.fill (disk : Disk) (p : Path) (text : List Symbol) :
    List UInt8 × Except SourceError Unit :=
  let refused (e : SystemError) : Except SourceError Unit := .error (.unwritable p (.stream e))
  let (octets, result) := match chars text with
    | .error halves => ([], .error (.unencodable halves))
    | .ok content =>
      let octets := encodeUtf8 content
      match (disk.refuses .write).or (disk.refuses .flush), disk.refuses .sync with
      | some e, _ => (octets.take disk.kept, refused e)
      | none, some e => (octets, refused e)
      | none, none => (octets, .ok ())
  match disk.refuses .close with
  | some e => (octets, refused e)
  | none => (octets, result)

namespace Store

/-- The regular file at a path, which is not followed if it is a link. -/
def fileAt (store : Store) (p : Path) : Except SourceError (Place × File) :=
  match store.lookUp false p.render with
  | .error .nullCharacter => .error .nullCharacter
  | .error e => .error (.inaccessible p e)
  | .ok (place, .file f) => .ok (place, f)
  | .ok _ => .error (.notRegular p)

/-- The record of the regular file at a path. -/
def stat (store : Store) (p : Path) : Except SourceError FileStat :=
  (store.fileAt p).map fun found => found.2.stat

/-- The text in the file at a path, with line feeds for all line ends. -/
def readSource (store : Store) (p : Path) : Except SourceError (List Char) :=
  match store.lookUp true p.render with
  | .error .nullCharacter => .error .nullCharacter
  | .error e => .error (.unreadable p e)
  | .ok (_, .file f) =>
    match store.readError? f with
    | none => ((decodeUtf8 f.octets).map unifyNewlines).mapError (.undecodable p)
    | some .accessDenied => .error (.unreadable p (.system .accessDenied p.render))
    | some e => .error (.unreadable p (.stream e))
  | .ok (_, .directory _) => .error (.unreadable p (.system .isDirectory p.render))
  | .ok _ => .ok []

/-- A place for a temporary file in a directory: the first of more names than there are nodes that
is free. -/
def temporaryPlace (store : Store) (directory : Place) : Place :=
  let places := (List.range (store.nodes.length + 1)).map fun n => directory ++ [temporaryName n]
  (places.find? fun p => (store.node? p).isNone).getD (directory ++ [temporaryName 0])

/-- A temporary file: its place and its path as it is written. -/
structure Temporary where
  place : Place
  shown : List Char

/-- The temporary file for a path, in the directory that stands in front of its name, if it can be
made there. -/
def newTemporary (store : Store) (p : Path) : Except SourceError Temporary :=
  let directory := store.absolute p.parent.render
  let inside? := (store.lookUp true directory.render).toOption
  let place := store.temporaryPlace ((inside?.map Prod.fst).getD directory.parts)
  let shown := (directory.child (place.getLastD [])).render
  let refused (e : SystemError) : Except SourceError Temporary :=
    .error (.unwritable p (.system e shown))
  match store.lookUp true shown with
  | .error .nullCharacter => .error .nullCharacter
  | .error (.system .notFound _) =>
    match inside? with
    | some (_, .directory d) =>
      if d.allow store.user .write then .ok ⟨place, shown⟩ else refused .accessDenied
    | _ => refused .notFound
  | .error e => .error (.unwritable p e)
  | .ok _ => refused .isDirectory

/-- Makes the temporary file for a path. -/
def createTemporary (store : Store) (disk : Disk) (p : Path) :
    Except SourceError (Temporary × Store) := do
  let temporary ← store.newTemporary p
  match disk.refuses .create with
  | some e => throw (.unwritable p (.system e temporary.shown))
  | none => pure (temporary, store.writeNew temporary.place [] 0o600)

/-- The place of the file at a path, if it is still the expected one. -/
def unchangedPlace (store : Store) (p : Path) (expected : FileStat) :
    Except SourceError Place := do
  let (place, current) ← store.fileAt p
  checkUnchanged expected current.stat p
  pure place

/-- Takes a temporary file away after an error. If that is refused, its error is the one to be
told; a file that is gone already is no error. -/
def discard (store : Store) (disk : Disk) (temporary : Temporary) (e : SourceError) :
    Store × Except SourceError Unit :=
  match disk.refuses .remove with
  | none | some .notFound => (store.unlink temporary.place, .error e)
  | some refusal => (store, .error (.leftOver (.system refusal temporary.shown)))

/-- Writes a text to a temporary file and moves that over the file at a place. If that cannot be
done, the temporary file is taken away. -/
def moveOver (store : Store) (disk : Disk) (temporary : Temporary) (p : Path) (place : Place)
    (text : List Symbol) (mode : Nat) : Store × Except SourceError Unit :=
  let (octets, result) := disk.fill p text
  let filled := store.modify temporary.place fun f => { f with octets }
  match result with
  | .error e => filled.discard disk temporary e
  | .ok () =>
    match disk.refuses .setMode with
    | some e => filled.discard disk temporary (.unwritable p (.system e temporary.shown))
    | none =>
      let ready := filled.modify temporary.place fun f => { f with mode }
      match disk.refuses .move with
      | some e => ready.discard disk temporary (.unwritable p (.move e temporary.shown p.render))
      | none => (ready.rename temporary.place place, .ok ())

/-- Replaces the file at a path by one with a new text and the permission bits of the expected one:
the tree afterwards, and whether that was done. -/
def rewrite (store : Store) (disk : Disk) (p : Path) (text : List Symbol) (expected : FileStat) :
    Store × Except SourceError Unit :=
  match store.unchangedPlace p expected with
  | .error e => (store, .error e)
  | .ok place =>
    match store.createTemporary disk p with
    | .error e => (store, .error e)
    | .ok (temporary, opened) => opened.moveOver disk temporary p place text expected.mode

end Store

/-! ## The limit on the size -/

/-- The environment variable that limits the size of files. -/
def sizeVariable : String := "PRETTY_MARKUP_MAX_FILE_SIZE"

/-- A limit that is no positive integer. -/
inductive LimitError where
  | notInteger (text : List Char)
  | notPositive (limit : Int)
deriving DecidableEq, Repr

/-- The wording of the error. -/
def LimitError.message (e : LimitError) : String :=
  let shown := match e with
    | .notInteger text => String.ofList (quoted text)
    | .notPositive limit => String.ofList (showInt limit)
  s!"{sizeVariable} must be a positive integer, got {shown}"

/-- The limit in the environment, or the default if there is none. -/
def sizeLimit (fallback : Int) : Option (List Char) → Except LimitError Int
  | none => .ok fallback
  | some text =>
    match integer? text with
    | none => .error (.notInteger text)
    | some limit => if limit ≤ 0 then .error (.notPositive limit) else .ok limit

end Reindent.Files
