import Reindent.Files.Path
import Reindent.Text.Quoted
import Reindent.Text.Utf8

/-!
# The file tree

A store is a tree of files, directories, links and pipes, with a working directory, as a user sees
it. A path is followed part by part from a directory; links on the way are followed too, up to a
fixed number. Whether a file may be read, a directory searched or a file made in it is told by
their permission bits; what the system refuses for other reasons, such as a broken disk, is told
beside.
-/

namespace Reindent.Files

open Text

/-- A place in the tree: the names from the root down. -/
abbrev Place := List Name

/-! ## Permissions -/

/-- The user whom the program runs for; the one with the number zero may do everything. -/
structure User where
  id : Nat := 0
  /-- The groups of the user; new files belong to the first of them. -/
  groups : List Nat := []
deriving DecidableEq, Repr

/-- To whom a node belongs, and what they and others may do with it. -/
structure Permissions where
  mode : Nat
  owner : Nat := 0
  group : Nat := 0
deriving DecidableEq, Repr

/-- What may be allowed with a node. -/
inductive Right where
  | search
  | write
  | read
deriving DecidableEq, Repr

/-- The bit of a right among the three of a class of users. -/
def Right.bit : Right → Nat
  | .search => 0
  | .write => 1
  | .read => 2

/-- Whether a user has a right: the bits for the owner, the group or all others decide. -/
def Permissions.allow (p : Permissions) (user : User) (right : Right) : Bool :=
  let shift := if user.id = p.owner then 6 else if p.group ∈ user.groups then 3 else 0
  user.id == 0 || p.mode.testBit (shift + right.bit)

/-! ## Nodes -/

/-- Errors of the operating system. -/
inductive SystemError where
  | notFound
  | accessDenied
  | notDirectory
  | isDirectory
  | nameTooLong
  | tooManyLinks
  /-- Any other error, with its number and wording. -/
  | other (number : Nat) (wording : String)
deriving DecidableEq, Repr

/-- The number and wording of an error. -/
def SystemError.text : SystemError → String
  | .notFound => "[Errno 2] No such file or directory"
  | .accessDenied => "[Errno 13] Permission denied"
  | .notDirectory => "[Errno 20] Not a directory"
  | .isDirectory => "[Errno 21] Is a directory"
  | .nameTooLong => "[Errno 36] File name too long"
  | .tooManyLinks => "[Errno 40] Too many levels of symbolic links"
  | .other number wording => s!"[Errno {number}] {wording}"

/-- A regular file. -/
structure File extends Permissions where
  octets : List UInt8
  /-- The identity of the file, which a new file in its place does not share. -/
  inode : Nat
  /-- The time of the last change, in nanoseconds. -/
  mtime : Int
  /-- The error that reading the octets comes to, if the disk does not give them. -/
  damage? : Option SystemError := none
deriving DecidableEq, Repr

/-- What stands at a place. -/
inductive Node where
  | file (file : File)
  | directory (permissions : Permissions)
  | link (target : List Char)
  | pipe
deriving DecidableEq, Repr

/-- The permissions of directories unless others are set. -/
def openToAll : Permissions := { mode := 0o755 }

/-- A file tree, the working directory in it and the user who looks at it. -/
structure Store where
  nodes : List (Place × Node) := []
  workDir : Place := []
  user : User := {}
  /-- The permissions of the root. -/
  root : Permissions := openToAll
  /-- The identity of the next new file. -/
  nextInode : Nat := 1
  /-- The time of the next change. -/
  clock : Int := 0
deriving DecidableEq, Repr

/-- Why a path cannot be used. -/
inductive AccessError where
  /-- The path holds a null character. -/
  | nullCharacter
  | system (error : SystemError) (path : List Char)
  /-- An error with an open file, which names no path. -/
  | stream (error : SystemError)
  /-- An error of moving one path over another. -/
  | move (error : SystemError) (old new : List Char)
deriving DecidableEq, Repr

/-- The wording of the reason. -/
def AccessError.message : AccessError → String
  | .nullCharacter => "embedded null byte"
  | .system e path =>
    let text := e.text
    let shown := String.ofList (quoted path)
    s!"{text}: {shown}"
  | .stream e => e.text
  | .move e old new =>
    let text := e.text
    let old := String.ofList (quoted old)
    let new := String.ofList (quoted new)
    s!"{text}: {old} -> {new}"

/-- Whether the error only says that nothing stands there. -/
def AccessError.isAbsence : AccessError → Bool
  | .nullCharacter => true
  | .system .notFound _ | .system .notDirectory _ | .system .tooManyLinks _ => true
  | _ => false

/-- Goes along parts from a place, as far as the text tells. -/
def Place.along (place : Place) (parts : List Name) : Place :=
  parts.foldl (fun p name =>
    if name = Path.above then p.dropLast
    else if name.isEmpty || name = ['.'] then p
    else p ++ [name]) place

namespace Store

/-! ## Nodes -/

/-- What stands at a place; the root is a directory. -/
def node? (store : Store) (place : Place) : Option Node :=
  if place.isEmpty then some (.directory store.root)
  else (store.nodes.find? fun n => n.1 == place).map Prod.snd

/-- Puts a node at a place. -/
def put (store : Store) (place : Place) (node : Node) : Store :=
  { store with nodes := (place, node) :: store.nodes.filter fun n => n.1 != place }

/-- Takes away what stands at a place, but nothing below it. -/
def unlink (store : Store) (place : Place) : Store :=
  { store with nodes := store.nodes.filter fun n => n.1 != place }

/-- The number of links. -/
def linkCount (store : Store) : Nat :=
  store.nodes.countP fun n => match n.2 with
    | .link _ => true
    | _ => false

/-- Why the octets of a file cannot be had, if there is a reason. -/
def readError? (store : Store) (f : File) : Option SystemError :=
  if f.allow store.user .read then f.damage? else some .accessDenied

/-! ## Following paths -/

/-- The length of a text in octets. -/
def octetLength (s : List Char) : Nat := (encodeUtf8 s).length

/-- The longest name in octets. -/
def maxName : Nat := 255

/-- The longest path in octets. -/
def maxPath : Nat := 4095

/-- The greatest number of links that are followed on one path. -/
def maxLinks : Nat := 40

/-- The parts of a path that is followed. Single points stay, since what they stand in has to be a
directory that may be searched; a slash at the end gives an empty part, for which a directory is
enough. -/
def stepsOf (s : List Char) : List Name :=
  (splitOn '/' s).filter (fun p => !p.isEmpty) ++ if s.getLast? = some '/' then [[]] else []

/-- Whether a written path starts at the root. -/
def isAbsolute (s : List Char) : Bool :=
  s.head? == some '/'

/-- Follows `steps` from a place; `followLast` says whether a link at the end is followed. -/
def follow (store : Store) (followLast : Bool) (links : Nat) (place : Place) (steps : List Name) :
    Except SystemError (Place × Node) :=
  match store.node? place, steps with
  | none, _ => .error .notFound
  | some node, [] => .ok (place, node)
  | some (.directory d), name :: rest =>
    if name.isEmpty then follow store followLast links place rest
    else if !d.allow store.user .search then .error .accessDenied
    else if name = ['.'] then follow store followLast links place rest
    else if name = Path.above then follow store followLast links place.dropLast rest
    else if maxName < octetLength name then .error .nameTooLong
    else
      match store.node? (place ++ [name]) with
      | some (.link target) =>
        if rest.isEmpty && !followLast then .ok (place ++ [name], .link target)
        else if maxLinks ≤ links then .error .tooManyLinks
        else
          follow store followLast (links + 1) (if isAbsolute target then [] else place)
            (stepsOf target ++ rest)
      | _ => follow store followLast links (place ++ [name]) rest
  | some _, _ :: _ => .error .notDirectory
termination_by (maxLinks - links, steps.length)
decreasing_by
  all_goals simp_wf
  · exact Prod.Lex.right _ (by simp)
  · exact Prod.Lex.right _ (by simp)
  · exact Prod.Lex.right _ (by simp)
  · exact Prod.Lex.left _ _ (by omega)
  · exact Prod.Lex.right _ (by simp)

/-- What a written path leads to; `followLast` says whether a link at its end is followed. -/
def lookUp (store : Store) (followLast : Bool) (path : List Char) :
    Except AccessError (Place × Node) :=
  if path.contains (Char.ofNat 0) then .error .nullCharacter
  else if path.isEmpty then .error (.system .notFound path)
  else if maxPath < octetLength path then .error (.system .nameTooLong path)
  else
    (store.follow followLast 0 (if isAbsolute path then [] else store.workDir)
      (stepsOf path)).mapError
      fun e => .system e path

/-! ## Writing -/

/-- Puts a new file of the user at a place. -/
def writeNew (store : Store) (place : Place) (octets : List UInt8) (mode : Nat) : Store :=
  let owner := store.user.id
  let group := store.user.groups.headD 0
  let file : File := { mode, owner, group, octets, inode := store.nextInode, mtime := store.clock }
  { store.put place (.file file) with
    nextInode := store.nextInode + 1
    clock := store.clock + 1 }

/-- Changes the file at a place. -/
def modify (store : Store) (place : Place) (change : File → File) : Store :=
  match store.node? place with
  | some (.file f) => store.put place (.file (change f))
  | _ => store

/-- Moves the file at one place over what stands at another. -/
def rename (store : Store) (old new : Place) : Store :=
  match store.node? old with
  | some node => (store.unlink old).put new node
  | none => store

end Store

end Reindent.Files
