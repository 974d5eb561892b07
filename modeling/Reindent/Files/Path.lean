import Reindent.Text.Cut

/-!
# Paths

A path is a root and a list of parts. Empty parts and single points are dropped when a path is
read; two points are kept, since what they mean depends on links.
-/

namespace Reindent.Files

open Text

/-- A name in a directory. -/
abbrev Name := List Char

/-- The home directories: that of the user, from the environment or the password database, and
those that the password database has for names. -/
structure Homes where
  own? : Option (List Char) := none
  named : List (Name × List Char) := []
deriving DecidableEq, Repr

/-- The home directory of the user with a name, or of the one who runs the program. -/
def Homes.of? (homes : Homes) (name : Name) : Option (List Char) :=
  if name.isEmpty then homes.own? else homes.named.lookup name

/-- A path as it is written. -/
structure Path where
  /-- Empty for a relative path, otherwise one slash, or two if there were exactly two. -/
  root : List Char
  parts : List Name
deriving DecidableEq, Repr

namespace Path

/-- The root of a written path. -/
def rootOf (s : List Char) : List Char :=
  match s with
  | '/' :: '/' :: '/' :: _ => ['/']
  | '/' :: '/' :: _ => ['/', '/']
  | '/' :: _ => ['/']
  | _ => []

/-- The parts of a written path. -/
def partsOf (s : List Char) : List Name :=
  (splitOn '/' s).filter fun p => !(p.isEmpty || p == ['.'])

/-- Reads a path. -/
def ofText (s : List Char) : Path :=
  ⟨rootOf s, partsOf s⟩

/-- Parts with slashes between them. -/
def joined (parts : List Name) : List Char :=
  ['/'].intercalate parts

/-- How a path is written; the empty one is a point. -/
def render (p : Path) : List Char :=
  if p.root.isEmpty && p.parts.isEmpty then ['.'] else p.root ++ joined p.parts

/-- The last part. -/
def name (p : Path) : Name :=
  p.parts.getLastD []

/-- The last part from its last point on, if that point is neither the first nor the last
character. -/
def suffix (p : Path) : List Char :=
  let after := (p.name.reverse.takeWhile (· ≠ '.')).reverse
  let start := p.name.length - (after.length + 1)
  if p.name.contains '.' && 0 < start && !after.isEmpty then '.' :: after else []

/-- The directory of a path; a path without parts is its own directory. -/
def parent (p : Path) : Path :=
  ⟨p.root, p.parts.dropLast⟩

/-- The directory of a path, the directory of that, and so on. -/
def parents (p : Path) : List Path :=
  (List.range p.parts.length).reverse.map fun n => ⟨p.root, p.parts.take n⟩

/-- A path inside a directory. -/
def child (p : Path) (name : Name) : Path :=
  ⟨p.root, p.parts ++ [name]⟩

/-- A home directory as it is written, without slashes at its end. -/
def trimHome (home : List Char) : List Char :=
  let s := (home.reverse.dropWhile (· == '/')).reverse
  if s.isEmpty then ['/'] else s

/-- Replaces a tilde at the start of a relative path, with the name that follows it, by a home
directory. There is none for an unknown name, nor if the home directory starts with a tilde
itself. -/
def expandHome (homes : Homes) (p : Path) : Option Path :=
  match p.root, p.parts with
  | [], ('~' :: name) :: rest => do
    let start := trimHome (← homes.of? name)
    if start.head? = some '~' then none else some ⟨rootOf start, partsOf start ++ rest⟩
  | _, _ => some p

/-- The name of the directory above. -/
def above : Name := ['.', '.']

end Path

end Reindent.Files
