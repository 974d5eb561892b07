import Reindent.Files.Store

/-!
# Absolute paths without links

A path is resolved by its text: each name is looked at without following it, a link is replaced by
the text it holds, and two points take the last name away again. What is met again is known by its
text too, so a link that is reached in two spellings counts as two links.
-/

namespace Reindent.Files

open Text

/-- Why a path cannot be resolved. -/
inductive ResolveError where
  | access (error : AccessError)
  /-- Links lead round in a circle. -/
  | circle (path : List Char)
deriving DecidableEq, Repr

/-- The wording of the reason. -/
def ResolveError.message : ResolveError → String
  | .access e => e.message
  | .circle path =>
    let shown := String.ofList (quoted path)
    s!"Symlink loop from {shown}"

/-- Too many links on a way are a circle. -/
def ResolveError.ofAccess : AccessError → ResolveError
  | .system .tooManyLinks path => .circle path
  | e => .access e

/-! ## Texts of paths -/

namespace Path

/-- One text after another, with a slash between them if there is none. An absolute text stands
alone. -/
def joinText (base rest : List Char) : List Char :=
  if Store.isAbsolute rest then rest
  else if base.isEmpty || base.getLast? = some '/' then base ++ rest
  else base ++ '/' :: rest

/-- What stands before the last name, without the slashes between them, and that name. -/
def splitLast (s : List Char) : List Char × Name :=
  let name := (s.reverse.takeWhile (· ≠ '/')).reverse
  let before := s.take (s.length - name.length)
  let trimmed := (before.reverse.dropWhile (· == '/')).reverse
  (if trimmed.isEmpty then before else trimmed, name)

/-- One level up: above the start of a relative path the way up is kept. -/
def upText (s : List Char) : List Char :=
  if s.isEmpty then above
  else
    let (before, name) := splitLast s
    if name = above then joinText (joinText before above) above else before

/-- The first name of a text. -/
def firstName (s : List Char) : Name := s.takeWhile (· ≠ '/')

/-- What follows the first name and its slash. -/
def afterFirst (s : List Char) : List Char := (s.dropWhile (· ≠ '/')).drop 1

theorem length_afterFirst_lt {s : List Char} (h : s ≠ []) : (afterFirst s).length < s.length := by
  have hle := (List.dropWhile_sublist (l := s) (· ≠ '/')).length_le
  have hpos := List.length_pos_iff.2 h
  simp only [afterFirst, List.length_drop]
  omega

end Path

/-! ## Links -/

/-- The links met so far: a link that is still being replaced has no result yet. -/
abbrev Trail := List (List Char × Option (List Char))

/-- What resolving a text comes to. -/
structure Resolved where
  path : List Char
  /-- Whether all was resolved; a circle ends it early. -/
  complete : Bool
  trail : Trail

namespace Store

/-- Where the text in a link starts, and what is left of it. -/
def startOf (base text : List Char) : List Char × List Char :=
  if isAbsolute text then (['/'], text.drop 1) else (base, text)

/-- What a link comes to that is met while it is being replaced; `after` is left of the text. -/
def atCircle (store : Store) (strict : Bool) (trail : Trail) (link after : List Char) :
    Except ResolveError Resolved :=
  if strict then
    match store.lookUp true link with
    | .error e => .error (.ofAccess e)
    | .ok _ => .error (.circle link)
  else .ok ⟨Path.joinText link after, false, trail⟩

/-- Goes along the text `rest` from the resolved text `base`, replacing links up to `depth` deep. A
circle ends it early unless `strict` makes it an error. -/
def resolveFrom (store : Store) (strict : Bool) (depth : Nat) (trail : Trail)
    (base rest : List Char) :
    Except ResolveError Resolved :=
  if _ : rest = [] then .ok ⟨base, true, trail⟩
  else
    let name := Path.firstName rest
    let after := Path.afterFirst rest
    if name.isEmpty || name = ['.'] then resolveFrom store strict depth trail base after
    else if name = Path.above then resolveFrom store strict depth trail (Path.upText base) after
    else
      let next := Path.joinText base name
      match store.lookUp false next with
      | .error .nullCharacter => .error (.access .nullCharacter)
      | .error e =>
        if strict then .error (.ofAccess e) else resolveFrom store strict depth trail next after
      | .ok (_, .link target) =>
        match trail.lookup next with
        | some (some found) => resolveFrom store strict depth trail found after
        | some none => store.atCircle strict trail next after
        | none =>
          if _ : 0 < depth then
            let (start, text) := startOf base target
            match resolveFrom store strict (depth - 1) ((next, none) :: trail) start text with
            | .error e => .error e
            | .ok ⟨found, false, trail⟩ => .ok ⟨Path.joinText found after, false, trail⟩
            | .ok ⟨found, true, trail⟩ =>
              resolveFrom store strict depth ((next, some found) :: trail) found after
          else store.atCircle strict trail next after
      | .ok _ => resolveFrom store strict depth trail next after
termination_by (depth, rest.length)
decreasing_by
  all_goals first
    | exact Prod.Lex.right _ (Path.length_afterFirst_lt (by assumption))
    | exact Prod.Lex.left _ _ (by omega)

/-- A bound on the links that are being replaced at one time: each can be spelled as an absolute
path, and with as many steps up as fit into a path. -/
def maxDepth (store : Store) : Nat := store.linkCount * (maxPath + 1)

/-- The absolute path that a text names, as far as the text tells. -/
def absolute (store : Store) (s : List Char) : Path :=
  if isAbsolute s then ⟨Path.rootOf s, Place.along [] (stepsOf s)⟩
  else ⟨['/'], Place.along store.workDir (stepsOf s)⟩

/-- The path of a place. -/
def pathOf (place : Place) : Path := ⟨['/'], place⟩

/-- The absolute path without links that a path leads to. If `strict`, all of it has to be
there. -/
def resolve (store : Store) (strict : Bool) (p : Path) : Except ResolveError Path := do
  let (start, text) := startOf [] p.render
  let found ← store.resolveFrom strict store.maxDepth [] start text
  let path := store.absolute found.path
  if !strict then
    match store.lookUp true path.render with
    | .error (.system .tooManyLinks shown) => throw (.circle shown)
    | _ => pure ()
  pure path

end Store

end Reindent.Files
