import Reindent.Error
import Reindent.Xml.Kind
import Reindent.Xml.Split

/-!
# Laying out XML

The walker keeps the depth, whether it is inside a comment, and the fragment before the current
one.
-/

namespace Reindent.Xml

/-- The state of the walker. -/
structure State where
  depth : Int := 0
  inComment : Bool := false
  previous : Option (List Char) := none
deriving DecidableEq, Repr

/-- Whether the walker is inside a comment after a fragment. -/
def inCommentAfter (kind : Kind) (inComment : Bool) : Bool :=
  match kind with
  | .commentOpen => true
  | .comment | .commentClose => false
  | _ => inComment

/-- What the walker does with a fragment. -/
def move (state : State) (fragment : List Char) : Move State Kind :=
  let kind := classify state.previous fragment
  let t := transition kind state.inComment
  { kind
    lineDepth? := t.lineDepth? state.depth
    text := fragment
    next := ⟨t.depthAfter state.depth, inCommentAfter kind state.inComment, some fragment⟩
    held := state }

/-- Drops one line end at the start. -/
def dropNewline : List Char → List Char
  | '\n' :: s => s
  | s => s

/-- Writes fragments from a state on: the last state and the text. -/
def render (table : IndentTable) (state : State) (fragments : List (List Char)) :
    State × Except DepthExceeded (List Char) :=
  walkThrough dropNewline table move state fragments

/-- Lays out a text. -/
def pretty (table : IndentTable) (text : List Char) : Except FormatError (List Char) :=
  (render table {} (split text)).2.mapError .depthExceeded

end Reindent.Xml
