import Reindent.Css.Split
import Reindent.Transition

/-!
# Laying out CSS

The depth of a fragment is the number of blocks that are open before it.
-/

namespace Reindent.Css

/-- The kind of a CSS fragment. -/
inductive Kind where
  | blockOpen
  | blockClose
  | declaration
deriving DecidableEq, Repr

/-- The kind of a fragment. -/
def classify (fragment : List Char) : Kind :=
  if fragment.contains '\x7b' then .blockOpen
  else if fragment.contains '\x7d' then .blockClose
  else .declaration

/-- How a fragment is written. -/
def transition : Kind → Transition
  | .blockOpen => ⟨.indented, .emitThenIncrement⟩
  | .blockClose => ⟨.indented, .decrementThenEmit⟩
  | .declaration => ⟨.indented, .noChange⟩

/-- The state of the walker. -/
structure State where
  depth : Int := 0
deriving DecidableEq, Repr

/-- What the walker does with a fragment. -/
def move (state : State) (fragment : List Char) : Move State Kind :=
  let kind := classify fragment
  let t := transition kind
  { kind
    lineDepth? := t.lineDepth? state.depth
    text := fragment
    next := ⟨t.depthAfter state.depth⟩
    held := state }

/-- Writes fragments from a state on: the last state and the text without leading line ends. -/
def render (table : IndentTable) (state : State) (fragments : List (List Char)) :
    State × Except DepthExceeded (List Char) :=
  walkThrough (List.dropWhile (· == '\n')) table move state fragments

/-- Lays out a text. -/
def pretty (table : IndentTable) (text : List Char) : Except FormatError (List Char) := do
  let fragments ← split text
  (render table {} fragments).2.mapError .depthExceeded

end Reindent.Css
