import Reindent.Indent

/-!
# Transitions and walks

How a fragment is written, and what it does to the depth. A walker turns its state and a fragment
to a move; a walk makes the moves of a list of fragments one after the other and ends early if a
line cannot be indented.
-/

namespace Reindent

/-- Where a fragment goes. -/
inductive Placement where
  /-- On a line of its own. -/
  | indented
  /-- Right after the fragment before it. -/
  | inline
deriving DecidableEq, Repr

/-- What a fragment does to the depth, and on which side of its own line. -/
inductive DepthChange where
  | noChange
  | emitThenIncrement
  | incrementThenEmit
  | emitThenDecrement
  | decrementThenEmit
deriving DecidableEq, Repr

namespace DepthChange

/-- Whether the depth becomes smaller. -/
def decrements : DepthChange → Bool
  | .emitThenDecrement | .decrementThenEmit => true
  | _ => false

/-- The change before the fragment is written. -/
def before : DepthChange → Int
  | .incrementThenEmit => 1
  | .decrementThenEmit => -1
  | _ => 0

/-- The change after the fragment is written. -/
def after : DepthChange → Int
  | .emitThenIncrement => 1
  | .emitThenDecrement => -1
  | _ => 0

end DepthChange

/-- How a kind of fragment is written. -/
structure Transition where
  placement : Placement
  change : DepthChange := .noChange
deriving DecidableEq, Repr

namespace Transition

/-- The same placement without a change of depth. -/
def level (t : Transition) : Transition := { t with change := .noChange }

/-- The depth of the line that a fragment starts at a depth, if it starts one. -/
def lineDepth? (t : Transition) (depth : Int) : Option Int :=
  match t.placement with
  | .indented => some (depth + t.change.before)
  | .inline => none

/-- The depth after a fragment. -/
def depthAfter (t : Transition) (depth : Int) : Int :=
  depth + t.change.before + t.change.after

end Transition

/-- What is written for a fragment: the start of its line, if it starts one, and its text. -/
def emit (table : IndentTable) (lineDepth? : Option Int) (text : List Char) :
    Except DepthExceeded (List (List Char)) :=
  match lineDepth? with
  | none => .ok [text]
  | some depth => (table.shift depth).map fun start => [start, text]

/-- What a walker does with one fragment. -/
structure Move (State Kind : Type) where
  kind : Kind
  /-- The depth of the line that the fragment starts, if it starts one. -/
  lineDepth? : Option Int
  text : List Char
  /-- The state after the fragment. -/
  next : State
  /-- The state that is left when the line cannot be indented. -/
  held : State

/-- What a move writes. -/
def Move.emit (table : IndentTable) {State Kind : Type} (m : Move State Kind) :
    Except DepthExceeded (List (List Char)) :=
  Reindent.emit table m.lineDepth? m.text

/-- Makes the moves of all fragments: the state at the end and what was written, or the state at
the fragment that could not be written and the reason. -/
def walk (table : IndentTable) {State Kind Fragment : Type}
    (move : State → Fragment → Move State Kind) :
    State → List Fragment → State × Except DepthExceeded (List Char)
  | state, [] => (state, .ok [])
  | state, fragment :: rest =>
    let m := move state fragment
    match m.emit table with
    | .error e => (m.held, .error e)
    | .ok pieces =>
      let (last, written) := walk table move m.next rest
      (last, written.map (pieces.flatten ++ ·))

/-- A walk whose text is finished: the last state and the text. -/
def walkThrough (finish : List Char → List Char) (table : IndentTable)
    {State Kind Fragment : Type} (move : State → Fragment → Move State Kind) (state : State)
    (fragments : List Fragment) : State × Except DepthExceeded (List Char) :=
  let (last, written) := walk table move state fragments
  (last, written.map finish)

/-- The moves of a walk with what each writes, up to the first that cannot be made. -/
def steps (table : IndentTable) {State Kind Fragment : Type}
    (move : State → Fragment → Move State Kind) :
    State → List Fragment → List (Move State Kind × Except DepthExceeded (List (List Char)))
  | _, [] => []
  | state, fragment :: rest =>
    let m := move state fragment
    match m.emit table with
    | .error e => [(m, .error e)]
    | .ok pieces => (m, .ok pieces) :: steps table move m.next rest

end Reindent
