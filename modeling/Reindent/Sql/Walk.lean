import Reindent.Sql.Split
import Reindent.Transition

/-!
# Laying out SQL

The walker keeps the depth of subqueries and the number of open parentheses. A fragment may leave a
subquery only when no parenthesis is open and the depth is positive.
-/

namespace Reindent.Sql

open Text

/-- The kind of an SQL fragment. -/
inductive Kind where
  | subqueryOpen
  | literal
  | clause
deriving DecidableEq, Repr

/-- The number of open parentheses after a text. -/
def levelAfter (text : List Char) (level : Int) : Int :=
  level + (text.count '(' : Int) - (text.count ')' : Int)

/-- Whether a parenthesis with `SELECT` right after it, or after blanks, stands somewhere in a
text. -/
def opensSubquery : List Char → Bool
  | [] => false
  | c :: s => (c == '(' && selectWord.isPrefixOf (s.dropWhile isBlank)) || opensSubquery s

/-- The kind of a fragment. -/
def classify (fragment : Fragment) : Kind :=
  if fragment.literal || fragment.text.contains '\x27' then .literal
  else if opensSubquery fragment.text then .subqueryOpen
  else .clause

/-- How a fragment is written where it may leave a subquery. -/
def closingTransition : Kind → Transition
  | .subqueryOpen => ⟨.indented, .incrementThenEmit⟩
  | .literal => ⟨.inline, .decrementThenEmit⟩
  | .clause => ⟨.indented, .emitThenDecrement⟩

/-- The state of the walker. -/
structure State where
  depth : Int := 0
  /-- The number of open parentheses. -/
  level : Int := 0
deriving DecidableEq, Repr

/-- Whether the last subquery is left. -/
def State.closesScope (state : State) : Bool :=
  state.level < 1 && 0 < state.depth

/-- How a fragment of a kind is written in a state. -/
def transition (kind : Kind) (state : State) : Transition :=
  let t := closingTransition kind
  if t.change.decrements && !state.closesScope then t.level else t

/-- The columns of a select list go to lines of their own. -/
def breakColumns (unit text : List Char) : List Char :=
  text.flatMap fun c => if c = ',' then ',' :: '\n' :: (unit ++ unit) else [c]

/-- The text that is written for a fragment. -/
def writtenText (unit : List Char) (fragment : Fragment) : List Char :=
  if classify fragment ≠ .literal && occurs selectWord fragment.text then
    breakColumns unit fragment.text
  else fragment.text

/-- What the walker does with a fragment. -/
def move (unit : List Char) (state : State) (fragment : Fragment) : Move State Kind :=
  let level := if fragment.literal then state.level else levelAfter fragment.text state.level
  let counted : State := ⟨state.depth, level⟩
  let kind := classify fragment
  let t := transition kind counted
  { kind
    lineDepth? := t.lineDepth? state.depth
    text := writtenText unit fragment
    next := ⟨t.depthAfter state.depth, level⟩
    held := counted }

/-- Puts a character in front of a text without empty lines. -/
def consLine (c : Char) (s : List Char) : List Char :=
  if c = '\n' && s.head? == some '\n' then s else c :: s

/-- Replaces every run of line ends by one. -/
def joinLines (s : List Char) : List Char :=
  s.foldr consLine []

/-- Writes fragments from a state on: the last state and the text without leading line ends and
empty lines. -/
def render (table : IndentTable) (state : State) (fragments : List Fragment) :
    State × Except DepthExceeded (List Char) :=
  walkThrough (fun s => joinLines (s.dropWhile (· == '\n'))) table (move table.unit) state
    fragments

/-- Lays out a statement. -/
def pretty (table : IndentTable) (text : List Char) : Except FormatError (List Char) := do
  let fragments ← split table.unit text
  (render table {} fragments).2.mapError .depthExceeded

end Reindent.Sql
