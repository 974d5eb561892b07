import Reindent.Engine

/-!
# Notes

What is worth telling about a run besides its result: into how many fragments a text was cut, which
depths were clamped, and whether the nesting was still open at the end.
-/

namespace Reindent

open Text

/-- Something worth telling about a run. -/
inductive Note where
  | split (language : Language) (count : Nat)
  | clamped (depth maxDepth : Int)
  /-- An XML text ended at a depth other than zero. -/
  | openElements (depth : Int)
  /-- An SQL text ended with unbalanced parentheses. -/
  | openParentheses (level : Int)
deriving DecidableEq, Repr

namespace Note

/-- The part of the program that a note comes from. -/
def topic : Note → String
  | .split .xml _ | .openElements _ => "pretty_markup.xml_format"
  | .split .json _ => "pretty_markup.json_format"
  | .split .css _ => "pretty_markup.css_format"
  | .split .sql _ | .openParentheses _ => "pretty_markup.sql_format"
  | .clamped _ _ => "pretty_markup.indent"

/-- The name of a language in a note. -/
def languageName : Language → String
  | .xml => "XML"
  | .json => "JSON"
  | .css => "CSS"
  | .sql => "SQL"

/-- The wording of a note. -/
def message : Note → String
  | .split language count =>
    let name := languageName language
    s!"Split {name} into {count} fragments"
  | .clamped depth maxDepth => s!"Clamping depth {depth} to {maxDepth}"
  | .openElements depth => s!"XML walk finished at depth {depth}"
  | .openParentheses level => s!"SQL walk finished with parenthesis level {level}"

/-- A note as a line of the log, without its time. -/
def line (n : Note) : String :=
  let t := n.topic
  let m := n.message
  s!"DEBUG {t}: {m}\n"

end Note

/-- The note on a line that is clamped. -/
def IndentTable.clampNote? (table : IndentTable) (depth : Int) : Option Note :=
  if 0 ≤ depth && table.maxDepth < depth && table.overflow = .clamp then
    some (.clamped depth table.maxDepth)
  else none

/-- The notes on the lines of a walk. -/
def walkNotes {State Kind : Type} (table : IndentTable)
    (moves : List (Move State Kind × Except DepthExceeded (List (List Char)))) : List Note :=
  moves.filterMap fun m => m.1.lineDepth?.bind table.clampNote?

/-- The notes on the state at the end of a walk, if the walk got that far. -/
def endNotes {State : Type} (finished : State × Except DepthExceeded (List Char))
    (note? : State → Option Note) :
    List Note :=
  match finished.2 with
  | .ok _ => (note? finished.1).toList
  | .error _ => []

/-- The notes on laying out XML. -/
def Xml.notes (table : IndentTable) (text : List Char) : List Note :=
  let fragments := split text
  [Note.split .xml fragments.length] ++ walkNotes table (steps table move {} fragments) ++
    endNotes (render table {} fragments) fun s => if s.depth = 0 then none
    else some (.openElements s.depth)

/-- The notes on laying out CSS. -/
def Css.notes (table : IndentTable) (text : List Char) : List Note :=
  match split text with
  | .error _ => []
  | .ok fragments =>
    Note.split .css fragments.length :: walkNotes table (steps table move {} fragments)

/-- The notes on laying out SQL. -/
def Sql.notes (table : IndentTable) (text : List Char) : List Note :=
  match split table.unit text with
  | .error _ => []
  | .ok fragments =>
    [Note.split .sql fragments.length] ++
      walkNotes table (steps table (move table.unit) {} fragments) ++
      endNotes (render table {} fragments) fun s =>
        if s.level = 0 then none else some (.openParentheses s.level)

/-- The notes on formatting a text; minifying leaves none. -/
def Engine.notes (e : Engine) (language : Language) (text : List Char) (minified : Bool) :
    List Note :=
  if minified then []
  else
    match language with
    | .xml => Xml.notes e.table text
    | .json => []
    | .css => Css.notes e.table text
    | .sql => Sql.notes e.table text

end Reindent
