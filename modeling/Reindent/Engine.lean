import Reindent.Css.Walk
import Reindent.Minify.Css
import Reindent.Minify.Json
import Reindent.Minify.Sql
import Reindent.Minify.Xml
import Reindent.Settings.Basic
import Reindent.Sql.Walk
import Reindent.Xml.Walk

/-!
# The engine

An engine is made once from settings and then lays out or minifies texts of four languages.
-/

namespace Reindent

open Text

/-- The languages that can be formatted. -/
inductive Language where
  | xml
  | json
  | css
  | sql
deriving DecidableEq, Repr

namespace Language

/-- All languages in order. -/
def all : List Language := [.xml, .json, .css, .sql]

/-- The name of a language. -/
def name : Language → List Char
  | .xml => ['x', 'm', 'l']
  | .json => ['j', 's', 'o', 'n']
  | .css => ['c', 's', 's']
  | .sql => ['s', 'q', 'l']

/-- The language of a name in lower case. -/
def ofName? (name : List Char) : Option Language :=
  all.find? fun l => l.name == name

end Language

/-- A formatter with its settings, on a machine with some limits. -/
structure Engine where
  limits : Limits
  settings : Settings
  table : IndentTable
  preserveComments : Bool

namespace Engine

/-- Why an engine cannot be made. -/
inductive CreateError where
  | settings (error : Settings.Invalid)
  | table (error : IndentTable.BuildError)
deriving DecidableEq, Repr

/-- The wording of an error. -/
def CreateError.message : CreateError → String
  | .settings e => e.message
  | .table e => e.message

/-- The engine for settings, which are normalised and checked. -/
def create (limits : Limits) (s : Settings) : Except CreateError Engine := do
  let s ← (s.normalize limits).mapError .settings
  let checked ← (s.check limits).mapError .settings
  let table ←
    (IndentTable.build checked.unit checked.maxDepth checked.overflow.name).mapError .table
  pure ⟨limits, s, table, checked.preserveComments⟩

/-- Lays out a text of a language. -/
def pretty (e : Engine) (language : Language) (text : List Char) : Except Failure (List Symbol) :=
  match language with
  | .xml => (Xml.pretty e.table text).map symbols |>.mapError .format
  | .json => (Json.prettyText e.limits e.table.unit text).mapError Failure.ofJson
  | .css => (Css.pretty e.table text).map symbols |>.mapError .format
  | .sql => (Sql.pretty e.table text).map symbols |>.mapError .format

/-- Minifies a text of a language; comments are kept if that is asked for or, when nothing is
asked, if the settings say so. -/
def minify (e : Engine) (language : Language) (text : List Char) (keep : Option Bool) :
    List Char :=
  let preserve := keep.getD e.preserveComments
  match language with
  | .xml => Minify.xml preserve text
  | .json => Minify.json text
  | .css => Minify.css preserve text
  | .sql => Minify.sql text

/-- Formats a text of a language that is named in whatever case. -/
def format (e : Engine) (language text : List Char) (minified : Bool) :
    Except Failure (List Symbol) :=
  let name := lowerCase language
  match Language.ofName? name with
  | none => .error (.format (.unsupportedLanguage name))
  | some l => if minified then .ok (symbols (e.minify l text none)) else e.pretty l text

end Engine

end Reindent
