import Reindent.Error
import Reindent.Marker
import Reindent.Sql.Rule
import Reindent.Text.Cut

/-!
# SQL fragments

A statement is cut in front of its quotes. The spans from an odd quote to the next are literals and
stay whole; the others are split into clauses.
-/

namespace Reindent.Sql

open Text

/-- A piece of a statement. -/
structure Fragment where
  text : List Char
  /-- Whether the text is quoted. -/
  literal : Bool := false
deriving DecidableEq, Repr

/-- The clauses of a text without quotes, with a given mark. -/
def splitClausesWith (mark : Char) (tab text : List Char) : List (List Char) :=
  splitOn mark (applyRules tab mark text)

/-- The clauses of a text without quotes. -/
def splitClauses (tab text : List Char) : Except FormatError (List (List Char)) :=
  match Marker.pick? (text ++ tab) with
  | some mark => .ok (splitClausesWith mark tab text)
  | none => .error .noMarkLeft

/-- Whether a text starts with a quote. -/
def startsQuote (s : List Char) : Bool :=
  s.head? == some '\x27'

/-- The spans of a text between quotes; each but the first starts with its quote. -/
def quoteSpans (text : List Char) : List (List Char) :=
  cutBefore startsQuote (collapse text)

/-- The fragments of spans that are by turns unquoted and quoted. -/
def fragmentsOf (tab : List Char) : Bool → List (List Char) → Except FormatError (List Fragment)
  | _, [] => .ok []
  | true, span :: rest => do
    let more ← fragmentsOf tab false rest
    pure (⟨span, true⟩ :: more)
  | false, span :: rest => do
    let clauses ← splitClauses tab span
    let more ← fragmentsOf tab true rest
    pure (clauses.map (Fragment.mk · false) ++ more)

/-- The fragments of a statement. -/
def split (tab text : List Char) : Except FormatError (List Fragment) :=
  fragmentsOf tab false (quoteSpans text)

end Reindent.Sql
