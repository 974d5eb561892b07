import Reindent.Css.Walk
import Reindent.Sql.Walk
import Reindent.Xml.Walk

/-!
# Kinds of fragments

The kinds of all three languages together, with their names and numbers.
-/

namespace Reindent

/-- The kind of a fragment of some language. -/
inductive FragmentKind where
  | xml (kind : Xml.Kind)
  | sql (kind : Sql.Kind)
  | css (kind : Css.Kind)
deriving DecidableEq, Repr

namespace FragmentKind

/-- All kinds in order. -/
def all : List FragmentKind := [
  .xml .commentOpen, .xml .comment, .xml .commentClose, .xml .pairedTag, .xml .openTag,
  .xml .inlineElement, .xml .closeTag, .xml .selfClosingTag, .xml .processingInstruction,
  .xml .namespaceDecl, .xml .other, .sql .subqueryOpen, .sql .literal, .sql .clause,
  .css .blockOpen, .css .blockClose, .css .declaration]

/-- The name of a kind. -/
def name : FragmentKind → String
  | .xml .commentOpen => "COMMENT_OPEN"
  | .xml .comment => "COMMENT"
  | .xml .commentClose => "COMMENT_CLOSE"
  | .xml .pairedTag => "PAIRED_TAG"
  | .xml .openTag => "OPEN_TAG"
  | .xml .inlineElement => "INLINE_ELEMENT"
  | .xml .closeTag => "CLOSE_TAG"
  | .xml .selfClosingTag => "SELF_CLOSING_TAG"
  | .xml .processingInstruction => "PROCESSING_INSTRUCTION"
  | .xml .namespaceDecl => "NAMESPACE_DECL"
  | .xml .other => "OTHER"
  | .sql .subqueryOpen => "SUBQUERY_OPEN"
  | .sql .literal => "LITERAL"
  | .sql .clause => "CLAUSE"
  | .css .blockOpen => "BLOCK_OPEN"
  | .css .blockClose => "BLOCK_CLOSE"
  | .css .declaration => "DECLARATION"

/-- The kind of a name. -/
def ofName? (name : String) : Option FragmentKind :=
  all.find? fun k => k.name == name

/-- The number of a kind, counted from one. -/
def number (kind : FragmentKind) : Nat :=
  all.idxOf kind + 1

/-- How a fragment of any kind is written in XML; the kinds of other languages have no rule
there. -/
def xmlTransition? (kind : FragmentKind) (inComment : Bool) : Option Transition :=
  match kind with
  | .xml k => some (Xml.transition k inComment)
  | _ => none

/-- How a kind without a rule is named in a message. -/
def missingRuleMessage (kind : FragmentKind) : String :=
  let name := kind.name
  let number := kind.number
  s!"<FragmentKind.{name}: {number}>"

end FragmentKind

end Reindent
