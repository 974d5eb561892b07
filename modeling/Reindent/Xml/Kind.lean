import Reindent.Text.Cut
import Reindent.Text.Word
import Reindent.Transition

/-!
# Kinds of XML fragments

A fragment is classified by what it holds, the first rule that applies deciding, and every kind has
a way of being written. Element markup inside a comment is passed through as it is.
-/

namespace Reindent.Xml

open Text

/-- The kind of an XML fragment. -/
inductive Kind where
  /-- Opens a comment, a character data section or a declaration. -/
  | commentOpen
  /-- Opens and closes one, or is a document type. -/
  | comment
  /-- Closes one that was opened earlier. -/
  | commentClose
  /-- The end tag of the start tag right before it. -/
  | pairedTag
  | openTag
  /-- Holds a start tag and an end tag. -/
  | inlineElement
  | closeTag
  | selfClosingTag
  | processingInstruction
  /-- A namespace attribute, cut out of its start tag. -/
  | namespaceDecl
  /-- Text without structure. -/
  | other
deriving DecidableEq, Repr

/-- Characters of an element's name after the first. -/
def isNameChar (c : Char) : Bool :=
  isWord c || c == ':' || c == '-' || c == '.' || c == ','

/-- The longest name at the start of a text. -/
def name? : List Char → Option (List Char)
  | [] => none
  | c :: s => if isWord c then some (c :: s.takeWhile isNameChar) else none

/-- The name in a start tag at the beginning of a fragment. -/
def openName? : List Char → Option (List Char)
  | '<' :: s => name? s
  | _ => none

/-- The name in an end tag at the beginning of a fragment. -/
def closeName? : List Char → Option (List Char)
  | '<' :: '/' :: s => name? s
  | _ => none

/-- Whether a fragment ends the element that the fragment before it starts. -/
def closesPrevious (previous : Option (List Char)) (fragment : List Char) : Bool :=
  match previous.bind openName?, closeName? fragment with
  | some a, some b => a == b
  | _, _ => false

/-- Whether a start tag begins somewhere in a text. -/
def hasStartTag : List Char → Bool
  | [] => false
  | c :: s => (c == '<' && startsWord s) || hasStartTag s

/-- Whether a comment or a character data section ends in a fragment. -/
def endsComment (fragment : List Char) : Bool :=
  occurs ['-', '-', '>'] fragment || occurs [']', '>'] fragment

/-- Whether a fragment holds a namespace attribute. -/
def declaresNamespace (fragment : List Char) : Bool :=
  occurs ['x', 'm', 'l', 'n', 's', ':'] fragment || occurs ['x', 'm', 'l', 'n', 's', '='] fragment

/-- The kind of a fragment that follows `previous`. -/
def classify (previous : Option (List Char)) (fragment : List Char) : Kind :=
  if occurs ['<', '!'] fragment then
    if endsComment fragment || occurs ['!', 'D', 'O', 'C', 'T', 'Y', 'P', 'E']
      fragment then .comment
    else .commentOpen
  else if endsComment fragment then .commentClose
  else if closesPrevious previous fragment then .pairedTag
  else
    let opens := hasStartTag fragment
    let closes := occurs ['<', '/'] fragment
    let empty := occurs ['/', '>'] fragment
    if opens && !closes && !empty then .openTag
    else if opens && closes then .inlineElement
    else if closes then .closeTag
    else if empty then .selfClosingTag
    else if occurs ['<', '?'] fragment then .processingInstruction
    else if declaresNamespace fragment then .namespaceDecl
    else .other

/-- How a fragment outside comments is written. -/
def plainTransition : Kind → Transition
  | .commentOpen | .comment | .inlineElement | .selfClosingTag | .processingInstruction
  | .namespaceDecl => ⟨.indented, .noChange⟩
  | .commentClose | .other => ⟨.inline, .noChange⟩
  | .pairedTag => ⟨.inline, .emitThenDecrement⟩
  | .openTag => ⟨.indented, .emitThenIncrement⟩
  | .closeTag => ⟨.indented, .decrementThenEmit⟩

/-- How a fragment is written, inside a comment or outside. -/
def transition (kind : Kind) (inComment : Bool) : Transition :=
  match inComment, kind with
  | true, .pairedTag | true, .openTag | true, .inlineElement | true, .closeTag
  | true, .selfClosingTag => ⟨.inline, .noChange⟩
  | _, kind => plainTransition kind

end Reindent.Xml
