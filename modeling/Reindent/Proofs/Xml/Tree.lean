import Mathlib
import Reindent.Proofs.Text.Letters
import Reindent.Proofs.Walks
import Reindent.Proofs.Xml.Fragments

/-!
# Documents as trees

A plain document is a tree of elements, empty elements and comments. Names, attributes and texts
are given with what makes them plain, so that every tree can be written. A tree can be written in
one run or laid out line by line, and it has a list of fragments: each start tag with the text
behind it, and each other tag.
-/

namespace Reindent.Xml

open Text

/-! ## Parts of a tree -/

/-- The name of an element. -/
structure Name where
  first : Char
  rest : List Char
  isWord_first : isWord first = true
  isName_rest : ∀ c ∈ rest, isWord c = true ∨ c = ':' ∨ c = '.'
  noNamespace : declaresNamespace (first :: rest) = false

/-- The attributes of an element as they stand behind its name. -/
structure Attributes where
  text : List Char
  shape : text = [] ∨ ∃ inner quote, text = ' ' :: (inner ++ [quote]) ∧
    (quote = '"' ∨ quote = '\x27')
  noMarkup : NoMarkup text

/-- The text of an element without children. -/
structure Content where
  text : List Char
  visible : Visible text
  noMarkup : NoMarkup text

/-- The body of a comment. -/
structure Remark where
  text : List Char
  noMarkup : NoMarkup text

mutual

/-- A node of a plain document. -/
inductive Node where
  | empty (name : Name) (attrs : Attributes)
  | leaf (name : Name) (attrs : Attributes) (content : Content)
  | parent (name : Name) (attrs : Attributes) (children : Children)
  | comment (remark : Remark)

/-- One node or more. -/
inductive Children where
  | one (node : Node)
  | cons (node : Node) (rest : Children)

end

/-! ## Writing a tree -/

/-- The characters of a name. -/
def Name.text (name : Name) : List Char :=
  name.first :: name.rest

/-- What stands between the brackets of a start tag. -/
def tagText (name : Name) (attrs : Attributes) : List Char :=
  name.text ++ attrs.text

def startTag (name : Name) (attrs : Attributes) : List Char :=
  '<' :: (tagText name attrs ++ ['>'])

def emptyTag (name : Name) (attrs : Attributes) : List Char :=
  '<' :: (tagText name attrs ++ ['/', '>'])

def endTag (name : Name) : List Char :=
  '<' :: '/' :: (name.text ++ ['>'])

def Remark.tag (remark : Remark) : List Char :=
  '<' :: '!' :: '-' :: '-' :: (remark.text ++ ['-', '-', '>'])

mutual

/-- A node in one run. -/
def Node.write : Node → List Char
  | .empty name attrs => emptyTag name attrs
  | .leaf name attrs content => startTag name attrs ++ content.text ++ endTag name
  | .parent name attrs children => startTag name attrs ++ children.write ++ endTag name
  | .comment remark => remark.tag

def Children.write : Children → List Char
  | .one node => node.write
  | .cons node rest => node.write ++ rest.write

end

mutual

/-- A node with a line for each tag but the end tags of elements without children, each at the
depth of its node. -/
def Node.layout (table : IndentTable) (depth : Int) : Node → List Char
  | .empty name attrs => table.lineStart depth ++ emptyTag name attrs
  | .leaf name attrs content =>
    table.lineStart depth ++ (startTag name attrs ++ content.text ++ endTag name)
  | .parent name attrs children =>
    table.lineStart depth ++ startTag name attrs ++ children.layout table (depth + 1) ++
      table.lineStart depth ++ endTag name
  | .comment remark => table.lineStart depth ++ remark.tag

def Children.layout (table : IndentTable) (depth : Int) : Children → List Char
  | .one node => node.layout table depth
  | .cons node rest => node.layout table depth ++ rest.layout table depth

end

mutual

/-- The fragments of a node. -/
def Node.fragments : Node → List (List Char)
  | .empty name attrs => [emptyTag name attrs]
  | .leaf name attrs content => [startTag name attrs ++ content.text, endTag name]
  | .parent name attrs children => startTag name attrs :: (children.fragments ++ [endTag name])
  | .comment remark => [remark.tag]

def Children.fragments : Children → List (List Char)
  | .one node => node.fragments
  | .cons node rest => node.fragments ++ rest.fragments

end

mutual

theorem Node.flatten_fragments : ∀ node : Node, node.fragments.flatten = node.write
  | .empty _ _ => by simp [Node.fragments, Node.write]
  | .leaf _ _ _ => by simp [Node.fragments, Node.write]
  | .parent _ _ children => by simp [Node.fragments, Node.write, children.flatten_fragments]
  | .comment _ => by simp [Node.fragments, Node.write]

theorem Children.flatten_fragments : ∀ children :
    Children, children.fragments.flatten = children.write
  | .one node => by simp [Children.fragments, Children.write, node.flatten_fragments]
  | .cons node rest => by
    simp [Children.fragments, Children.write, node.flatten_fragments, rest.flatten_fragments]

end

/-! ## Tags are plain fragments -/

section

variable (name : Name) (attrs : Attributes)

theorem Name.mem_text {c : Char} (hc : c ∈ name.text) : isWord c = true ∨ c = ':' ∨ c = '.' := by
  rcases List.mem_cons.1 hc with rfl | hc
  · exact Or.inl name.isWord_first
  · exact name.isName_rest c hc

theorem Name.notMem_text {c : Char} (hword : isWord c = false) (hc : c ≠ ':' ∧ c ≠ '.') :
    c ∉ name.text := by
  intro hmem
  rcases name.mem_text hmem with h | h | h
  · rw [hword] at h
    cases h
  · exact hc.1 h
  · exact hc.2 h

theorem Name.noMarkup_text : NoMarkup name.text :=
  ⟨name.notMem_text (isWord_eq_false_of_punctuation (by decide)) (by decide),
    name.notMem_text (isWord_eq_false_of_punctuation (by decide)) (by decide), name.noNamespace⟩

/-- Markup does not arise where two texts meet at a character that no namespace attribute holds. -/
theorem NoMarkup.append_cons {s t : List Char} {c : Char} (hs : NoMarkup s) (ht : NoMarkup t)
    (hbracket : c ≠ '<' ∧ c ≠ '>') (hc : c ∉ namespaceChars) : NoMarkup (s ++ c :: t) := by
  refine ⟨?_, ?_, (declaresNamespace_append_cons hc).2 ⟨hs.2.2, ht.2.2⟩⟩
  · simpa using ⟨hs.1, Ne.symm hbracket.1, ht.1⟩
  · simpa using ⟨hs.2.1, Ne.symm hbracket.2, ht.2.1⟩

theorem noMarkup_nil : NoMarkup [] :=
  ⟨by simp, by simp, rfl⟩

theorem noMarkup_tagText : NoMarkup (tagText name attrs) := by
  rw [tagText]
  rcases attrs.shape with hnil | ⟨inner, quote, htext, -⟩
  · rw [hnil, List.append_nil]
    exact name.noMarkup_text
  · have hattrs := attrs.noMarkup
    rw [htext] at hattrs ⊢
    obtain ⟨hlt, hgt, hns⟩ := hattrs
    have hinner : declaresNamespace (inner ++ [quote]) = false :=
      ((declaresNamespace_append_cons (s := []) (c := ' ') (by decide)).1 hns).2
    refine name.noMarkup_text.append_cons ⟨?_, ?_, hinner⟩ (by decide) (by decide)
    · exact fun h => hlt (List.mem_cons_of_mem _ h)
    · exact fun h => hgt (List.mem_cons_of_mem _ h)

/-- One tag and nothing else. -/
def IsTag (f : List Char) : Prop :=
  ∃ inner, f = '<' :: (inner ++ ['>']) ∧ NoMarkup inner

theorem IsTag.plain {f : List Char} (h : IsTag f) : PlainFragment f := by
  obtain ⟨inner, rfl, hinner⟩ := h
  exact ⟨inner, [], rfl, hinner, noMarkup_nil, Or.inl rfl⟩

theorem plain_startTag (content : Content) : PlainFragment (startTag name attrs ++ content.text) :=
  ⟨tagText name attrs, content.text, by simp [startTag], noMarkup_tagText name attrs,
    content.noMarkup, content.visible⟩

/-- The content of a start tag in front of children. -/
def noContent : Content :=
  ⟨[], Or.inl rfl, noMarkup_nil⟩

/-- The attributes of an element that has none. -/
def noAttributes : Attributes :=
  ⟨[], Or.inl rfl, noMarkup_nil⟩

/-- A name of one letter. -/
def Name.ofLetter (c : Char) (h : isWord c = true) (hc : declaresNamespace [c] = false) : Name :=
  ⟨c, [], h, by simp, hc⟩

theorem isTag_startTag : IsTag (startTag name attrs) :=
  ⟨tagText name attrs, rfl, noMarkup_tagText name attrs⟩

theorem isTag_emptyTag : IsTag (emptyTag name attrs) :=
  ⟨tagText name attrs ++ ['/'], by simp [emptyTag],
    (noMarkup_tagText name attrs).append_cons noMarkup_nil (by decide) (by decide)⟩

theorem isTag_endTag : IsTag (endTag name) :=
  ⟨'/' :: name.text, by simp [endTag],
    noMarkup_nil.append_cons name.noMarkup_text (by decide) (by decide)⟩

theorem isTag_remark (remark : Remark) : IsTag remark.tag := by
  have hopen : NoMarkup ('!' :: '-' :: '-' :: remark.text) :=
    noMarkup_nil.append_cons (noMarkup_nil.append_cons
      (noMarkup_nil.append_cons remark.noMarkup (by decide)
      (by decide)) (by decide) (by decide)) (by decide) (by decide)
  have hclose : NoMarkup ('!' :: '-' :: '-' :: remark.text ++ ['-', '-']) :=
    hopen.append_cons (noMarkup_nil.append_cons noMarkup_nil (by decide) (by decide)) (by decide)
      (by decide)
  exact ⟨_, by simp [Remark.tag], hclose⟩

end

mutual

theorem Node.plain_fragments : ∀ node : Node, ∀ f ∈ node.fragments, PlainFragment f
  | .empty name attrs => by simpa [Node.fragments] using (isTag_emptyTag name attrs).plain
  | .leaf name attrs content => by
    simpa [Node.fragments] using ⟨plain_startTag name attrs content, (isTag_endTag name).plain⟩
  | .parent name attrs children => by
    intro f hf
    simp only [Node.fragments, List.mem_cons, List.mem_append, List.not_mem_nil, or_false] at hf
    rcases hf with rfl | hf | rfl
    · exact (isTag_startTag name attrs).plain
    · exact children.plain_fragments f hf
    · exact (isTag_endTag name).plain
  | .comment remark => by simpa [Node.fragments] using (isTag_remark remark).plain

theorem Children.plain_fragments : ∀ children : Children, ∀ f ∈ children.fragments, PlainFragment f
  | .one node => node.plain_fragments
  | .cons node rest => by
    intro f hf
    rcases List.mem_append.1 hf with hf | hf
    · exact node.plain_fragments f hf
    · exact rest.plain_fragments f hf

end

/-- A document falls into the fragments of its tree. -/
theorem split_write (node : Node) : split node.write = [] :: node.fragments := by
  rw [← node.flatten_fragments]
  exact split_flatten node.plain_fragments

end Reindent.Xml
