import Mathlib
import Reindent.Proofs.Xml.Tags

/-!
# Documents with attributes and mixed content

An element has a list of attributes, among them declarations of namespaces, and holds texts and
elements in any order. A document is written as a list of segments, each of them a tag and the text
behind it. The fragments of a document are those of its segments: a segment is cut in front of the
namespace attributes in its tag and in its text, and a blank text between two tags is dropped.
-/

namespace Reindent.Xml

open Text

/-! ## Elements -/

/-- A name of word characters. -/
def Name.ofWord (first : Char) (rest : List Char) (h : (first :: rest).all isWord = true) :
    Name where
  first := first
  rest := rest
  isWord_first := List.all_eq_true.1 h first List.mem_cons_self
  isName_rest c hc := Or.inl (List.all_eq_true.1 h c (List.mem_cons_of_mem _ hc))
  noNamespace := by
    have hword : ∀ c, isWord c = false → ∀ part, c ∈ part → ¬ part <:+: first :: rest := by
      intro c hc part hmem hpart
      rw [List.all_eq_true.1 h c (hpart.subset hmem)] at hc
      cases hc
    rw [declaresNamespace_eq_false_iff]
    exact ⟨hword ':' (isWord_eq_false_of_punctuation (by decide)) _ (by decide),
      hword '=' (isWord_eq_false_of_punctuation (by decide)) _ (by decide)⟩

/-- A text without brackets. -/
structure CharData where
  text : List Char
  noBracket : '<' ∉ text ∧ '>' ∉ text

/-- An attribute, whose name may be that of a namespace. -/
structure Attribute where
  key : CharData
  value : CharData

mutual

/-- An element that is written as an empty tag or with a start tag and an end tag. -/
inductive Element where
  | empty (name : Name) (attrs : List Attribute)
  | full (name : Name) (attrs : List Attribute) (body : Body)

/-- What stands between a start tag and its end tag. -/
inductive Body where
  | nil
  | text (data : CharData) (rest : Body)
  | element (e : Element) (rest : Body)

end

namespace CharData

def none : CharData :=
  ⟨[], by simp⟩

def append (a b : CharData) : CharData :=
  ⟨a.text ++ b.text, by simpa using ⟨⟨a.noBracket.1, b.noBracket.1⟩, a.noBracket.2, b.noBracket.2⟩⟩

end CharData

/-- An attribute as it stands in a tag, with a blank in front of it. -/
def Attribute.write (attr : Attribute) : List Char :=
  ' ' :: (attr.key.text ++ '=' :: '"' :: (attr.value.text ++ ['"']))

/-- Attributes as they stand behind the name of an element. -/
def attributesText (attrs : List Attribute) : List Char :=
  attrs.flatMap Attribute.write

/-- A tag of an element. -/
inductive Tag where
  | start (name : Name) (attrs : List Attribute)
  | empty (name : Name) (attrs : List Attribute)
  | stop (name : Name)

namespace Tag

/-- What stands between the brackets of a tag. -/
def inner : Tag → List Char
  | .start name attrs => name.text ++ attributesText attrs
  | .empty name attrs => name.text ++ attributesText attrs ++ ['/']
  | .stop name => '/' :: name.text

def write (tag : Tag) : List Char :=
  '<' :: (tag.inner ++ ['>'])

end Tag

mutual

def Element.write : Element → List Char
  | .empty name attrs => (Tag.empty name attrs).write
  | .full name attrs body => (Tag.start name attrs).write ++ body.write ++ (Tag.stop name).write

def Body.write : Body → List Char
  | .nil => []
  | .text data rest => data.text ++ rest.write
  | .element e rest => e.write ++ rest.write

end

mutual

/-- An element and all elements in it, each with the text in front of it. -/
def Element.parts : Element → List (List Char × Element)
  | .empty name attrs => [([], .empty name attrs)]
  | .full name attrs body =>
    ([], .full name attrs body) :: body.parts.map fun (ahead, e) =>
      ((Tag.start name attrs).write ++ ahead, e)

def Body.parts : Body → List (List Char × Element)
  | .nil => []
  | .text data rest => rest.parts.map fun (ahead, e) => (data.text ++ ahead, e)
  | .element e rest => e.parts ++ rest.parts.map fun (ahead, x) => (e.write ++ ahead, x)

end

mutual

/-- The elements in an element of a document are elements of the document. -/
theorem Element.mem_parts_trans {ahead ahead' : List Char} {x y : Element} : ∀ e :
    Element, (ahead, x) ∈ e.parts → (ahead', y) ∈ x.parts → (ahead ++ ahead', y) ∈ e.parts
  | .empty name attrs, hx, hy => by
    simp only [Element.parts, List.mem_singleton, Prod.mk.injEq] at hx
    obtain ⟨rfl, rfl⟩ := hx
    exact hy
  | .full name attrs body, hx, hy => by
    simp only [Element.parts, List.mem_cons, List.mem_map, Prod.mk.injEq, Prod.exists] at hx
    rcases hx with ⟨rfl, rfl⟩ | ⟨u, z, hz, rfl, rfl⟩
    · exact hy
    · rw [List.append_assoc]
      exact List.mem_cons_of_mem _ (List.mem_map.2 ⟨_, body.mem_parts_trans hz hy, rfl⟩)

theorem Body.mem_parts_trans {ahead ahead' : List Char} {x y : Element} : ∀ body :
    Body, (ahead, x) ∈ body.parts → (ahead', y) ∈ x.parts → (ahead ++ ahead', y) ∈ body.parts
  | .nil, hx, _ => by simp [Body.parts] at hx
  | .text data rest, hx, hy => by
    simp only [Body.parts, List.mem_map, Prod.mk.injEq, Prod.exists] at hx
    obtain ⟨u, z, hz, rfl, rfl⟩ := hx
    rw [List.append_assoc]
    exact List.mem_map.2 ⟨_, rest.mem_parts_trans hz hy, rfl⟩
  | .element e rest, hx, hy => by
    simp only [Body.parts, List.mem_append, List.mem_map, Prod.mk.injEq, Prod.exists] at hx
    rcases hx with hx | ⟨u, z, hz, rfl, rfl⟩
    · exact List.mem_append_left _ (Element.mem_parts_trans e hx hy)
    · rw [List.append_assoc]
      exact List.mem_append_right _ (List.mem_map.2 ⟨_, rest.mem_parts_trans hz hy, rfl⟩)

end

/-! ## Segments -/

/-- A tag and the text behind it. -/
structure Segment where
  tag : Tag
  data : CharData

def Segment.write (s : Segment) : List Char :=
  s.tag.write ++ s.data.text

/-- The text in front of the first element. -/
def Body.lead : Body → CharData
  | .nil => .none
  | .text data rest => data.append rest.lead
  | .element _ _ => .none

/-- The last tag of an element. -/
def Element.lastTag : Element → Tag
  | .empty name attrs => .empty name attrs
  | .full name _ _ => .stop name

mutual

/-- The segments of an element but its last tag. -/
def Element.front : Element → List Segment
  | .empty _ _ => []
  | .full name attrs body => ⟨.start name attrs, body.lead⟩ :: body.segments

def Body.segments : Body → List Segment
  | .nil => []
  | .text _ rest => rest.segments
  | .element e rest => e.front ++ ⟨e.lastTag, rest.lead⟩ :: rest.segments

end

/-- The segments of an element with a text behind it. -/
def Element.segments (e : Element) (after : CharData) : List Segment :=
  e.front ++ [⟨e.lastTag, after⟩]

mutual

/-- An element is written segment by segment. -/
theorem Element.write_eq : ∀ e :
    Element, e.write = e.front.flatMap Segment.write ++ e.lastTag.write
  | .empty name attrs => by simp [Element.write, Element.front, Element.lastTag]
  | .full name attrs body => by
    simp [Element.write, Element.front, Element.lastTag, Segment.write, body.write_eq]

theorem Body.write_eq : ∀ body :
    Body, body.write = body.lead.text ++ body.segments.flatMap Segment.write
  | .nil => rfl
  | .text data rest =>
    by simp [Body.write, Body.lead, Body.segments, CharData.append, rest.write_eq]
  | .element e rest => by
    simp [Body.write, Body.lead, Body.segments, CharData.none, Segment.write, e.write_eq,
      rest.write_eq]

end

theorem Body.segments_element (e : Element) (rest : Body) :
    (Body.element e rest).segments = e.segments rest.lead ++ rest.segments := by
  simp [Body.segments, Element.segments]

theorem Element.flatMap_segments (e : Element) (after : CharData) :
    (e.segments after).flatMap Segment.write = e.write ++ after.text := by
  rw [Element.segments, List.flatMap_append, List.flatMap_singleton, Segment.write, e.write_eq,
    List.append_assoc]

mutual

/-- The segments of an element in another one stand in a row, behind those of the text in front of
it. -/
theorem Element.segments_of_mem_parts {ahead : List Char} {x : Element} : ∀ e :
    Element, (ahead, x) ∈ e.parts →
    ∀ after, ∃ before data rest, e.segments after = before ++ (x.segments data ++ rest) ∧
      ahead = before.flatMap Segment.write
  | .empty name attrs, h, after => by
    simp only [Element.parts, List.mem_singleton, Prod.mk.injEq] at h
    obtain ⟨rfl, rfl⟩ := h
    exact ⟨[], after, [], by simp, rfl⟩
  | .full name attrs body, h, after => by
    simp only [Element.parts, List.mem_cons, List.mem_map, Prod.mk.injEq, Prod.exists] at h
    rcases h with ⟨rfl, rfl⟩ | ⟨u, y, hmem, rfl, rfl⟩
    · exact ⟨[], after, [], by simp, rfl⟩
    · obtain ⟨before, data, rest, hsegments, rfl⟩ := body.segments_of_mem_parts hmem
      refine ⟨⟨.start name attrs, body.lead⟩ :: before, data,
        rest ++ [⟨.stop name, after⟩], ?_, ?_⟩
      · simp [Element.segments, Element.front, Element.lastTag, hsegments]
      · simp [Segment.write]

theorem Body.segments_of_mem_parts {ahead : List Char} {x : Element} : ∀ body :
    Body, (ahead, x) ∈ body.parts →
    ∃ before data rest, body.segments = before ++ (x.segments data ++ rest) ∧
      ahead = body.lead.text ++ before.flatMap Segment.write
  | .nil, h => by simp [Body.parts] at h
  | .text data rest, h => by
    simp only [Body.parts, List.mem_map, Prod.mk.injEq, Prod.exists] at h
    obtain ⟨u, y, hmem, rfl, rfl⟩ := h
    obtain ⟨before, data', rest', hsegments, rfl⟩ := rest.segments_of_mem_parts hmem
    exact ⟨before, data', rest', hsegments, by simp [Body.lead, CharData.append]⟩
  | .element e rest, h => by
    simp only [Body.parts, List.mem_append, List.mem_map, Prod.mk.injEq, Prod.exists] at h
    rcases h with hmem | ⟨u, y, hmem, rfl, rfl⟩
    · obtain ⟨before, data, rest', hsegments, rfl⟩ :=
        Element.segments_of_mem_parts e hmem rest.lead
      exact ⟨before, data, rest' ++ rest.segments, by simp [Body.segments_element, hsegments],
        by simp [Body.lead, CharData.none]⟩
    · obtain ⟨before, data, rest', hsegments, rfl⟩ := rest.segments_of_mem_parts hmem
      refine ⟨e.segments rest.lead ++ before, data,
        rest', by simp [Body.segments_element, hsegments], ?_⟩
      simp [Body.lead, CharData.none, e.flatMap_segments]

end

/-! ## Brackets -/

theorem attributesText_noBracket (attrs : List Attribute) :
    '<' ∉ attributesText attrs ∧ '>' ∉ attributesText attrs := by
  have hattr : ∀ attr : Attribute, '<' ∉ attr.write ∧ '>' ∉ attr.write := by
    intro attr
    simpa [Attribute.write] using ⟨⟨attr.key.noBracket.1, attr.value.noBracket.1⟩,
      attr.key.noBracket.2, attr.value.noBracket.2⟩
  simp only [attributesText, List.mem_flatMap, not_exists, not_and]
  exact ⟨fun attr _ => (hattr attr).1, fun attr _ => (hattr attr).2⟩

/-- Attributes start with a blank and end in a quote. -/
theorem attributesText_shape (attrs : List Attribute) : attributesText attrs = [] ∨
    ∃ inner quote, attributesText attrs = ' ' :: (inner ++ [quote]) ∧
    (quote = '"' ∨ quote = '\x27') := by
  induction attrs with
  | nil => exact Or.inl rfl
  | cons attr attrs ih =>
    have hcons : attributesText (attr :: attrs) = attr.write ++ attributesText attrs := rfl
    right
    rcases ih with hnil | ⟨inner, quote, htext, hquote⟩
    · exact ⟨attr.key.text ++ '=' :: '"' :: attr.value.text,
        '"', by simp [hcons, hnil, Attribute.write], Or.inl rfl⟩
    · exact ⟨attr.key.text ++ '=' :: '"' :: (attr.value.text ++ '"' :: ' ' :: inner), quote,
        by simp [hcons, htext, Attribute.write], hquote⟩

theorem Tag.inner_noBracket (tag : Tag) : '<' ∉ tag.inner ∧ '>' ∉ tag.inner := by
  have hname : ∀ name : Name, '<' ∉ name.text ∧ '>' ∉ name.text :=
    fun name => ⟨name.noMarkup_text.1, name.noMarkup_text.2.1⟩
  cases tag with
  | start name attrs =>
    have hattrs := attributesText_noBracket attrs
    simpa [Tag.inner] using ⟨⟨(hname name).1, hattrs.1⟩, (hname name).2, hattrs.2⟩
  | empty name attrs =>
    have hattrs := attributesText_noBracket attrs
    simpa [Tag.inner] using ⟨⟨(hname name).1, hattrs.1⟩, (hname name).2, hattrs.2⟩
  | stop name => simpa [Tag.inner] using hname name

section

variable (s : Segment)

theorem Segment.write_eq : s.write = '<' :: (s.tag.inner ++ '>' :: s.data.text) := by
  simp [Segment.write, Tag.write]

theorem Segment.lt_notMem_tail : '<' ∉ s.tag.inner ++ '>' :: s.data.text := by
  simpa using ⟨s.tag.inner_noBracket.1, s.data.noBracket.1⟩

theorem Tag.count_write (tag : Tag) {c : Char} (hc : c = '<' ∨ c = '>') :
    tag.write.count c = 1 := by
  have hinner : tag.inner.count c = 0 := by
    rw [List.count_eq_zero]
    rcases hc with rfl | rfl
    · exact tag.inner_noBracket.1
    · exact tag.inner_noBracket.2
  rcases hc with rfl | rfl
  · simp [Tag.write, hinner]
  · simp [Tag.write, hinner]

/-- Every segment has one bracket of each kind. -/
theorem Segment.count_write {c : Char} (hc : c = '<' ∨ c = '>') : s.write.count c = 1 := by
  have hdata : s.data.text.count c = 0 := by
    rw [List.count_eq_zero]
    rcases hc with rfl | rfl
    · exact s.data.noBracket.1
    · exact s.data.noBracket.2
  rw [Segment.write, List.count_append, s.tag.count_write hc, hdata]

end

theorem count_flatMap_write (segs : List Segment) {c : Char} (hc : c = '<' ∨ c = '>') :
    (segs.flatMap Segment.write).count c = segs.length := by
  induction segs with
  | nil => rfl
  | cons s segs ih =>
    rw [List.flatMap_cons, List.count_append, s.count_write hc, ih, List.length_cons, Nat.add_comm]

/-! ## Fragments -/

/-- A segment whose text is dropped if it is blank. -/
def Segment.tight (s : Segment) : Segment :=
  if s.data.text.all isBlank then ⟨s.tag, .none⟩ else s

@[simp] theorem Segment.tag_tight (s : Segment) : s.tight.tag = s.tag := by
  rw [Segment.tight]
  split
  · rfl
  · rfl

/-- The fragments of a segment between others. -/
def Segment.fragments (s : Segment) : List (List Char) :=
  pieces s.tight.write

theorem Segment.flatten_fragments (s : Segment) : s.fragments.flatten = s.tight.write := by
  rw [Segment.fragments, Segment.write_eq]
  exact flatten_pieces _

theorem Segment.closeGaps_write (s : Segment) (rest : List Char) :
    closeGaps (s.write ++ '<' :: rest) = s.tight.write ++ closeGaps ('<' :: rest) := by
  have hopen : '>' ∉ '<' :: s.tag.inner := by simpa using s.tag.inner_noBracket.2
  have hrest : closeGaps ('<' :: rest) = '<' :: closeGaps rest :=
    closeGaps_append (s := ['<']) (by decide) rest
  have hwrite : s.write ++ '<' :: rest =
      '<' :: s.tag.inner ++ '>' :: (s.data.text ++ '<' :: rest) := by
    simp [s.write_eq]
  rw [hwrite, closeGaps_append hopen, Segment.tight]
  by_cases hblank : s.data.text.all isBlank = true
  · rw [if_pos hblank, closeGaps_gap (List.all_eq_true.1 hblank)]
    simp [Segment.write_eq, CharData.none]
  · have hvisible : Visible s.data.text := by
      right
      simpa using hblank
    rw [if_neg hblank, closeGaps_text s.data.noBracket.1 s.data.noBracket.2 hvisible]
    · simp [Segment.write_eq]
    · intro r hr
      rw [hrest, List.dropWhile_cons, if_neg (by decide)] at hr
      rw [hrest, hr]

theorem exists_open (segs : List Segment) (rest : List Char) :
    ∃ u, segs.flatMap Segment.write ++ '<' :: rest = '<' :: u := by
  cases segs with
  | nil => exact ⟨rest, rfl⟩
  | cons s segs => exact ⟨_, by rw [List.flatMap_cons, Segment.write_eq]; rfl⟩

theorem closeGaps_flatMap_write (segs : List Segment) (rest : List Char) :
    closeGaps (segs.flatMap Segment.write ++ '<' :: rest) =
      segs.flatMap (fun s => s.tight.write) ++ closeGaps ('<' :: rest) := by
  induction segs with
  | nil => rfl
  | cons s segs ih =>
    obtain ⟨u, hu⟩ := exists_open segs rest
    rw [List.flatMap_cons, List.append_assoc, hu, s.closeGaps_write, ← hu, ih, List.flatMap_cons,
      List.append_assoc]

/-- A document falls into the fragments of its segments. -/
theorem Element.split_write (doc : Element) :
    split doc.write = [] :: (doc.segments .none).flatMap Segment.fragments := by
  have hlast : closeGaps doc.lastTag.write = doc.lastTag.write := by
    have hopen : '>' ∉ '<' :: doc.lastTag.inner := by simpa using doc.lastTag.inner_noBracket.2
    exact closeGaps_append hopen ['>']
  have htight : (⟨doc.lastTag, .none⟩ : Segment).tight.write = doc.lastTag.write := by
    simp [Segment.tight, Segment.write, CharData.none]
  have hclose : closeGaps doc.write =
      ((doc.segments .none).map fun s => s.tight.write).flatten := by
    rw [doc.write_eq, Tag.write, closeGaps_flatMap_write, ← Tag.write, hlast, Element.segments,
      List.map_append, List.flatten_append, List.flatMap_def]
    simp [htight]
  have hopen : ∀ f ∈ (doc.segments .none).map fun s => s.tight.write, ∃ u, f = '<' :: u := by
    intro f hf
    obtain ⟨s, -, rfl⟩ := List.mem_map.1 hf
    exact ⟨_, s.tight.write_eq⟩
  rw [split, hclose, cutBefore_flatten hopen, List.flatMap_map]
  rfl

end Reindent.Xml
