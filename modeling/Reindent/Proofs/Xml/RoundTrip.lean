import Mathlib
import Reindent.Minify.Xml
import Reindent.Proofs.Minify.Settle
import Reindent.Proofs.Xml.Loose

/-!
# Laying out and minifying

Minifying a loose form of a tree gives the tree in one run, or the tree without its comments if
these are dropped. So minifying undoes the layout of a document, and a layout is laid out as it is.
-/

namespace Reindent.Xml

open Text Minify

/-! ## Comments -/

/-- A comment whose body has no two dashes in a row and does not end in one. -/
def Remark.Closed (remark : Remark) : Prop :=
  ¬ ['-', '-'] <:+: remark.text ∧ ¬ ['-'] <:+ remark.text

/-- The body of a comment goes on over single dashes up to its own end. -/
theorem xmlCommentBody?_append :
    ∀ (body rest : List Char), ¬ ['-', '-'] <:+: body → ¬ ['-'] <:+ body →
    xmlCommentBody? (body ++ '-' :: '-' :: '>' :: rest) = some (body.length + 3)
  | [], rest, _, _ => by simp [xmlCommentBody?, isCommentBlank]
  | [d], rest, _, hlast => by
    have hd : d ≠ '-' := by
      rintro rfl
      exact hlast List.suffix_rfl
    have htail := xmlCommentBody?_append [] rest (by decide) (by decide)
    rw [List.nil_append] at htail
    simp [xmlCommentBody?, hd, htail]
  | d :: e :: body, rest, hdash, hlast => by
    by_cases hd : d = '-'
    · subst hd
      have he : e ≠ '-' := by
        rintro rfl
        exact hdash (List.prefix_append ['-', '-'] body).isInfix
      have htail := xmlCommentBody?_append body rest
        (fun h => hdash (h.trans (List.suffix_append ['-', e] body).isInfix))
        (fun h => hlast (h.trans (List.suffix_append ['-', e] body)))
      simp [xmlCommentBody?, htail]
    · have htail := xmlCommentBody?_append (e :: body) rest
        (fun h => hdash (h.trans (List.suffix_cons d _).isInfix))
        (fun h => hlast (h.trans (List.suffix_cons d _)))
      rw [List.cons_append] at htail ⊢
      simp [xmlCommentBody?, hd, htail]

theorem xmlComment?_remark {remark : Remark} (h : remark.Closed) (rest : List Char) :
    xmlComment? (remark.tag ++ rest) = some remark.tag.length := by
  have hbody := xmlCommentBody?_append remark.text rest h.1 h.2
  simp [Remark.tag, xmlComment?, isCommentBlank, hbody]

/-- A comment begins with a bracket and an exclamation mark. -/
theorem xmlComment?_eq_none {c : Char} {s : List Char} (h : c = '<' → s.head? ≠ some '!') :
    xmlComment? (c :: s) = none := by
  unfold xmlComment?
  split
  · rename_i heq
    obtain ⟨rfl, rfl⟩ := List.cons_eq_cons.1 heq
    exact absurd rfl (h rfl)
  · rfl

/-! ## Dropping comments -/

theorem dropFound_skip (find? : List Char → Option Nat) (s rest : List Char) :
    dropFound find? s.length (s ++ rest) = dropFound find? 0 rest := by
  induction s with
  | nil => rfl
  | cons c s ih => exact ih

theorem dropFound_found {find? : List Char → Option Nat} {s rest : List Char} (hne : s ≠ [])
    (h : find? (s ++ rest) = some s.length) :
    dropFound find? 0 (s ++ rest) = dropFound find? 0 rest := by
  obtain ⟨c, s, rfl⟩ := List.exists_cons_of_ne_nil hne
  rw [List.cons_append, List.length_cons] at h
  rw [List.cons_append, dropFound, h]
  exact dropFound_skip find? s rest

/-- Whatever follows, the text `s` becomes `t` when comments are dropped. -/
def Drops (s t : List Char) : Prop :=
  ∀ rest, dropFound xmlComment? 0 (s ++ rest) = t ++ dropFound xmlComment? 0 rest

theorem Drops.append {s t s' t' : List Char} (h : Drops s t) (h' : Drops s' t') :
    Drops (s ++ s') (t ++ t') := by
  intro rest
  rw [List.append_assoc, h, h', List.append_assoc]

theorem drops_remark {remark : Remark} (h : remark.Closed) : Drops remark.tag [] := by
  intro rest
  have hne : remark.tag ≠ [] := by simp [Remark.tag]
  rw [dropFound_found hne (xmlComment?_remark h rest), List.nil_append]

/-- A text without tags stays. -/
theorem drops_text {s : List Char} (hs : '<' ∉ s) : Drops s s := by
  intro rest
  induction s with
  | nil => rfl
  | cons c s ih =>
    rw [List.mem_cons, not_or] at hs
    rw [List.cons_append, dropFound, xmlComment?_eq_none fun h => absurd h.symm hs.1, ih hs.2,
      List.cons_append]

theorem drops_gap {gap : List Char} (h : Gap gap) : Drops gap gap :=
  drops_text fun hmem => absurd (h _ hmem) (by decide)

/-- A tag that does not begin like a comment stays. -/
theorem drops_tag {c : Char} {s : List Char} (hc : c ≠ '!') (hs : '<' ∉ c :: s) :
    Drops ('<' :: c :: s) ('<' :: c :: s) := by
  intro rest
  have hnone : xmlComment? ('<' :: (c :: s ++ rest)) = none := by
    refine xmlComment?_eq_none fun _ => ?_
    simpa using hc
  rw [List.cons_append, dropFound, hnone, drops_text hs rest]
  rfl

section

variable (name : Name) (attrs : Attributes)

theorem Name.first_ne_bang : name.first ≠ '!' := by
  intro h
  have hword := name.isWord_first
  rw [h, isWord_eq_false_of_punctuation (by decide)] at hword
  cases hword

theorem lt_notMem_tagText (s : List Char) (hs : '<' ∉ s) : '<' ∉ tagText name attrs ++ s := by
  rw [List.mem_append, not_or]
  exact ⟨(noMarkup_tagText name attrs).1, hs⟩

theorem drops_startTag : Drops (startTag name attrs) (startTag name attrs) :=
  drops_tag name.first_ne_bang (lt_notMem_tagText name attrs ['>'] (by decide))

theorem drops_emptyTag : Drops (emptyTag name attrs) (emptyTag name attrs) :=
  drops_tag name.first_ne_bang (lt_notMem_tagText name attrs ['/', '>'] (by decide))

theorem drops_endTag : Drops (endTag name) (endTag name) := by
  refine drops_tag (by decide) ?_
  have hname := name.noMarkup_text.1
  simpa using hname

end

/-! ## Trees without comments -/

mutual

/-- The node without the comments in it. A comment leaves nothing, and an element with comments
only leaves an empty element. -/
def Node.withoutComments : Node → Option Node
  | .empty name attrs => some (.empty name attrs)
  | .leaf name attrs content => some (.leaf name attrs content)
  | .parent name attrs children =>
    match children.withoutComments with
    | none => some (.leaf name attrs noContent)
    | some rest => some (.parent name attrs rest)
  | .comment _ => none

def Children.withoutComments : Children → Option Children
  | .one node => node.withoutComments.map .one
  | .cons node rest =>
    match node.withoutComments, rest.withoutComments with
    | none, rest => rest
    | some node, none => some (.one node)
    | some node, some rest => some (.cons node rest)

end

mutual

/-- Every comment ends where its body ends. -/
def Node.RemarksClosed : Node → Prop
  | .parent _ _ children => children.RemarksClosed
  | .comment remark => remark.Closed
  | _ => True

def Children.RemarksClosed : Children → Prop
  | .one node => node.RemarksClosed
  | .cons node rest => node.RemarksClosed ∧ rest.RemarksClosed

end

mutual

/-- Without comments, there is nothing left to drop. -/
theorem Node.withoutComments_idem : ∀ {node bare : Node}, node.withoutComments = some bare →
    bare.withoutComments = some bare ∧ bare.RemarksClosed
  | .empty _ _, bare, h => by
    obtain rfl := Option.some.inj h
    exact ⟨rfl, trivial⟩
  | .leaf _ _ _, bare, h => by
    obtain rfl := Option.some.inj h
    exact ⟨rfl, trivial⟩
  | .parent name attrs children, bare, h => by
    rw [Node.withoutComments] at h
    cases hchildren : children.withoutComments with
    | none =>
      rw [hchildren] at h
      obtain rfl := Option.some.inj h
      exact ⟨rfl, trivial⟩
    | some rest =>
      rw [hchildren] at h
      obtain rfl := Option.some.inj h
      obtain ⟨hidem, hclosed⟩ := Children.withoutComments_idem hchildren
      exact ⟨by rw [Node.withoutComments, hidem], hclosed⟩
  | .comment _, bare, h => by cases h

theorem Children.withoutComments_idem :
    ∀ {children bare : Children}, children.withoutComments = some bare →
    bare.withoutComments = some bare ∧ bare.RemarksClosed
  | .one node, bare, h => by
    obtain ⟨n, hn, rfl⟩ := Option.map_eq_some_iff.1 h
    obtain ⟨hidem, hclosed⟩ := Node.withoutComments_idem hn
    exact ⟨by rw [Children.withoutComments, hidem]; rfl, hclosed⟩
  | .cons node rest, bare, h => by
    rw [Children.withoutComments] at h
    cases hnode : node.withoutComments with
    | none =>
      rw [hnode] at h
      exact Children.withoutComments_idem h
    | some n =>
      obtain ⟨hidem, hclosed⟩ := Node.withoutComments_idem hnode
      cases hrest : rest.withoutComments with
      | none =>
        rw [hnode, hrest] at h
        obtain rfl := Option.some.inj h
        exact ⟨by rw [Children.withoutComments, hidem]; rfl, hclosed⟩
      | some r =>
        rw [hnode, hrest] at h
        obtain rfl := Option.some.inj h
        obtain ⟨hidem', hclosed'⟩ := Children.withoutComments_idem hrest
        exact ⟨by rw [Children.withoutComments, hidem, hidem'], hclosed, hclosed'⟩

end

/-! ## Dropping the comments of a tree -/

/-- The text is a loose form of the node, or empty if there is none. -/
def LooseNode? : Option Node → List Char → Prop
  | none, s => s = []
  | some node, s => node.Loose s

/-- The text is a loose form of the nodes with blanks around them, or blank if there are none. -/
def LooseChildren? : Option Children → List Char → Prop
  | none, s => Gap s
  | some children, s =>
    ∃ gap t gap', Gap gap ∧ children.Loose t ∧ Gap gap' ∧ s = gap ++ (t ++ gap')

/-- A node and its siblings behind it, with blanks between them, are the nodes that are left with
blanks around them. -/
theorem looseChildren?_cons {node : Node} {rest : Children} {s gap u : List Char}
    (hs : LooseNode? node.withoutComments s) (hgap : Gap gap)
    (hu : LooseChildren? rest.withoutComments u) :
    LooseChildren? (Children.cons node rest).withoutComments (s ++ (gap ++ u)) := by
  rw [Children.withoutComments]
  cases hnode : node.withoutComments with
  | none =>
    rw [hnode] at hs
    obtain rfl : s = [] := hs
    cases hrest : rest.withoutComments with
    | none =>
      rw [hrest] at hu
      exact hgap.append hu
    | some r =>
      rw [hrest] at hu
      obtain ⟨gap₁, t, gap₂, hgap₁, ht, hgap₂, rfl⟩ := hu
      exact ⟨gap ++ gap₁, t, gap₂, hgap.append hgap₁, ht, hgap₂, by simp⟩
  | some n =>
    rw [hnode] at hs
    cases hrest : rest.withoutComments with
    | none =>
      rw [hrest] at hu
      exact ⟨[], s, gap ++ u, .nil, hs, hgap.append hu, rfl⟩
    | some r =>
      rw [hrest] at hu
      obtain ⟨gap₁, t, gap₂, hgap₁, ht, hgap₂, rfl⟩ := hu
      exact ⟨[], s ++ ((gap ++ gap₁) ++ t), gap₂, .nil,
        ⟨s, gap ++ gap₁, t, hs, hgap.append hgap₁, ht, rfl⟩, hgap₂, by simp⟩

mutual

/-- Dropping the comments in a loose form of a node leaves a loose form of the node without
comments. -/
theorem Node.exists_drops : ∀ (node : Node) {s : List Char}, node.RemarksClosed → node.Loose s →
    ∃ t, Drops s t ∧ LooseNode? node.withoutComments t
  | .empty name attrs, s, _, hs => by
    obtain rfl : s = emptyTag name attrs := hs
    exact ⟨_, drops_emptyTag name attrs, rfl⟩
  | .leaf name attrs content, s, _, hs => by
    obtain ⟨gap, hgap, hcontent, rfl⟩ := hs
    refine ⟨_, (drops_startTag name attrs).append
      (((drops_text content.noMarkup.1).append (drops_gap hgap)).append (drops_endTag name)), ?_⟩
    exact ⟨gap, hgap, hcontent, rfl⟩
  | .parent name attrs children, s, hclosed, hs => by
    obtain ⟨gap, t, gap', hgap, ht, hgap', rfl⟩ := hs
    obtain ⟨u, hdrops, hu⟩ := children.exists_drops hclosed ht
    refine ⟨_, (drops_startTag name attrs).append
      ((drops_gap hgap).append (hdrops.append ((drops_gap hgap').append (drops_endTag name)))), ?_⟩
    rw [Node.withoutComments]
    cases hchildren : children.withoutComments with
    | none =>
      rw [hchildren] at hu
      exact ⟨gap ++ (u ++ gap'), hgap.append (Gap.append hu hgap'),
        Or.inl rfl, by simp [noContent]⟩
    | some rest =>
      rw [hchildren] at hu
      obtain ⟨gap₁, v, gap₂, hgap₁, hv, hgap₂, rfl⟩ := hu
      exact ⟨gap ++ gap₁, v, gap₂ ++ gap', hgap.append hgap₁, hv, hgap₂.append hgap', by simp⟩
  | .comment remark, s, hclosed, hs => by
    obtain rfl : s = remark.tag := hs
    exact ⟨[], drops_remark hclosed, rfl⟩

theorem Children.exists_drops :
    ∀ (children : Children) {s : List Char}, children.RemarksClosed → children.Loose s →
    ∃ t, Drops s t ∧ LooseChildren? children.withoutComments t
  | .one node, s, hclosed, hs => by
    obtain ⟨t, hdrops, ht⟩ := node.exists_drops hclosed hs
    refine ⟨t, hdrops, ?_⟩
    rw [Children.withoutComments]
    cases hnode : node.withoutComments with
    | none =>
      rw [hnode] at ht
      obtain rfl : t = [] := ht
      exact Gap.nil
    | some n =>
      rw [hnode] at ht
      exact ⟨[], t, [], .nil, ht, .nil, by simp⟩
  | .cons node rest, s, hclosed, hs => by
    obtain ⟨t, gap, u, ht, hgap, hu, rfl⟩ := hs
    obtain ⟨t', hdrops, ht'⟩ := node.exists_drops hclosed.1 ht
    obtain ⟨u', hdrops', hu'⟩ := rest.exists_drops hclosed.2 hu
    exact ⟨_, hdrops.append ((drops_gap hgap).append hdrops'), looseChildren?_cons ht' hgap hu'⟩

end

/-! ## Minified documents -/

/-- Without the comments and the blanks between tags, a loose form is the tree without comments in
one run. -/
theorem xmlPass_loose {node bare : Node} {s : List Char} (hclosed : node.RemarksClosed)
    (hs : node.Loose s) (hbare : node.withoutComments = some bare) :
    xmlPass false s = bare.write := by
  obtain ⟨t, hdrops, ht⟩ := node.exists_drops hclosed hs
  rw [hbare] at ht
  have hdrop : dropFound xmlComment? 0 s = t := by simpa [dropFound] using hdrops []
  have hpass : xmlPass false s = closeGaps (dropFound xmlComment? 0 s) := rfl
  rw [hpass, hdrop]
  exact Node.Loose.closeGaps_eq ht

theorem minify_loose {node : Node} {s : List Char} (hs : node.Loose s) :
    Minify.xml true s = node.write :=
  settle_eq_of_pass hs.closeGaps_eq node.loose_write.closeGaps_eq

theorem minify_loose_without_comments {node bare : Node} {s : List Char}
    (hclosed : node.RemarksClosed) (hs : node.Loose s) (hbare : node.withoutComments = some bare) :
    Minify.xml false s = bare.write := by
  obtain ⟨hidem, hclosed'⟩ := Node.withoutComments_idem hbare
  exact settle_eq_of_pass (xmlPass_loose hclosed hs hbare)
    (xmlPass_loose hclosed' bare.loose_write hidem)

/-- A document is an element. -/
def Node.IsElement : Node → Prop
  | .comment _ => False
  | _ => True

theorem Node.IsElement.exists_withoutComments {node : Node} (h : node.IsElement) :
    ∃ bare, node.withoutComments = some bare := by
  cases node with
  | empty name attrs => exact ⟨_, rfl⟩
  | leaf name attrs content => exact ⟨_, rfl⟩
  | parent name attrs children =>
    rw [Node.withoutComments]
    cases children.withoutComments with
    | none => exact ⟨_, rfl⟩
    | some rest => exact ⟨_, rfl⟩
  | comment remark => exact absurd h id

/-- On a table that clamps and indents by blanks, a document is laid out, the layout is laid out as
it is, and minifying it gives back the document, or the document without its comments. -/
theorem minify_pretty (table : IndentTable) (hclamp : table.overflow = .clamp)
    (hunit : ∀ c ∈ table.unit, isBlank c = true) (root : Node) (hroot : root.IsElement)
    (hclosed : root.RemarksClosed) :
    ∃ out, pretty table root.write = .ok out ∧ Minify.xml true out = root.write ∧
      (∃ bare, root.withoutComments = some bare ∧ Minify.xml false out = bare.write) ∧
      pretty table out = .ok out := by
  obtain ⟨out, hpretty, hloose⟩ := root.exists_pretty_loose hunit hclamp
  obtain ⟨bare, hbare⟩ := hroot.exists_withoutComments
  refine ⟨out, hpretty, minify_loose hloose, ⟨bare, hbare, ?_⟩, ?_⟩
  · exact minify_loose_without_comments hclosed hloose hbare
  · rw [hloose.pretty_eq, hpretty]

/-- A tree with comments in which dashes stand at the start, single and not at all, an element with
a comment only, and an element whose last child is empty and has its name. -/
def remarkTree : Node :=
  let b : Name := .ofLetter 'b' (by decide) (by decide)
  let text : Content :=
    ⟨" t ".toList, Or.inr ⟨'t', by decide, by decide⟩, by decide, by decide, by decide⟩
  .parent nameA noAttributes (.cons (.comment ⟨"-x-y ".toList, by decide, by decide, by decide⟩)
    (.cons (.leaf b noAttributes text)
    (.cons (.parent nameA noAttributes (.one (.comment ⟨[], noMarkup_nil⟩)))
    (.one (.empty nameA noAttributes)))))

theorem minify_pretty_remarkTree : remarkTree.RemarksClosed ∧ ∃ out,
    pretty .default "<a><!---x-y --><b> t </b><a><!----></a><a/></a>".toList = .ok out ∧
      Minify.xml true out = "<a><!---x-y --><b> t </b><a><!----></a><a/></a>".toList ∧
      Minify.xml false out = "<a><b> t </b><a></a><a/></a>".toList ∧
      pretty .default out = .ok out := by
  have hclosed : remarkTree.RemarksClosed :=
    ⟨⟨by decide, by decide⟩, trivial, ⟨by decide, by decide⟩, trivial⟩
  have hunit : ∀ c ∈ IndentTable.default.unit, isBlank c = true := List.all_eq_true.1 (by decide)
  have hwrite : remarkTree.write = "<a><!---x-y --><b> t </b><a><!----></a><a/></a>".toList := by
    decide
  have hbareWrite : remarkTree.withoutComments.map Node.write =
      some "<a><b> t </b><a></a><a/></a>".toList := by decide
  obtain ⟨out, hpretty, hkeep, ⟨bare, hbare, hdrop⟩, hagain⟩ :=
    minify_pretty .default rfl hunit remarkTree trivial hclosed
  rw [hbare, Option.map_some, Option.some.injEq] at hbareWrite
  rw [hwrite] at hpretty hkeep
  rw [hbareWrite] at hdrop
  exact ⟨hclosed, out, hpretty, hkeep, hdrop, hagain⟩

end Reindent.Xml
