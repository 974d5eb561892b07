import Mathlib
import Reindent.Proofs.Xml.Tags
import Reindent.Xml.Walk

/-!
# The layout of a tree

The walk over the fragments of a tree lays out the tree and comes back to the depth at which it
started, unless the last child of an element is an empty element of the same name: the end tag of
the parent is then taken for the end of that child.
-/

namespace Reindent.Xml

open Text

/-! ## Moves -/

section

variable (table : IndentTable) (depth : Int) {previous : Option (List Char)} {f : List Char}

theorem transition_false (kind : Kind) : transition kind false = plainTransition kind := by
  cases kind <;> rfl

/-- The kind of a fragment says what is written and how the state changes. -/
theorem move_of_classify {kind : Kind} (h : classify previous f = kind) (inComment : Bool) :
    (move ⟨depth, inComment, previous⟩ f).line table =
      (((transition kind inComment).lineDepth? depth).map table.lineStart).getD [] ++ f ∧
    (move ⟨depth, inComment, previous⟩ f).next =
      ⟨(transition kind inComment).depthAfter depth, inCommentAfter kind inComment, some f⟩ := by
  have hmove : move ⟨depth, inComment, previous⟩ f =
      ⟨kind, (transition kind inComment).lineDepth? depth, f,
      ⟨(transition kind inComment).depthAfter depth, inCommentAfter kind inComment, some f⟩,
      ⟨depth, inComment, previous⟩⟩ := by
    rw [← h]
    rfl
  rw [hmove]
  exact ⟨rfl, rfl⟩

/-- Outside comments, the kind of a fragment says what is written and how the depth changes. -/
theorem move_plain {kind : Kind} (h : classify previous f = kind) :
    (move ⟨depth, false, previous⟩ f).line table =
      (((plainTransition kind).lineDepth? depth).map table.lineStart).getD [] ++ f ∧
    (move ⟨depth, false, previous⟩ f).next =
      ⟨(plainTransition kind).depthAfter depth, inCommentAfter kind false, some f⟩ := by
  have hmove := move_of_classify table depth h false
  rwa [transition_false] at hmove

theorem move_openTag (h : classify previous f = .openTag) :
    (move ⟨depth, false, previous⟩ f).line table = table.lineStart depth ++ f ∧
      (move ⟨depth, false, previous⟩ f).next = ⟨depth + 1, false, some f⟩ := by
  obtain ⟨hline, hnext⟩ := move_plain table depth h
  rw [hline, hnext]
  show table.lineStart (depth + 0) ++ f = _ ∧ (⟨depth + 0 + 1, false, some f⟩ : State) = _
  rw [Int.add_zero]
  exact ⟨rfl, rfl⟩

/-- An empty tag or a comment has a line of its own. -/
theorem move_single (h : classify previous f = .selfClosingTag ∨ classify previous f = .comment) :
    (move ⟨depth, false, previous⟩ f).line table = table.lineStart depth ++ f ∧
      (move ⟨depth, false, previous⟩ f).next = ⟨depth, false, some f⟩ := by
  have hsingle : (move ⟨depth, false, previous⟩ f).line table = table.lineStart (depth + 0) ++ f ∧
      (move ⟨depth, false, previous⟩ f).next = ⟨depth + 0 + 0, false, some f⟩ := by
    rcases h with h | h
    · exact move_plain table depth h
    · exact move_plain table depth h
  rwa [Int.add_zero, Int.add_zero] at hsingle

theorem move_pairedTag (h : classify previous f = .pairedTag) :
    (move ⟨depth, false, previous⟩ f).line table = f ∧
      (move ⟨depth, false, previous⟩ f).next = ⟨depth - 1, false, some f⟩ := by
  obtain ⟨hline, hnext⟩ := move_plain table depth h
  rw [hline, hnext]
  show f = f ∧ (⟨depth + 0 + -1, false, some f⟩ : State) = _
  rw [Int.add_zero, Int.sub_eq_add_neg]
  exact ⟨rfl, rfl⟩

theorem move_closeTag (h : classify previous f = .closeTag) :
    (move ⟨depth, false, previous⟩ f).line table = table.lineStart (depth - 1) ++ f ∧
      (move ⟨depth, false, previous⟩ f).next = ⟨depth - 1, false, some f⟩ := by
  obtain ⟨hline, hnext⟩ := move_plain table depth h
  rw [hline, hnext]
  show table.lineStart (depth + -1) ++ f = _ ∧ (⟨depth + -1 + 0, false, some f⟩ : State) = _
  rw [Int.add_zero, Int.sub_eq_add_neg]
  exact ⟨rfl, rfl⟩

end

/-! ## The last tag of a node -/

/-- The last fragment of a node. -/
def Node.lastTag : Node → List Char
  | .empty name attrs => emptyTag name attrs
  | .leaf name _ _ => endTag name
  | .parent name _ _ => endTag name
  | .comment remark => remark.tag

/-- The name of an empty element. -/
def Node.emptyName? : Node → Option (List Char)
  | .empty name _ => some name.text
  | _ => none

/-- The last node. -/
def Children.last : Children → Node
  | .one node => node
  | .cons _ rest => rest.last

theorem openName?_eq_none {c : Char} (hc : isWord c = false) (s : List Char) :
    openName? ('<' :: c :: s) = none := by
  change name? (c :: s) = none
  rw [name?, if_neg (by simp [hc])]

theorem openName?_startTag (name : Name) (attrs : Attributes) (content : Content) :
    openName? (startTag name attrs ++ content.text) = some name.text := by
  rw [startTag, List.cons_append, List.append_assoc]
  exact name?_tagText name attrs (isNameChar_eq_false (by decide)) content.text

/-- Of all nodes, only an empty element ends in a tag that starts with its name. -/
theorem openName?_lastTag (node : Node) : openName? node.lastTag = node.emptyName? := by
  have hslash : isWord '/' = false := isWord_eq_false_of_punctuation (by decide)
  cases node with
  | empty name attrs => exact name?_tagText name attrs (isNameChar_eq_false (by decide)) ['>']
  | leaf name attrs content => exact openName?_eq_none hslash _
  | parent name attrs children => exact openName?_eq_none hslash _
  | comment remark => exact openName?_eq_none (isWord_eq_false_of_punctuation (by decide)) _

mutual

/-- No element has an empty element of the same name for its last child. -/
def Node.LastDiffers : Node → Prop
  | .parent name _ children => children.last.emptyName? ≠ some name.text ∧ children.LastDiffers
  | _ => True

def Children.LastDiffers : Children → Prop
  | .one node => node.LastDiffers
  | .cons node rest => node.LastDiffers ∧ rest.LastDiffers

end

/-! ## Walks -/

mutual

/-- A walk over the fragments of a node lays out the node and ends at its depth. -/
theorem Node.walk_fragments (table : IndentTable) : ∀ node :
    Node, node.LastDiffers → ∀ depth previous,
    written table move ⟨depth, false, previous⟩ node.fragments = node.layout table depth ∧
      stateAfter move ⟨depth, false, previous⟩ node.fragments = ⟨depth, false, some node.lastTag⟩
  | .empty name attrs, _, depth, previous => by
    obtain ⟨hline, hnext⟩ :=
      move_single table depth (Or.inl (classify_emptyTag name attrs previous))
    simp [Node.fragments, Node.layout, Node.lastTag, written_cons, hline, hnext]
  | .leaf name attrs content, _, depth, previous => by
    obtain ⟨hline, hnext⟩ :=
      move_openTag table depth (classify_startTag name attrs previous content)
    have hpaired : classify (some (startTag name attrs ++ content.text)) (endTag name) =
        .pairedTag := by
      rw [classify_endTag, Option.bind_some, openName?_startTag, if_pos rfl]
    obtain ⟨hline', hnext'⟩ := move_pairedTag table (depth + 1) hpaired
    simp [Node.fragments, Node.layout, Node.lastTag, written_cons, hline, hnext, hline', hnext']
  | .parent name attrs children, hlast, depth, previous => by
    have hopen : classify previous (startTag name attrs) = .openTag := by
      simpa [noContent] using classify_startTag name attrs previous noContent
    have hclose : classify (some children.last.lastTag) (endTag name) = .closeTag := by
      rw [classify_endTag, Option.bind_some, openName?_lastTag, if_neg hlast.1]
    obtain ⟨hline, hnext⟩ := move_openTag table depth hopen
    obtain ⟨hwritten, hstate⟩ :=
      children.walk_fragments table hlast.2 (depth + 1) (some (startTag name attrs))
    obtain ⟨hline', hnext'⟩ := move_closeTag table (depth + 1) hclose
    rw [Int.add_sub_cancel] at hline' hnext'
    rw [Node.fragments, written_cons, stateAfter_cons, hline, hnext, written_append,
      stateAfter_append, hwritten, hstate, written_cons, stateAfter_cons, hline', hnext']
    exact ⟨by simp [Node.layout], rfl⟩
  | .comment remark, _, depth, previous => by
    obtain ⟨hline, hnext⟩ := move_single table depth (Or.inr (classify_remark previous remark))
    simp [Node.fragments, Node.layout, Node.lastTag, written_cons, hline, hnext]

theorem Children.walk_fragments (table : IndentTable) : ∀ children :
    Children, children.LastDiffers → ∀ depth previous,
    written table move ⟨depth, false, previous⟩ children.fragments = children.layout table depth ∧
      stateAfter move ⟨depth, false, previous⟩ children.fragments =
        ⟨depth, false, some children.last.lastTag⟩
  | .one node, hlast, depth, previous => node.walk_fragments table hlast depth previous
  | .cons node rest, hlast, depth, previous => by
    obtain ⟨hwritten, hstate⟩ := node.walk_fragments table hlast.1 depth previous
    obtain ⟨hwritten', hstate'⟩ := rest.walk_fragments table hlast.2 depth (some node.lastTag)
    rw [Children.fragments, written_append, stateAfter_append, hwritten, hstate, hwritten',
      hstate']
    exact ⟨rfl, rfl⟩

end

/-- What stands before the first tag of a document is empty and writes nothing. -/
theorem move_nil (table : IndentTable) :
    (move {} []).line table = [] ∧ (move {} []).next = ⟨0, false, some []⟩ :=
  ⟨rfl, rfl⟩

theorem Node.exists_layout_eq (table : IndentTable) (depth : Int) (node : Node) :
    ∃ out, node.layout table depth = '\n' :: out := by
  cases node with
  | empty name attrs => exact ⟨_, by rw [Node.layout, IndentTable.lineStart]; rfl⟩
  | leaf name attrs content => exact ⟨_, by rw [Node.layout, IndentTable.lineStart]; rfl⟩
  | parent name attrs children =>
    exact ⟨_, by rw [Node.layout, IndentTable.lineStart, List.append_assoc, List.append_assoc,
      List.append_assoc]; rfl⟩
  | comment remark => exact ⟨_, by rw [Node.layout, IndentTable.lineStart]; rfl⟩

/-- On a table that clamps, a document is laid out as its tree says, without the line end in front
of it, and the walk ends at depth zero outside comments. -/
theorem pretty_write (table : IndentTable) (hclamp : table.overflow = .clamp) (root : Node)
    (hroot : root.LastDiffers) :
    ∃ out, root.layout table 0 = '\n' :: out ∧ pretty table root.write = .ok out ∧
      (render table {} (split root.write)).1.depth = 0 ∧
      (render table {} (split root.write)).1.inComment = false := by
  obtain ⟨out, hout⟩ := root.exists_layout_eq table 0
  obtain ⟨hline, hnext⟩ := move_nil table
  obtain ⟨hwritten, hstate⟩ := root.walk_fragments table hroot 0 (some [])
  have hrender : render table {} (split root.write) =
      (⟨0, false, some root.lastTag⟩, .ok out) := by
    rw [render, split_write, walkThrough_of_clamp hclamp, written_cons, stateAfter_cons,
      hline, hnext, hwritten, hstate, hout]
    rfl
  refine ⟨out, hout, ?_, ?_, ?_⟩
  · rw [pretty, hrender]
    rfl
  · rw [hrender]
  · rw [hrender]

/-- The name `a`. -/
def nameA : Name :=
  .ofLetter 'a' (by decide) (by decide)

/-- A tree with nodes of all kinds, in which a node has the name of its parent and another one a
longer name. -/
def sampleTree : Node :=
  let ab : Name :=
    ⟨'a', ['b'], by decide, List.forall_mem_singleton.2 (Or.inl (by decide)), by decide⟩
  let attrs : Attributes :=
    ⟨" k=\"/ -\"".toList, Or.inr ⟨"k=\"/ -".toList, '"', rfl, Or.inl rfl⟩, by decide, by decide,
      by decide⟩
  let text : Content :=
    ⟨" x ".toList, Or.inr ⟨'x', by decide, by decide⟩, by decide, by decide, by decide⟩
  .parent nameA attrs (.cons (.empty nameA noAttributes)
    (.cons (.comment ⟨" ] ".toList, by decide, by decide, by decide⟩)
    (.cons (.parent nameA noAttributes (.one (.leaf nameA attrs text)))
    (.one (.empty ab attrs)))))

theorem pretty_write_sampleTree : sampleTree.LastDiffers ∧ pretty .default
    "<a k=\"/ -\"><a/><!-- ] --><a><a k=\"/ -\"> x </a></a><ab k=\"/ -\"/></a>".toList =
      .ok ("<a k=\"/ -\">\n  <a/>\n  <!-- ] -->\n  <a>\n    <a k=\"/ -\"> x </a>\n  </a>\n" ++
        "  <ab k=\"/ -\"/>\n</a>").toList := by
  have hroot : sampleTree.LastDiffers :=
    And.intro (by decide) (And.intro trivial
      (And.intro trivial (And.intro (And.intro (by decide) trivial) trivial)))
  obtain ⟨out, hout, hpretty, -⟩ := pretty_write .default rfl sampleTree hroot
  have hlayout : sampleTree.layout .default 0 = '\n' ::
      ("<a k=\"/ -\">\n  <a/>\n  <!-- ] -->\n  <a>\n    <a k=\"/ -\"> x </a>\n  </a>\n" ++
        "  <ab k=\"/ -\"/>\n</a>").toList := by
    decide
  rw [hout, List.cons_eq_cons] at hlayout
  rw [← hlayout.2]
  exact ⟨hroot, hpretty⟩

end Reindent.Xml
