import Mathlib
import Reindent.Proofs.Xml.Layout

/-!
# Loose forms of a tree

A loose form of a tree is the tree with any blanks between its tags. All loose forms of a tree fall
into the same fragments, for dropping the blanks between tags gives back the tree in one run. With
a blank unit of indentation, what a walk writes for a tree is a loose form of it, even where an end
tag is taken for the end of the element before it.
-/

namespace Reindent.Xml

open Text

/-- Blanks, or nothing. -/
def Gap (s : List Char) : Prop :=
  ∀ c ∈ s, isBlank c = true

theorem Gap.nil : Gap [] := by
  intro c hc
  cases hc

theorem Gap.append {s t : List Char} (hs : Gap s) (ht : Gap t) : Gap (s ++ t) := by
  intro c hc
  rcases List.mem_append.1 hc with hc | hc
  · exact hs c hc
  · exact ht c hc

mutual

/-- The text is the node with blanks between its tags. Only an element that is empty may have
blanks for its text. -/
def Node.Loose : Node → List Char → Prop
  | .empty name attrs, s => s = emptyTag name attrs
  | .leaf name attrs content, s => ∃ gap, Gap gap ∧ (content.text = [] ∨ gap = []) ∧
      s = startTag name attrs ++ (content.text ++ gap ++ endTag name)
  | .parent name attrs children, s => ∃ gap t gap', Gap gap ∧ children.Loose t ∧ Gap gap' ∧
      s = startTag name attrs ++ (gap ++ (t ++ (gap' ++ endTag name)))
  | .comment remark, s => s = remark.tag

def Children.Loose : Children → List Char → Prop
  | .one node, s => node.Loose s
  | .cons node rest, s => ∃ t gap u, node.Loose t ∧ Gap gap ∧ rest.Loose u ∧ s = t ++ (gap ++ u)

end

mutual

theorem Node.loose_write : ∀ node : Node, node.Loose node.write
  | .empty _ _ => rfl
  | .leaf name attrs content => ⟨[], .nil, Or.inr rfl, by simp [Node.write]⟩
  | .parent name attrs children =>
    ⟨[], children.write, [], .nil, children.loose_write, .nil, by simp [Node.write]⟩
  | .comment _ => rfl

theorem Children.loose_write : ∀ children : Children, children.Loose children.write
  | .one node => node.loose_write
  | .cons node rest => ⟨node.write, [], rest.write, node.loose_write, .nil, rest.loose_write, rfl⟩

end

theorem Node.Loose.starts {node : Node} {s : List Char} (h : node.Loose s) :
    ∃ r, s = '<' :: r := by
  cases node with
  | empty name attrs => exact ⟨_, h⟩
  | leaf name attrs content =>
    obtain ⟨gap, -, -, rfl⟩ := h
    exact ⟨_, rfl⟩
  | parent name attrs children =>
    obtain ⟨gap, t, gap', -, -, -, rfl⟩ := h
    exact ⟨_, rfl⟩
  | comment remark => exact ⟨_, h⟩

theorem Children.Loose.starts {children : Children} {s : List Char} (h : children.Loose s) :
    ∃ r, s = '<' :: r := by
  cases children with
  | one node => exact Node.Loose.starts h
  | cons node rest =>
    obtain ⟨t, gap, u, ht, -, -, rfl⟩ := h
    obtain ⟨r, rfl⟩ := ht.starts
    exact ⟨_, rfl⟩

/-! ## Dropping the blanks -/

/-- Dropping blanks leaves a tag as it is and goes on behind it. -/
theorem IsTag.closeGaps_append {f rest rest' : List Char} (hf : IsTag f)
    (hrest : closeGaps ('>' :: rest) = '>' :: rest') :
    closeGaps (f ++ rest) = f ++ rest' := by
  obtain ⟨inner, rfl, hinner⟩ := hf
  have hopen : '>' ∉ '<' :: inner := by simpa using hinner.2.1
  have hjoin : ∀ r, '<' :: (inner ++ ['>']) ++ r = '<' :: inner ++ '>' :: r := by simp
  rw [hjoin, hjoin, Xml.closeGaps_append hopen, hrest]

theorem closeGaps_gap_append {gap s : List Char} (hgap : Gap gap) (hs : ∃ r, s = '<' :: r) :
    closeGaps ('>' :: (gap ++ s)) = '>' :: closeGaps s := by
  obtain ⟨r, rfl⟩ := hs
  exact closeGaps_gap hgap r

mutual

/-- Behind a loose form of a node, dropping the blanks goes on as behind any tag. -/
theorem Node.closeGaps_append : ∀ (node : Node) {s rest rest' : List Char}, node.Loose s →
    closeGaps ('>' :: rest) = '>' :: rest' → closeGaps (s ++ rest) = node.write ++ rest'
  | .empty name attrs, s, rest, rest', hs, hrest => by
    rw [show s = emptyTag name attrs from hs]
    exact (isTag_emptyTag name attrs).closeGaps_append hrest
  | .leaf name attrs content, s, rest, rest', hs, hrest => by
    obtain ⟨gap, hgap, hcontent, rfl⟩ := hs
    have hend := (isTag_endTag name).closeGaps_append hrest
    have htext : closeGaps ('>' :: (content.text ++ (gap ++ (endTag name ++ rest)))) =
        '>' :: (content.text ++ (endTag name ++ rest')) := by
      rcases hcontent with hnil | rfl
      · rw [hnil, List.nil_append, List.nil_append,
          closeGaps_gap_append (s := endTag name ++ rest) hgap ⟨_, rfl⟩, hend]
      · rw [List.nil_append, closeGaps_text content.noMarkup.1 content.noMarkup.2.1
          content.visible, hend]
        intro r hr
        rw [hend] at hr ⊢
        rw [← hr]
        rfl
    have hstart := (isTag_startTag name attrs).closeGaps_append htext
    simpa [Node.write] using hstart
  | .parent name attrs children, s, rest, rest', hs, hrest => by
    obtain ⟨gap, t, gap', hgap, ht, hgap', rfl⟩ := hs
    have hend : closeGaps ('>' :: (gap' ++ (endTag name ++ rest))) =
        '>' :: (endTag name ++ rest') := by
      rw [closeGaps_gap_append (s := endTag name ++ rest) hgap' ⟨_, rfl⟩,
        (isTag_endTag name).closeGaps_append hrest]
    obtain ⟨r, hr⟩ := ht.starts
    have hchildren : closeGaps ('>' :: (gap ++ (t ++ (gap' ++ (endTag name ++ rest))))) =
        '>' :: (children.write ++ (endTag name ++ rest')) := by
      rw [closeGaps_gap_append hgap ⟨r ++ (gap' ++ (endTag name ++ rest)), by rw [hr]; rfl⟩,
        children.closeGaps_append ht hend]
    have hstart := (isTag_startTag name attrs).closeGaps_append hchildren
    simpa [Node.write] using hstart
  | .comment remark, s, rest, rest', hs, hrest => by
    rw [show s = remark.tag from hs]
    exact (isTag_remark remark).closeGaps_append hrest

theorem Children.closeGaps_append :
    ∀ (children : Children) {s rest rest' : List Char}, children.Loose s →
    closeGaps ('>' :: rest) = '>' :: rest' → closeGaps (s ++ rest) = children.write ++ rest'
  | .one node, _, _, _, hs, hrest => node.closeGaps_append hs hrest
  | .cons node rest, s, after, after', hs, hafter => by
    obtain ⟨t, gap, u, ht, hgap, hu, rfl⟩ := hs
    obtain ⟨r, hr⟩ := hu.starts
    have hrest : closeGaps ('>' :: (gap ++ (u ++ after))) = '>' :: (rest.write ++ after') := by
      rw [closeGaps_gap_append hgap ⟨r ++ after, by rw [hr]; rfl⟩, rest.closeGaps_append hu hafter]
    have hnode := node.closeGaps_append ht hrest
    simpa [Children.write] using hnode

end

/-- Without the blanks between its tags, a loose form is the tree in one run. -/
theorem Node.Loose.closeGaps_eq {node : Node} {s : List Char} (h : node.Loose s) :
    closeGaps s = node.write := by
  have hend : closeGaps ['>'] = ['>'] := by decide
  simpa using node.closeGaps_append h hend

/-- All loose forms of a tree are laid out alike. -/
theorem Node.Loose.pretty_eq {node : Node} {s : List Char} (h : node.Loose s)
    (table : IndentTable) :
    pretty table s = pretty table node.write := by
  have hsplit : split s = split node.write := by
    rw [split, split, h.closeGaps_eq, node.loose_write.closeGaps_eq]
  rw [pretty, pretty, hsplit]

/-! ## Layouts are loose forms -/

section

variable {table : IndentTable} (hunit : ∀ c ∈ table.unit, isBlank c = true)

include hunit

theorem gap_lineStart (depth : Int) : Gap (table.lineStart depth) :=
  fun _ => IndentTable.isBlank_of_mem_lineStart hunit

/-- An end tag closes its element, on the line of the tag before it or on a line of its own. -/
theorem exists_gap_endTag (name : Name) (depth : Int) (previous : Option (List Char)) :
    ∃ gap, Gap gap ∧ (move ⟨depth, false, previous⟩ (endTag name)).line table =
      gap ++ endTag name ∧
      (move ⟨depth, false, previous⟩ (endTag name)).next =
        ⟨depth - 1, false, some (endTag name)⟩ := by
  have hkind := classify_endTag name previous
  by_cases hpaired : previous.bind openName? = some name.text
  · rw [if_pos hpaired] at hkind
    obtain ⟨hline, hnext⟩ := move_pairedTag table depth hkind
    exact ⟨[], .nil, hline, hnext⟩
  · rw [if_neg hpaired] at hkind
    obtain ⟨hline, hnext⟩ := move_closeTag table depth hkind
    exact ⟨table.lineStart (depth - 1), gap_lineStart hunit _, hline, hnext⟩

mutual

/-- A walk over the fragments of a node starts a line, writes a loose form of the node and ends at
its depth. -/
theorem Node.exists_loose : ∀ (node : Node) (depth : Int) (previous : Option (List Char)),
    ∃ s, node.Loose s ∧ written table move ⟨depth, false, previous⟩ node.fragments =
      table.lineStart depth ++ s ∧
      stateAfter move ⟨depth, false, previous⟩ node.fragments = ⟨depth, false, some node.lastTag⟩
  | .empty name attrs, depth, previous => by
    obtain ⟨hline, hnext⟩ :=
      move_single table depth (Or.inl (classify_emptyTag name attrs previous))
    exact ⟨_, rfl, by simp [Node.fragments, written_cons, hline],
      by simp [Node.fragments, hnext, Node.lastTag]⟩
  | .leaf name attrs content, depth, previous => by
    obtain ⟨hline, hnext⟩ :=
      move_openTag table depth (classify_startTag name attrs previous content)
    have hpaired : classify (some (startTag name attrs ++ content.text)) (endTag name) =
        .pairedTag := by
      rw [classify_endTag, Option.bind_some, openName?_startTag, if_pos rfl]
    obtain ⟨hline', hnext'⟩ := move_pairedTag table (depth + 1) hpaired
    refine ⟨_, (Node.leaf name attrs content).loose_write, ?_, ?_⟩
    · simp [Node.fragments, Node.write, written_cons, hline, hnext, hline']
    · simp [Node.fragments, Node.lastTag, hnext, hnext']
  | .parent name attrs children, depth, previous => by
    have hopen : classify previous (startTag name attrs) = .openTag := by
      simpa [noContent] using classify_startTag name attrs previous noContent
    obtain ⟨hline, hnext⟩ := move_openTag table depth hopen
    obtain ⟨t, ht, hwritten, hstate⟩ :=
      children.exists_loose (depth + 1) (some (startTag name attrs))
    obtain ⟨gap, hgap, hline', hnext'⟩ :=
      exists_gap_endTag hunit name (depth + 1) (some children.last.lastTag)
    refine ⟨_, ⟨table.lineStart (depth + 1), t, gap, gap_lineStart hunit _, ht, hgap, rfl⟩, ?_, ?_⟩
    · rw [Node.fragments, written_cons, hline, hnext, written_append, hwritten, hstate,
        written_cons, hline']
      simp
    · rw [Node.fragments, stateAfter_cons, hnext, stateAfter_append, hstate,
        stateAfter_cons, hnext', Int.add_sub_cancel]
      rfl
  | .comment remark, depth, previous => by
    obtain ⟨hline, hnext⟩ := move_single table depth (Or.inr (classify_remark previous remark))
    exact ⟨_, rfl, by simp [Node.fragments, written_cons, hline],
      by simp [Node.fragments, hnext, Node.lastTag]⟩

theorem Children.exists_loose :
    ∀ (children : Children) (depth : Int) (previous : Option (List Char)), ∃ s, children.Loose s ∧
      written table move ⟨depth, false, previous⟩ children.fragments = table.lineStart depth ++ s ∧
      stateAfter move ⟨depth, false, previous⟩ children.fragments =
        ⟨depth, false, some children.last.lastTag⟩
  | .one node, depth, previous => node.exists_loose depth previous
  | .cons node rest, depth, previous => by
    obtain ⟨t, ht, hwritten, hstate⟩ := node.exists_loose depth previous
    obtain ⟨u, hu, hwritten', hstate'⟩ := rest.exists_loose depth (some node.lastTag)
    refine ⟨_, ⟨t, table.lineStart depth, u, ht, gap_lineStart hunit _, hu, rfl⟩, ?_, ?_⟩
    · rw [Children.fragments, written_append, hwritten, hstate, hwritten', List.append_assoc]
    · rw [Children.fragments, stateAfter_append, hstate, hstate']
      rfl

end

/-- The layout of a document is a loose form of its tree. -/
theorem Node.exists_pretty_loose (hclamp : table.overflow = .clamp) (root : Node) :
    ∃ out, pretty table root.write = .ok out ∧ root.Loose out := by
  obtain ⟨out, hloose, hwritten, -⟩ := root.exists_loose hunit 0 (some [])
  obtain ⟨hline, hnext⟩ := move_nil table
  have hrender : (render table {} (split root.write)).2 = .ok out := by
    rw [render, split_write, walkThrough_of_clamp hclamp, written_cons, hline, hnext, hwritten,
      IndentTable.lineStart]
    rfl
  exact ⟨out, by rw [pretty, hrender]; rfl, hloose⟩

end

end Reindent.Xml
