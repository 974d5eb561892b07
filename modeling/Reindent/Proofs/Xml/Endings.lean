import Mathlib
import Reindent.Proofs.Xml.Loose
import Reindent.Proofs.Xml.RoundTrip

/-!
# End tags

The walker takes an end tag for the end of the element right before it by the name at the start of
the fragment in front of it. For an element without children that fragment is its own start tag.
For an element with children it is the last tag of the last child, which has a name at its start
only if the child is an empty element. So every end tag is placed by its own element, unless the
last child of the element is an empty element of the same name.
-/

set_option maxRecDepth 2000

namespace Reindent.Xml

open Text

/-! ## The end tags of a tree -/

/-- An end tag of a tree. -/
structure Ending where
  /-- The number of fragments in front of the tag. -/
  index : Nat
  /-- The name of the element that ends. -/
  name : Name
  /-- The last child of the element, if it has children. -/
  last? : Option Node

/-- The end tag with more fragments in front of it. -/
def Ending.shift (n : Nat) (e : Ending) : Ending :=
  { e with index := e.index + n }

mutual

/-- The end tags of all elements in a node. -/
def Node.endings : Node → List Ending
  | .empty _ _ => []
  | .leaf name _ _ => [⟨1, name, none⟩]
  | .parent name _ children =>
    children.endings.map (Ending.shift 1) ++
      [⟨children.fragments.length + 1, name, some children.last⟩]
  | .comment _ => []

def Children.endings : Children → List Ending
  | .one node => node.endings
  | .cons node rest => node.endings ++ rest.endings.map (Ending.shift node.fragments.length)

end

/-- The name at the start of the fragment in front of an end tag, if that fragment starts with
one. -/
def Ending.nameBefore? (e : Ending) : Option (List Char) :=
  match e.last? with
  | none => some e.name.text
  | some node => node.emptyName?

mutual

theorem Node.exists_fragments_eq : ∀ node :
    Node, ∃ before, node.fragments = before ++ [node.lastTag]
  | .empty _ _ => ⟨[], rfl⟩
  | .leaf name attrs content => ⟨[startTag name attrs ++ content.text], rfl⟩
  | .parent name attrs children => ⟨startTag name attrs :: children.fragments, rfl⟩
  | .comment _ => ⟨[], rfl⟩

theorem Children.exists_fragments_eq : ∀ children : Children, ∃ before,
    children.fragments = before ++ [children.last.lastTag]
  | .one node => node.exists_fragments_eq
  | .cons node rest => by
    obtain ⟨before, hrest⟩ := rest.exists_fragments_eq
    exact ⟨node.fragments ++ before, by rw [Children.fragments, hrest, List.append_assoc]; rfl⟩

end

mutual

/-- Every end tag stands at its index, behind a fragment with the name that it is compared with. -/
theorem Node.fragments_ending {e : Ending} : ∀ node :
    Node, e ∈ node.endings → ∃ before previous after,
    node.fragments = before ++ previous :: endTag e.name :: after ∧ e.index = before.length + 1 ∧
      openName? previous = e.nameBefore?
  | .empty name attrs, he => by cases he
  | .leaf name attrs content, he => by
    obtain rfl := List.mem_singleton.1 he
    exact ⟨[], startTag name attrs ++ content.text, [], rfl, rfl,
      openName?_startTag name attrs content⟩
  | .parent name attrs children, he => by
    rw [Node.endings, List.mem_append, List.mem_map, List.mem_singleton] at he
    rcases he with ⟨e, hmem, rfl⟩ | rfl
    · obtain ⟨before, previous, after, hfragments, hindex, hname⟩ := children.fragments_ending hmem
      refine ⟨startTag name attrs :: before, previous, after ++ [endTag name], ?_,
        congrArg (· + 1) hindex, hname⟩
      rw [Node.fragments, hfragments]
      simp [Ending.shift]
    · obtain ⟨before, hfragments⟩ := children.exists_fragments_eq
      refine ⟨startTag name attrs :: before, children.last.lastTag, [], ?_, ?_,
        openName?_lastTag children.last⟩
      · rw [Node.fragments, hfragments]
        simp
      · simp [hfragments]
  | .comment remark, he => by cases he

theorem Children.fragments_ending {e : Ending} : ∀ children :
    Children, e ∈ children.endings → ∃ before previous after,
    children.fragments = before ++ previous :: endTag e.name :: after ∧
    e.index = before.length + 1 ∧ openName? previous = e.nameBefore?
  | .one node, he => node.fragments_ending he
  | .cons node rest, he => by
    rw [Children.endings, List.mem_append, List.mem_map] at he
    rcases he with hmem | ⟨e, hmem, rfl⟩
    · obtain ⟨before, previous, after, hfragments, hindex, hname⟩ := node.fragments_ending hmem
      refine ⟨before, previous, after ++ rest.fragments, ?_, hindex, hname⟩
      rw [Children.fragments, hfragments]
      simp
    · obtain ⟨before, previous, after, hfragments, hindex, hname⟩ := rest.fragments_ending hmem
      refine ⟨node.fragments ++ before, previous, after, ?_, ?_, hname⟩
      · rw [Children.fragments, hfragments]
        simp [Ending.shift]
      · show e.index + node.fragments.length = (node.fragments ++ before).length + 1
        rw [hindex, List.length_append]
        omega

end

mutual

/-- No last child is an empty element of its parent's name exactly if this holds at every end
tag. -/
theorem Node.lastDiffers_iff : ∀ node : Node, node.LastDiffers ↔
    ∀ e ∈ node.endings, ∀ last, e.last? = some last → last.emptyName? ≠ some e.name.text
  | .empty name attrs => by simp [Node.LastDiffers, Node.endings]
  | .leaf name attrs content => by simp [Node.LastDiffers, Node.endings]
  | .parent name attrs children => by
    rw [Node.LastDiffers, children.lastDiffers_iff, Node.endings]
    simp only [List.mem_append, List.mem_map, List.mem_singleton, or_imp, forall_and, forall_eq,
      forall_exists_index, and_imp, forall_apply_eq_imp_iff₂, Option.some.injEq, forall_eq']
    exact and_comm
  | .comment remark => by simp [Node.LastDiffers, Node.endings]

theorem Children.lastDiffers_iff : ∀ children : Children, children.LastDiffers ↔
    ∀ e ∈ children.endings, ∀ last, e.last? = some last → last.emptyName? ≠ some e.name.text
  | .one node => node.lastDiffers_iff
  | .cons node rest => by
    rw [Children.LastDiffers, node.lastDiffers_iff, rest.lastDiffers_iff, Children.endings]
    simp only [List.mem_append, List.mem_map, or_imp, forall_and, forall_exists_index, and_imp,
      forall_apply_eq_imp_iff₂]
    rfl

end

/-! ## Kinds of end tags -/

theorem Ending.nameBefore?_eq_iff (e : Ending) : e.nameBefore? = some e.name.text ↔
    e.last? = none ∨ ∃ last, e.last? = some last ∧ last.emptyName? = some e.name.text := by
  rw [Ending.nameBefore?]
  cases e.last? with
  | none => simp
  | some last => simp

/-- The name in front of an end tag says the same as the element's children, unless the last child
misleads. -/
theorem Ending.placed_iff (e : Ending) :
    ((if e.nameBefore? = some e.name.text then .pairedTag else .closeTag : Kind) =
      if e.last?.isNone then .pairedTag else .closeTag) ↔
      ∀ last, e.last? = some last → last.emptyName? ≠ some e.name.text := by
  rw [Ending.nameBefore?]
  cases e.last? with
  | none => simp
  | some last =>
    by_cases hlast : last.emptyName? = some e.name.text
    · simp [hlast]
    · simp [hlast]

theorem stateAfter_previous (state : State) (fs : List (List Char)) (f : List Char) :
    (stateAfter move state (fs ++ [f])).previous = some f := by
  rw [stateAfter_append]
  rfl

/-- The kind of an end tag is decided by the name in front of it. -/
theorem kind_step_ending (table : IndentTable) {root : Node} {s : List Char} (hs : root.Loose s)
    {e : Ending} (he : e ∈ root.endings) : (split s)[e.index + 1]? = some (endTag e.name) ∧
      ∀ step, (steps table move {} (split s))[e.index + 1]? = some step →
        step.1.kind = if e.nameBefore? = some e.name.text then .pairedTag else .closeTag := by
  have hsplit : split s = [] :: root.fragments := by
    rw [split, hs.closeGaps_eq, ← split_write, split, root.loose_write.closeGaps_eq]
  obtain ⟨before, previous, after, hfragments, hindex, hname⟩ := root.fragments_ending he
  have hall : split s = ([] :: before ++ [previous]) ++ endTag e.name :: after := by
    rw [hsplit, hfragments]
    simp
  have hposition : e.index + 1 = ([] :: before ++ [previous]).length := by
    rw [hindex]
    simp
  have hget : (split s)[e.index + 1]? = some (endTag e.name) := by
    rw [hall, hposition, List.getElem?_append_right (Nat.le_refl _), Nat.sub_self,
      List.getElem?_cons_zero]
  refine ⟨hget, fun step hstep => ?_⟩
  have hmove := eq_move_of_getElem?_steps hstep hget
  rw [hall, hposition, List.take_left] at hmove
  rw [hmove]
  show classify (stateAfter move {} ([] :: before ++ [previous])).previous (endTag e.name) = _
  rw [stateAfter_previous, classify_endTag, Option.bind_some, hname]

/-- In every document with any blanks between its tags, the end tag of an element is taken for the
end of the fragment before it exactly if the element has no children or its last child is an empty
element of its name. Every end tag is placed by its own element exactly if the second case does not
arise. -/
theorem kind_endTag (table : IndentTable) (root : Node) {s : List Char} (hs : root.Loose s) :
    (∀ e ∈ root.endings, (split s)[e.index + 1]? = some (endTag e.name) ∧
      ∀ step, (steps table move {} (split s))[e.index + 1]? = some step →
        (step.1.kind = .pairedTag ∨ step.1.kind = .closeTag) ∧
          (step.1.kind = .pairedTag ↔
            e.last? = none ∨ ∃ last, e.last? = some last ∧ last.emptyName? = some e.name.text)) ∧
    (table.overflow = .clamp →
      ((∀ e ∈ root.endings, ∃ step, (steps table move {} (split s))[e.index + 1]? = some step ∧
        step.1.kind = if e.last?.isNone then .pairedTag else .closeTag) ↔ root.LastDiffers)) := by
  constructor
  · intro e he
    obtain ⟨hget, hkind⟩ := kind_step_ending table hs he
    refine ⟨hget, fun step hstep => ?_⟩
    rw [hkind step hstep, ← e.nameBefore?_eq_iff]
    by_cases hname : e.nameBefore? = some e.name.text
    · simp [hname]
    · simp [hname]
  · intro hclamp
    rw [root.lastDiffers_iff]
    refine forall₂_congr fun e he => ?_
    obtain ⟨hget, hkind⟩ := kind_step_ending table hs he
    rw [← e.placed_iff]
    constructor
    · rintro ⟨step, hstep, hplaced⟩
      rw [← hkind step hstep, hplaced]
    · intro hplaced
      have hlt : e.index + 1 < (steps table move {} (split s)).length := by
        rw [length_steps_of_clamp hclamp]
        exact (List.getElem?_eq_some_iff.1 hget).1
      have hstep := List.getElem?_eq_getElem hlt
      exact ⟨_, hstep, (hkind _ hstep).trans hplaced⟩

/-- Of three end tags, the first ends an element with a text, the second one with a comment, and
the third is misled by an empty element of its name. -/
theorem kind_endTag_remarkTree :
    let text := "<a> <!---x-y --><b> t </b>\n<a><!----></a><a/></a>".toList
    remarkTree.Loose text ∧ IndentTable.default.overflow = .clamp ∧
      remarkTree.endings.map (fun e => (e.index, e.name.text, e.last?.isNone)) =
        [(3, ['b'], true), (6, ['a'], false), (8, ['a'], false)] ∧
      (∀ e ∈ remarkTree.endings, (split text)[e.index + 1]? = some (endTag e.name)) ∧
      ¬ ∀ e ∈ remarkTree.endings, ∃ step, (steps .default move {} (split text))[e.index + 1]? =
        some step ∧ step.1.kind = if e.last?.isNone then .pairedTag else .closeTag := by
  intro text
  have hblank : ∀ {c}, isBlank c = true → Gap [c] := fun h => List.forall_mem_singleton.2 h
  have hloose : remarkTree.Loose text :=
    ⟨[' '], _, [], hblank (by decide),
      ⟨_, [], _, rfl, .nil, ⟨_, ['\n'], _, ⟨[], .nil, Or.inr rfl, rfl⟩, hblank (by decide),
        ⟨_, [], _, ⟨[], _, [], .nil, rfl, .nil, rfl⟩, .nil, rfl, rfl⟩, rfl⟩, rfl⟩, .nil, by decide⟩
  obtain ⟨hendings, hplaced⟩ := kind_endTag .default remarkTree hloose
  refine ⟨hloose, rfl, by decide, fun e he => (hendings e he).1, fun h => ?_⟩
  exact ((hplaced rfl).1 h).1 rfl

/-- An element whose only child is empty and has its name. -/
def namesakeTree : Node :=
  .parent nameA noAttributes (.one (.empty nameA noAttributes))

/-- The end tag of an element with a child is taken for the end of that child. -/
theorem kind_endTag_namesakeTree :
    namesakeTree.write = "<a><a/></a>".toList ∧
      namesakeTree.endings.map (fun e => (e.index, e.name.text, e.last?.isNone)) =
        [(2, ['a'], false)] ∧
      (split namesakeTree.write)[3]? = some "</a>".toList ∧
      ((steps .default move {} (split namesakeTree.write))[3]?).map (fun step => step.1.kind) =
        some .pairedTag := by
  exact ⟨by decide, by decide, by decide, by decide⟩

end Reindent.Xml
