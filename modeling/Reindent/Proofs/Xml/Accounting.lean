import Mathlib
import Reindent.Proofs.Walks
import Reindent.Xml.Walk

/-!
# Depth and comments over whole walks

A fragment is classified by what it holds and by the fragment before it, and it moves the depth by
what its kind says, unless it is reached inside a comment. From what one step does, the depth
behind any fragments is a count of kinds, and the last kind that has to do with comments decides
whether the walker is inside one. Nothing is asked of the fragments: they need not be cut from a
text.
-/

set_option maxRecDepth 4000

namespace Reindent.Xml

/-! ## Kinds -/

/-- The kinds of fragments, each of them seen behind the one before it. -/
def kinds (previous : Option (List Char)) (fs : List (List Char)) : List Kind :=
  List.zipWith classify (previous :: fs.map some) fs

namespace Kind

/-- What a kind does to the depth. -/
def pull : Kind → Int
  | .openTag => 1
  | .closeTag | .pairedTag => -1
  | _ => 0

/-- Whether a kind decides if a comment is open behind it. -/
def turns : Kind → Bool
  | .commentOpen | .comment | .commentClose => true
  | _ => false

theorem sum_pull (ks : List Kind) : (ks.map pull).sum =
    (ks.count .openTag : Int) - (ks.count .closeTag + ks.count .pairedTag) := by
  induction ks with
  | nil => rfl
  | cons k ks ih =>
    rw [List.map_cons, List.sum_cons, ih]
    cases k <;> simp [pull] <;> omega

end Kind

/-- Whether a comment is open behind fragments of some kinds: the last kind that decides it
does. -/
def commentBehind (inComment : Bool) (ks : List Kind) : Bool :=
  match (ks.filter Kind.turns).getLast? with
  | some k => k = .commentOpen
  | none => inComment

theorem commentBehind_cons (inComment : Bool) (k : Kind) (ks : List Kind) :
    commentBehind inComment (k :: ks) = commentBehind (inCommentAfter k inComment) ks := by
  unfold commentBehind
  cases hlast : (ks.filter Kind.turns).getLast? with
  | some last =>
    cases hturns : k.turns with
    | true => rw [List.filter_cons_of_pos hturns, List.getLast?_cons, hlast, Option.getD_some]
    | false => rw [List.filter_cons_of_neg (by simp [hturns]), hlast]
  | none =>
    rw [List.getLast?_eq_none_iff] at hlast
    cases k <;> simp [hlast, List.filter_cons, Kind.turns, inCommentAfter]

/-! ## Steps -/

/-- A step moves the depth by its kind outside comments, and not at all inside. -/
theorem next_depth (state : State) (f : List Char) : (move state f).next.depth =
    state.depth + if state.inComment then 0 else (classify state.previous f).pull := by
  have hnext : (move state f).next.depth =
      (transition (classify state.previous f) state.inComment).depthAfter state.depth := rfl
  rw [hnext, Transition.depthAfter, Int.add_assoc]
  congr 1
  cases state.inComment <;> cases classify state.previous f <;> rfl

/-- The moves of a walk that no line stops. -/
def moves : State → List (List Char) → List (Move State Kind)
  | _, [] => []
  | state, f :: fs => move state f :: moves (move state f).next fs

theorem map_fst_steps {table : IndentTable} (h : table.overflow = .clamp) (state : State)
    (fs : List (List Char)) :
    (steps table move state fs).map Prod.fst = moves state fs := by
  induction fs generalizing state with
  | nil => rfl
  | cons f fs ih =>
    obtain ⟨pieces, hemit, -⟩ := emit_of_clamp h (move state f)
    rw [steps, hemit, moves, ← ih]
    rfl

theorem map_kind_moves (state : State) (fs : List (List Char)) :
    (moves state fs).map Move.kind = kinds state.previous fs := by
  induction fs generalizing state with
  | nil => rfl
  | cons f fs ih =>
    rw [moves, List.map_cons, ih]
    rfl

/-- Each move starts from the state behind the fragments before it, and leads to the state behind
its own. -/
theorem getElem?_moves {state : State} {fs : List (List Char)} {i : Nat} {m : Move State Kind}
    (h : (moves state fs)[i]? = some m) : ∃ f, m = move (stateAfter move state (fs.take i)) f ∧
      m.next = stateAfter move state (fs.take (i + 1)) := by
  induction fs generalizing state i with
  | nil => cases h
  | cons f fs ih =>
    cases i with
    | zero =>
      obtain rfl := Option.some.inj h
      exact ⟨f, rfl, rfl⟩
    | succ i => exact ih h

/-! ## Walks -/

/-- The depth behind fragments, from the moves made outside comments. -/
theorem depth_stateAfter (state : State) (fs : List (List Char)) :
    (stateAfter move state fs).depth =
      state.depth + ((((moves state fs).filter fun m => !m.held.inComment).map Move.kind).map
        Kind.pull).sum := by
  induction fs generalizing state with
  | nil => exact (Int.add_zero _).symm
  | cons f fs ih =>
    rw [stateAfter_cons, ih, next_depth, moves, Int.add_assoc]
    congr 1
    have hheld : (move state f).held = state := rfl
    cases hcomment : state.inComment with
    | true => simp [hheld, hcomment]
    | false =>
      rw [List.filter_cons_of_pos (by simp [hheld, hcomment])]
      rfl

theorem inComment_stateAfter (state : State) (fs : List (List Char)) :
    (stateAfter move state fs).inComment =
      commentBehind state.inComment (kinds state.previous fs) := by
  induction fs generalizing state with
  | nil => rfl
  | cons f fs ih =>
    have hkinds : kinds state.previous (f :: fs) =
        classify state.previous f :: kinds (some f) fs := rfl
    rw [stateAfter_cons, ih, hkinds, commentBehind_cons]
    rfl

/-- On a table that clamps, a walk over any fragments from any state makes a move for each of them,
in turn. Behind the last one, the depth has risen by the number of start tags and fallen by the
number of end tags that were reached outside comments; no move inside a comment has changed it; and
the walker is inside a comment exactly if the last kind that has to do with comments has opened
one, or there was none and it has started inside one. -/
theorem depth_render_accounting (table : IndentTable) (hclamp : table.overflow = .clamp)
    (state : State) (fs : List (List Char)) :
    let taken := (steps table move state fs).map Prod.fst
    let outside := (taken.filter fun m => !m.held.inComment).map Move.kind
    let lastTurn := ((taken.map Move.kind).filter Kind.turns).getLast?
    taken.map Move.kind = kinds state.previous fs ∧
    (∀ i m, taken[i]? = some m → m.held = (render table state (fs.take i)).1 ∧
      m.next = (render table state (fs.take (i + 1))).1) ∧
    (render table state fs).1.depth =
      state.depth + outside.count .openTag - (outside.count .closeTag + outside.count .pairedTag) ∧
    (∀ m ∈ taken, m.held.inComment = true → m.next.depth = m.held.depth) ∧
    ((render table state fs).1.inComment = true ↔
      lastTurn = some .commentOpen ∨ lastTurn = none ∧ state.inComment = true) := by
  intro taken outside lastTurn
  have htaken : taken = moves state fs := map_fst_steps hclamp state fs
  have hkinds : taken.map Move.kind = kinds state.previous fs := htaken ▸ map_kind_moves state fs
  have hrender : ∀ gs, (render table state gs).1 = stateAfter move state gs := by
    intro gs
    rw [render, walkThrough_of_clamp hclamp]
  refine ⟨hkinds, fun i m hm => ?_, ?_, fun m hm hcomment => ?_, ?_⟩
  · rw [htaken] at hm
    obtain ⟨f, rfl, hnext⟩ := getElem?_moves hm
    rw [hrender, hrender, hnext]
    exact ⟨rfl, rfl⟩
  · rw [hrender, depth_stateAfter, ← htaken, Kind.sum_pull, Int.add_sub_assoc]
  · rw [htaken] at hm
    obtain ⟨i, hi⟩ := List.getElem?_of_mem hm
    obtain ⟨f, rfl, -⟩ := getElem?_moves hi
    have hheld : (stateAfter move state (fs.take i)).inComment = true := hcomment
    rw [next_depth, if_pos hheld, Int.add_zero]
    rfl
  · have hlast : lastTurn = ((kinds state.previous fs).filter Kind.turns).getLast? := by
      rw [← hkinds]
    rw [hrender, inComment_stateAfter, commentBehind, ← hlast]
    cases lastTurn <;> simp

/-- Start tags and end tags on both sides of a comment and inside it, from a depth below zero. -/
theorem depth_render_across_comment :
    let fs :=
      ["<a>".toList, "</b>".toList, "<!--".toList, "<c>".toList, "-->".toList, "<d>".toList,
      "</d>".toList, "<e>".toList, "<![CDATA[".toList, "</e>".toList]
    IndentTable.default.overflow = .clamp ∧
      kinds none fs = [.openTag, .closeTag, .commentOpen, .openTag, .commentClose, .openTag,
        .pairedTag, .openTag, .commentOpen, .closeTag] ∧
      (render .default ⟨-3, false, none⟩ fs).1.depth = -2 ∧
      (render .default ⟨-3, false, none⟩ fs).1.inComment = true := by
  intro fs
  have hkinds : kinds none fs = [.openTag, .closeTag, .commentOpen, .openTag, .commentClose,
    .openTag, .pairedTag, .openTag, .commentOpen, .closeTag] := by decide
  obtain ⟨htaken, -, hdepth, -, hcomment⟩ :=
    depth_render_accounting .default rfl ⟨-3, false, none⟩ fs
  rw [map_fst_steps rfl] at hdepth
  refine ⟨rfl, hkinds, hdepth.trans (by decide), hcomment.2 (.inl ?_)⟩
  rw [htaken, hkinds]
  decide

end Reindent.Xml
