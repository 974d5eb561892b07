import Mathlib
import Reindent.Css.Walk
import Reindent.Proofs.Walks
import Reindent.Sql.Walk
import Reindent.Xml.Walk

/-!
# The two overflow policies

A walk over a table that clamps and the walk over the same table with the other policy make the
same moves up to the first line that is too deep. If there is none, they write the same text and
end in the same state. If there is one, the second walk ends there: it reports the depth of that
line, and it leaves the state that the first walk has reached in front of the fragment.
-/

namespace Reindent

variable {State Kind Fragment : Type}

/-- A depth that a table with the deepest level `maxDepth` does not have. -/
def exceeds (maxDepth depth : Int) : Bool :=
  0 ≤ depth && maxDepth < depth

/-- The depths of the lines that a walk starts, one after the other. -/
def lineDepths (table : IndentTable) (move : State → Fragment → Move State Kind) (state : State)
    (fragments : List Fragment) : List Int :=
  (steps table move state fragments).filterMap fun step => step.1.lineDepth?

/-- How a run on a table that refuses depths follows from the run on the table that clamps them.
The first depth that the table does not have is reported, and what is left is `held` of the state
in front of the fragment with that depth. -/
def RefusesFirst (unit : List Char) (maxDepth : Int) (move : State → Fragment → Move State Kind)
    (render : IndentTable → State → List Fragment → State × Except DepthExceeded (List Char))
    (held : State → Fragment → State) : Prop :=
  ∀ state fragments,
    match (lineDepths (.of unit maxDepth .clamp) move state fragments).find?
    (exceeds maxDepth) with
    | none => ∃ last text, render (.of unit maxDepth .clamp) state fragments = (last, .ok text) ∧
        render (.of unit maxDepth .error) state fragments = (last, .ok text)
    | some depth => ∃ before f after, fragments = before ++ f :: after ∧
        (∀ d ∈ lineDepths (.of unit maxDepth .clamp) move state before,
          exceeds maxDepth d = false) ∧
        (move (render (.of unit maxDepth .clamp) state before).1 f).lineDepth? = some depth ∧
        render (.of unit maxDepth .error) state fragments =
          (held (render (.of unit maxDepth .clamp) state before).1 f, .error ⟨depth, maxDepth⟩)

/-! ## One move -/

section

variable (unit : List Char) (maxDepth : Int)

theorem overflow_clamp : (IndentTable.of unit maxDepth .clamp).overflow = .clamp := rfl

theorem shift_of_error (depth : Int) : (IndentTable.of unit maxDepth .error).shift depth =
    if exceeds maxDepth depth then .error ⟨depth, maxDepth⟩
    else (IndentTable.of unit maxDepth .clamp).shift depth := by
  rw [IndentTable.shift_of_clamp (overflow_clamp unit maxDepth), IndentTable.shift_eq]
  by_cases h : 0 ≤ depth ∧ maxDepth < depth
  · rw [if_pos ⟨rfl, h⟩, if_pos (by simpa [exceeds] using h)]
    rfl
  · rw [if_neg fun hboth => h hboth.2, if_neg (by simpa [exceeds] using h)]
    rfl

theorem emit_of_exceeds {m : Move State Kind} {depth : Int} (hm : m.lineDepth? = some depth)
    (h : exceeds maxDepth depth = true) :
    m.emit (.of unit maxDepth .error) = .error ⟨depth, maxDepth⟩ := by
  unfold Move.emit emit
  rw [hm]
  simp only [shift_of_error, h, if_true]
  rfl

theorem emit_of_not_exceeds {m : Move State Kind}
    (h : ∀ d ∈ m.lineDepth?, exceeds maxDepth d = false) :
    m.emit (.of unit maxDepth .error) = m.emit (.of unit maxDepth .clamp) := by
  unfold Move.emit emit
  cases hm : m.lineDepth? with
  | none => rfl
  | some depth =>
    have hdepth : exceeds maxDepth depth = false := h depth hm
    simp [shift_of_error, hdepth]

/-! ## Walks -/

variable (move : State → Fragment → Move State Kind)

theorem lineDepths_cons (state : State) (f : Fragment) (fs : List Fragment) :
    lineDepths (.of unit maxDepth .clamp) move state (f :: fs) =
      (move state f).lineDepth?.toList ++
        lineDepths (.of unit maxDepth .clamp) move (move state f).next fs := by
  obtain ⟨pieces, hemit, -⟩ := emit_of_clamp (overflow_clamp unit maxDepth) (move state f)
  unfold lineDepths
  rw [steps, hemit]
  cases hm : (move state f).lineDepth? with
  | none => simp [hm]
  | some depth => simp [hm]

/-- Where no line is too deep, the two walks are the same. -/
theorem walk_of_forall_not_exceeds {state : State} {fragments : List Fragment}
    (h : ∀ d ∈ lineDepths (.of unit maxDepth .clamp) move state fragments,
      exceeds maxDepth d = false) :
    walk (.of unit maxDepth .error) move state fragments =
      walk (.of unit maxDepth .clamp) move state fragments := by
  induction fragments generalizing state with
  | nil => rfl
  | cons f fs ih =>
    rw [lineDepths_cons] at h
    have hmove : ∀ d ∈ (move state f).lineDepth?, exceeds maxDepth d = false := by
      intro d hd
      exact h d (List.mem_append_left _ (Option.mem_toList.2 hd))
    have hrest := ih fun d hd => h d (List.mem_append_right _ hd)
    rw [walk, walk, emit_of_not_exceeds unit maxDepth hmove, hrest]

/-- The first line that is too deep ends the walk. -/
theorem walk_of_exceeds {state : State} {before after : List Fragment} {f : Fragment} {depth : Int}
    (hbefore : ∀ d ∈ lineDepths (.of unit maxDepth .clamp) move state before,
      exceeds maxDepth d = false)
    (hf : (move (stateAfter move state before) f).lineDepth? = some depth)
    (hdepth : exceeds maxDepth depth = true) :
    walk (.of unit maxDepth .error) move state (before ++ f :: after) =
      ((move (stateAfter move state before) f).held, .error ⟨depth, maxDepth⟩) := by
  have hclamp := walk_of_clamp (overflow_clamp unit maxDepth) move state before
  rw [walk_append, walk_of_forall_not_exceeds unit maxDepth move hbefore, hclamp]
  simp only [walk, emit_of_exceeds unit maxDepth hf hdepth]
  rfl

/-- The first depth of a list that is too deep belongs to a fragment. -/
theorem exists_fragment_of_find? {state : State} {fragments : List Fragment} {depth : Int}
    (h : (lineDepths (.of unit maxDepth .clamp) move state fragments).find? (exceeds maxDepth) =
      some depth) :
    ∃ before f after, fragments = before ++ f :: after ∧
      (∀ d ∈ lineDepths (.of unit maxDepth .clamp) move state before, exceeds maxDepth d = false) ∧
      (move (stateAfter move state before) f).lineDepth? = some depth := by
  induction fragments generalizing state with
  | nil => cases h
  | cons f fs ih =>
    rw [lineDepths_cons, List.find?_append] at h
    cases hmove : (move state f).lineDepth?.toList.find? (exceeds maxDepth) with
    | some d =>
      obtain rfl : d = depth := by simpa [hmove] using h
      have hd : d ∈ (move state f).lineDepth? :=
        Option.mem_toList.1 (List.mem_of_find?_eq_some hmove)
      exact ⟨[], f, fs, rfl, fun e he => absurd he List.not_mem_nil, hd⟩
    | none =>
      rw [hmove, Option.none_or] at h
      obtain ⟨before, g, after, rfl, hbefore, hg⟩ := ih h
      refine ⟨f :: before, g, after, rfl, ?_, hg⟩
      intro d hd
      rw [lineDepths_cons, List.mem_append] at hd
      rcases hd with hd | hd
      · simpa using List.find?_eq_none.1 hmove d hd
      · exact hbefore d hd

variable {unit maxDepth move}

/-- The law holds of every run that makes a walk and finishes its text, whatever the walker is. -/
theorem refusesFirst_of_walk {render : IndentTable → State → List Fragment →
    State × Except DepthExceeded (List Char)} {held : State → Fragment → State}
    {finish : List Char → List Char}
    (hrender : ∀ overflow state fragments, render (.of unit maxDepth overflow) state fragments =
      walkThrough finish (.of unit maxDepth overflow) move state fragments)
    (hheld : ∀ state f, (move state f).held = held state f) :
    RefusesFirst unit maxDepth move render held := by
  intro state fragments
  have hclamp : ∀ fs, render (.of unit maxDepth .clamp) state fs =
      (stateAfter move state fs, .ok
        (finish (written (.of unit maxDepth .clamp) move state fs))) := by
    intro fs
    rw [hrender, walkThrough_of_clamp (overflow_clamp unit maxDepth)]
  split
  · rename_i hfind
    have hdepths : ∀ d ∈ lineDepths (.of unit maxDepth .clamp) move state fragments,
        exceeds maxDepth d = false := by
      intro d hd
      simpa using List.find?_eq_none.1 hfind d hd
    refine ⟨_, _, hclamp fragments, ?_⟩
    rw [hrender, walkThrough, walk_of_forall_not_exceeds unit maxDepth move hdepths,
      ← walkThrough, ← hrender, hclamp]
  · rename_i depth hfind
    have hdepth : exceeds maxDepth depth = true := List.find?_some hfind
    obtain ⟨before, f, after, rfl, hbefore, hf⟩ :=
      exists_fragment_of_find? unit maxDepth move hfind
    refine ⟨before, f, after, rfl, hbefore, ?_, ?_⟩
    · rw [hclamp]
      exact hf
    · rw [hrender, walkThrough, walk_of_exceeds unit maxDepth move hbefore hf hdepth, hclamp,
        ← hheld]
      rfl

end

/-! ## The three languages -/

/-- The state of the walker over SQL after the parentheses of a fragment are counted. -/
def Sql.State.count (state : Sql.State) (fragment : Sql.Fragment) : Sql.State :=
  ⟨state.depth, if fragment.literal then state.level else Sql.levelAfter fragment.text state.level⟩

/-- In all three languages, a run on a table that refuses depths is the run on the table that
clamps, up to the first depth that the table does not have. That one is reported with the deepest
level, and the state in front of the fragment is left, in SQL with the parentheses of the fragment
counted already. -/
theorem render_refusesFirst (unit : List Char) (maxDepth : Int) :
    RefusesFirst unit maxDepth Xml.move Xml.render (fun state _ => state) ∧
      RefusesFirst unit maxDepth (Sql.move unit) Sql.render Sql.State.count ∧
      RefusesFirst unit maxDepth Css.move Css.render (fun state _ => state) := by
  refine ⟨?_, ?_, ?_⟩
  · exact refusesFirst_of_walk (fun _ _ _ => rfl) (fun _ _ => rfl)
  · exact refusesFirst_of_walk (fun _ _ _ => rfl) (fun _ _ => rfl)
  · exact refusesFirst_of_walk (fun _ _ _ => rfl) (fun _ _ => rfl)

end Reindent
