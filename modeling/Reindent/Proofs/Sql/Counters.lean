import Mathlib
import Reindent.Proofs.Sql.Depth

/-!
# The counters of the walker

What the two counters of the walker say of any statement, balanced or not. The level is exact:
behind the last fragment it is the number of parentheses that the statement opens outside its
literals, less the number that it closes there. The depth is bounded: it is never negative, never
greater than the number of subqueries that were opened, and moves by at most one with each
fragment.
-/

namespace Reindent.Sql

open Text Marker

/-! ## Parentheses outside literals -/

/-- How often a character stands in a statement outside its literals. -/
def countOutside (c : Char) (text : List Char) : Nat :=
  (quoteTags false text).count (false, c)

theorem count_blot {c : Char} (hc : c ≠ '\x27') (text : List Char) :
    (blot false text).count c = countOutside c text := by
  rw [countOutside, blot, List.count_eq_countP, List.countP_map, List.count_eq_countP]
  refine List.countP_congr fun x _ => ?_
  obtain ⟨inside, d⟩ := x
  cases inside with
  | false => simp
  | true => simp [hc.symm]

theorem net_blot (text : List Char) :
    net (blot false text) = (countOutside '(' text : Int) - countOutside ')' text := by
  rw [net, count_blot (by decide), count_blot (by decide)]

/-! ## Splitting -/

/-- A statement has fragments exactly if a mark is left for each of its spans outside literals. -/
theorem exists_split_iff {tab text : List Char} : (∃ fs, split tab text = .ok fs) ↔
    MarksAvailable tab text := by
  constructor
  · rintro ⟨fs, hfs⟩
    refine fragmentsOf_induct (P := fun lit spans _ => ∀ span ∈ unquoted lit spans,
      (pick? (span ++ tab)).isSome = true) ?_ ?_ ?_ hfs
    · intro lit span hspan
      cases lit <;> cases hspan
    · exact fun _ _ _ ih => ih
    · intro span rest _ mark hmark ih
      exact List.forall_mem_cons.2 ⟨by rw [hmark]; rfl, ih⟩
  · exact exists_fragmentsOf

/-! ## Steps and walks -/

/-- Whether a fragment opens a subquery. -/
def Fragment.opens (f : Fragment) : Bool :=
  classify f = .subqueryOpen

section

variable (unit : List Char) {state : State}

/-- A step moves the depth by at most one, from whatever state. -/
theorem abs_next_depth_sub_le (f : Fragment) : |(move unit state f).next.depth - state.depth| ≤
    1 := by
  have hnext : (move unit state f).next.depth =
      (transition (classify f) ⟨state.depth, (move unit state f).next.level⟩).depthAfter
      state.depth := rfl
  rw [hnext, depthAfter_transition, add_sub_cancel_left, abs_le]
  split_ifs <;> omega

/-- Only a fragment that opens a subquery makes the depth greater. -/
theorem next_depth_le (hdepth : 0 ≤ state.depth) (f : Fragment) :
    (move unit state f).next.depth ≤ state.depth + if f.opens then 1 else 0 := by
  rw [next_depth hdepth, Fragment.pull, Fragment.opens]
  simp only [decide_eq_true_eq]
  split_ifs <;> omega

theorem next_depth_nonneg (hdepth : 0 ≤ state.depth) (f : Fragment) :
    0 ≤ (move unit state f).next.depth := by
  rw [next_depth hdepth]
  exact le_max_left _ _

/-- Over a walk, the depth stays between zero and the number of subqueries that were opened. -/
theorem depth_stateAfter_bounds (hdepth : 0 ≤ state.depth) (fs : List Fragment) :
    0 ≤ (stateAfter (move unit) state fs).depth ∧
      (stateAfter (move unit) state fs).depth ≤ state.depth + fs.countP Fragment.opens := by
  induction fs generalizing state with
  | nil => exact ⟨hdepth, by simp⟩
  | cons f fs ih =>
    obtain ⟨hlow, hhigh⟩ := ih (next_depth_nonneg unit hdepth f)
    refine ⟨hlow, hhigh.trans ?_⟩
    have hstep := next_depth_le unit hdepth f
    rw [List.countP_cons]
    split_ifs at hstep ⊢ <;> push_cast <;> omega

end

/-- On a table that clamps and has a blank unit, a statement has fragments if a mark is left for
each of its spans. Behind each of them, the depth is between zero and the number of subqueries that
were opened, and it has moved by at most one. Behind the last one, the level is the number of
parentheses that the statement opens outside literals, less the number that it closes there. -/
theorem render_counts (table : IndentTable) (hclamp : table.overflow = .clamp)
    (hunit : ∀ c ∈ table.unit, isBlank c = true) (text : List Char) :
    ((∃ fs, split table.unit text = .ok fs) ↔ MarksAvailable table.unit text) ∧
    ∀ fs, split table.unit text = .ok fs →
      (∀ before, before <+: fs → 0 ≤ (render table {} before).1.depth ∧
        (render table {} before).1.depth ≤ before.countP Fragment.opens) ∧
      (∀ before f, before ++ [f] <+: fs →
        |(render table {} (before ++ [f])).1.depth - (render table {} before).1.depth| ≤ 1) ∧
      (render table {} fs).1.level = (countOutside '(' text : Int) - countOutside ')' text := by
  refine ⟨exists_split_iff, fun fs hfs => ⟨fun before _ => ?_, fun before f _ => ?_, ?_⟩⟩
  · have hfresh : 0 ≤ ({} : State).depth := Int.le_refl 0
    obtain ⟨hlow, hhigh⟩ := depth_stateAfter_bounds table.unit hfresh before
    rw [render, walkThrough_of_clamp hclamp]
    exact ⟨hlow, hhigh.trans_eq (Int.zero_add _)⟩
  · rw [render, render, walkThrough_of_clamp hclamp, walkThrough_of_clamp hclamp,
      stateAfter_append]
    exact abs_next_depth_sub_le table.unit f
  · rw [render, walkThrough_of_clamp hclamp, level_stateAfter, parentheses_split hunit hfs,
      net_parentheses, net_blot]
    exact Int.zero_add _

/-- A parenthesis that closes nothing, two that nothing closes, and two in a literal. -/
theorem render_counts_unbalanced :
    let text := "SELECT a) FROM (SELECT '((' FROM (t".toList
    IndentTable.default.overflow = .clamp ∧ (∀ c ∈ IndentTable.default.unit, isBlank c = true) ∧
      ∃ fs, split IndentTable.default.unit text = .ok fs ∧ fs.countP Fragment.opens = 1 ∧
        0 ≤ (render .default {} fs).1.depth ∧ (render .default {} fs).1.depth ≤ 1 ∧
        (render .default {} fs).1.level = 1 := by
  intro text
  have hunit : ∀ c ∈ IndentTable.default.unit, isBlank c = true := List.all_eq_true.1 (by decide)
  have hmarks : MarksAvailable IndentTable.default.unit text := by decide
  have hopened : (split IndentTable.default.unit text).toOption.map (List.countP Fragment.opens) =
      some 1 := by
    decide
  have hcounts : countOutside '(' text = 2 ∧ countOutside ')' text = 1 := by decide
  obtain ⟨hsplit, hwalk⟩ := render_counts .default rfl hunit text
  obtain ⟨fs, hfs⟩ := hsplit.2 hmarks
  obtain ⟨hdepth, -, hlevel⟩ := hwalk fs hfs
  rw [hfs] at hopened
  have hcount : fs.countP Fragment.opens = 1 := Option.some.inj hopened
  obtain ⟨hlow, hhigh⟩ := hdepth fs List.prefix_rfl
  rw [hcount] at hhigh
  rw [hcounts.1, hcounts.2] at hlevel
  exact ⟨rfl, hunit, fs, hfs, hcount, hlow, hhigh, hlevel⟩

end Reindent.Sql
