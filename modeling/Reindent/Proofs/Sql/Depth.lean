import Mathlib
import Reindent.Proofs.Sql.Content

/-!
# Parentheses and depth

The level of the walker is the number of parentheses that are open outside literals: the rules move
no parenthesis and the walker counts each one, so the level of a balanced statement never falls
below zero and ends there.

The depth follows the level only loosely. A fragment that opens a subquery makes it greater by one,
whatever else it holds, and any other fragment makes it smaller by one if no parenthesis is open
behind it and the depth is positive. So subqueries that are closed by one and the same fragment, or
by the fragment that opens them, leave the depth positive unless enough fragments follow.
-/

set_option maxRecDepth 4000

namespace Reindent.Sql

open Text Marker

/-! ## Parentheses of a text -/

/-- The parentheses of a text in their order. -/
def parentheses (s : List Char) : List Char :=
  s.filter isParenthesis

/-- The number of parentheses that a text opens, less the number that it closes. -/
def net (s : List Char) : Int :=
  (s.count '(' : Int) - (s.count ')' : Int)

/-- Outside its literals, a statement closes no parenthesis that is not open, and closes all in the
end. -/
structure Balanced (text : List Char) : Prop where
  nonneg : ∀ p, p <+: blot false text → 0 ≤ net p
  settled : net (blot false text) = 0

theorem net_append (s t : List Char) : net (s ++ t) = net s + net t := by
  simp only [net, List.count_append]
  omega

theorem net_parentheses (s : List Char) : net (parentheses s) = net s := by
  rw [net, parentheses, List.count_filter rfl, List.count_filter rfl, net]

theorem parentheses_append (s t : List Char) :
    parentheses (s ++ t) = parentheses s ++ parentheses t :=
  List.filter_append s t

theorem parentheses_cons_of_not {c : Char} (hc : isParenthesis c = false) (s : List Char) :
    parentheses (c :: s) = parentheses s :=
  List.filter_cons_of_neg (by simp [hc])

theorem parentheses_deleteBlanks (s : List Char) :
    parentheses (deleteBlanks s) = parentheses s := by
  rw [parentheses, deleteBlanks, List.filter_filter, parentheses]
  refine List.filter_congr fun c _ => ?_
  cases hblank : isBlank c with
  | false => simp
  | true => simp [isParenthesis_of_isBlank hblank]

/-- Only letters are written as other characters, so parentheses stay where they are. -/
theorem Recased.isParenthesis_eq {c d : Char} (h : Recased c d) :
    isParenthesis d = isParenthesis c := by
  rw [Bool.eq_iff_iff]
  constructor
  · intro hd
    rwa [← h.eq_of_not_isUpper (by rcases isParenthesis_iff.1 hd with rfl | rfl <;> decide)]
  · intro hc
    rwa [h.eq_of_not_isWord (isWord_of_isParenthesis hc)]

theorem parentheses_of_recased {s t : List Char} (h : List.Forall₂ Recased s t) :
    parentheses t = parentheses s := by
  induction h with
  | nil => rfl
  | @cons c d s t hcd _ ih =>
    have hsame := hcd.isParenthesis_eq
    cases hc : isParenthesis c with
    | false =>
      rw [hc] at hsame
      rw [parentheses_cons_of_not hsame, parentheses_cons_of_not hc, ih]
    | true =>
      obtain rfl := hcd.eq_of_not_isWord (isWord_of_isParenthesis hc)
      rw [← List.singleton_append (l := t), ← List.singleton_append (l := s),
        parentheses_append, ih, ← parentheses_append]

/-! ### Literals -/

theorem parentheses_quote (s : List Char) : parentheses ('\x27' :: s) = parentheses s :=
  parentheses_cons_of_not (by decide) s

/-- The parentheses inside a literal do not count. -/
theorem parentheses_blot_true_append {a : List Char} (ha : '\x27' ∉ a) (s : List Char) :
    parentheses (blot true (a ++ s)) = parentheses (blot true s) := by
  induction a with
  | nil => rfl
  | cons c a ih =>
    rw [List.mem_cons, not_or] at ha
    rw [List.cons_append, blot_cons (Ne.symm ha.1), if_pos rfl, parentheses_quote, ih ha.2]

theorem parentheses_blot (inside : Bool) (s : List Char) : parentheses (blot inside s) =
    parentheses (((quoteTags inside s).filter fun x => !isBlank x.2).map fun x =>
      if x.1 then '\x27' else x.2) := by
  rw [parentheses, parentheses, blot, List.filter_map, List.filter_map, List.filter_filter]
  congr 1
  refine List.filter_congr fun x _ => ?_
  cases hblank : isBlank x.2 with
  | false => simp
  | true =>
    have hquote : isParenthesis '\x27' = false := by decide
    cases hinside : x.1 <;> simp [hinside, hquote, isParenthesis_of_isBlank hblank]

theorem parentheses_blot_collapse (s : List Char) :
    parentheses (blot false (collapse s)) = parentheses (blot false s) := by
  rw [parentheses_blot, filter_quoteTags_collapse, ← parentheses_blot]

/-! ## Parentheses of fragments -/

/-- The parentheses of a fragment that count. -/
def Fragment.parentheses (f : Fragment) : List Char :=
  if f.literal then [] else Sql.parentheses f.text

section

variable {tab : List Char}

theorem parentheses_clauses (htab : ∀ c ∈ tab, isBlank c = true) {span : List Char} {mark : Char}
    (hmark : pick? (span ++ tab) = some mark) :
    ((splitClausesWith mark tab span).map (Fragment.mk · false)).flatMap Fragment.parentheses =
      parentheses span := by
  have hflat : ∀ fs : List (List Char),
      (fs.map (Fragment.mk · false)).flatMap Fragment.parentheses =
      parentheses ((fs.map (Fragment.mk · false)).flatMap fun f => deleteBlanks f.text) := by
    intro fs
    induction fs with
    | nil => rfl
    | cons f fs ih =>
      rw [List.map_cons, List.flatMap_cons, List.flatMap_cons, ih, parentheses_append,
        parentheses_deleteBlanks]
      rfl
  rw [hflat, parentheses_of_recased (recased_clauses htab hmark), parentheses_deleteBlanks]

theorem parentheses_fragmentsOf (htab : ∀ c ∈ tab, isBlank c = true) {lit : Bool}
    {spans : List (List Char)} {fs : List Fragment} (h : fragmentsOf tab lit spans = .ok fs)
    (hspans : ∀ r ∈ spans, QuoteSpan r) :
    fs.flatMap Fragment.parentheses = parentheses (blot (!lit) spans.flatten) := by
  refine fragmentsOf_induct (P := fun lit spans fs => (∀ r ∈ spans, QuoteSpan r) →
    fs.flatMap Fragment.parentheses = parentheses (blot (!lit) spans.flatten))
    (fun _ _ => rfl) ?_ ?_ h hspans
  · intro span rest fs ih hspans
    obtain ⟨body, rfl, hbody⟩ := hspans span List.mem_cons_self
    rw [List.flatMap_cons, ih fun r hr => hspans r (List.mem_cons_of_mem _ hr), List.flatten_cons,
      List.cons_append, blot_quote, parentheses_quote, Bool.not_true, Bool.not_false,
      parentheses_blot_true_append hbody]
    rfl
  · intro span rest fs mark hmark ih hspans
    obtain ⟨body, rfl, hbody⟩ := hspans span List.mem_cons_self
    rw [List.flatMap_append, parentheses_clauses htab hmark,
      ih fun r hr => hspans r (List.mem_cons_of_mem _ hr), List.flatten_cons, List.cons_append,
      blot_quote, Bool.not_false, Bool.not_true, blot_false_append hbody, ← List.cons_append,
      parentheses_append]

/-- The fragments of a statement hold its parentheses outside literals, in their order. -/
theorem parentheses_split (htab : ∀ c ∈ tab, isBlank c = true) {text : List Char}
    {fs : List Fragment} (h : fragmentsOf tab false (quoteSpans text) = .ok fs) :
    fs.flatMap Fragment.parentheses = parentheses (blot false text) := by
  obtain ⟨first, rest, hcut, hfirst, hrest, hjoin⟩ := cutBefore_startsQuote (collapse text)
  rw [quoteSpans, hcut] at h
  obtain ⟨mark, more, hmark, hmore, hfs⟩ := fragmentsOf_clauses h
  rw [hfs, List.flatMap_append, parentheses_clauses htab hmark,
    parentheses_fragmentsOf htab hmore hrest, ← parentheses_blot_collapse, ← hjoin,
    blot_false_append hfirst, parentheses_append, Bool.not_true]

end

/-! ## Steps -/

/-- What a fragment does to a positive depth; `level` is the number of parentheses that are open
behind it. -/
def Fragment.pull (level : Int) (f : Fragment) : Int :=
  if classify f = .subqueryOpen then 1 else if level < 1 then -1 else 0

/-- What fragments do to the depth one after the other, from a level on. -/
def pulls (level : Int) : List Fragment → List Int
  | [] => []
  | f :: fs => f.pull (level + net f.parentheses) :: pulls (level + net f.parentheses) fs

section

variable {unit : List Char} {state : State}

theorem next_level (f : Fragment) :
    (move unit state f).next.level = state.level + net f.parentheses := by
  unfold move Fragment.parentheses
  cases hlit : f.literal with
  | true => simp [net]
  | false =>
    simp only [Bool.false_eq_true, if_false, net_parentheses]
    unfold levelAfter net
    omega

theorem depthAfter_transition (kind : Kind) (counted : State) (depth : Int) :
    (transition kind counted).depthAfter depth =
      depth + if kind = .subqueryOpen then 1 else if counted.closesScope then -1 else 0 := by
  unfold transition Transition.depthAfter
  cases hcloses : counted.closesScope <;> cases kind <;>
    simp [closingTransition, DepthChange.decrements, Transition.level, DepthChange.before,
      DepthChange.after]

/-- A step moves the depth as its fragment pulls, but not below zero. -/
theorem next_depth (hdepth : 0 ≤ state.depth) (f : Fragment) :
    (move unit state f).next.depth =
      max 0 (state.depth + f.pull (state.level + net f.parentheses)) := by
  have hnext : (move unit state f).next.depth =
      (transition (classify f) ⟨state.depth, (move unit state f).next.level⟩).depthAfter
      state.depth := rfl
  have hcloses : ∀ level, (State.mk state.depth level).closesScope = true ↔
      level < 1 ∧ 0 < state.depth := by
    simp [State.closesScope]
  rw [hnext, depthAfter_transition, next_level, Fragment.pull]
  simp only [hcloses]
  split
  · omega
  · split
    · rw [if_pos (by omega)]
      omega
    · split <;> omega

end

/-! ## Walks -/

theorem level_stateAfter (unit : List Char) (state : State) (fs : List Fragment) :
    (stateAfter (move unit) state fs).level =
      state.level + net (fs.flatMap Fragment.parentheses) := by
  induction fs generalizing state with
  | nil => simp [net]
  | cons f fs ih =>
    rw [stateAfter_cons, ih, next_level, List.flatMap_cons, net_append]
    omega

theorem depth_stateAfter (unit : List Char) {state : State} (hdepth : 0 ≤ state.depth)
    (fs : List Fragment) :
    (stateAfter (move unit) state fs).depth =
      (pulls state.level fs).foldl (fun depth pull => max 0 (depth + pull)) state.depth := by
  induction fs generalizing state with
  | nil => rfl
  | cons f fs ih =>
    rw [stateAfter_cons, ih (by rw [next_depth hdepth]; exact le_max_left _ _), next_depth hdepth,
      next_level]
    rfl

/-- A depth that is pulled up and down but not below zero ends at zero exactly if the pulls of no
tail add up to more than zero: the pulls before a tail count for nothing once the depth has been
zero. -/
theorem foldl_pull_eq_zero_iff {depth : Int} (hdepth : 0 ≤ depth) (ps : List Int) :
    ps.foldl (fun depth pull => max 0 (depth + pull)) depth = 0 ↔
      depth + ps.sum ≤ 0 ∧ ∀ tail, tail <:+ ps → tail.sum ≤ 0 := by
  induction ps generalizing depth with
  | nil =>
    simp only [List.foldl_nil, List.sum_nil, List.suffix_nil, forall_eq]
    omega
  | cons p ps ih =>
    rw [List.foldl_cons, ih (le_max_left _ _)]
    simp only [List.suffix_cons_iff, forall_eq_or_imp, List.sum_cons]
    constructor
    · rintro ⟨hsum, htails⟩
      exact ⟨by omega, by omega, htails⟩
    · rintro ⟨hsum, -, htails⟩
      have := htails ps List.suffix_rfl
      exact ⟨by omega, htails⟩

/-- On a table that clamps and has a blank unit, the walk over a balanced statement counts its
parentheses: the level is never negative, and zero at the end. The depth is zero at the end exactly
if in no tail of the fragments more of them open a subquery than others have no open parenthesis
behind them. -/
theorem depth_render_eq_zero_iff (table : IndentTable) (hclamp : table.overflow = .clamp)
    (hunit : ∀ c ∈ table.unit, isBlank c = true) (text : List Char)
    (hmarks : MarksAvailable table.unit text)
    (hbalanced : Balanced text) : ∃ fs, split table.unit text = .ok fs ∧
      (∀ before, before <+: fs → 0 ≤ (render table {} before).1.level) ∧
      (render table {} fs).1.level = 0 ∧
      ((render table {} fs).1.depth = 0 ↔ ∀ tail, tail <:+ pulls 0 fs → tail.sum ≤ 0) := by
  obtain ⟨fs, hfs⟩ := exists_fragmentsOf hmarks
  have hall := parentheses_split hunit hfs
  have hlevel : ∀ before, (render table {} before).1.level =
      net (before.flatMap Fragment.parentheses) := by
    intro before
    rw [render, walkThrough_of_clamp hclamp, level_stateAfter]
    exact Int.zero_add _
  refine ⟨fs, hfs, ?_, ?_, ?_⟩
  · rintro before ⟨after, rfl⟩
    rw [List.flatMap_append, eq_comm, parentheses, List.filter_eq_append_iff] at hall
    obtain ⟨p, rest, hsplit, hp, -⟩ := hall
    rw [hlevel, ← hp]
    exact (net_parentheses p).symm ▸ hbalanced.nonneg p ⟨rest, hsplit.symm⟩
  · rw [hlevel, hall, net_parentheses, hbalanced.settled]
  · rw [render, walkThrough_of_clamp hclamp, depth_stateAfter table.unit (Int.le_refl 0),
      foldl_pull_eq_zero_iff (Int.le_refl 0)]
    constructor
    · exact fun h => h.2
    · exact fun h => ⟨by simpa using h _ List.suffix_rfl, h⟩

/-- A subquery that a clause of its own closes, and a literal with a parenthesis. -/
theorem depth_render_closed_subquery :
    let text := "SELECT a FROM (SELECT b FROM t) WHERE c = ')'".toList
    IndentTable.default.overflow = .clamp ∧ (∀ c ∈ IndentTable.default.unit, isBlank c = true) ∧
      MarksAvailable IndentTable.default.unit text ∧ Balanced text ∧
      ∃ fs, split IndentTable.default.unit text = .ok fs ∧ (render .default {} fs).1.level = 0 ∧
        (render .default {} fs).1.depth = 0 := by
  intro text
  have hunit : ∀ c ∈ IndentTable.default.unit, isBlank c = true := List.all_eq_true.1 (by decide)
  have hmarks : MarksAvailable IndentTable.default.unit text := by decide
  have hnonneg : ∀ p ∈ (blot false text).inits, 0 ≤ net p := by decide
  have hbalanced : Balanced text := ⟨fun p hp => hnonneg p ((List.mem_inits _ _).2 hp), by decide⟩
  have hpulls : (split IndentTable.default.unit text).toOption.map (pulls 0) =
      some [-1, -1, 1, -1, -1, -1, -1] := by
    decide
  obtain ⟨fs, hsplit, -, hlevel, hdepth⟩ :=
    depth_render_eq_zero_iff .default rfl hunit text hmarks hbalanced
  rw [hsplit] at hpulls
  rw [Option.some.inj hpulls] at hdepth
  have htails : ∀ tail ∈ List.tails [-1, -1, 1, -1, -1, -1, (-1 : Int)], tail.sum ≤ 0 := by decide
  exact ⟨rfl, hunit, hmarks, hbalanced, fs, hsplit, hlevel,
    hdepth.2 fun tail htail => htails tail ((List.mem_tails _ _).2 htail)⟩

/-- Two subqueries that are closed by the same clause. -/
theorem depth_render_nested_subqueries :
    let text := "SELECT a FROM (SELECT b FROM (SELECT c FROM t))".toList
    MarksAvailable IndentTable.default.unit text ∧ Balanced text ∧
      ∃ fs, split IndentTable.default.unit text = .ok fs ∧ (render .default {} fs).1 = ⟨1, 0⟩ := by
  intro text
  have hmarks : MarksAvailable IndentTable.default.unit text := by decide
  have hnonneg : ∀ p ∈ (blot false text).inits, 0 ≤ net p := by decide
  have hbalanced : Balanced text := ⟨fun p hp => hnonneg p ((List.mem_inits _ _).2 hp), by decide⟩
  have hstate : (split IndentTable.default.unit text).toOption.map
      (stateAfter (move IndentTable.default.unit) {}) = some ⟨1, 0⟩ := by
    decide
  obtain ⟨fs, hfs⟩ := exists_fragmentsOf hmarks
  refine ⟨hmarks, hbalanced, fs, hfs, ?_⟩
  rw [split, hfs] at hstate
  rw [render, walkThrough_of_clamp rfl]
  exact Option.some.inj hstate

end Reindent.Sql
