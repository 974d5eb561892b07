import Mathlib
import Reindent.Proofs.Text.Blanks
import Reindent.Transition

/-!
# Indentation and walks

The start of a line is a line end and as many units as the depth says, between zero and the deepest
level of the table. A table that clamps has one for every depth, so a walk over such a table goes
through all fragments: its last state does not depend on the table, and its text is put together
fragment by fragment.
-/

namespace Reindent

namespace IndentTable

/-- A line end and the units of a depth, which counts from zero to the deepest level. -/
def lineStart (table : IndentTable) (depth : Int) : List Char :=
  '\n' :: (List.replicate (min depth.toNat table.maxDepth.toNat) table.unit).flatten

/-- With a blank unit, the start of a line is blank. -/
theorem isBlank_of_mem_lineStart {table : IndentTable}
    (hunit : ∀ c ∈ table.unit, Text.isBlank c = true) {depth : Int} {c : Char}
    (hc : c ∈ table.lineStart depth) : Text.isBlank c = true := by
  rw [lineStart, List.mem_cons, List.mem_flatten] at hc
  rcases hc with rfl | ⟨u, hu, hc⟩
  · exact Text.isBlank_newline
  · exact hunit c (List.eq_of_mem_replicate hu ▸ hc)

theorem lineStart_of_nonpos (table : IndentTable) {depth : Int} (h : depth ≤ 0) :
    table.lineStart depth = ['\n'] := by
  rw [lineStart, Int.toNat_of_nonpos h, Nat.zero_min, List.replicate_zero, List.flatten_nil]

theorem getElem?_indentEntriesFrom (unit margin : List Char) (n i : Nat) :
    (indentEntriesFrom unit margin n)[i]? =
      if i ≤ n then some ('\n' :: ((List.replicate i unit).flatten ++ margin)) else none := by
  induction n generalizing margin i with
  | zero =>
    cases i with
    | zero => simp [indentEntriesFrom]
    | succ i => simp [indentEntriesFrom]
  | succ n ih =>
    cases i with
    | zero => simp [indentEntriesFrom]
    | succ i =>
      rw [indentEntriesFrom, List.getElem?_cons_succ, ih]
      simp only [Nat.add_le_add_iff_right]
      -- The unit that the margin has gained is the last one of the repetition.
      rw [← List.append_assoc, List.replicate_succ', List.flatten_append]
      simp

theorem getElem?_entries (table : IndentTable) {i : Nat} (h : i ≤ table.maxDepth.toNat) :
    table.entries[i]? = some ('\n' :: (List.replicate i table.unit).flatten) := by
  rw [table.entries_eq, indentEntries, getElem?_indentEntriesFrom, if_pos h, List.append_nil]

theorem length_entries (table : IndentTable) :
    table.entries.length = table.maxDepth.toNat + 1 := by
  have hlast := getElem?_indentEntriesFrom table.unit [] table.maxDepth.toNat table.maxDepth.toNat
  have hnext :=
    getElem?_indentEntriesFrom table.unit [] table.maxDepth.toNat (table.maxDepth.toNat + 1)
  rw [if_pos (Nat.le_refl _), List.getElem?_eq_some_iff] at hlast
  rw [if_neg (by omega), List.getElem?_eq_none_iff] at hnext
  obtain ⟨hlt, -⟩ := hlast
  rw [table.entries_eq, indentEntries]
  omega

/-- A table refuses a depth exactly where its policy says so, and elsewhere gives the start of the
line. -/
theorem shift_eq (table : IndentTable) (depth : Int) : table.shift depth =
    if table.overflow = .error ∧ 0 ≤ depth ∧
      table.maxDepth < depth then .error ⟨depth, table.maxDepth⟩
    else .ok (table.lineStart depth) := by
  have hentry : ∀ i ≤ table.maxDepth.toNat,
      table.entries.getD i [] = '\n' :: (List.replicate i table.unit).flatten := by
    intro i hi
    rw [List.getD_eq_getElem?_getD, table.getElem?_entries hi, Option.getD_some]
  rw [shift, lineStart]
  by_cases hneg : depth < 0
  · rw [if_pos hneg, if_neg (by omega), List.headD_eq_head?_getD, List.head?_eq_getElem?,
      table.getElem?_entries (Nat.zero_le _)]
    simp [Int.toNat_of_nonpos (Int.le_of_lt hneg)]
  · rw [if_neg hneg]
    by_cases hdeep : table.maxDepth < depth
    · rw [if_pos hdeep]
      cases hpolicy : table.overflow with
      | error => simp [hdeep, Int.not_lt.1 hneg]
      | clamp =>
        rw [if_neg (by simp), List.getLastD_eq_getLast?, List.getLast?_eq_getElem?,
          table.length_entries, Nat.add_sub_cancel, table.getElem?_entries (Nat.le_refl _),
          Nat.min_eq_right (by omega)]
        rfl
    · rw [if_neg hdeep, if_neg (by omega), hentry _ (by omega), Nat.min_eq_left (by omega)]

theorem shift_of_clamp {table : IndentTable} (h : table.overflow = .clamp) (depth : Int) :
    table.shift depth = .ok (table.lineStart depth) := by
  rw [shift_eq, if_neg (by simp [h])]

end IndentTable

/-! ## Walks -/

variable {State Kind Fragment : Type}

/-- A walk over two lists is the walk over the first and, if that one comes to its end, the walk
over the second from the state it has reached. -/
theorem walk_append (table : IndentTable) (move : State → Fragment → Move State Kind)
    (state : State) (fs gs : List Fragment) : walk table move state (fs ++ gs) =
      match walk table move state fs with
      | (last, .error e) => (last, .error e)
      | (last, .ok text) =>
        ((walk table move last gs).1, (walk table move last gs).2.map (text ++ ·)) := by
  induction fs generalizing state with
  | nil =>
    rw [List.nil_append, walk]
    cases h : walk table move state gs with
    | mk last result => cases result <;> simp [h, Except.map]
  | cons f fs ih =>
    rw [List.cons_append, walk, walk]
    cases hemit : (move state f).emit table with
    | error e => rfl
    | ok pieces =>
      simp only [ih]
      cases h : walk table move (move state f).next fs with
      | mk last result =>
        cases result with
        | error e => rfl
        | ok text =>
          cases hrest : walk table move last gs with
          | mk last' result' => cases result' <;> simp [hrest, Except.map]

/-! ## Walks over a table that clamps -/

/-- What a move writes on a table that refuses no depth. -/
def Move.line (table : IndentTable) (m : Move State Kind) : List Char :=
  (m.lineDepth?.map table.lineStart).getD [] ++ m.text

/-- The state after all moves. -/
def stateAfter (move : State → Fragment → Move State Kind) (state : State)
    (fragments : List Fragment) : State :=
  fragments.foldl (fun state fragment => (move state fragment).next) state

/-- What all moves write. -/
def written (table : IndentTable) (move : State → Fragment → Move State Kind) :
    State → List Fragment → List Char
  | _, [] => []
  | state, fragment :: rest =>
    (move state fragment).line table ++ written table move (move state fragment).next rest

@[simp] theorem stateAfter_nil (move : State → Fragment → Move State Kind) (state : State) :
    stateAfter move state [] = state := rfl

@[simp] theorem stateAfter_cons (move : State → Fragment → Move State Kind) (state : State)
    (f : Fragment) (fs : List Fragment) :
    stateAfter move state (f :: fs) = stateAfter move (move state f).next fs := rfl

theorem stateAfter_append (move : State → Fragment → Move State Kind) (state : State)
    (fs gs : List Fragment) :
    stateAfter move state (fs ++ gs) = stateAfter move (stateAfter move state fs) gs := by
  simp [stateAfter]

@[simp] theorem written_nil (table : IndentTable) (move : State → Fragment → Move State Kind)
    (state : State) :
    written table move state [] = [] := rfl

theorem written_cons (table : IndentTable) (move : State → Fragment → Move State Kind)
    (state : State) (f : Fragment) (fs : List Fragment) : written table move state (f :: fs) =
      (move state f).line table ++ written table move (move state f).next fs := rfl

theorem written_append (table : IndentTable) (move : State → Fragment → Move State Kind)
    (state : State) (fs gs : List Fragment) : written table move state (fs ++ gs) =
      written table move state fs ++ written table move (stateAfter move state fs) gs := by
  induction fs generalizing state with
  | nil => rfl
  | cons f fs ih =>
    rw [List.cons_append, written_cons, written_cons, ih, stateAfter_cons, List.append_assoc]

theorem emit_of_clamp {table : IndentTable} (h : table.overflow = .clamp) (m : Move State Kind) :
    ∃ pieces, m.emit table = .ok pieces ∧ pieces.flatten = m.line table := by
  unfold Move.emit emit Move.line
  cases m.lineDepth? with
  | none => exact ⟨[m.text], rfl, by simp⟩
  | some depth =>
    refine ⟨[table.lineStart depth, m.text], ?_, by simp⟩
    simp only [IndentTable.shift_of_clamp h]
    rfl

/-- A walk over a table that clamps makes all moves. -/
theorem walk_of_clamp {table : IndentTable} (h : table.overflow = .clamp)
    (move : State → Fragment → Move State Kind) (state : State) (fragments : List Fragment) :
    walk table move state fragments =
      (stateAfter move state fragments, .ok (written table move state fragments)) := by
  induction fragments generalizing state with
  | nil => rfl
  | cons f fs ih =>
    obtain ⟨pieces, hemit, hline⟩ := emit_of_clamp h (move state f)
    rw [walk, hemit]
    simp only [ih, stateAfter_cons, written_cons, ← hline]
    rfl

theorem walkThrough_of_clamp {table : IndentTable} (h : table.overflow = .clamp)
    (finish : List Char → List Char) (move : State → Fragment → Move State Kind) (state : State)
    (fragments : List Fragment) :
    walkThrough finish table move state fragments =
      (stateAfter move state fragments, .ok (finish (written table move state fragments))) := by
  rw [walkThrough, walk_of_clamp h]
  rfl

/-! ## Steps -/

/-- Each step of a walk is the move from the state after the fragments before it. -/
theorem eq_move_of_getElem?_steps {table : IndentTable} {move : State → Fragment → Move State Kind}
    {state : State} {fs : List Fragment} {i : Nat}
    {step : Move State Kind × Except DepthExceeded (List (List Char))}
    (hstep : (steps table move state fs)[i]? = some step) {f : Fragment} (hf : fs[i]? = some f) :
    step.1 = move (stateAfter move state (fs.take i)) f := by
  induction fs generalizing state i with
  | nil => cases hf
  | cons g fs ih =>
    rw [steps] at hstep
    cases hemit : (move state g).emit table with
    | error e =>
      simp only [hemit] at hstep
      cases i with
      | zero =>
        obtain rfl := Option.some.inj hstep
        obtain rfl := Option.some.inj hf
        rfl
      | succ i => simp at hstep
    | ok pieces =>
      simp only [hemit] at hstep
      cases i with
      | zero =>
        obtain rfl := Option.some.inj hstep
        obtain rfl := Option.some.inj hf
        rfl
      | succ i =>
        rw [List.getElem?_cons_succ] at hstep hf
        exact ih hstep hf

/-- A walk over a table that clamps has a step for every fragment. -/
theorem length_steps_of_clamp {table : IndentTable} (h : table.overflow = .clamp)
    (move : State → Fragment → Move State Kind) (state : State) (fs : List Fragment) :
    (steps table move state fs).length = fs.length := by
  induction fs generalizing state with
  | nil => rfl
  | cons f fs ih =>
    obtain ⟨pieces, hemit, -⟩ := emit_of_clamp h (move state f)
    rw [steps, hemit]
    exact congrArg (· + 1) (ih _)

end Reindent
