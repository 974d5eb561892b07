import Mathlib
import Reindent.Proofs.Sql.Fragments

/-!
# What is written for fragments

A fragment that is not a literal starts a line, and a select list is broken at its commas. With a
blank unit of indentation this puts blanks between the fragments and behind commas, so it changes
neither the characters that are not blank nor the words outside literals. The same holds of the
lines that are joined at the end.
-/

namespace Reindent.Sql

open Text Marker

section

variable {unit : List Char}

/-! ## Select lists -/

theorem breakColumns_cons (c : Char) (s : List Char) : breakColumns unit (c :: s) =
    (if c = ',' then ',' :: '\n' :: (unit ++ unit) else [c]) ++ breakColumns unit s := rfl

theorem isBlank_of_mem_columnStart (hunit : ∀ c ∈ unit, isBlank c = true) :
    ∀ c ∈ '\n' :: (unit ++ unit), isBlank c = true := by
  intro c hc
  rw [List.mem_cons, List.mem_append, or_self] at hc
  rcases hc with rfl | hc
  · exact isBlank_newline
  · exact hunit c hc

theorem deleteBlanks_breakColumns (hunit : ∀ c ∈ unit, isBlank c = true) (s : List Char) :
    deleteBlanks (breakColumns unit s) = deleteBlanks s := by
  induction s with
  | nil => rfl
  | cons c s ih =>
    rw [breakColumns_cons, deleteBlanks_append, ih, ← List.singleton_append (x := c) (l := s),
      deleteBlanks_append]
    split
    · rename_i hc
      rw [← List.singleton_append (x := ','), deleteBlanks_append,
        deleteBlanks_eq_nil (isBlank_of_mem_columnStart hunit), List.append_nil, hc]
    · rfl

theorem spell_breakColumns (hunit : ∀ c ∈ unit, isBlank c = true) (b : Bool) (s : List Char) :
    spell b (breakColumns unit s) = spell b s := by
  induction s generalizing b with
  | nil => rfl
  | cons c s ih =>
    rw [breakColumns_cons]
    split
    · rename_i hc
      have hcomma : isWord c = false := isWord_eq_false_of_punctuation (by rw [hc]; decide)
      rw [← hc, List.cons_append, spell_cons_of_not_isWord hcomma, spell_cons_of_not_isWord hcomma,
        spell_gap_append (by simp) fun d hd =>
        isWord_of_isBlank (isBlank_of_mem_columnStart hunit d hd), ih]
    · rw [List.singleton_append, spell_cons, spell_cons b c s, ih]

theorem quote_notMem_breakColumns (hunit : ∀ c ∈ unit, isBlank c = true) {s : List Char}
    (h : '\x27' ∉ s) :
    '\x27' ∉ breakColumns unit s := by
  rw [breakColumns, List.mem_flatMap]
  rintro ⟨c, hc, hquote⟩
  split at hquote
  · rcases List.mem_cons.1 hquote with heq | hquote
    · exact absurd heq (by decide)
    · exact ne_quote_of_isBlank (isBlank_of_mem_columnStart hunit _ hquote) rfl
  · rw [List.mem_singleton] at hquote
    exact h (hquote ▸ hc)

theorem deleteBlanks_writtenText (hunit : ∀ c ∈ unit, isBlank c = true) (f : Fragment) :
    deleteBlanks (writtenText unit f) = deleteBlanks f.text := by
  rw [writtenText]
  split
  · exact deleteBlanks_breakColumns hunit f.text
  · rfl

theorem spell_writtenText (hunit : ∀ c ∈ unit, isBlank c = true) (b : Bool) (f : Fragment) :
    spell b (writtenText unit f) = spell b f.text := by
  rw [writtenText]
  split
  · exact spell_breakColumns hunit b f.text
  · rfl

theorem quote_notMem_writtenText (hunit : ∀ c ∈ unit, isBlank c = true) {f : Fragment}
    (h : '\x27' ∉ f.text) :
    '\x27' ∉ writtenText unit f := by
  rw [writtenText]
  split
  · exact quote_notMem_breakColumns hunit h
  · exact h

end

/-! ## Moves -/

theorem classify_eq_literal_iff (f : Fragment) : classify f = .literal ↔
    f.literal = true ∨ '\x27' ∈ f.text := by
  rw [classify]
  split
  · rename_i h
    simpa using h
  · rename_i h
    have h' : ¬ (f.literal = true ∨ '\x27' ∈ f.text) := by simpa using h
    refine iff_of_false ?_ h'
    split <;> simp

theorem writtenText_of_literal {f : Fragment} (h : classify f = .literal) (unit : List Char) :
    writtenText unit f = f.text := by
  simp [writtenText, h]

/-- How a fragment is placed does not depend on whether it may leave a subquery. -/
theorem transition_placement (kind : Kind) (state : State) :
    (transition kind state).placement = (closingTransition kind).placement := by
  rw [transition]
  split <;> rfl

theorem lineDepth?_of_literal {f : Fragment} (h : classify f = .literal) (unit : List Char)
    (state : State) :
    (move unit state f).lineDepth? = none := by
  simp only [move, Transition.lineDepth?, transition_placement, h, closingTransition]

/-- A literal goes on the line that is there. -/
theorem line_of_literal {f : Fragment} (h : classify f = .literal) (table : IndentTable)
    (state : State) :
    (move table.unit state f).line table = f.text := by
  rw [Move.line, lineDepth?_of_literal h]
  exact writtenText_of_literal h table.unit

/-- Any other fragment starts a line. -/
theorem line_of_not_literal {f : Fragment} (h : classify f ≠ .literal) (table : IndentTable)
    (state : State) :
    ∃ depth, (move table.unit state f).line table =
      table.lineStart depth ++ writtenText table.unit f := by
  have hplaced : ∀ t : Transition, t.placement = .indented →
      ∀ depth, ∃ d, t.lineDepth? depth = some d := by
    intro t ht depth
    exact ⟨_, by rw [Transition.lineDepth?, ht]⟩
  have hindented : (closingTransition (classify f)).placement = .indented := by
    cases hkind : classify f with
    | subqueryOpen => rfl
    | literal => exact absurd hkind h
    | clause => rfl
  obtain ⟨depth, hdepth⟩ := hplaced (transition (classify f) (move table.unit state f).held)
    ((transition_placement _ _).trans hindented) state.depth
  refine ⟨depth, ?_⟩
  have hline : (move table.unit state f).lineDepth? = some depth := hdepth
  rw [Move.line, hline]
  rfl

/-! ## Walks -/

/-- What a fragment adds to the words outside literals. -/
def spellFragment (f : Fragment) : List (Option Char) :=
  if f.literal then [] else spell false f.text

section

variable {table : IndentTable}

theorem deleteBlanks_line (hunit : ∀ c ∈ table.unit, isBlank c = true) (state : State)
    (f : Fragment) :
    deleteBlanks ((move table.unit state f).line table) = deleteBlanks f.text := by
  by_cases h : classify f = .literal
  · rw [line_of_literal h]
  · obtain ⟨depth, hline⟩ := line_of_not_literal h table state
    rw [hline, deleteBlanks_append,
      deleteBlanks_eq_nil fun c => IndentTable.isBlank_of_mem_lineStart hunit, List.nil_append,
      deleteBlanks_writtenText hunit]

/-- What is written holds the characters of the fragments. -/
theorem deleteBlanks_written (hunit : ∀ c ∈ table.unit, isBlank c = true) (state : State)
    (fs : List Fragment) :
    deleteBlanks (written table (move table.unit) state fs) =
      fs.flatMap fun f => deleteBlanks f.text := by
  induction fs generalizing state with
  | nil => rfl
  | cons f fs ih =>
    rw [written_cons, deleteBlanks_append, deleteBlanks_line hunit, ih, List.flatMap_cons]

/-- What is written holds the words of the fragments outside literals: in front of a fragment
stands a line end or a quote. -/
theorem spell_blot_written (hunit : ∀ c ∈ table.unit, isBlank c = true) {inside : Bool}
    {fs : List Fragment} (h : Alternating inside fs) (state : State) (b : Bool) :
    spell b (blot inside (written table (move table.unit) state fs)) =
      fs.flatMap spellFragment := by
  induction h generalizing state b with
  | nil inside => rfl
  | @clause text fs hquote h ih =>
    have hkind : classify ⟨text, false⟩ ≠ .literal := by
      rw [Ne, classify_eq_literal_iff]
      simpa using hquote
    obtain ⟨depth, hline⟩ := line_of_not_literal hkind table state
    have hstart : ∀ c ∈ table.lineStart depth, isBlank c = true :=
      fun c => IndentTable.isBlank_of_mem_lineStart hunit
    rw [written_cons, hline, List.append_assoc,
      blot_false_append fun hmem => ne_quote_of_isBlank (hstart _ hmem) rfl,
      spell_gap_append (by simp [IndentTable.lineStart]) fun c hc =>
      isWord_of_isBlank (hstart c hc),
      blot_false_append (quote_notMem_writtenText hunit (by simpa using hquote)), spell_append,
      spell_writtenText hunit, ih, List.flatMap_cons]
    rfl
  | @literal body fs hquote h ih =>
    have hkind : classify ⟨'\x27' :: body, true⟩ = .literal :=
      (classify_eq_literal_iff _).2 (Or.inl rfl)
    rw [written_cons, line_of_literal hkind, List.cons_append, spell_blot_quote, Bool.not_false,
      spell_blot_true_append hquote, ih, List.flatMap_cons]
    rfl
  | @closing body fs hquote h ih =>
    have hkind : classify ⟨'\x27' :: body, false⟩ = .literal :=
      (classify_eq_literal_iff _).2 (Or.inr List.mem_cons_self)
    rw [written_cons, line_of_literal hkind, List.cons_append, spell_blot_quote, Bool.not_true,
      blot_false_append hquote, spell_append, ih, List.flatMap_cons, spellFragment,
      if_neg (by simp),
      spell_cons_of_not_isWord isWord_quote]

end

/-! ## Joining lines -/

theorem joinLines_cons (c : Char) (s : List Char) :
    joinLines (c :: s) = consLine c (joinLines s) := rfl

theorem consLine_eq (c : Char) (s : List Char) :
    consLine c s = c :: s ∨ (c = '\n' ∧ consLine c s = s ∧ ∃ t, s = '\n' :: t) := by
  rw [consLine]
  split
  · rename_i h
    simp only [Bool.and_eq_true, decide_eq_true_eq, beq_iff_eq] at h
    exact Or.inr ⟨h.1, rfl, List.head?_eq_some_iff.1 h.2⟩
  · exact Or.inl rfl

theorem deleteBlanks_joinLines (s : List Char) : deleteBlanks (joinLines s) = deleteBlanks s := by
  induction s with
  | nil => rfl
  | cons c s ih =>
    rw [joinLines_cons]
    rcases consLine_eq c (joinLines s) with heq | ⟨rfl, heq, -⟩
    · rw [heq, ← List.singleton_append (x := c), deleteBlanks_append, ih, ← deleteBlanks_append,
        List.singleton_append]
    · rw [heq, ih, deleteBlanks_newline]

/-- Of two line ends next to each other, one makes no difference to the words. -/
theorem spell_blot_newline (q b : Bool) (s : List Char) :
    spell b (blot q ('\n' :: s)) = spell false (blot q s) := by
  rw [blot_cons (by decide)]
  refine spell_cons_of_not_isWord ?_ b _
  split
  · exact isWord_quote
  · exact isWord_of_isBlank isBlank_newline

theorem spell_blot_joinLines (q b : Bool) (s : List Char) :
    spell b (blot q (joinLines s)) = spell b (blot q s) := by
  induction s generalizing q b with
  | nil => rfl
  | cons c s ih =>
    rw [joinLines_cons]
    rcases consLine_eq c (joinLines s) with heq | ⟨rfl, heq, t, ht⟩
    · rw [heq]
      by_cases hc : c = '\x27'
      · rw [hc, spell_blot_quote, spell_blot_quote, ih]
      · rw [blot_cons hc, blot_cons hc, spell_cons, ih, ← spell_cons]
    · rw [heq, spell_blot_newline, ← ih, ht, spell_blot_newline, spell_blot_newline]

theorem spell_blot_dropWhile (q : Bool) (s : List Char) :
    spell false (blot q (s.dropWhile (· == '\n'))) = spell false (blot q s) := by
  induction s with
  | nil => rfl
  | cons c s ih =>
    rw [List.dropWhile_cons]
    split
    · rename_i hc
      rw [ih, beq_iff_eq.1 hc, spell_blot_newline]
    · rfl

/-- On a table that clamps, a statement with marks is laid out: its fragments are written one after
the other, and the lines are joined. -/
theorem pretty_of_clamp {table : IndentTable} (hclamp : table.overflow = .clamp) {text : List Char}
    (hmarks : MarksAvailable table.unit text) :
    ∃ fs, fragmentsOf table.unit false (quoteSpans text) = .ok fs ∧
      pretty table text =
        .ok (joinLines ((written table (move table.unit) {} fs).dropWhile (· == '\n'))) := by
  obtain ⟨fs, hfs⟩ := exists_fragmentsOf hmarks
  refine ⟨fs, hfs, ?_⟩
  rw [pretty, split, hfs]
  simp only [render, walkThrough_of_clamp hclamp]
  rfl

end Reindent.Sql
