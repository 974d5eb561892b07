import Mathlib
import Reindent.Proofs.Sql.Written

/-!
# The words of a statement

Laying out a statement keeps its words outside literals, one by one and letter by letter, with one
exception: the rule for `SELECT` drops the blanks before the keyword, also where they part it from
another word. The words are kept exactly when no such occurrence is left for that rule in any span
outside literals.
-/

set_option maxRecDepth 2000

namespace Reindent.Sql

open Text Marker

/-! ## Words of spans -/

/-- Behind its first span, the words of a statement are those of its spans outside literals. -/
theorem spell_blot_flatten {spans : List (List Char)} (hspans : ∀ r ∈ spans, QuoteSpan r)
    (lit b : Bool) :
    spell b (blot (!lit) spans.flatten) = (unquoted lit spans).flatMap (spell false) := by
  induction spans generalizing lit b with
  | nil => cases lit <;> rfl
  | cons span rest ih =>
    obtain ⟨body, rfl, hbody⟩ := hspans span List.mem_cons_self
    have ih' := ih fun r hr => hspans r (List.mem_cons_of_mem _ hr)
    rw [List.flatten_cons, List.cons_append, spell_blot_quote]
    cases lit with
    | true =>
      rw [Bool.not_true, Bool.not_false, spell_blot_true_append hbody, unquoted, ← ih' false false,
        Bool.not_false]
    | false =>
      rw [Bool.not_false, Bool.not_true, blot_false_append hbody, spell_append, unquoted,
        List.flatMap_cons, spell_cons_of_not_isWord isWord_quote, ← ih' true (endsWord false body),
        Bool.not_true]

/-- The words of a statement outside its literals are those of its spans outside literals. -/
theorem spell_blot_collapse (text : List Char) :
    spell false (blot false (collapse text)) =
      (unquoted false (quoteSpans text)).flatMap (spell false) := by
  obtain ⟨first, rest, hcut, hfirst, hrest, hjoin⟩ := cutBefore_startsQuote (collapse text)
  rw [quoteSpans, hcut, unquoted, List.flatMap_cons, ← hjoin, blot_false_append hfirst,
    spell_append, ← spell_blot_flatten hrest true (endsWord false first), Bool.not_true]

/-! ## Words of fragments -/

/-- How many occurrences of `SELECT` in a span are joined to the word before them. -/
def joins (tab span : List Char) : Nat :=
  ((pick? (span ++ tab)).map fun mark => (selects tab mark span).countP joinsWords).getD 0

theorem joins_eq_zero_iff {tab span : List Char} : joins tab span = 0 ↔
    ∀ mark ∈ pick? (span ++ tab), ∀ o ∈ selects tab mark span, joinsWords o = false := by
  rw [joins]
  cases pick? (span ++ tab) with
  | none => simp
  | some mark => simp [List.countP_eq_zero]

theorem flatMap_spellFragment_clauses (ps : List (List Char)) :
    (ps.map (Fragment.mk · false)).flatMap spellFragment = ps.flatMap (spell false) := by
  rw [List.flatMap_map]
  rfl

/-- The words of the fragments are those of the spans outside literals, but for one word less for
every occurrence of `SELECT` that is joined to another word. -/
theorem spellFragment_fragmentsOf {tab : List Char} (htab : ∀ c ∈ tab, isBlank c = true)
    {lit : Bool} {spans : List (List Char)} {fs : List Fragment}
    (h : fragmentsOf tab lit spans = .ok fs) :
    (((unquoted lit spans).map (joins tab)).sum = 0 →
      fs.flatMap spellFragment = (unquoted lit spans).flatMap (spell false)) ∧
    (fs.flatMap spellFragment).count none + ((unquoted lit spans).map (joins tab)).sum =
      ((unquoted lit spans).flatMap (spell false)).count none := by
  refine fragmentsOf_induct (P := fun lit spans fs =>
    (((unquoted lit spans).map (joins tab)).sum = 0 →
      fs.flatMap spellFragment = (unquoted lit spans).flatMap (spell false)) ∧
    (fs.flatMap spellFragment).count none + ((unquoted lit spans).map (joins tab)).sum =
      ((unquoted lit spans).flatMap (spell false)).count none) ?_ ?_ ?_ h
  · intro lit
    cases lit <;> exact ⟨fun _ => rfl, rfl⟩
  · intro span rest fs ih
    rw [List.flatMap_cons, spellFragment, if_pos rfl, List.nil_append, unquoted]
    exact ih
  · intro span rest fs mark hmark ih
    have hm := (pick?_eq_some hmark).1
    have hjoins : joins tab span = (selects tab mark span).countP joinsWords := by
      rw [joins, hmark, Option.map_some, Option.getD_some]
    obtain ⟨hkept, hcount⟩ := spell_applyRules hm htab span
    rw [List.flatMap_append, flatMap_spellFragment_clauses, splitClausesWith,
      flatMap_spell_splitOn hm.isWord_eq_false, unquoted, List.map_cons, List.sum_cons, hjoins,
      List.flatMap_cons,
      List.count_append, List.count_append]
    refine ⟨fun hzero => ?_, by omega⟩
    rw [hkept (by omega), ih.1 (by omega)]

/-! ## Words of statements -/

theorem exists_pretty_spell {table : IndentTable} (hclamp : table.overflow = .clamp)
    (hunit : ∀ c ∈ table.unit, isBlank c = true) {text : List Char}
    (hmarks : MarksAvailable table.unit text) :
    ∃ out fs, pretty table text = .ok out ∧
    fragmentsOf table.unit false (quoteSpans text) = .ok fs ∧
      spell false (blot false out) = fs.flatMap spellFragment := by
  obtain ⟨fs, hfs, hpretty⟩ := pretty_of_clamp hclamp hmarks
  refine ⟨_, fs, hpretty, hfs, ?_⟩
  rw [spell_blot_joinLines, spell_blot_dropWhile]
  exact spell_blot_written hunit (alternating_split hunit hfs) {} false

/-- On a table that clamps and has a blank unit, every statement that leaves marks is laid out, and
the words outside its literals are the same before and after exactly if no occurrence of `SELECT`
that is replaced in one of its spans has a word before it with only blanks between. -/
theorem sameWords_pretty_iff (table : IndentTable) (hclamp : table.overflow = .clamp)
    (hunit : ∀ c ∈ table.unit, isBlank c = true) (text : List Char)
    (hmarks : MarksAvailable table.unit text) :
    ∃ out, pretty table text = .ok out ∧
      (SameWords (wordsOutside (collapse text)) (wordsOutside out) ↔
        ∀ span ∈ unquoted false (quoteSpans text), ∀ mark ∈ pick? (span ++ table.unit),
          ∀ o ∈ selects table.unit mark span, joinsWords o = false) := by
  obtain ⟨out, fs, hpretty, hfs, hspell⟩ := exists_pretty_spell hclamp hunit hmarks
  refine ⟨out, hpretty, ?_⟩
  obtain ⟨hkept, hcount⟩ := spellFragment_fragmentsOf hunit hfs
  have hnone : ((unquoted false (quoteSpans text)).map (joins table.unit)).sum = 0 ↔
      ∀ span ∈ unquoted false (quoteSpans text), ∀ mark ∈ pick? (span ++ table.unit),
        ∀ o ∈ selects table.unit mark span, joinsWords o = false := by
    rw [List.sum_eq_zero_iff, List.forall_mem_map]
    exact forall₂_congr fun span _ => joins_eq_zero_iff
  rw [← hnone, wordsOutside, wordsOutside, sameWords_iff, spell_blot_collapse, hspell]
  constructor
  · intro hsame
    rw [hsame] at hcount
    omega
  · intro hzero
    exact (hkept hzero).symm

theorem sameWords_pretty_subquery :
    let text := "select a, b from (select c from t) where d = 'x select y'".toList
    MarksAvailable IndentTable.default.unit text ∧ ∃ out, pretty .default text = .ok out ∧
      SameWords (wordsOutside (collapse text)) (wordsOutside out) := by
  intro text
  have hmarks : MarksAvailable IndentTable.default.unit text := by decide
  have hunit : ∀ c ∈ IndentTable.default.unit, isBlank c = true := List.all_eq_true.1 (by decide)
  have hjoins : ∀ span ∈ unquoted false (quoteSpans text),
      joins IndentTable.default.unit span = 0 := by
    decide
  obtain ⟨out, hpretty, hiff⟩ := sameWords_pretty_iff .default rfl hunit text hmarks
  exact ⟨hmarks, out, hpretty, hiff.2 fun span hspan => joins_eq_zero_iff.1 (hjoins span hspan)⟩

/-- The second query of a union is joined to the `ALL` before it. -/
theorem pretty_joins_select :
    let text := "SELECT a FROM t UNION ALL SELECT b FROM u".toList
    IndentTable.default.overflow = .clamp ∧ (∀ c ∈ IndentTable.default.unit, isBlank c = true) ∧
      MarksAvailable IndentTable.default.unit text ∧ ∃ out, pretty .default text = .ok out ∧
        ¬ SameWords (wordsOutside (collapse text)) (wordsOutside out) := by
  refine ⟨rfl, List.all_eq_true.1 (by decide), by decide, ?_⟩
  have hpretty : (pretty .default "SELECT a FROM t UNION ALL SELECT b FROM u".toList).toOption =
      some "SELECT a\nFROM t\nUNION\nALLSELECT b\nFROM u".toList := by
    decide
  cases hresult : pretty .default "SELECT a FROM t UNION ALL SELECT b FROM u".toList with
  | error e =>
    rw [hresult] at hpretty
    cases hpretty
  | ok out =>
    rw [hresult] at hpretty
    obtain rfl := Option.some.inj hpretty
    exact ⟨_, rfl, by decide⟩

end Reindent.Sql
