import Mathlib
import Reindent.Proofs.Text.Blanks
import Reindent.Proofs.Text.Cuts
import Reindent.Proofs.Text.Words
import Reindent.Sql.Split

/-!
# Quotes and literals

A position of a statement is inside a literal if an odd number of quotes stands before it.
`quoteTags` gives every character this flag, and `blot` writes a quote over all that is inside. The
spans of a statement, in turn, are cut in front of its quotes: the first one has no quote, and
every other one has a quote in front and no more.
-/

namespace Reindent.Sql

open Text

/-- Every character with whether it is inside a literal; `inside` says whether one is open before
the text. -/
def quoteTags : Bool → List Char → List (Bool × Char)
  | _, [] => []
  | inside, c :: s => (inside, c) :: quoteTags (if c = '\x27' then !inside else inside) s

/-- The text with quotes in the place of all that is inside literals. -/
def blot (inside : Bool) (s : List Char) : List Char :=
  (quoteTags inside s).map fun x => if x.1 then '\x27' else x.2

/-- The words of a statement outside its literals. -/
def wordsOutside (s : List Char) : List (List Char) :=
  words (blot false s)

theorem quoteTags_quote (q : Bool) (s : List Char) :
    quoteTags q ('\x27' :: s) = (q, '\x27') :: quoteTags (!q) s := by
  simp [quoteTags]

theorem quoteTags_cons {c : Char} (hc : c ≠ '\x27') (q : Bool) (s : List Char) :
    quoteTags q (c :: s) = (q, c) :: quoteTags q s := by
  simp [quoteTags, hc]

theorem quoteTags_append {a : List Char} (ha : '\x27' ∉ a) (q : Bool) (s : List Char) :
    quoteTags q (a ++ s) = a.map (Prod.mk q) ++ quoteTags q s := by
  induction a with
  | nil => rfl
  | cons c a ih =>
    rw [List.mem_cons, not_or] at ha
    rw [List.cons_append, quoteTags_cons (Ne.symm ha.1), ih ha.2, List.map_cons, List.cons_append]

theorem blot_quote (q : Bool) (s : List Char) : blot q ('\x27' :: s) = '\x27' :: blot (!q) s := by
  simp [blot, quoteTags_quote]

theorem blot_false_append {a : List Char} (ha : '\x27' ∉ a) (s : List Char) :
    blot false (a ++ s) = a ++ blot false s := by
  simp [blot, quoteTags_append ha, Function.comp_def]

theorem blot_cons {c : Char} (hc : c ≠ '\x27') (q : Bool) (s : List Char) :
    blot q (c :: s) = (if q then '\x27' else c) :: blot q s := by
  simp [blot, quoteTags_cons hc]

theorem isWord_quote : isWord '\x27' = false :=
  isWord_eq_false_of_punctuation (by decide)

theorem isBlank_quote : isBlank '\x27' = false := by
  decide

theorem spell_blot_quote (b q : Bool) (s : List Char) :
    spell b (blot q ('\x27' :: s)) = spell false (blot (!q) s) := by
  rw [blot_quote, spell_cons_of_not_isWord isWord_quote]

/-- The inside of a literal spells nothing. -/
theorem spell_blot_true_append {a : List Char} (ha : '\x27' ∉ a) (s : List Char) :
    spell false (blot true (a ++ s)) = spell false (blot true s) := by
  induction a with
  | nil => rfl
  | cons c a ih =>
    rw [List.mem_cons, not_or] at ha
    rw [List.cons_append, blot_cons (Ne.symm ha.1), if_pos rfl,
      spell_cons_of_not_isWord isWord_quote, ih ha.2]

/-! ## Collapsing blanks -/

theorem ne_quote_of_isBlank {c : Char} (h : isBlank c = true) : c ≠ '\x27' := by
  rintro rfl
  rw [isBlank_quote] at h
  exact Bool.false_ne_true h

/-- Collapsing the blanks of a statement changes nothing but blanks, inside literals and
outside. -/
theorem filter_quoteTags_collapse (q : Bool) (s : List Char) :
    (quoteTags q (collapse s)).filter (fun x => !isBlank x.2) =
      (quoteTags q s).filter fun x => !isBlank x.2 := by
  induction s generalizing q with
  | nil => rfl
  | cons c s ih =>
    rw [collapse_cons]
    by_cases hc : isBlank c = true
    · have hspace : isBlank ' ' = true := by decide
      have hskip : ∀ {d : Char} {t : List Char}, isBlank d = true →
          (quoteTags q (d :: t)).filter (fun x => !isBlank x.2) =
            (quoteTags q t).filter fun x => !isBlank x.2 := by
        intro d t hd
        rw [quoteTags_cons (ne_quote_of_isBlank hd), List.filter_cons_of_neg (by simp [hd])]
      rw [consCollapsed_of_isBlank hc, hskip hc, ← ih]
      split
      · rfl
      · exact hskip hspace
    · have hc' : isBlank c = false := by simpa using hc
      rw [consCollapsed_of_not_isBlank hc', quoteTags, quoteTags,
        List.filter_cons_of_pos (by simp [hc']), List.filter_cons_of_pos (by simp [hc']), ih]

/-! ## Spans -/

/-- A span that starts with a quote and has no other. -/
def QuoteSpan (s : List Char) : Prop :=
  ∃ body, s = '\x27' :: body ∧ '\x27' ∉ body

theorem startsQuote_cons (c : Char) (s : List Char) : startsQuote (c :: s) = true ↔
    c = '\x27' := by
  simp [startsQuote]

/-- The spans of a text: together they are the text, and the quotes stand in front of all but the
first. -/
theorem cutBefore_startsQuote (s : List Char) :
    ∃ first rest, cutBefore startsQuote s = first :: rest ∧
    '\x27' ∉ first ∧ (∀ r ∈ rest, QuoteSpan r) ∧ first ++ rest.flatten = s := by
  induction s with
  | nil => exact ⟨[], [], rfl, by simp, by simp, rfl⟩
  | cons c s ih =>
    obtain ⟨first, rest, hcut, hfirst, hrest, hjoin⟩ := ih
    rw [cutBefore, hcut, consFirst]
    by_cases hc : c = '\x27'
    · rw [if_pos ((startsQuote_cons c s).2 hc)]
      refine ⟨[], (c :: first) :: rest, rfl, by simp, ?_, by simp [hjoin]⟩
      intro r hr
      rcases List.mem_cons.1 hr with rfl | hr
      · exact ⟨first, by rw [hc], hfirst⟩
      · exact hrest r hr
    · rw [if_neg fun h => hc ((startsQuote_cons c s).1 h)]
      exact ⟨c :: first, rest, rfl, by simp [hfirst, Ne.symm hc], hrest, by simp [hjoin]⟩

/-- A quote starts a new span. -/
theorem cutBefore_append_quote (a b : List Char) : cutBefore startsQuote (a ++ '\x27' :: b) =
    cutBefore startsQuote a ++ consFirst '\x27' (cutBefore startsQuote b) := by
  induction a with
  | nil => simp [cutBefore, startsQuote]
  | cons c a ih =>
    rw [List.cons_append, cutBefore, cutBefore, ih, consFirst_append c (cutBefore_ne_nil _ a)]
    simp only [startsQuote_cons]
    split
    · rfl
    · rfl

theorem cutBefore_of_notMem {s : List Char} (h : '\x27' ∉ s) : cutBefore startsQuote s = [s] := by
  obtain ⟨first, rest, hcut, -, hrest, hjoin⟩ := cutBefore_startsQuote s
  cases rest with
  | nil => rw [hcut, ← hjoin, List.flatten_nil, List.append_nil]
  | cons r rest =>
    obtain ⟨body, rfl, -⟩ := hrest r (by simp)
    rw [← hjoin] at h
    simp at h

end Reindent.Sql
