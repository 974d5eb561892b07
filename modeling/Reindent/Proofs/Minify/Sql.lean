import Mathlib
import Reindent.Proofs.Css.Boundaries
import Reindent.Proofs.Minify.Settle

/-!
# Minifying SQL in one reading

The three substitutions for SQL amount to one reading of the text from the left (`tighten`): a run
of blanks is held back until the character behind it is seen. What is written so has nothing left
to change, so the first pass is the last.
-/

namespace Reindent.Minify

open Text

/-- Reads a text behind a run of blanks (`true`) or behind none. -/
def tightenFrom : Bool → List Char → List Char
  | held, [] => if held then [' '] else []
  | held, c :: s =>
    if isBlank c then tightenFrom true s
    else if held && !isParenthesis c then ' ' :: c :: tightenFrom false s
    else c :: tightenFrom false s

/-- The text in which every maximal run of blanks is left out if a parenthesis follows it, and
becomes a single space otherwise, also at the two ends of the text. -/
def tighten (s : List Char) : List Char :=
  tightenFrom false s

section

variable {c : Char} {s : List Char}

theorem tightenFrom_blank (held : Bool) (hc : isBlank c = true) (s : List Char) :
    tightenFrom held (c :: s) = tightenFrom true s := by
  rw [tightenFrom, if_pos hc]

theorem tightenFrom_false_cons (hc : isBlank c = false) (s : List Char) :
    tightenFrom false (c :: s) = c :: tightenFrom false s := by
  rw [tightenFrom, if_neg (by simp [hc]), Bool.false_and, if_neg Bool.false_ne_true]

/-- The character behind a run of blanks decides what becomes of it. -/
theorem tightenFrom_true_cons (hc : isBlank c = false) (s : List Char) :
    tightenFrom true (c :: s) =
      if isParenthesis c then c :: tightenFrom false s else ' ' :: c :: tightenFrom false s := by
  rw [tightenFrom, if_neg (by simp [hc]), Bool.true_and]
  cases isParenthesis c <;> rfl

theorem tightenFrom_tightenFrom (held : Bool) (s : List Char) :
    tightenFrom false (tightenFrom held s) = tightenFrom held s := by
  have hspace : isBlank ' ' = true := by decide
  induction s generalizing held with
  | nil => cases held <;> rfl
  | cons c s ih =>
    by_cases hc : isBlank c = true
    · rw [tightenFrom_blank held hc, ih]
    · rw [Bool.not_eq_true] at hc
      cases held with
      | false => rw [tightenFrom_false_cons hc, tightenFrom_false_cons hc, ih]
      | true =>
        rw [tightenFrom_true_cons hc]
        split
        · rw [tightenFrom_false_cons hc, ih]
        · rename_i hother
          rw [tightenFrom_blank false hspace, tightenFrom_true_cons hc, if_neg hother, ih]

/-! ## Substitutions that close a text up -/

variable {x : Char}

theorem closeUp_cons (hc : isBlank c = false) (s : List Char) :
    (closeUp x).apply (c :: s) = c :: (closeUp x).apply s := by
  refine Substitution.apply_cons_of_not_takes _ fun m rest hm _ htakes => ?_
  obtain ⟨d, run, m, rfl, hrun, -⟩ := takes_blanks1_iff.1 htakes
  have hd := hrun d List.mem_cons_self
  rw [← (List.cons_eq_cons.1 hm).1, hc] at hd
  cases hd

theorem closeUp_space (hx : isBlank x = false) (s : List Char) :
    (closeUp x).apply (' ' :: x :: s) = x :: (closeUp x).apply s := by
  have hspan : (closeUp x).pattern.span? ([' ', x] ++ s) = some [' ', x].length := by
    simp [closeUp, Pattern.span?, Part.blanks1, Part.char, Pattern.takeMany, hx,
      show isBlank ' ' = true by decide]
  exact (closeUp x).apply_append_of_span? (by simp) hspan

/-- A space in front of another character stays. -/
theorem closeUp_space_of_ne (hc : isBlank c = false) (hne : c ≠ x) (s : List Char) :
    (closeUp x).apply (' ' :: c :: s) = ' ' :: c :: (closeUp x).apply s := by
  rw [← closeUp_cons hc]
  refine Substitution.apply_cons_of_not_takes _ fun m rest hm _ htakes => ?_
  obtain ⟨d, run, m, rfl, hrun, htakes⟩ := takes_blanks1_iff.1 htakes
  obtain ⟨m, rfl, -⟩ := takes_char_iff.1 htakes
  rw [List.cons_append, List.cons_eq_cons, List.append_assoc] at hm
  cases run with
  | nil => exact hne (List.cons_eq_cons.1 hm.2).1
  | cons e run =>
    have he := hrun e (by simp)
    rw [← (List.cons_eq_cons.1 hm.2).1, hc] at he
    cases he

/-! ## One pass -/

theorem sqlPass_eq (s : List Char) :
    sqlPass s = (closeUp ')').apply ((closeUp '(').apply (collapse s)) := by
  rw [← Substitution.apply_oneSpace]
  rfl

theorem sqlPass_cons (hc : isBlank c = false) (s : List Char) :
    sqlPass (c :: s) = c :: sqlPass s := by
  rw [sqlPass_eq, collapse_cons, consCollapsed_of_not_isBlank hc, closeUp_cons hc, closeUp_cons hc,
    ← sqlPass_eq]

/-- A space goes by the character behind it. -/
theorem sqlPass_space_cons (hc : isBlank c = false) (s : List Char) :
    sqlPass (' ' :: c :: s) = if isParenthesis c then c :: sqlPass s
    else ' ' :: c :: sqlPass s := by
  have hcollapse : collapse (' ' :: c :: s) = ' ' :: c :: collapse s := by
    rw [collapse_space_cons (by simpa using hc), collapse_cons, consCollapsed_of_not_isBlank hc]
  rw [sqlPass_eq, hcollapse, sqlPass_eq]
  by_cases hopen : c = '('
  · subst hopen
    rw [closeUp_space hc, closeUp_cons hc, if_pos (by decide)]
  · rw [closeUp_space_of_ne hc hopen]
    by_cases hclose : c = ')'
    · subst hclose
      rw [closeUp_space hc, if_pos (by decide)]
    · rw [closeUp_space_of_ne hc hclose, if_neg (by simp [isParenthesis, hopen, hclose])]

/-- A pass writes what the reading writes, also behind a run of blanks, which counts as one
space. -/
theorem sqlPass_eq_tightenFrom (s : List Char) :
    sqlPass s = tightenFrom false s ∧ sqlPass (' ' :: s) = tightenFrom true s := by
  have hspace : isBlank ' ' = true := by decide
  induction s with
  | nil => exact ⟨rfl, rfl⟩
  | cons c s ih =>
    by_cases hc : isBlank c = true
    · have hrun : sqlPass (c :: s) = sqlPass (' ' :: s) := by
        rw [sqlPass_eq, collapse_blank hc, ← sqlPass_eq]
      have hrun' : sqlPass (' ' :: c :: s) = sqlPass (' ' :: s) := by
        rw [sqlPass_eq, (collapse_blank_blank hspace hc s).1, ← sqlPass_eq]
      rw [hrun, hrun', tightenFrom_blank false hc, tightenFrom_blank true hc]
      exact ⟨ih.2, ih.2⟩
    · rw [Bool.not_eq_true] at hc
      rw [sqlPass_cons hc, sqlPass_space_cons hc, tightenFrom_false_cons hc,
        tightenFrom_true_cons hc, ih.1]
      exact ⟨rfl, rfl⟩

end

/-- Minified SQL is read off the text in one go. One pass of the substitutions gives it, and
another one changes nothing. -/
theorem sql_eq_tighten (s : List Char) :
    sql s = tighten s ∧ sqlPass s = tighten s ∧ sqlPass (sqlPass s) = sqlPass s := by
  have hpass : ∀ t, sqlPass t = tighten t := fun t => (sqlPass_eq_tightenFrom t).1
  have hagain : sqlPass (tighten s) = tighten s :=
    (hpass _).trans (tightenFrom_tightenFrom false s)
  exact ⟨settle_eq_of_pass (hpass s) hagain, hpass s, by rw [hpass s, hagain]⟩

example : sql "\t f  ( (a\n) ) b ".toList = " f((a)) b ".toList := by decide

end Reindent.Minify
