import Mathlib
import Reindent.Proofs.Minify.Thinning
import Reindent.Proofs.Text.Blanks
import Reindent.Proofs.Xml.Gaps

/-!
# Minifying keeps everything but blanks

As long as comments are kept, every step of every minifier thins blanks out and does nothing else:
the substitutions of the tables, dropping the blanks between tags, and stripping the two ends. So
does the loop, and what is not blank is the same before and after.
-/

namespace Reindent.Minify

open Text

/-! ## Thinned texts -/

namespace Thins

variable {s t : List Char}

theorem length_le (h : Thins s t) : t.length ≤ s.length := by
  induction h with
  | nil => exact Nat.le_refl _
  | keep _ _ ih => exact Nat.succ_le_succ ih
  | drop _ _ ih => exact Nat.le_succ_of_le ih
  | space _ _ ih => exact Nat.succ_le_succ ih

theorem deleteBlanks_eq (h : Thins s t) : deleteBlanks t = deleteBlanks s := by
  have hblank : ∀ {c : Char} (s : List Char), isBlank c = true →
      deleteBlanks (c :: s) = deleteBlanks s :=
    fun s hc => List.filter_cons_of_neg (by simp [hc])
  induction h with
  | nil => rfl
  | @keep c s t _ ih =>
    calc deleteBlanks (c :: t)
      _ = deleteBlanks [c] ++ deleteBlanks t := deleteBlanks_append [c] t
      _ = deleteBlanks [c] ++ deleteBlanks s := by rw [ih]
      _ = deleteBlanks (c :: s) := (deleteBlanks_append [c] s).symm
  | drop hc _ ih => rw [ih, hblank _ hc]
  | space hc _ ih => rw [hblank _ (by decide), ih, hblank _ hc]

end Thins

/-! ## Steps that thin a text out -/

theorem thins_applyAll {rs : List Substitution} (h : ∀ r ∈ rs, Trims r.pattern r.replacement)
    (s : List Char) :
    Thins s (Substitution.applyAll rs s) := by
  induction rs generalizing s with
  | nil => exact .refl s
  | cons r rs ih =>
    have hfirst := thins_apply (h r List.mem_cons_self) s
    exact hfirst.trans (ih (fun q hq => h q (List.mem_cons_of_mem r hq)) (r.apply s))

theorem trims_betweenTags : Trims Xml.betweenTags.pattern Xml.betweenTags.replacement :=
  .char _ (.blanks (.char _ .nil))

theorem thins_closeGaps (s : List Char) : Thins s (Xml.closeGaps s) := by
  rw [Xml.closeGaps_eq_apply]
  exact thins_apply trims_betweenTags s

/-- What is stripped off the two ends are blanks. -/
theorem exists_strip_eq (s : List Char) : ∃ front back, s = front ++ (strip s ++ back) ∧
    (∀ c ∈ front, isBlank c = true) ∧ ∀ c ∈ back, isBlank c = true := by
  let rest := s.dropWhile isBlank
  refine ⟨s.takeWhile isBlank, (rest.reverse.takeWhile isBlank).reverse, ?_,
    fun c hc => List.mem_takeWhile_imp hc, fun c hc =>
    List.mem_takeWhile_imp (List.mem_reverse.1 hc)⟩
  have hback : strip s ++ (rest.reverse.takeWhile isBlank).reverse = rest := by
    rw [strip, ← List.reverse_append, List.takeWhile_append_dropWhile, List.reverse_reverse]
  rw [hback, List.takeWhile_append_dropWhile]

theorem thins_strip (s : List Char) : Thins s (strip s) := by
  obtain ⟨front, back, hs, hfront, hback⟩ := exists_strip_eq s
  have hend : Thins back [] := by simpa using Thins.dropRun hback .nil
  have hthins := Thins.dropRun hfront ((Thins.refl (strip s)).append hend)
  rwa [← hs, List.append_nil] at hthins

/-! ## Minifiers -/

/-- A relation that a pass keeps to, the loop keeps to. -/
theorem rel_settle {R : List Char → List Char → Prop} {pass : List Char → List Char}
    (refl : ∀ s, R s s) (trans : ∀ s t u, R s t → R t u → R s u) (hpass : ∀ s, R s (pass s))
    (s : List Char) :
    R s (settle pass s) := by
  rw [settle]
  induction weight s + 1 generalizing s with
  | zero => exact refl s
  | succ fuel ih =>
    rw [settleWithin]
    split
    · exact refl s
    · exact trans _ _ _ (hpass s) (ih (pass s))

/-- Whether the minifier leaves comments in; JSON and SQL texts have none that it would know. -/
def Minifier.keepsComments : Minifier → Bool
  | .xml preserve => preserve
  | .css preserve => preserve
  | .json => true
  | .sql => true

theorem thins_pass {m : Minifier} (hm : m.keepsComments = true) (s : List Char) :
    Thins s (m.pass s) := by
  cases m with
  | xml preserve =>
    obtain rfl : preserve = true := hm
    exact thins_closeGaps s
  | css preserve =>
    obtain rfl : preserve = true := hm
    exact (thins_applyAll trims_cssRules s).trans (thins_strip _)
  | json => exact thins_applyAll trims_jsonRules s
  | sql => exact thins_applyAll trims_sqlRules s

theorem thins_minify {m : Minifier} (hm : m.keepsComments = true) (s : List Char) :
    Thins s (m.minify s) := by
  rw [m.minify_eq_settle]
  exact rel_settle Thins.refl (fun _ _ _ => Thins.trans) (thins_pass hm) s

/-- A minifier that keeps comments makes no text longer and leaves every character that is no blank
in its place. -/
theorem deleteBlanks_minify (m : Minifier) (hm : m.keepsComments = true) (s : List Char) :
    (m.minify s).length ≤ s.length ∧ deleteBlanks (m.minify s) = deleteBlanks s :=
  ⟨(thins_minify hm s).length_le, (thins_minify hm s).deleteBlanks_eq⟩

/-- Blanks inside a comment and around its delimiters are among those that go. -/
theorem deleteBlanks_minify_comment :
    let s := "/*\t b  */ a \x7b c ;\n\x7d ".toList
    Minifier.keepsComments (.css true) = true ∧
    Minifier.minify (.css true) s = "/*b */a \x7bc ;\x7d".toList ∧
      (Minifier.minify (.css true) s).length ≤ s.length ∧
      deleteBlanks (Minifier.minify (.css true) s) = deleteBlanks s := by
  intro s
  have hm : Minifier.keepsComments (.css true) = true := rfl
  have hminify : Minifier.minify (.css true) s = "/*b */a \x7bc ;\x7d".toList := by decide
  exact ⟨hm, hminify, deleteBlanks_minify (.css true) hm s⟩

end Reindent.Minify
