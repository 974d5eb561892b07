import Mathlib
import Reindent.Proofs.Minify.Settle
import Reindent.Proofs.Xml.Gaps
import Reindent.Xml.Walk

/-!
# Fragments of minified XML

Closing the gaps between tags leaves no gaps to close (`closeGaps_closeGaps`), so a minifier that
keeps the comments is done after one pass, and its result is what the fragments of the text are cut
from. Minified XML therefore has the fragments of the text itself, and two texts with the same
fragments are the same text once minified.
-/

namespace Reindent.Xml

open Text Minify

/-! ## Closing gaps twice -/

theorem closeGaps_dropWhile (s : List Char) :
    closeGaps (s.dropWhile isBlank) = (closeGaps s).dropWhile isBlank := by
  induction s with
  | nil => rfl
  | cons c s ih =>
    by_cases hc : isBlank c = true
    · have hne : c ≠ '>' := by
        rintro rfl
        exact absurd hc (by decide)
      rw [List.dropWhile_cons_of_pos hc, closeGaps_cons_of_ne hne,
        List.dropWhile_cons_of_pos hc, ih]
    · -- A character that is no blank stays in front, whatever is dropped behind it.
      rw [List.dropWhile_cons_of_neg hc]
      obtain heq | ⟨rfl, r, heq, -⟩ := closeGaps_cons_cases c s
      · rw [heq, List.dropWhile_cons_of_neg hc]
      · rw [heq, List.dropWhile_cons_of_neg hc]

/-- Where gaps are closed, there are none. -/
theorem closeGaps_closeGaps (s : List Char) : closeGaps (closeGaps s) = closeGaps s := by
  induction s with
  | nil => rfl
  | cons c s ih =>
    by_cases hc : c = '>'
    · subst hc
      have hhead : (((closeGaps s).dropWhile isBlank).dropWhile isBlank).head? =
          (s.dropWhile isBlank).head? := by
        rw [List.dropWhile_idempotent, head?_dropWhile_closeGaps]
      rw [closeGaps_close]
      by_cases hopen : (s.dropWhile isBlank).head? = some '<'
      · rw [if_pos hopen, closeGaps_close, hhead, if_pos hopen, closeGaps_dropWhile, ih,
          List.dropWhile_idempotent]
      · rw [if_neg hopen, closeGaps_close, head?_dropWhile_closeGaps, if_neg hopen, ih]
    · rw [closeGaps_cons_of_ne hc, closeGaps_cons_of_ne hc, ih]

/-! ## Minifying -/

/-- A minifier that keeps the comments closes the gaps, and is done. -/
theorem minify_eq_closeGaps (text : List Char) : Minify.xml true text = closeGaps text :=
  settle_eq_of_pass rfl (closeGaps_closeGaps text)

theorem split_minify (text : List Char) : split (Minify.xml true text) = split text := by
  rw [split, split, minify_eq_closeGaps, closeGaps_closeGaps]

/-- The fragments of a text, one behind the other, are the minified text. -/
theorem flatten_split (text : List Char) : (split text).flatten = Minify.xml true text := by
  rw [split, flatten_cutBefore, minify_eq_closeGaps]

/-- A minifier that keeps the comments makes one substitution, and it makes two texts equal exactly
if they have the same fragments. So minified XML has the fragments of the text, and the same layout
on every table: the same text, or the same failure. -/
theorem pretty_minify (table : IndentTable) (text : List Char) :
    Minify.xml true text = betweenTags.apply text ∧
    (∀ other, Minify.xml true other = Minify.xml true text ↔ split other = split text) ∧
    split (Minify.xml true text) = split text ∧
    pretty table (Minify.xml true text) = pretty table text := by
  refine ⟨?_, fun other => ⟨fun h => ?_, fun h => ?_⟩, split_minify text, ?_⟩
  · rw [minify_eq_closeGaps, closeGaps_eq_apply]
  · rw [← split_minify other, h, split_minify]
  · rw [← flatten_split, ← flatten_split, h]
  · rw [pretty, pretty, split_minify]

end Reindent.Xml
