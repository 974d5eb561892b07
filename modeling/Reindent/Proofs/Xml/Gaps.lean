import Mathlib
import Reindent.Proofs.Text.Patterns
import Reindent.Proofs.Xml.Fragments

/-!
# Blanks between tags

Dropping the blanks between a `>` and the next `<` is a substitution (`closeGaps_eq_apply`). It
brings no two characters together but a `>` and a `<`, so a text that occurs afterwards and has no
such pair has occurred before.
-/

namespace Reindent.Xml

open Text

/-- Replaces a `>`, the blanks behind it and a `<` by the two brackets. -/
def betweenTags : Substitution :=
  ⟨[.char '>', .blanks, .char '<'], ['>', '<']⟩

/-! ## Closing gaps character by character -/

section

variable {s t : List Char} {c : Char}

theorem closeGaps_cons_of_ne (hc : c ≠ '>') (s : List Char) :
    closeGaps (c :: s) = c :: closeGaps s :=
  closeGaps_append (s := [c]) (by simpa using Ne.symm hc) s

/-- The first character that is no blank stays the first one. -/
theorem head?_dropWhile_closeGaps (s : List Char) :
    ((closeGaps s).dropWhile isBlank).head? = (s.dropWhile isBlank).head? := by
  induction s with
  | nil => rfl
  | cons c s ih =>
    by_cases hc : c = '>'
    · rw [hc, closeGaps_cons]
      unfold consTight
      rw [if_pos rfl]
      split
      · rfl
      · rfl
    · rw [closeGaps_cons_of_ne hc, List.dropWhile_cons, List.dropWhile_cons]
      split
      · exact ih
      · rfl

/-- Behind a `>` blanks are dropped if a `<` follows them. -/
theorem closeGaps_close (s : List Char) : closeGaps ('>' :: s) =
    '>' :: if (s.dropWhile isBlank).head? = some '<' then (closeGaps s).dropWhile isBlank
    else closeGaps s := by
  rw [closeGaps_cons, ← head?_dropWhile_closeGaps]
  unfold consTight
  rw [if_pos rfl]
  split
  · rename_i hr
    rw [hr, List.head?_cons, if_pos rfl]
  · rename_i hr
    rw [if_neg]
    intro hhead
    obtain ⟨r, hr'⟩ := List.head?_eq_some_iff.1 hhead
    exact hr r hr'

/-- The two sides of a character that is neither blank nor a `<` are closed apart. -/
theorem closeGaps_append_cons (hblank : isBlank c = false) (hlt : c ≠ '<') (s t : List Char) :
    closeGaps (s ++ c :: t) = closeGaps s ++ closeGaps (c :: t) := by
  induction s with
  | nil => rfl
  | cons d s ih =>
    rw [List.cons_append]
    by_cases hd : d = '>'
    · have hfirst : ((s ++ c :: t).dropWhile isBlank).head? = some '<' ↔
          (s.dropWhile isBlank).head? = some '<' := by
        rw [List.dropWhile_append, List.dropWhile_cons_of_neg (by simp [hblank])]
        cases s.dropWhile isBlank with
        | nil => simpa using hlt
        | cons e r => simp
      rw [hd, closeGaps_close, closeGaps_close, ih]
      simp only [hfirst]
      split
      · rename_i hopen
        rw [← head?_dropWhile_closeGaps] at hopen
        obtain ⟨r, hr⟩ := List.head?_eq_some_iff.1 hopen
        rw [List.dropWhile_append, hr]
        rfl
      · rfl
    · rw [closeGaps_cons_of_ne hd, closeGaps_cons_of_ne hd, ih, List.cons_append]

/-! ## Gaps as occurrences -/

theorem betweenTags_gap {gap : List Char} (hgap : ∀ c ∈ gap, isBlank c = true) (s : List Char) :
    betweenTags.apply ('>' :: (gap ++ '<' :: s)) = '>' :: '<' :: betweenTags.apply s := by
  have hspan := Pattern.span?_char_blanks_char (x := '>') (y := '<') hgap (by decide) s
  have happly := betweenTags.apply_append_of_span? (m := '>' :: (gap ++ ['<'])) (s := s) (by simp)
    (by simpa [betweenTags] using hspan)
  simpa [betweenTags] using happly

theorem betweenTags_cons (h : c = '>' → (s.dropWhile isBlank).head? ≠ some '<') :
    betweenTags.apply (c :: s) = c :: betweenTags.apply s := by
  refine betweenTags.apply_cons_of_not_takes fun m rest hm _ htakes => ?_
  rw [betweenTags, takes_char_iff] at htakes
  obtain ⟨m, rfl, htakes⟩ := htakes
  obtain ⟨run, m, rfl, hrun, htakes⟩ := takes_blanks_iff.1 htakes
  obtain ⟨m, rfl, -⟩ := takes_char_iff.1 htakes
  rw [List.cons_append, List.cons_eq_cons, List.append_assoc] at hm
  refine h hm.1 ?_
  rw [hm.2, List.dropWhile_append_of_pos hrun, List.cons_append, List.dropWhile_cons,
    if_neg (by decide), List.head?_cons]

/-- Closing the gaps is a substitution. -/
theorem closeGaps_eq_apply (s : List Char) : closeGaps s = betweenTags.apply s := by
  -- A gap is passed at once, so the induction is on the length.
  induction hn : s.length using Nat.strong_induction_on generalizing s with
  | _ n ih =>
    subst hn
    cases s with
    | nil => rfl
    | cons c s =>
      have htail := ih s.length (by simp) s rfl
      by_cases hc : c = '>'
      · by_cases hopen : (s.dropWhile isBlank).head? = some '<'
        · obtain ⟨r, hr⟩ := List.head?_eq_some_iff.1 hopen
          have hgap : ∀ c ∈ s.takeWhile isBlank, isBlank c = true :=
            fun c hc => List.mem_takeWhile_imp hc
          have hsplit : s = s.takeWhile isBlank ++ '<' :: r := by
            rw [← hr, List.takeWhile_append_dropWhile]
          have hlength : r.length < (c :: s).length := by
            rw [hsplit, List.length_cons, List.length_append, List.length_cons]
            omega
          rw [hc, hsplit, closeGaps_gap hgap, betweenTags_gap hgap,
            closeGaps_cons_of_ne (by decide), ih r.length hlength r rfl]
        · rw [betweenTags_cons fun _ => hopen, hc, closeGaps_close, if_neg hopen, htail]
      · rw [betweenTags_cons fun h => absurd h hc, closeGaps_cons_of_ne hc, htail]

/-! ## What occurs -/

/-- The rest of a text with its gaps closed is the end of one. -/
theorem closeGaps_cons_cases (c : Char) (s : List Char) : closeGaps (c :: s) = c :: closeGaps s ∨
    c = '>' ∧ ∃ r, closeGaps (c :: s) = '>' :: '<' :: r ∧ '<' :: r <:+ closeGaps s := by
  by_cases hc : c = '>'
  · rw [hc, closeGaps_close]
    split
    · rename_i hopen
      rw [← head?_dropWhile_closeGaps] at hopen
      obtain ⟨r, hr⟩ := List.head?_eq_some_iff.1 hopen
      exact Or.inr ⟨rfl, r, by rw [hr], hr ▸ List.dropWhile_suffix isBlank⟩
    · exact Or.inl rfl
  · exact Or.inl (closeGaps_cons_of_ne hc s)

theorem prefix_of_prefix_closeGaps {part : List Char}
    (hpart : ¬ ['>', '<'] <:+: part) (h : part <+: closeGaps s) :
    part <+: s := by
  induction s generalizing part with
  | nil => exact h
  | cons c s ih =>
    cases part with
    | nil => exact List.nil_prefix
    | cons d part =>
      have hrest : ¬ ['>', '<'] <:+: part := fun hinner => hpart (List.infix_cons hinner)
      rcases closeGaps_cons_cases c s with heq | ⟨rfl, r, heq, -⟩
      · rw [heq, List.cons_prefix_cons] at h
        exact List.cons_prefix_cons.2 ⟨h.1, ih hrest h.2⟩
      · rw [heq, List.cons_prefix_cons] at h
        obtain ⟨rfl, h⟩ := h
        cases part with
        | nil => exact List.cons_prefix_cons.2 ⟨rfl, List.nil_prefix⟩
        | cons e part =>
          obtain ⟨rfl, -⟩ := List.cons_prefix_cons.1 h
          exact absurd ⟨[], part, rfl⟩ hpart

/-- What occurs once the gaps are closed has occurred before, unless it reaches across a gap. -/
theorem infix_of_infix_closeGaps {part : List Char}
    (hpart : ¬ ['>', '<'] <:+: part) (h : part <:+: closeGaps s) :
    part <:+: s := by
  induction s with
  | nil => exact h
  | cons c s ih =>
    rcases closeGaps_cons_cases c s with heq | ⟨-, r, heq, hr⟩
    · rw [heq, List.infix_cons_iff, ← heq] at h
      rcases h with h | h
      · exact (prefix_of_prefix_closeGaps hpart h).isInfix
      · exact List.infix_cons (ih h)
    · rw [heq, List.infix_cons_iff, ← heq] at h
      rcases h with h | h
      · exact (prefix_of_prefix_closeGaps hpart h).isInfix
      · exact List.infix_cons (ih (h.trans hr.isInfix))

end

end Reindent.Xml
