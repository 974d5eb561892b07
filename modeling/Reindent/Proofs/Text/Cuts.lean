import Mathlib
import Reindent.Text.Cut

/-!
# Cutting texts

The pieces of a text that is split or cut are never none, a piece without boundaries stays whole,
and a text occurs in another one if it is a run of it.
-/

namespace Reindent.Text

/-! ## Pieces -/

theorem consFirst_append (c : Char) {ps : List (List Char)} (h : ps ≠ []) (qs : List (List Char)) :
    consFirst c (ps ++ qs) = consFirst c ps ++ qs := by
  cases ps with
  | nil => exact absurd rfl h
  | cons p ps => rfl

theorem consFirst_ne_nil (c : Char) (ps : List (List Char)) : consFirst c ps ≠ [] := by
  cases ps <;> simp [consFirst]

theorem cutBefore_ne_nil (starts : List Char → Bool) (s : List Char) :
    cutBefore starts s ≠ [] := by
  cases s with
  | nil => simp [cutBefore]
  | cons c s =>
    rw [cutBefore]
    split
    · simp
    · exact consFirst_ne_nil c _

/-- A text without boundaries goes to the first piece of what follows it. -/
theorem cutBefore_append {starts : List Char → Bool} {s t p : List Char} {ps : List (List Char)}
    (hs : ∀ r, r ≠ [] → r <:+ s → starts (r ++ t) = false) (ht : cutBefore starts t = p :: ps) :
    cutBefore starts (s ++ t) = (s ++ p) :: ps := by
  induction s with
  | nil => exact ht
  | cons c s ih =>
    rw [List.cons_append, cutBefore, if_neg (by simpa using hs (c :: s) (by simp) List.suffix_rfl),
      ih fun r hr hsuffix => hs r hr (hsuffix.trans (List.suffix_cons c s)), consFirst,
      List.cons_append]

theorem flatten_consFirst (c : Char) (ps : List (List Char)) :
    (consFirst c ps).flatten = c :: ps.flatten := by
  cases ps <;> simp [consFirst]

/-- Cutting loses nothing. -/
theorem flatten_cutBefore (starts : List Char → Bool) (s : List Char) :
    (cutBefore starts s).flatten = s := by
  induction s with
  | nil => rfl
  | cons c s ih =>
    rw [cutBefore]
    split
    · rw [List.flatten_cons, List.nil_append, flatten_consFirst, ih]
    · rw [flatten_consFirst, ih]

theorem prefix_of_cutBefore {starts : List Char → Bool} {s p : List Char} {ps : List (List Char)}
    (h : cutBefore starts s = p :: ps) : p <+: s := by
  have hflat := flatten_cutBefore starts s
  rw [h, List.flatten_cons] at hflat
  exact ⟨ps.flatten, hflat⟩

/-- A text that is followed by a boundary, or by nothing, is cut as it is by itself. -/
theorem cutBefore_append_boundary {starts : List Char → Bool} {s t : List Char}
    (hs : ∀ r, r ≠ [] → r <:+ s → starts (r ++ t) = starts r) (ht : t = [] ∨ starts t = true) :
    cutBefore starts (s ++ t) = cutBefore starts s ++ (cutBefore starts t).tail := by
  induction s with
  | nil =>
    rcases ht with rfl | ht
    · rfl
    · cases t with
      | nil => rfl
      | cons c t =>
        have hcut : cutBefore starts (c :: t) = [] :: consFirst c (cutBefore starts t) := by
          rw [cutBefore, if_pos ht]
        rw [List.nil_append, hcut]
        rfl
  | cons c s ih =>
    have hstarts : starts (c :: (s ++ t)) = starts (c :: s) :=
      hs (c :: s) (by simp) List.suffix_rfl
    have hrest := ih fun r hr hsuffix => hs r hr (hsuffix.trans (List.suffix_cons c s))
    rw [List.cons_append, cutBefore, cutBefore, hstarts, hrest,
      consFirst_append c (cutBefore_ne_nil starts s)]
    split
    · rfl
    · rfl

/-- The first piece of a text with a boundary in it ends in front of the boundary. -/
theorem cutBefore_eq_cons_of_boundary {starts : List Char → Bool} {s t r : List Char}
    (hne : r ≠ []) (hr : r <:+ s) (hstarts : starts (r ++ t) = true) :
    ∃ p ps, cutBefore starts (s ++ t) = p :: ps ∧ p <+: s := by
  induction s with
  | nil => exact absurd (List.suffix_nil.1 hr) hne
  | cons c s ih =>
    rw [List.cons_append, cutBefore]
    by_cases hc : starts (c :: (s ++ t)) = true
    · rw [if_pos hc]
      exact ⟨[], _, rfl, List.nil_prefix⟩
    · rw [if_neg hc]
      rcases List.suffix_cons_iff.1 hr with rfl | hr
      · exact absurd hstarts hc
      · obtain ⟨p, ps, hps, hprefix⟩ := ih hr
        rw [hps]
        exact ⟨c :: p, ps, rfl, List.cons_prefix_cons.2 ⟨rfl, hprefix⟩⟩

/-- A text without boundaries goes to the last piece of what stands in front of it. -/
theorem exists_cutBefore_append {starts : List Char → Bool} {s t : List Char}
    (hs : ∀ r, r ≠ [] → r <:+ s → starts (r ++ t) = starts r)
    (ht : ∀ r, r <:+ t → starts r = false) :
    ∃ ps p, cutBefore starts s = ps ++ [p] ∧ cutBefore starts (s ++ t) = ps ++ [p ++ t] := by
  induction s with
  | nil =>
    have hwhole : cutBefore starts (t ++ []) = [t ++ []] :=
      cutBefore_append (fun r _ hr => by simpa using ht r hr) rfl
    exact ⟨[], [], rfl, by simpa using hwhole⟩
  | cons c s ih =>
    have hstarts : starts (c :: (s ++ t)) = starts (c :: s) :=
      hs (c :: s) (by simp) List.suffix_rfl
    obtain ⟨ps, p, hleft, hright⟩ :=
      ih fun r hr hsuffix => hs r hr (hsuffix.trans (List.suffix_cons c s))
    obtain ⟨qs, q, hfirst, hfirst'⟩ : ∃ qs q, consFirst c (ps ++ [p]) = qs ++ [q] ∧
        consFirst c (ps ++ [p ++ t]) = qs ++ [q ++ t] := by
      cases ps with
      | nil => exact ⟨[], c :: p, rfl, rfl⟩
      | cons u us => exact ⟨(c :: u) :: us, p, rfl, rfl⟩
    rw [List.cons_append, cutBefore, cutBefore, hstarts, hleft, hright, hfirst, hfirst']
    split
    · exact ⟨[] :: qs, q, rfl, rfl⟩
    · exact ⟨qs, q, rfl, rfl⟩

theorem splitOn_nil (mark : Char) : splitOn mark [] = [[]] := rfl

theorem splitOn_cons (mark c : Char) (s : List Char) : splitOn mark (c :: s) =
    if c = mark then [] :: splitOn mark s else consFirst c (splitOn mark s) := rfl

theorem splitOn_ne_nil (mark : Char) (s : List Char) : splitOn mark s ≠ [] := by
  cases s with
  | nil => simp [splitOn_nil]
  | cons c s =>
    rw [splitOn_cons]
    split
    · simp
    · exact consFirst_ne_nil c _

theorem mem_of_mem_splitOn {mark c : Char} {s p : List Char} (hp : p ∈ splitOn mark s)
    (hc : c ∈ p) : c ∈ s := by
  induction s generalizing p with
  | nil =>
    rw [splitOn_nil, List.mem_singleton] at hp
    exact absurd hc (by simp [hp])
  | cons d s ih =>
    rw [splitOn_cons] at hp
    split at hp
    · rcases List.mem_cons.1 hp with rfl | hp
      · cases hc
      · exact List.mem_cons_of_mem _ (ih hp hc)
    · obtain ⟨q, qs, hsplit⟩ := List.exists_cons_of_ne_nil (splitOn_ne_nil mark s)
      rw [hsplit] at hp ih
      rcases List.mem_cons.1 hp with rfl | hp
      · rcases List.mem_cons.1 hc with rfl | hc
        · exact List.mem_cons_self
        · exact List.mem_cons_of_mem _ (ih List.mem_cons_self hc)
      · exact List.mem_cons_of_mem _ (ih (List.mem_cons_of_mem _ hp) hc)

theorem notMem_of_mem_splitOn {mark : Char} {s p : List Char} (hp : p ∈ splitOn mark s) :
    mark ∉ p := by
  induction s generalizing p with
  | nil =>
    rw [splitOn_nil, List.mem_singleton] at hp
    simp [hp]
  | cons d s ih =>
    rw [splitOn_cons] at hp
    split at hp
    · rcases List.mem_cons.1 hp with rfl | hp
      · exact List.not_mem_nil
      · exact ih hp
    · rename_i hd
      obtain ⟨q, qs, hsplit⟩ := List.exists_cons_of_ne_nil (splitOn_ne_nil mark s)
      rw [hsplit] at hp ih
      rcases List.mem_cons.1 hp with rfl | hp
      · exact List.not_mem_cons_of_ne_of_not_mem (Ne.symm hd) (ih List.mem_cons_self)
      · exact ih (List.mem_cons_of_mem _ hp)

/-- The pieces with the separator between them are the text. -/
theorem intercalate_splitOn (mark : Char) (s : List Char) :
    [mark].intercalate (splitOn mark s) = s := by
  induction s with
  | nil => rfl
  | cons d s ih =>
    obtain ⟨q, qs, hsplit⟩ := List.exists_cons_of_ne_nil (splitOn_ne_nil mark s)
    rw [splitOn_cons]
    split
    · rename_i hd
      rw [hsplit] at ih
      simpa [hsplit, hd] using ih
    · rw [hsplit] at ih ⊢
      cases qs with
      | nil => simpa [consFirst] using ih
      | cons r rs => simpa [consFirst] using ih

/-- Two pieces in a row stand in the text with a mark between them, the first one behind a mark or
at the start. -/
theorem exists_of_infix_splitOn {mark : Char} {s p q : List Char}
    (h : [p, q] <:+: splitOn mark s) :
    ∃ x y, s = x ++ (p ++ mark :: (q ++ y)) ∧ (x = [] ∨ ∃ x', x = x' ++ [mark]) := by
  obtain ⟨before, after, h⟩ := h
  rw [← intercalate_splitOn mark s, ← h]
  clear h
  induction before with
  | nil =>
    cases after with
    | nil => exact ⟨[], [], by simp, .inl rfl⟩
    | cons f fs => exact ⟨[], mark :: [mark].intercalate (f :: fs), by simp, .inl rfl⟩
  | cons f before ih =>
    obtain ⟨x, y, hxy, hx⟩ := ih
    obtain ⟨g, gs, hgs⟩ := List.exists_cons_of_ne_nil (l := before ++ [p, q] ++ after) (by simp)
    refine ⟨f ++ mark :: x, y, ?_, ?_⟩
    · rw [List.cons_append, List.cons_append, hgs, List.intercalate_cons_cons, ← hgs, hxy]
      simp
    · rcases hx with rfl | ⟨x, rfl⟩
      · exact .inr ⟨f, rfl⟩
      · exact .inr ⟨f ++ mark :: x, by simp⟩

/-! ## Occurrences -/

theorem occurs_iff {part s : List Char} : occurs part s = true ↔ part <:+: s := by
  induction s with
  | nil => rw [occurs, List.isEmpty_iff, List.infix_nil]
  | cons c s ih =>
    rw [occurs, Bool.or_eq_true, List.isPrefixOf_iff_prefix, ih, List.infix_cons_iff]

theorem occurs_eq_false_iff {part s : List Char} : occurs part s = false ↔ ¬ part <:+: s := by
  rw [← occurs_iff, Bool.not_eq_true]

/-- A text without a character that follows ends in front of it. -/
theorem prefix_of_prefix_append_cons {part s t : List Char} {c : Char} (h : part <+: s ++ c :: t)
    (hc : c ∉ part) :
    part <+: s := by
  rcases List.prefix_or_prefix_of_prefix h (List.prefix_append s (c :: t)) with hpart | ⟨u, rfl⟩
  · exact hpart
  · cases u with
    | nil => rw [List.append_nil]
    | cons d u =>
      rw [List.prefix_append_right_inj, List.cons_prefix_cons] at h
      exact absurd (by simp [h.1]) hc

/-- A text without a certain character occurs before it or behind it. -/
theorem infix_append_cons {part s t : List Char} {c : Char} (hc : c ∉ part) :
    part <:+: s ++ c :: t ↔ part <:+: s ∨ part <:+: t := by
  constructor
  · intro h
    induction s with
    | nil =>
      rw [List.nil_append, List.infix_cons_iff] at h
      rcases h with h | h
      · exact Or.inl (prefix_of_prefix_append_cons (s := []) h hc).isInfix
      · exact Or.inr h
    | cons d s ih =>
      rw [List.cons_append, List.infix_cons_iff] at h
      rcases h with h | h
      · exact Or.inl (prefix_of_prefix_append_cons (s := d :: s) h hc).isInfix
      · exact (ih h).imp_left (List.infix_cons ·)
  · rintro (h | h)
    · exact h.trans (List.prefix_append s (c :: t)).isInfix
    · exact h.trans ((List.suffix_cons c t).trans (List.suffix_append s (c :: t))).isInfix

/-- A text that ends in a character occurs where that character stands. -/
theorem infix_append_singleton {part s t : List Char} {c : Char} (hs : c ∉ s) (ht : c ∉ t) :
    part ++ [c] <:+: s ++ c :: t ↔ part <:+ s := by
  constructor
  · rintro ⟨u, v, h⟩
    rw [List.append_assoc, List.append_assoc, List.singleton_append, ← List.append_assoc] at h
    obtain ⟨rfl, -, -⟩ := (List.append_cons_inj_of_notMem hs ht).1 h.symm
    exact List.suffix_append u part
  · rintro ⟨u, rfl⟩
    exact ⟨u, t, by simp⟩

end Reindent.Text
