import Mathlib
import Reindent.Proofs.Text.Patterns

/-!
# Rewriting from left to right

`Rewrites stays L s t` says that `t` comes from `s` by replacing parts of it in the ways that `L`
allows, from left to right, and by keeping the rest. It is stated for rows of anything, since a
substitution in a text is seen more easily in the row of its tokens. An element that no replacement
holds has been there before (`Rewrites.split`), and elements among which no replacement can start
or no replaced part can end are kept (`Rewrites.keeps`, `Rewrites.keeps_last`).
-/

namespace Reindent.Text

/-! ## What a pattern takes, it finds -/

namespace Pattern

theorem isSome_takeMany {ok : Char → Bool} {next : List Char → Option Nat} {run rest : List Char}
    (hrun : ∀ c ∈ run, ok c = true) (h : (next rest).isSome = true) :
    (takeMany ok next (run ++ rest)).isSome = true := by
  induction run with
  | nil =>
    cases rest with
    | nil => exact h
    | cons c rest =>
      rw [List.nil_append, takeMany]
      split
      · split
        · rfl
        · exact h
      · exact h
  | cons c run ih =>
    obtain ⟨hc, hrun⟩ := List.forall_mem_cons.1 hrun
    obtain ⟨n, hn⟩ := Option.isSome_iff_exists.1 (ih hrun)
    rw [List.cons_append, takeMany, if_pos hc, hn]
    rfl

/-- Where a pattern can take something, it finds something. -/
theorem isSome_span?_of_takes {p : Pattern} {m s : List Char} (h : Takes p m s) :
    (p.span? (m ++ s)).isSome = true := by
  induction h with
  | nil s => rfl
  | one hc _ ih =>
    rw [List.cons_append, span?, if_pos hc, Option.isSome_map]
    exact ih
  | many hrun _ ih =>
    rw [List.append_assoc, span?]
    exact isSome_takeMany hrun ih
  | many1 hrun _ ih =>
    obtain ⟨hc, hrun⟩ := List.forall_mem_cons.1 hrun
    rw [List.append_assoc, List.cons_append, span?, if_pos hc, Option.isSome_map]
    exact isSome_takeMany hrun ih
  | wordEnd hend _ ih =>
    rw [span?, hend]
    exact ih
  | textEnd hend _ ih =>
    rw [span?, hend]
    rw [hend] at ih
    exact ih

end Pattern

/-- A relation between texts holds between a text and the result of a substitution if replaced
occurrences keep it, and characters at which nothing can be taken. -/
theorem Substitution.rel_apply_of_not_takes (r : Substitution) {R : List Char → List Char → Prop}
    (hne : ∀ s, ¬ Takes r.pattern [] s) (nil : R [] [])
    (keep : ∀ c s t, (∀ m rest, c :: s = m ++ rest → ¬ Takes r.pattern m rest) → R s t →
      R (c :: s) (c :: t))
    (replace : ∀ m s t, Takes r.pattern m s → R s t → R (m ++ s) (r.replacement ++ t))
    (text : List Char) :
    R text (r.apply text) := by
  -- An occurrence is passed at once, so the induction is on the length.
  induction hn : text.length using Nat.strong_induction_on generalizing text with
  | _ n ih =>
    subst hn
    cases text with
    | nil => exact nil
    | cons c s =>
      cases hspan : r.pattern.span? (c :: s) with
      | none =>
        have hnone : ∀ m rest, c :: s = m ++ rest → ¬ Takes r.pattern m rest := by
          intro m rest hsplit htakes
          have hsome := Pattern.isSome_span?_of_takes htakes
          rw [← hsplit, hspan] at hsome
          cases hsome
        rw [r.apply_cons_of_not_takes fun m rest hsplit _ => hnone m rest hsplit]
        exact keep c s _ hnone (ih s.length (by simp) s rfl)
      | some k =>
        obtain ⟨m, rest, hsplit, rfl, htakes⟩ := Pattern.takes_of_span? hspan
        have hm : m ≠ [] := by
          rintro rfl
          exact hne rest htakes
        rw [hsplit] at hspan ⊢
        rw [r.apply_append_of_span? hm hspan]
        have hlength : rest.length < (c :: s).length := by
          have hpos := List.length_pos_of_ne_nil hm
          rw [hsplit, List.length_append]
          omega
        exact replace m rest _ htakes (ih rest.length hlength rest rfl)

/-! ## Rows -/

/-- The second row comes from the first one by replacing parts of it as `L` says, from left to
right. Elements are kept where `stays` holds of the row that they start. -/
inductive Rewrites {α : Type} (stays : List α → Prop) (L : List α → List α → Prop) :
    List α → List α → Prop where
  | nil : Rewrites stays L [] []
  | keep {x : α} {s t : List α} (hstays : stays (x :: s)) (h : Rewrites stays L s t) :
      Rewrites stays L (x :: s) (x :: t)
  | replace {m r s t : List α} (hL : L m r) (h : Rewrites stays L s t) :
      Rewrites stays L (m ++ s) (r ++ t)

/-- Rewriting that may keep elements anywhere. -/
abbrev Rewritten {α : Type} (L : List α → List α → Prop) : List α → List α → Prop :=
  Rewrites (fun _ => True) L

namespace Rewrites

variable {α : Type} {stays : List α → Prop} {L : List α → List α → Prop}
  {s t a b c z : List α} {x : α}

/-- An element that no replacement holds has been there before, and its two sides are rewritten
apart. -/
theorem split (hx : ∀ m r, L m r → x ∉ r) (h : Rewrites stays L s (a ++ x :: b)) :
    ∃ a' b', s = a' ++ x :: b' ∧ Rewritten L a' a ∧ Rewrites stays L b' b := by
  generalize ht : a ++ x :: b = t at h
  induction h generalizing a with
  | nil => simp at ht
  | @keep y s t _ h ih =>
    cases a with
    | nil =>
      obtain ⟨rfl, rfl⟩ := List.cons_eq_cons.1 ht
      exact ⟨[], s, rfl, .nil, h⟩
    | cons z a =>
      obtain ⟨rfl, htail⟩ := List.cons_eq_cons.1 ht
      obtain ⟨a', b', rfl, ha, hb⟩ := ih htail
      exact ⟨z :: a', b', rfl, .keep trivial ha, hb⟩
  | @replace m r s t hL h ih =>
    obtain ⟨a', rfl, htail⟩ | ⟨c, rfl, htail⟩ := List.append_eq_append_iff.1 ht
    · cases a' with
      | nil =>
        obtain ⟨a', b', rfl, ha, hb⟩ := ih (a := []) htail
        refine ⟨m ++ a', b', by simp, ?_, hb⟩
        simpa using Rewrites.replace hL ha
      | cons y a' =>
        obtain ⟨rfl, -⟩ := List.cons_eq_cons.1 htail
        exact absurd (by simp) (hx _ _ hL)
    · obtain ⟨a', b', rfl, ha, hb⟩ := ih htail.symm
      exact ⟨m ++ a', b', by simp, .replace hL ha, hb⟩

/-- Elements at which no replacement starts have been there before. -/
theorem keeps (hz : ∀ m r, L m r → ∀ z', z' ≠ [] → z' <:+ z → ¬ r <+: z' ++ c)
    (h : Rewrites stays L s (z ++ c)) :
    ∃ s', s = z ++ s' ∧ Rewrites stays L s' c := by
  induction z generalizing s with
  | nil => exact ⟨s, rfl, h⟩
  | cons x z ih =>
    generalize ht : x :: z ++ c = t at h
    cases h with
    | nil => cases ht
    | keep _ h =>
      obtain ⟨rfl, rfl⟩ := List.cons_eq_cons.1 ht
      obtain ⟨s', rfl, hs'⟩ :=
        ih (fun m r hL z' hne hz' => hz m r hL z' hne (hz'.trans (List.suffix_cons x z))) h
      exact ⟨s', rfl, hs'⟩
    | @replace m r s t hL h =>
      exact absurd ⟨t, ht.symm⟩ (hz m r hL (x :: z) (by simp) List.suffix_rfl)

/-- If all replacements start with one element, what does not hold it has been there before. -/
theorem keeps_of_head? (hr : ∀ m r, L m r → r.head? = some x) (hx : x ∉ z)
    (h : Rewrites stays L s (z ++ c)) :
    ∃ s', s = z ++ s' ∧ Rewrites stays L s' c := by
  refine h.keeps fun m r hL z' hne hz' hstart => hx ?_
  obtain ⟨y, z', rfl⟩ := List.exists_cons_of_ne_nil hne
  obtain ⟨r, rfl⟩ := List.head?_eq_some_iff.1 (hr m r hL)
  obtain ⟨rfl, -⟩ := List.cons_prefix_cons.1 hstart
  exact hz'.subset List.mem_cons_self

theorem nil_right (hr : ∀ m r, L m r → r ≠ []) (h : Rewrites stays L s []) : s = [] := by
  generalize ht : ([] : List α) = t at h
  cases h with
  | nil => rfl
  | keep => cases ht
  | replace hL => exact absurd (List.append_eq_nil_iff.1 ht.symm).1 (hr _ _ hL)

theorem nil_left (hm : ∀ m r, L m r → m ≠ []) (h : Rewrites stays L [] t) : t = [] := by
  generalize hs : ([] : List α) = s at h
  cases h with
  | nil => rfl
  | keep => cases hs
  | replace hL => exact absurd (List.append_eq_nil_iff.1 hs.symm).1 (hm _ _ hL)

/-- Elements at the end among which no replaced part ends are still there. -/
theorem keeps_last (hm : ∀ m r, L m r → m ≠ [])
    (hz : ∀ m r, L m r → ∀ z', z' ≠ [] → z' <+: z → ¬ m <:+ a ++ z')
    (h : Rewrites stays L (a ++ z) t) : ∃ t', t = t' ++ z ∧ Rewritten L a t' := by
  generalize hs : a ++ z = s at h
  induction h generalizing a z with
  | nil =>
    obtain ⟨rfl, rfl⟩ := List.append_eq_nil_iff.1 hs
    exact ⟨[], rfl, .nil⟩
  | @keep x s t _ _ ih =>
    cases a with
    | nil =>
      cases z with
      | nil => cases hs
      | cons y z =>
        obtain ⟨rfl, rfl⟩ := List.cons_eq_cons.1 hs
        obtain ⟨t', rfl, ht'⟩ :=
          ih (a := []) (fun m r hL z' hne hz' hsuffix => hz m r hL (y :: z') (by simp)
          (List.cons_prefix_cons.2 ⟨rfl, hz'⟩) (hsuffix.trans (List.suffix_cons y z'))) rfl
        obtain rfl := nil_left hm ht'
        exact ⟨[], rfl, .nil⟩
    | cons y a =>
      obtain ⟨rfl, rfl⟩ := List.cons_eq_cons.1 hs
      obtain ⟨t', rfl, ht'⟩ := ih (fun m r hL z' hne hz' hsuffix =>
        hz m r hL z' hne hz' (hsuffix.trans (List.suffix_cons y _))) rfl
      exact ⟨y :: t', rfl, .keep trivial ht'⟩
  | @replace m r s t hL _ ih =>
    -- The replaced part ends in front of the elements.
    obtain ⟨a', ha, hs⟩ | ⟨c, hc, hs⟩ := List.append_eq_append_iff.1 hs
    · by_cases hne : a' = []
      · subst hne
        rw [List.append_nil] at ha
        obtain ⟨t', rfl, ht'⟩ := ih (a := []) (fun m' r' hL' z' hne hz' hsuffix =>
          hz m' r' hL' z' hne hz' (hsuffix.trans (List.suffix_append a z'))) hs
        obtain rfl := nil_left hm ht'
        refine ⟨r, rfl, ?_⟩
        rw [← ha]
        simpa using Rewrites.replace hL (.nil : Rewritten L [] [])
      · exact absurd (ha ▸ List.suffix_rfl) (hz m r hL a' hne ⟨s, hs.symm⟩)
    · obtain ⟨t', rfl, ht'⟩ := ih (fun m' r' hL' z' hne hz' hsuffix => hz m' r' hL' z' hne hz' (by
        rw [hc, List.append_assoc]
        exact hsuffix.trans (List.suffix_append m _))) hs.symm
      exact ⟨r ++ t', by simp, hc ▸ .replace hL ht'⟩

/-- The last element is kept, or it is the last one of a replacement. -/
theorem last_cases (hr : ∀ m r, L m r → r ≠ []) (h : Rewrites stays L s (a ++ [x])) :
    (∃ s', s = s' ++ [x]) ∨ ∃ m r, L m r ∧ r.getLast? = some x ∧ m <:+ s := by
  generalize ht : a ++ [x] = t at h
  induction h generalizing a with
  | nil => simp at ht
  | @keep y s t _ h ih =>
    cases a with
    | nil =>
      obtain ⟨rfl, rfl⟩ := List.cons_eq_cons.1 ht
      obtain rfl := nil_right hr h
      exact .inl ⟨[], rfl⟩
    | cons z a =>
      obtain ⟨rfl, htail⟩ := List.cons_eq_cons.1 ht
      obtain ⟨s', rfl⟩ | ⟨m, r, hL, hlast, hsuffix⟩ := ih htail
      · exact .inl ⟨z :: s', rfl⟩
      · exact .inr ⟨m, r, hL, hlast, hsuffix.trans (List.suffix_cons z s)⟩
  | @replace m r s t hL h ih =>
    obtain rfl | ⟨t, y, rfl⟩ := List.eq_nil_or_concat t
    · obtain rfl := nil_right hr h
      rw [List.append_nil] at ht
      exact .inr ⟨m, r, hL, by simp [← ht], by simp⟩
    · rw [List.concat_eq_append, ← List.append_assoc] at ht
      obtain ⟨rfl, hxy⟩ := List.append_inj' ht rfl
      obtain rfl := List.singleton_injective hxy
      obtain ⟨s', rfl⟩ | ⟨m', r', hL', hlast, hsuffix⟩ := ih List.concat_eq_append.symm
      · exact .inl ⟨m ++ s', by simp⟩
      · exact .inr ⟨m', r', hL', hlast, hsuffix.trans (List.suffix_append m s)⟩

/-- The first element is kept, or it is the first one of a replacement. -/
theorem head_cases (hr : ∀ m r, L m r → r ≠ []) (h : Rewrites stays L s (x :: t)) :
    (∃ s', s = x :: s' ∧ Rewrites stays L s' t) ∨ ∃ m r s', L m r ∧ r.head? = some x ∧
    s = m ++ s' := by
  generalize ht : x :: t = t' at h
  cases h with
  | nil => cases ht
  | @keep y s t _ h =>
    obtain ⟨rfl, rfl⟩ := List.cons_eq_cons.1 ht
    exact .inl ⟨s, rfl, h⟩
  | @replace m r s t hL h =>
    obtain ⟨y, r, rfl⟩ := List.exists_cons_of_ne_nil (hr m r hL)
    obtain ⟨rfl, -⟩ := List.cons_eq_cons.1 ht
    exact .inr ⟨m, _, s, hL, rfl, rfl⟩

end Rewrites

end Reindent.Text
