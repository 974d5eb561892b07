import Mathlib
import Reindent.Proofs.Css.Boundaries
import Reindent.Proofs.Ink

/-!
# Braces and depth

The walker looks at a fragment once and moves the depth by at most one, so it counts braces rightly
only because of the form that fragments have: every brace has a mark behind it and a closing one
also a mark in front (`Fenced`), and the rule that joins marks leaves one in each of these places.
So a fragment has one brace at most, and in a known place (`Braced`), and the depth is the balance
of the braces that were read.
-/

namespace Reindent.Css

open Text

/-! ## Fragments -/

/-- Fragments that have no brace, are a closing brace, or have an opening brace at their end and no
other. -/
inductive Braced : List Char → Prop where
  | plain {f : List Char} (hopen : '\x7b' ∉ f) (hclose : '\x7d' ∉ f) : Braced f
  | closing : Braced ['\x7d']
  | opening {body : List Char} (hopen : '\x7b' ∉ body) (hclose : '\x7d' ∉ body) :
      Braced (body ++ ['\x7b'])

/-- The number of braces that a text opens, less the number that it closes. -/
def balance (s : List Char) : Int :=
  (s.count '\x7b' : Int) - (s.count '\x7d' : Int)

theorem balance_append (s t : List Char) : balance (s ++ t) = balance s + balance t := by
  simp only [balance, List.count_append]
  omega

theorem balance_deleteBlanks (s : List Char) : balance (deleteBlanks s) = balance s := by
  rw [balance, deleteBlanks, List.count_filter (by decide), List.count_filter (by decide), balance]

theorem Braced.cons {c : Char} {f : List Char} (hopen : c ≠ '\x7b') (hclose : c ≠ '\x7d')
    (hf : Braced f) (hnot : '\x7d' ∉ f) : Braced (c :: f) := by
  cases hf with
  | plain hopen' hclose' =>
    exact .plain (by simp [hopen.symm, hopen']) (by simp [hclose.symm, hclose'])
  | closing => exact absurd List.mem_cons_self hnot
  | opening hopen' hclose' =>
    rw [← List.cons_append]
    exact .opening (by simp [hopen.symm, hopen']) (by simp [hclose.symm, hclose'])

/-! ## Marks around braces -/

/-- Behind the character `previous`, every brace of a text has a mark behind it, and every closing
one also a mark in front. -/
def Fenced (mark : Char) : Char → List Char → Prop
  | _, [] => True
  | previous, c :: s =>
    (c = '\x7b' ∨ c = '\x7d' → s.head? = some mark) ∧ (c = '\x7d' → previous = mark) ∧
      Fenced mark c s

section

variable {mark : Char} (hm : Marker.IsCandidate mark)

include hm

theorem fenced_mark {s : List Char} (h : Fenced mark mark s) (previous : Char) :
    Fenced mark previous (mark :: s) := by
  have hopen := hm.ne_of_toNat (c := '\x7b') (by decide) (by decide)
  have hclose := hm.ne_of_toNat (c := '\x7d') (by decide) (by decide)
  exact ⟨by simp [hopen.symm, hclose.symm], by simp [hclose.symm], h⟩

/-- The rules put marks around all braces. -/
theorem fenced_breakUp (s : List Char) (p previous : Char) :
    Fenced mark previous (breakUp mark (some p) s) := by
  induction s generalizing p previous with
  | nil => trivial
  | cons c s ih =>
    have hrest : Fenced mark c ((if breaksAfter (some p) c s then [mark] else []) ++
        breakUp mark (some c) s) := by
      split
      · exact fenced_mark hm (ih c mark) c
      · exact ih c c
    have hline : ∀ q, (c = '\x7d' → q = mark) → Fenced mark q
        (c :: ((if breaksAfter (some p) c s then [mark] else []) ++ breakUp mark (some c) s)) := by
      refine fun q hq => ⟨fun hc => ?_, hq, hrest⟩
      have hbreak : breaksAfter (some p) c s = true := by rcases hc with rfl | rfl <;> rfl
      rw [if_pos hbreak]
      rfl
    rw [breakUp, Option.isSome_some, Bool.true_and]
    split
    · exact fenced_mark hm (hline mark fun _ => rfl) previous
    · rename_i hbefore
      refine hline previous fun hc => absurd ?_ hbefore
      rw [hc]
      rfl

/-- Joining marks leaves a mark where there was one. -/
theorem fenced_joinMarks {s : List Char} {previous : Char} (h : Fenced mark previous s) :
    Fenced mark previous ((joinMarks mark).apply s) := by
  refine ((joinMarks mark).rel_apply (R := fun s t => t.head? = s.head? ∧
    ∀ previous, Fenced mark previous s → Fenced mark previous t)
    ⟨rfl, fun _ _ => trivial⟩ ?_ ?_ s).2 previous h
  · rintro c s t ⟨hhead, hfenced⟩
    refine ⟨rfl, ?_⟩
    rintro previous ⟨hbehind, hfront, hrest⟩
    exact ⟨fun hc => hhead.trans (hbehind hc), hfront, hfenced c hrest⟩
  · rintro m s t htakes ⟨-, hfenced⟩
    rw [joinMarks, takes_char_iff] at htakes
    obtain ⟨m, rfl, hrest⟩ := htakes
    obtain ⟨run, m, rfl, -, hlast⟩ := takes_blanks_iff.1 hrest
    obtain ⟨m, rfl, hend⟩ := takes_char_iff.1 hlast
    obtain rfl := takes_nil_iff.1 hend
    have htail : ∀ (run : List Char) (previous : Char), Fenced mark previous (run ++ mark :: s) →
        Fenced mark mark s := by
      intro run
      induction run with
      | nil => exact fun _ h => h.2.2
      | cons d run ih => exact fun _ h => ih d h.2.2
    refine ⟨rfl, fun previous h => fenced_mark hm (hfenced mark ?_) previous⟩
    rw [List.cons_append, List.append_assoc] at h
    exact htail run mark h.2.2

omit hm in
/-- The pieces between marks have the form of fragments. A closing brace is found in the first
piece only if that one starts behind a mark. -/
theorem braced_splitOn {s : List Char} {previous : Char} (h : Fenced mark previous s) : ∃ p ps,
    splitOn mark s = p :: ps ∧ Braced p ∧ (previous ≠ mark → '\x7d' ∉ p) ∧ ∀ q ∈ ps, Braced q := by
  have hempty : Braced [] := .plain (by simp) (by simp)
  induction s generalizing previous with
  | nil => exact ⟨[], [], rfl, hempty, by simp, by simp⟩
  | cons c s ih =>
    obtain ⟨hbehind, hfront, hrest⟩ := h
    obtain ⟨p, ps, hsplit, hp, hnot, hps⟩ := ih hrest
    rw [splitOn_cons, hsplit]
    split
    · exact ⟨[], p :: ps, rfl, hempty, by simp, List.forall_mem_cons.2 ⟨hp, hps⟩⟩
    · rename_i hc
      refine ⟨c :: p, ps, rfl, ?_⟩
      -- Behind a brace there is a mark, so that the brace is alone or the last character of its
      -- piece.
      have hend : c = '\x7b' ∨ c = '\x7d' → p = [] := by
        intro hbrace
        obtain ⟨t, rfl⟩ := List.head?_eq_some_iff.1 (hbehind hbrace)
        rw [splitOn_cons, if_pos rfl] at hsplit
        exact (List.cons_eq_cons.1 hsplit).1.symm
      by_cases hopen : c = '\x7b'
      · obtain rfl := hend (.inl hopen)
        subst hopen
        have halone : Braced ([] ++ ['\x7b']) := .opening (by simp) (by simp)
        exact ⟨halone, by simp, hps⟩
      · by_cases hclose : c = '\x7d'
        · obtain rfl := hend (.inr hclose)
          subst hclose
          exact ⟨.closing, fun hne => absurd (hfront rfl) hne, hps⟩
        · exact ⟨hp.cons hopen hclose (hnot hc), fun _ => by simp [Ne.symm hclose, hnot hc], hps⟩

/-- All fragments of a text have their form. -/
theorem braced_of_mem_splitWith {text f : List Char} (hf : f ∈ splitWith mark text) :
    Braced f := by
  rw [splitWith, applyAll_splitRules hm] at hf
  obtain ⟨p, ps, hsplit, hp, -, hps⟩ :=
    braced_splitOn (fenced_joinMarks hm (fenced_breakUp hm (collapse text) ' ' mark))
  rw [hsplit] at hf
  exact List.forall_mem_cons.2 ⟨hp, hps⟩ f hf

end

/-! ## Walks -/

/-- A step moves the depth by the balance of its fragment. -/
theorem next_depth {f : List Char} (hf : Braced f) (state : State) :
    (move state f).next.depth = state.depth + balance f := by
  have hnext : (move state f).next.depth = (transition (classify f)).depthAfter state.depth := rfl
  rw [hnext]
  cases hf with
  | plain hopen hclose =>
    have hkind : classify f = .declaration := by simp [classify, hopen, hclose]
    rw [hkind, balance, List.count_eq_zero.2 hopen, List.count_eq_zero.2 hclose]
    simp [transition, Transition.depthAfter, DepthChange.before, DepthChange.after]
  | closing =>
    have hkind : classify ['\x7d'] = .blockClose := by decide
    rw [hkind]
    simp [transition, Transition.depthAfter, DepthChange.before, DepthChange.after, balance]
  | @opening body hopen hclose =>
    have hkind : classify (body ++ ['\x7b']) = .blockOpen := by simp [classify]
    rw [hkind, balance_append, balance, List.count_eq_zero.2 hopen, List.count_eq_zero.2 hclose]
    simp [transition, Transition.depthAfter, DepthChange.before, DepthChange.after, balance]

theorem depth_stateAfter {fs : List (List Char)} (hfs : ∀ f ∈ fs, Braced f) (state : State) :
    (stateAfter move state fs).depth = state.depth + balance fs.flatten := by
  induction fs generalizing state with
  | nil => simp [balance]
  | cons f fs ih =>
    rw [stateAfter_cons, ih (fun g hg => hfs g (List.mem_cons_of_mem f hg)),
      next_depth (hfs f List.mem_cons_self), List.flatten_cons, balance_append, Int.add_assoc]

/-- On a table that clamps, a text that leaves a mark has fragments of one form, with one brace at
most. Behind each of them, the depth is the balance of the braces in the fragments so far, and
behind the last one it is the balance of the text. -/
theorem depth_render_eq_balance (table : IndentTable) (hclamp : table.overflow = .clamp)
    (text : List Char) (hmark : (Marker.pick? text).isSome = true) :
    ∃ fs, split text = .ok fs ∧ (∀ f ∈ fs, Braced f) ∧
      (∀ before, before <+: fs → (render table {} before).1.depth = balance before.flatten) ∧
      (render table {} fs).1.depth = balance text := by
  obtain ⟨mark, hpick⟩ := Option.isSome_iff_exists.1 hmark
  obtain ⟨hm, hfree⟩ := Marker.pick?_eq_some hpick
  have hbraced : ∀ f ∈ splitWith mark text, Braced f := fun f hf => braced_of_mem_splitWith hm hf
  have hdepth : ∀ before, before <+: splitWith mark text →
      (render table {} before).1.depth = balance before.flatten := by
    intro before hbefore
    rw [render, walkThrough_of_clamp hclamp]
    exact (depth_stateAfter (fun f hf => hbraced f (hbefore.subset hf)) {}).trans (Int.zero_add _)
  refine ⟨splitWith mark text, by rw [split, hpick], hbraced, hdepth, ?_⟩
  rw [hdepth _ List.prefix_rfl, ← balance_deleteBlanks, deleteBlanks_splitWith hfree,
    balance_deleteBlanks]

/-- Braces next to each other, in a comment and with delimiters between them, not all of them
closed. -/
theorem depth_render_unclosed :
    let text := "\x7d\x7b/*\x7b*/ a \x7b\x7b b;\x7d".toList
    IndentTable.default.overflow = .clamp ∧ (Marker.pick? text).isSome = true ∧
    ∃ fs, split text = .ok fs ∧ (∀ f ∈ fs, Braced f) ∧ (render .default {} fs).1.depth = 2 := by
  intro text
  have hmark : (Marker.pick? text).isSome = true := by decide
  have hbalance : balance text = 2 := by decide
  obtain ⟨fs, hfs, hbraced, -, hdepth⟩ := depth_render_eq_balance .default rfl text hmark
  exact ⟨rfl, hmark, fs, hfs, hbraced, hdepth.trans hbalance⟩

end Reindent.Css
