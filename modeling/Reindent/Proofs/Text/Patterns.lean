import Mathlib
import Reindent.Proofs.Text.Blanks
import Reindent.Text.Pattern

/-!
# What patterns take and what substitutions replace

`Takes p m s` says that the pattern `p` can take `m` where `s` follows; it leaves open how a
repeated part divides the characters with the rest of the pattern. Whatever `Pattern.span?` finds
is taken in this sense.

A substitution keeps the characters between the occurrences that it finds from the left.
`Substitution.scan` says this once, as an induction over the text, and every law of substitutions
is derived from it.
-/

namespace Reindent.Text

/-- The pattern can take the text `m` where the text `s` follows. -/
inductive Takes : Pattern → List Char → List Char → Prop where
  | nil (s : List Char) : Takes [] [] s
  | one {ok : Char → Bool} {p : Pattern} {c : Char} {m s : List Char} (hc : ok c = true)
      (h : Takes p m s) :
      Takes (.one ok :: p) (c :: m) s
  | many {ok : Char → Bool} {p : Pattern} {run m s : List Char} (hrun : ∀ c ∈ run, ok c = true)
      (h : Takes p m s) : Takes (.many ok :: p) (run ++ m) s
  | many1 {ok : Char → Bool} {p : Pattern} {c : Char} {run m s : List Char}
      (hrun : ∀ d ∈ c :: run, ok d = true)
      (h : Takes p m s) : Takes (.many1 ok :: p) (c :: run ++ m) s
  | wordEnd {p : Pattern} {m s : List Char} (hend : startsWord (m ++ s) = false)
      (h : Takes p m s) :
      Takes (.wordEnd :: p) m s
  | textEnd {p : Pattern} {m s : List Char} (hend : m ++ s = []) (h : Takes p m s) :
      Takes (.textEnd :: p) m s

section

variable {p : Pattern} {m s : List Char}

theorem takes_nil_iff : Takes [] m s ↔ m = [] := by
  constructor
  · rintro ⟨⟩
    rfl
  · rintro rfl
    exact .nil s

theorem takes_char_iff {x : Char} : Takes (.char x :: p) m s ↔
    ∃ m', m = x :: m' ∧ Takes p m' s := by
  constructor
  · intro h
    cases h with
    | one hc h => exact ⟨_, by rw [beq_iff_eq.1 hc], h⟩
  · rintro ⟨m', rfl, h⟩
    exact .one (beq_self_eq_true x) h

theorem takes_blanks_iff : Takes (.blanks :: p) m s ↔
    ∃ run m', m = run ++ m' ∧ (∀ c ∈ run, isBlank c = true) ∧ Takes p m' s := by
  constructor
  · intro h
    cases h with
    | many hrun h => exact ⟨_, _, rfl, hrun, h⟩
  · rintro ⟨run, m', rfl, hrun, h⟩
    exact .many hrun h

theorem takes_blanks1_iff : Takes (.blanks1 :: p) m s ↔
    ∃ c run m', m = c :: (run ++ m') ∧ (∀ d ∈ c :: run, isBlank d = true) ∧ Takes p m' s := by
  constructor
  · intro h
    cases h with
    | many1 hrun h => exact ⟨_, _, _, rfl, hrun, h⟩
  · rintro ⟨c, run, m', rfl, hrun, h⟩
    exact .many1 hrun h

theorem takes_textEnd_iff : Takes (.textEnd :: p) m s ↔ m = [] ∧ s = [] ∧ Takes p m s := by
  constructor
  · intro h
    cases h with
    | textEnd hend h =>
      rw [List.append_eq_nil_iff] at hend
      exact ⟨hend.1, hend.2, h⟩
  · rintro ⟨rfl, rfl, h⟩
    exact .textEnd rfl h

end

namespace Pattern

theorem exists_run_of_takeMany {ok : Char → Bool} {next : List Char → Option Nat} {s : List Char}
    {n : Nat} (h : takeMany ok next s = some n) :
    ∃ run rest k, s = run ++ rest ∧ (∀ c ∈ run, ok c = true) ∧ next rest = some k ∧
    n = run.length + k := by
  induction s generalizing n with
  | nil => exact ⟨[], [], n, rfl, by simp, h, by simp⟩
  | cons c s ih =>
    rw [takeMany] at h
    split at h
    · rename_i hc
      split at h
      · rename_i k hk
        obtain ⟨run, rest, j, rfl, hrun, hnext, rfl⟩ := ih hk
        refine ⟨c :: run, rest, j, rfl, ?_, hnext, ?_⟩
        · simpa using ⟨hc, hrun⟩
        · simp only [Option.some.injEq] at h
          rw [List.length_cons]
          omega
      · exact ⟨[], c :: s, n, rfl, by simp, h, by simp⟩
    · exact ⟨[], c :: s, n, rfl, by simp, h, by simp⟩

/-- What a pattern finds at the start of a text, it takes. -/
theorem takes_of_span? {p : Pattern} {s : List Char} {n : Nat} (h : p.span? s = some n) :
    ∃ m r, s = m ++ r ∧ m.length = n ∧ Takes p m r := by
  induction p generalizing s n with
  | nil =>
    rw [span?, Option.some.injEq] at h
    exact ⟨[], s, rfl, h, .nil s⟩
  | cons part p ih =>
    cases part with
    | one ok =>
      cases s with
      | nil => simp [span?] at h
      | cons c s =>
        rw [span?] at h
        split at h
        · rename_i hc
          obtain ⟨k, hk, rfl⟩ := Option.map_eq_some_iff.1 h
          obtain ⟨m, r, rfl, rfl, hm⟩ := ih hk
          exact ⟨c :: m, r, rfl, rfl, .one hc hm⟩
        · cases h
    | many ok =>
      rw [span?] at h
      obtain ⟨run, rest, k, rfl, hrun, hk, rfl⟩ := exists_run_of_takeMany h
      obtain ⟨m, r, rfl, rfl, hm⟩ := ih hk
      exact ⟨run ++ m, r, by simp, by simp, .many hrun hm⟩
    | many1 ok =>
      cases s with
      | nil => simp [span?] at h
      | cons c s =>
        rw [span?] at h
        split at h
        · rename_i hc
          obtain ⟨j, hj, rfl⟩ := Option.map_eq_some_iff.1 h
          obtain ⟨run, rest, k, rfl, hrun, hk, rfl⟩ := exists_run_of_takeMany hj
          obtain ⟨m, r, rfl, rfl, hm⟩ := ih hk
          refine ⟨c :: run ++ m, r, by simp, by simp, .many1 ?_ hm⟩
          simpa using ⟨hc, hrun⟩
        · cases h
    | wordEnd =>
      rw [span?] at h
      split at h
      · cases h
      · rename_i hword
        obtain ⟨m, r, rfl, rfl, hm⟩ := ih h
        exact ⟨m, r, rfl, rfl, .wordEnd (by simpa using hword) hm⟩
    | textEnd =>
      rw [span?] at h
      split at h
      · rename_i hempty
        obtain ⟨m, r, rfl, rfl, hm⟩ := ih h
        exact ⟨m, r, rfl, rfl, .textEnd (by simpa using hempty) hm⟩
      · cases h

/-- A run at the end of a pattern is taken whole. -/
theorem takeMany_last (ok : Char → Bool) (s : List Char) :
    takeMany ok (fun _ => some 0) s = some (s.takeWhile ok).length := by
  induction s with
  | nil => rfl
  | cons c s ih =>
    rw [takeMany, ih]
    cases hc : ok c <;> simp [hc]

/-- A run in front of a character of another kind is taken whole. -/
theorem takeMany_append {ok : Char → Bool} {next : List Char → Option Nat} {gap b : List Char}
    {y : Char} {k : Nat} (hgap : ∀ c ∈ gap, ok c = true) (hy : ok y = false)
    (hnext : next (y :: b) = some k) :
    takeMany ok next (gap ++ y :: b) = some (gap.length + k) := by
  induction gap with
  | nil => simp [takeMany, hy, hnext]
  | cons c gap ih =>
    have hrest := ih fun d hd => hgap d (List.mem_cons_of_mem c hd)
    rw [List.cons_append, takeMany, if_pos (hgap c List.mem_cons_self), hrest, List.length_cons]
    simp only [Option.some.injEq]
    omega

/-- Two characters and the blanks between them are taken together. -/
theorem span?_char_blanks_char {x y : Char} {gap : List Char} (hgap : ∀ c ∈ gap, isBlank c = true)
    (hy : isBlank y = false) (b : List Char) :
    span? [.char x, .blanks, .char y] (x :: (gap ++ y :: b)) = some (gap.length + 1 + 1) := by
  have hlast : span? [.char y] (y :: b) = some 1 := by simp [span?, Part.char]
  simp only [Part.char, Part.blanks] at hlast ⊢
  simp only [span?, beq_self_eq_true, if_true, takeMany_append hgap hy hlast, Option.map_some]

end Pattern

/-! ## Substitutions -/

/-- An occurrence of a pattern in a text: what stands before it, what it takes, and what
follows. -/
structure Occurrence where
  before : List Char
  taken : List Char
  after : List Char

namespace Substitution

/-- The occurrences that are replaced in a text, after the text `before`, when the next `skip`
characters belong to an occurrence already. -/
def occurrencesFrom (r : Substitution) (before : List Char) : Nat → List Char → List Occurrence
  | _, [] => []
  | skip + 1, c :: s => r.occurrencesFrom (before ++ [c]) skip s
  | 0, c :: s =>
    match r.pattern.span? (c :: s) with
    | some (n + 1) => ⟨before, (c :: s).take (n + 1), (c :: s).drop (n + 1)⟩ ::
        r.occurrencesFrom (before ++ [c]) n s
    | _ => r.occurrencesFrom (before ++ [c]) 0 s

/-- The occurrences that are replaced in a text, from the left. -/
def occurrences (r : Substitution) (s : List Char) : List Occurrence :=
  r.occurrencesFrom [] 0 s

/-- A law of the run of a substitution: it holds at the end of the text, it is kept by a character
that stays, and it is kept by an occurrence that is replaced. `R before rest written found` speaks
of the rest of the text behind `before`, of what is written for the rest, and of the occurrences in
it. -/
theorem scan (r : Substitution) {R : List Char → List Char → List Char → List Occurrence → Prop}
    (nil : ∀ b, R b [] [] [])
    (keep : ∀ b c s t os, R (b ++ [c]) s t os → R b (c :: s) (c :: t) os)
    (replace : ∀ b m s t os, m ≠ [] → Takes r.pattern m s → R (b ++ m) s t os →
      R b (m ++ s) (r.replacement ++ t) (⟨b, m, s⟩ :: os))
    (text : List Char) : R [] text (r.apply text) (r.occurrences text) := by
  -- The characters to skip have been taken already, so they count as text before the rest.
  have hfrom : ∀ (s : List Char) (skip : Nat) (b : List Char), skip ≤ s.length →
      R (b ++ s.take skip) (s.drop skip) (r.applyFrom skip s) (r.occurrencesFrom b skip s) := by
    intro s
    induction s with
    | nil =>
      intro skip b _
      simpa [applyFrom, occurrencesFrom] using nil b
    | cons c s ih =>
      intro skip b hskip
      cases skip with
      | succ skip =>
        have := ih skip (b ++ [c]) (by simpa using hskip)
        simpa [applyFrom, occurrencesFrom] using this
      | zero =>
        have hkeep : R b (c :: s) (c :: r.applyFrom 0 s) (r.occurrencesFrom (b ++ [c]) 0 s) := by
          have := ih 0 (b ++ [c]) (Nat.zero_le _)
          exact keep b c s _ _ (by simpa using this)
        rcases hspan : r.pattern.span? (c :: s) with _ | _ | n
        · simpa [applyFrom, occurrencesFrom, hspan] using hkeep
        · simpa [applyFrom, occurrencesFrom, hspan] using hkeep
        · obtain ⟨m, rest, hsplit, hlen, htakes⟩ := Pattern.takes_of_span? hspan
          have hn : n ≤ s.length := by
            have := congrArg List.length hsplit
            simp only [List.length_cons, List.length_append] at this
            omega
          have htake : (c :: s).take (n + 1) = m := by rw [hsplit, ← hlen, List.take_left]
          have hdrop : (c :: s).drop (n + 1) = rest := by rw [hsplit, ← hlen, List.drop_left]
          have hne : m ≠ [] := by
            rintro rfl
            simp at hlen
          have hrest := ih n (b ++ [c]) hn
          rw [List.append_assoc, List.singleton_append, ← List.take_succ_cons, htake,
            ← List.drop_succ_cons (a := c), hdrop] at hrest
          have := replace b m rest _ _ hne htakes hrest
          simp only [applyFrom, occurrencesFrom, hspan, htake, hdrop]
          simpa [hsplit] using this
  simpa [apply, occurrences] using hfrom text 0 [] (Nat.zero_le _)

/-- A relation between texts that characters in front and replaced occurrences keep holds between a
text and the result of the substitution. -/
theorem rel_apply (r : Substitution) {R : List Char → List Char → Prop} (nil : R [] [])
    (keep : ∀ c s t, R s t → R (c :: s) (c :: t))
    (replace : ∀ m s t, Takes r.pattern m s → R s t → R (m ++ s) (r.replacement ++ t))
    (text : List Char) :
    R text (r.apply text) :=
  scan r (R := fun _ s t _ => R s t) (fun _ => nil) (fun _ c s t _ => keep c s t)
    (fun _ m s t _ _ => replace m s t) text

/-- A character at which nothing is taken stays. -/
theorem apply_cons_of_not_takes (r : Substitution) {c : Char} {s : List Char}
    (h : ∀ m rest, c :: s = m ++ rest → m ≠ [] → ¬ Takes r.pattern m rest) :
    r.apply (c :: s) = c :: r.apply s := by
  rw [apply, applyFrom]
  rcases hspan : r.pattern.span? (c :: s) with _ | _ | n
  · rfl
  · rfl
  · obtain ⟨m, rest, hsplit, hlen, htakes⟩ := Pattern.takes_of_span? hspan
    refine absurd htakes (h m rest hsplit ?_)
    rintro rfl
    simp at hlen

theorem applyFrom_length (r : Substitution) (u s : List Char) :
    r.applyFrom u.length (u ++ s) = r.apply s := by
  induction u with
  | nil => rfl
  | cons c u ih =>
    rw [List.length_cons, List.cons_append, applyFrom]
    exact ih

/-- An occurrence at the start of a text is replaced. -/
theorem apply_append_of_span? (r : Substitution) {m : List Char} (hne : m ≠ []) {s : List Char}
    (h : r.pattern.span? (m ++ s) = some m.length) :
    r.apply (m ++ s) = r.replacement ++ r.apply s := by
  cases m with
  | nil => exact absurd rfl hne
  | cons c m =>
    rw [List.cons_append, List.length_cons] at h
    rw [List.cons_append, apply, applyFrom, h]
    exact congrArg (r.replacement ++ ·) (r.applyFrom_length m s)

/-- A single character is replaced wherever it stands. -/
theorem apply_char (c : Char) (t s : List Char) :
    (⟨[.char c], t⟩ : Substitution).apply s = s.flatMap fun d => if d = c then t else [d] := by
  induction s with
  | nil => rfl
  | cons d s ih =>
    by_cases hd : d = c
    · have hreplace := apply_append_of_span? ⟨[.char c], t⟩ (m := [d]) (s := s) (by simp)
        (by simp [Pattern.span?, Part.char, hd])
      rw [List.flatMap_cons, if_pos hd, ← ih]
      exact hreplace
    · rw [List.flatMap_cons, if_neg hd, ← ih]
      refine apply_cons_of_not_takes _ fun m rest hm _ htakes => ?_
      obtain ⟨m, rfl, -⟩ := takes_char_iff.1 htakes
      exact hd (List.cons_eq_cons.1 hm).1

/-- Runs of blanks are collapsed by a substitution. -/
theorem apply_oneSpace (s : List Char) : oneSpace.apply s = collapse s := by
  -- A run of blanks is replaced at once, so the induction is on the length.
  induction hn : s.length using Nat.strong_induction_on generalizing s with
  | _ n ih =>
    subst hn
    cases s with
    | nil => rfl
    | cons c s =>
      by_cases hc : isBlank c = true
      · have hsplit : c :: s = c :: s.takeWhile isBlank ++ s.dropWhile isBlank := by
          rw [List.cons_append, List.takeWhile_append_dropWhile]
        have hspan : Pattern.span? [.blanks1] (c :: s) =
            some (c :: s.takeWhile isBlank).length := by
          simp [Pattern.span?, Part.blanks1, Pattern.takeMany_last, hc]
        rw [hsplit] at hspan
        have happly := oneSpace.apply_append_of_span? (by simp) hspan
        have hrun : ∀ d ∈ c :: s.takeWhile isBlank, isBlank d = true :=
          List.forall_mem_cons.2 ⟨hc, fun d hd => List.mem_takeWhile_imp hd⟩
        have hshorter : (s.dropWhile isBlank).length < (c :: s).length :=
          Nat.lt_succ_of_le (List.dropWhile_suffix isBlank).length_le
        have hfirst : ∀ d ∈ (s.dropWhile isBlank).head?, isBlank d = false := by
          intro d hd
          have hnot := List.head?_dropWhile_not isBlank s
          rwa [Option.mem_def.1 hd] at hnot
        rw [hsplit, happly, ih _ hshorter _ rfl, collapse_run (by simp) hrun,
          collapse_space_cons hfirst]
        rfl
      · rw [collapse_cons, consCollapsed_of_not_isBlank (by simpa using hc),
          ← ih s.length (by simp) s rfl]
        refine apply_cons_of_not_takes _ fun m rest hm _ htakes => ?_
        obtain ⟨d, run, m, rfl, hrun, -⟩ := takes_blanks1_iff.1 htakes
        exact hc ((List.cons_eq_cons.1 hm).1 ▸ hrun d List.mem_cons_self)

end Substitution

end Reindent.Text
