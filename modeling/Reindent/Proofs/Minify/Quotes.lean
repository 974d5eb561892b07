import Mathlib
import Reindent.Proofs.Minify.Thinning

/-!
# Minifying JSON on the two sides of a quote

A substitution of the table takes a quote only as the first or as the last character of an
occurrence, so what it writes in front of a quote does not depend on what follows the quote. This
carries over to passes and to the loop: the two sides of every quote are minified apart
(`quoteLocal_json`).
-/

namespace Reindent.Minify

open Text

/-! ## Patterns that end at a character -/

variable {q : Char}

/-- A pattern looks no further than the first `q` behind what it takes, and takes at most `k`
characters from that one on. -/
def HaltsAt (q : Char) (k : Nat) (p : Pattern) : Prop :=
  ∀ s v, p.span? (s ++ q :: v) = p.span? (s ++ [q]) ∧ ∀ n, p.span? (s ++ [q]) = some n →
    n ≤ s.length + k

/-- The part does not take `q`. -/
def spares (q : Char) : Part → Bool
  | .one ok => !ok q
  | .many ok => !ok q
  | .many1 ok => !ok q
  | .wordEnd => true
  | .textEnd => true

theorem haltsAt_nil : HaltsAt q 0 [] := by
  intro s v
  simp [Pattern.span?]

theorem haltsAt_char (c : Char) : HaltsAt q 1 [.char c] := by
  intro s v
  cases s with
  | nil => simp [Pattern.span?, Part.char]
  | cons d s => simp [Pattern.span?, Part.char]

theorem haltsAt_takeMany {ok : Char → Bool} (hok : ok q = false) {k : Nat} {p : Pattern}
    (hp : HaltsAt q k p) (s v : List Char) :
    Pattern.takeMany ok p.span? (s ++ q :: v) = Pattern.takeMany ok p.span? (s ++ [q]) ∧
      ∀ n, Pattern.takeMany ok p.span? (s ++ [q]) = some n → n ≤ s.length + k := by
  induction s with
  | nil =>
    have := hp [] v
    simp_all [Pattern.takeMany]
  | cons c s ih =>
    have hnext := hp (c :: s) v
    simp only [List.cons_append, Pattern.takeMany] at hnext ⊢
    split
    · rw [ih.1]
      refine ⟨by rw [hnext.1], fun n hn => ?_⟩
      split at hn
      · rename_i m hm
        have := ih.2 m hm
        simp only [Option.some.injEq] at hn
        rw [List.length_cons]
        omega
      · exact hnext.2 n hn
    · exact hnext

theorem HaltsAt.cons {part : Part} (hpart : spares q part = true) {k : Nat} {p : Pattern}
    (hp : HaltsAt q k p) :
    HaltsAt q k (part :: p) := by
  intro s v
  cases part with
  | one ok =>
    have hok : ok q = false := by simpa [spares] using hpart
    cases s with
    | nil => simp [Pattern.span?, hok]
    | cons c s =>
      have := hp s v
      simp only [List.cons_append, Pattern.span?, this.1]
      refine ⟨trivial, fun n hn => ?_⟩
      split at hn
      · obtain ⟨m, hm, rfl⟩ := Option.map_eq_some_iff.1 hn
        have := this.2 m hm
        rw [List.length_cons]
        omega
      · cases hn
  | many ok =>
    have hok : ok q = false := by simpa [spares] using hpart
    simp only [Pattern.span?]
    exact haltsAt_takeMany hok hp s v
  | many1 ok =>
    have hok : ok q = false := by simpa [spares] using hpart
    cases s with
    | nil => simp [Pattern.span?, hok]
    | cons c s =>
      have := haltsAt_takeMany hok hp s v
      simp only [List.cons_append, Pattern.span?, this.1]
      refine ⟨trivial, fun n hn => ?_⟩
      split at hn
      · obtain ⟨m, hm, rfl⟩ := Option.map_eq_some_iff.1 hn
        have := this.2 m hm
        rw [List.length_cons]
        omega
      · cases hn
  | wordEnd =>
    have hword : startsWord (s ++ q :: v) = startsWord (s ++ [q]) := by
      cases s <;> rfl
    have := hp s v
    simp only [Pattern.span?, hword, this.1]
    refine ⟨trivial, fun n hn => ?_⟩
    split at hn
    · cases hn
    · exact this.2 n hn
  | textEnd => simp [Pattern.span?]

theorem haltsAt_of_spares {p p' : Pattern} {k : Nat}
    (hp : p.all (spares q) = true) (h : HaltsAt q k p') :
    HaltsAt q k (p ++ p') := by
  induction p with
  | nil => exact h
  | cons part p ih =>
    rw [List.all_cons, Bool.and_eq_true] at hp
    exact (ih hp.2).cons hp.1

/-! ## Substitutions -/

/-- What is written for the text in front of a `q` does not depend on what follows. -/
def PartsAt (q : Char) (g : List Char → List Char) : Prop :=
  ∀ u, ∃ x, ∀ v, g (u ++ q :: v) = x ++ g (q :: v)

/-- An occurrence that starts in front of a `q` ends there, or it takes the `q` as its last
character, writes it again and is of a pattern that does not start with `q`. -/
theorem partsAt_of_span? {r : Substitution}
    (hspan : ∀ c u v, r.pattern.span? (c :: (u ++ q :: v)) = r.pattern.span? (c :: (u ++ [q])))
    (hbound : ∀ c u n, r.pattern.span? (c :: (u ++ [q])) = some n → n ≤ u.length + 1 ∨
      (n = u.length + 2 ∧ ∃ t, r.replacement = t ++ [q] ∧
        ∀ v, r.apply (q :: v) = q :: r.apply v)) :
    PartsAt q r.apply := by
  have hfrom : ∀ u skip, skip ≤ u.length →
      ∃ x, ∀ v, r.applyFrom skip (u ++ q :: v) = x ++ r.apply (q :: v) := by
    intro u
    induction u with
    | nil =>
      intro skip hskip
      obtain rfl : skip = 0 := Nat.le_zero.1 hskip
      exact ⟨[], fun v => rfl⟩
    | cons c u ih =>
      intro skip hskip
      cases skip with
      | succ skip =>
        obtain ⟨x, hx⟩ := ih skip (Nat.le_of_succ_le_succ hskip)
        exact ⟨x, fun v => by rw [List.cons_append, Substitution.applyFrom, hx]⟩
      | zero =>
        have hkeep : ∃ x, ∀ v, c :: r.applyFrom 0 (u ++ q :: v) = x ++ r.apply (q :: v) := by
          obtain ⟨x, hx⟩ := ih 0 (Nat.zero_le _)
          exact ⟨c :: x, fun v => by rw [hx, List.cons_append]⟩
        rcases hfound : r.pattern.span? (c :: (u ++ [q])) with _ | _ | n
        · simpa only [List.cons_append, Substitution.applyFrom, hspan, hfound] using hkeep
        · simpa only [List.cons_append, Substitution.applyFrom, hspan, hfound] using hkeep
        · simp only [List.cons_append, Substitution.applyFrom, hspan, hfound]
          rcases hbound c u (n + 1) hfound with hn | ⟨hn, t, ht, hquote⟩
          · obtain ⟨x, hx⟩ := ih n (Nat.le_of_succ_le_succ hn)
            exact ⟨r.replacement ++ x, fun v => by rw [hx, List.append_assoc]⟩
          · obtain rfl : n = u.length + 1 := Nat.succ.inj hn
            refine ⟨t, fun v => ?_⟩
            have hskip := r.applyFrom_length (u ++ [q]) v
            rw [List.length_append, List.length_singleton, List.append_assoc,
              List.singleton_append] at hskip
            rw [hskip, hquote, ht, List.append_assoc, List.singleton_append]
  exact fun u => hfrom u 0 (Nat.zero_le _)

/-- A pattern that takes no `q`. -/
theorem partsAt_of_spares {r : Substitution} (h : r.pattern.all (spares q) = true) :
    PartsAt q r.apply := by
  have hhalts : HaltsAt q 0 r.pattern := by
    have := haltsAt_of_spares h haltsAt_nil
    rwa [List.append_nil] at this
  refine partsAt_of_span? (fun c u v => (hhalts (c :: u) v).1) fun c u n hn => .inl ?_
  exact (hhalts (c :: u) []).2 n hn

/-- A pattern that takes a `q` at its start only. -/
theorem partsAt_of_char_cons {p : Pattern} {t : List Char} (h : p.all (spares q) = true) :
    PartsAt q (Substitution.apply ⟨.char q :: p, t⟩) := by
  have hhalts : HaltsAt q 0 p := by
    have := haltsAt_of_spares h haltsAt_nil
    rwa [List.append_nil] at this
  refine partsAt_of_span? (fun c u v => ?_) fun c u n hn => .inl ?_
  · simp only [Part.char, Pattern.span?, (hhalts u v).1]
  · simp only [Part.char, Pattern.span?] at hn
    split at hn
    · obtain ⟨m, hm, rfl⟩ := Option.map_eq_some_iff.1 hn
      have := (hhalts u []).2 m hm
      omega
    · cases hn

/-- A pattern that takes a `q` at its end only, where it is written again. -/
theorem partsAt_of_char_last {c : Char} (hc : c ≠ q) {p : Pattern} {t : List Char}
    (h : p.all (spares q) = true) :
    PartsAt q (Substitution.apply ⟨.char c :: (p ++ [.char q]), t ++ [q]⟩) := by
  have hchar : spares q (.char c) = true := by simpa [spares, Part.char] using Ne.symm hc
  have hhalts : HaltsAt q 1 (.char c :: (p ++ [.char q])) :=
    (haltsAt_of_spares h (haltsAt_char q)).cons hchar
  refine partsAt_of_span? (fun d u v => (hhalts (d :: u) v).1) fun d u n hn => ?_
  have hbound := (hhalts (d :: u) []).2 n hn
  by_cases hlast : n = u.length + 2
  · refine .inr ⟨hlast, t, rfl, fun v => ?_⟩
    refine Substitution.apply_cons_of_not_takes _ fun m rest hm hne htakes => ?_
    cases htakes with
    | one hd _ =>
      rw [beq_iff_eq] at hd
      exact hc (hd.symm.trans (List.cons.inj hm).1.symm)
  · rw [List.length_cons] at hbound
    exact .inl (by omega)

theorem partsAt_jsonRules : ∀ r ∈ jsonRules, PartsAt '"' r.apply := by
  simp only [jsonRules, List.forall_mem_cons, List.not_mem_nil, false_implies, implies_true,
    and_true]
  refine ⟨?_, ?_, ?_, ?_, ?_, ?_, ?_, ?_, ?_, ?_, ?_, ?_, ?_, ?_⟩
  · exact partsAt_of_spares (by decide)
  · exact partsAt_of_spares (by decide)
  · exact partsAt_of_spares (by decide)
  · exact partsAt_of_spares (by decide)
  · exact partsAt_of_spares (by decide)
  · exact partsAt_of_spares (by decide)
  · exact partsAt_of_char_cons (by decide)
  · exact partsAt_of_char_last (p := [.blanks]) (t := [',']) (by decide) (by decide)
  · exact partsAt_of_char_cons (by decide)
  · exact partsAt_of_char_last (p := [.blanks]) (t := [':']) (by decide) (by decide)
  · exact partsAt_of_spares (by decide)
  · exact partsAt_of_spares (by decide)
  · exact partsAt_of_spares (by decide)
  · exact partsAt_of_spares (by decide)

/-! ## Passes and the loop -/

/-- Blanks are thinned out, on the two sides of each quote apart. -/
structure QuoteLocal (g : List Char → List Char) : Prop where
  thins : ∀ s, Thins s (g s)
  parts : PartsAt '"' g

theorem isBlank_quote : isBlank '"' = false := by
  decide

namespace QuoteLocal

variable {g h : List Char → List Char}

theorem exists_quote (hg : QuoteLocal g) (v : List Char) :
    ∃ y, g ('"' :: v) = '"' :: y ∧ Thins v y :=
  (hg.thins ('"' :: v)).exists_cons isBlank_quote

theorem eq_quote_tail (hg : QuoteLocal g) (v : List Char) :
    g ('"' :: v) = '"' :: (g ('"' :: v)).tail := by
  obtain ⟨y, hy, -⟩ := hg.exists_quote v
  rw [hy, List.tail_cons]

theorem apply_quote (hg : QuoteLocal g) : g ['"'] = ['"'] :=
  (hg.thins ['"']).eq_of_forall_not_isBlank (List.forall_mem_singleton.2 isBlank_quote)

theorem id : QuoteLocal fun s => s :=
  ⟨.refl, fun u => ⟨u, fun _ => rfl⟩⟩

theorem comp (hg : QuoteLocal g) (hh : QuoteLocal h) : QuoteLocal fun s => h (g s) := by
  refine ⟨fun s => (hg.thins s).trans (hh.thins (g s)), fun u => ?_⟩
  obtain ⟨x, hx⟩ := hg.parts u
  obtain ⟨y, hy⟩ := hh.parts x
  refine ⟨y, fun v => ?_⟩
  obtain ⟨z, hz, -⟩ := hg.exists_quote v
  simp only [hx, hz, hy]

theorem iterate (hg : QuoteLocal g) (n : Nat) : QuoteLocal g^[n] := by
  induction n with
  | zero => exact .id
  | succ n ih => exact hg.comp ih

end QuoteLocal

theorem quoteLocal_applyAll {rs : List Substitution}
    (htrims : ∀ r ∈ rs, Trims r.pattern r.replacement) (hparts : ∀ r ∈ rs, PartsAt '"' r.apply) :
    QuoteLocal (Substitution.applyAll rs) := by
  induction rs with
  | nil => exact .id
  | cons r rs ih =>
    have hr : QuoteLocal r.apply :=
      ⟨thins_apply (htrims r List.mem_cons_self), hparts r List.mem_cons_self⟩
    exact hr.comp (ih (fun q hq => htrims q (List.mem_cons_of_mem r hq)) fun q hq =>
      hparts q (List.mem_cons_of_mem r hq))

theorem quoteLocal_jsonPass : QuoteLocal jsonPass :=
  quoteLocal_applyAll trims_jsonRules partsAt_jsonRules

/-- Passes beyond the one that changes nothing change nothing. -/
theorem Stops.iterate_eq {pass : List Char → List Char} {s r : List Char} {n : Nat}
    (h : Stops pass s n r) {m : Nat} (hm : n ≤ m) : pass^[m] s = r := by
  induction h generalizing m with
  | here h => exact Function.iterate_fixed h m
  | @later s r n _ _ ih =>
    obtain ⟨m, rfl⟩ : ∃ k, m = k + 1 := Nat.exists_eq_succ_of_ne_zero (by omega)
    rw [Function.iterate_succ_apply]
    exact ih (by omega)

/-- As many passes as the text weighs and one, or more, minify it. -/
theorem json_eq_iterate {s : List Char} {m : Nat} (hm : weight s + 1 ≤ m) :
    json s = jsonPass^[m] s := by
  obtain ⟨n, hn, hstops⟩ :=
    stops_settleWithin Minifier.json.lightens_pass (Nat.lt_succ_self (weight s))
  exact (hstops.iterate_eq (hn.trans hm)).symm

theorem quoteLocal_json : QuoteLocal json := by
  refine ⟨fun s => ?_, fun u => ?_⟩
  · rw [json_eq_iterate (Nat.le_refl _)]
    exact (quoteLocal_jsonPass.iterate _).thins s
  · obtain ⟨x, hx⟩ : ∃ x, json (u ++ ['"']) = x ++ ['"'] := by
      obtain ⟨x, y, hxy, -, hy⟩ :=
        ((quoteLocal_jsonPass.iterate (weight (u ++ ['"']) + 1)).thins (u ++ ['"'])).exists_append
      rw [hy.eq_of_forall_not_isBlank (List.forall_mem_singleton.2 isBlank_quote)] at hxy
      exact ⟨x, (json_eq_iterate (Nat.le_refl _)).trans hxy⟩
    refine ⟨x, fun v => ?_⟩
    -- So many passes are enough for all three texts.
    let m := weight (u ++ ['"']) + weight (u ++ '"' :: v) + weight ('"' :: v) + 1
    obtain ⟨y, hy⟩ := (quoteLocal_jsonPass.iterate m).parts u
    have hquote := hy []
    rw [(quoteLocal_jsonPass.iterate m).apply_quote, ← json_eq_iterate (by omega), hx] at hquote
    rw [json_eq_iterate (s := u ++ '"' :: v) (m := m) (by omega),
      json_eq_iterate (s := '"' :: v) (m := m) (by omega), hy, List.append_cancel_right hquote]

end Reindent.Minify
