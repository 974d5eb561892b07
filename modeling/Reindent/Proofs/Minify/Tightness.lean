import Mathlib
import Reindent.Proofs.Minify.Settle

/-!
# Where minifying JSON touches blanks

`Loose` lists the places at which the substitutions for JSON leave a blank out. A text that ends
with no opening bracket is minified already exactly if it has no such place (`json_eq_self_iff`).
-/

namespace Reindent.Minify

open Text

/-- The pairs of characters between which no blank is left. -/
def tightPairs : List (Char × Char) :=
  [('"', ','), (',', '"'), ('"', ':'), (':', '"'), (':', '['), (',', '[')]

/-- A text has a blank that is left out. -/
inductive Loose (s : List Char) : Prop where
  /-- A blank behind an opening brace or behind a bracket. -/
  | after {x c : Char} (hx : x ∈ ['\x7b', '[', ']']) (hc : isBlank c = true) (h : [x, c] <:+: s)
  /-- A blank in front of a closing brace or bracket. -/
  | before {c y : Char} (hc : isBlank c = true) (hy : y ∈ ['\x7d', ']']) (h : [c, y] <:+: s)
  /-- Blanks between two characters of a tight pair. -/
  | between {x y : Char} {gap : List Char} (hxy : (x, y) ∈ tightPairs)
      (hgap : ∀ c ∈ gap, isBlank c = true)
      (hne : gap ≠ []) (h : x :: (gap ++ [y]) <:+: s)
  /-- Two blanks behind a comma. -/
  | double {c d : Char} (hc : isBlank c = true) (hd : isBlank d = true) (h : [',', c, d] <:+: s)

/-! ## Tight texts stay -/

/-- A substitution that writes what it takes changes nothing. -/
theorem apply_eq_self {r : Substitution} {s : List Char}
    (h : ∀ a m b, s = a ++ (m ++ b) → Takes r.pattern m b → m = r.replacement) :
    r.apply s = s := by
  refine Substitution.scan r (R := fun b rest written _ => s = b ++ rest →
    written = rest) ?_ ?_ ?_ s rfl
  · exact fun _ _ => rfl
  · intro b c rest t _ ih hs
    rw [ih (by simpa using hs)]
  · intro b m rest t _ _ htakes ih hs
    rw [ih (by simpa using hs), h b m rest hs htakes]

section

variable {s a b : List Char}

/-- In a tight text nothing blank stands behind an opening brace or behind a bracket. -/
theorem eq_nil_of_after (hs : ¬ Loose s) {x : Char} (hx : x ∈ ['\x7b', '[', ']']) {run : List Char}
    (hrun : ∀ c ∈ run, isBlank c = true) (hsplit : s = a ++ x :: (run ++ b)) : run = [] := by
  cases run with
  | nil => rfl
  | cons c run =>
    exact absurd (.after hx (hrun c List.mem_cons_self) ⟨a, run ++ b, by simp [hsplit]⟩) hs

/-- In a tight text nothing blank stands in front of a closing brace or bracket. -/
theorem eq_nil_of_before (hs : ¬ Loose s) {y : Char} (hy : y ∈ ['\x7d', ']']) {run : List Char}
    (hrun : ∀ c ∈ run, isBlank c = true) (hsplit : s = a ++ (run ++ y :: b)) : run = [] := by
  rcases List.eq_nil_or_concat run with hnil | ⟨front, c, rfl⟩
  · exact hnil
  · exact absurd (.before (hrun c (by simp)) hy ⟨a ++ front, b, by simp [hsplit]⟩) hs

theorem eq_nil_of_between (hs : ¬ Loose s) {x y : Char}
    (hxy : (x, y) ∈ tightPairs) {run : List Char} (hrun : ∀ c ∈ run, isBlank c = true)
    (hsplit : s = a ++ x :: (run ++ y :: b)) : run = [] := by
  by_contra hne
  exact hs (.between hxy hrun hne ⟨a, b, by simp [hsplit]⟩)

/-- No substitution of the table changes a tight text. -/
theorem apply_of_not_loose (hs : ¬ Loose s) (hlast : s.getLast? ≠ some '[') :
    ∀ r ∈ jsonRules, r.apply s = s := by
  have hpair : ∀ {x y : Char}, (x, y) ∈ tightPairs →
      (closeBetween x y).apply s = s := by
    refine fun hxy => apply_eq_self fun a m b hsplit htakes => ?_
    simp only [closeBetween, takes_char_iff, takes_blanks_iff, takes_nil_iff] at htakes
    obtain ⟨_, rfl, run, _, rfl, hrun, _, rfl, rfl⟩ := htakes
    rw [eq_nil_of_between hs hxy hrun (by simpa using hsplit)]
    rfl
  simp only [jsonRules, List.forall_mem_cons, List.not_mem_nil, false_implies, implies_true,
    and_true]
  refine ⟨?_, ?_, ?_, hpair (by decide), ?_, ?_, hpair (by decide), hpair (by decide),
    hpair (by decide), hpair (by decide), hpair (by decide), hpair (by decide), ?_, ?_⟩
  · refine apply_eq_self fun a m b hsplit htakes => ?_
    simp only [closeOpenBrace, takes_char_iff, takes_blanks_iff, takes_blanks1_iff, takes_nil_iff]
      at htakes
    obtain ⟨front, _, rfl, -, _, rfl, c, run, _, rfl, hrun, rfl⟩ := htakes
    exact absurd (eq_nil_of_after hs (x := '\x7b') (by simp) hrun (a := a ++ front)
      (by simpa using hsplit)) (by simp)
  · refine apply_eq_self fun a m b hsplit htakes => ?_
    simp only [closeLastBracket, takes_char_iff, takes_blanks_iff, takes_textEnd_iff,
      takes_nil_iff] at htakes
    obtain ⟨front, _, rfl, -, _, rfl, rfl, rfl, -⟩ := htakes
    exact absurd (by simp [hsplit]) hlast
  · refine apply_eq_self fun a m b hsplit htakes => ?_
    simp only [closeOpenBracket, takes_char_iff, takes_blanks_iff, takes_nil_iff] at htakes
    obtain ⟨_, rfl, run, _, rfl, hrun, rfl⟩ := htakes
    rw [eq_nil_of_after hs (x := '[') (by simp) hrun (by simpa using hsplit)]
    rfl
  · refine apply_eq_self fun a m b hsplit htakes => ?_
    simp only [closeCloseBrace, takes_char_iff, takes_blanks_iff, takes_blanks1_iff, takes_nil_iff]
      at htakes
    obtain ⟨c, run, _, rfl, hrun, _, rfl, back, _, rfl, -, rfl⟩ := htakes
    exact absurd (eq_nil_of_before hs (y := '\x7d') (by simp) hrun (b := back ++ b)
      (by simpa using hsplit)) (by simp)
  · refine apply_eq_self fun a m b hsplit htakes => ?_
    simp only [closeCloseBracket, takes_char_iff, takes_blanks_iff, takes_nil_iff] at htakes
    obtain ⟨run, _, rfl, hrun, _, rfl, run', _, rfl, hrun', rfl⟩ := htakes
    rw [eq_nil_of_before hs (y := ']') (by simp) hrun (b := run' ++ b) (by simpa using hsplit),
      eq_nil_of_after hs (x := ']') (by simp) hrun' (a := a ++ run) (by simpa using hsplit)]
    rfl
  · refine apply_eq_self fun a m b hsplit htakes => ?_
    simp only [closeComma, takes_char_iff] at htakes
    obtain ⟨_, rfl, htakes⟩ := htakes
    cases htakes with
    | one hc htakes =>
      simp only [takes_blanks1_iff, takes_nil_iff] at htakes
      obtain ⟨d, run, _, rfl, hrun, rfl⟩ := htakes
      exact absurd (.double hc (hrun d List.mem_cons_self) ⟨a, run ++ b, by simp [hsplit]⟩) hs
  · refine apply_eq_self fun a m b hsplit htakes => ?_
    simp only [closeLists, takes_char_iff, takes_blanks_iff, takes_nil_iff] at htakes
    obtain ⟨_, rfl, run, _, rfl, hrun, _, rfl, run', _, rfl, hrun', _, rfl, rfl⟩ := htakes
    have hfirst : run = [] :=
      eq_nil_of_after hs (x := ']') (by simp) hrun (b := ',' :: (run' ++ '[' :: b))
        (by simpa using hsplit)
    have hsecond : run' = [] :=
      eq_nil_of_between hs (x := ',') (y := '[') (by decide) hrun' (a := a ++ ']' :: run)
        (by simpa using hsplit)
    rw [hfirst, hsecond]
    rfl

end

/-! ## Loose texts change -/

theorem applyFrom_eq_apply_drop (r : Substitution) {skip : Nat} {s : List Char}
    (h : skip ≤ s.length) :
    r.applyFrom skip s = r.apply (s.drop skip) := by
  induction skip generalizing s with
  | zero => rfl
  | succ skip ih =>
    cases s with
    | nil => simp at h
    | cons c s =>
      rw [Substitution.applyFrom, List.drop_succ_cons]
      exact ih (Nat.le_of_succ_le_succ h)

/-- An occurrence that is found where a substitution changes nothing is written again. -/
theorem eq_of_append_eq {r : Substitution} (htrims : Trims r.pattern r.replacement)
    {m rest : List Char} (hm : Takes r.pattern m rest)
    (h : r.replacement ++ r.apply rest = m ++ rest) :
    r.replacement = m ∧ r.apply rest = rest := by
  have hreplaced := htrims.lightens hm
  have hrest := lightens_apply htrims rest
  have hweight : weight r.replacement + weight (r.apply rest) = weight m + weight rest := by
    rw [← weight_append, ← weight_append, h]
  have hreplacement : r.replacement = m := by
    rcases hreplaced.2 with heq | hlt
    · exact heq
    · rcases hrest.2 with heq | hlt'
      · rw [heq] at hweight
        omega
      · omega
  rw [hreplacement] at h
  exact ⟨hreplacement, List.append_cancel_left h⟩

theorem found_of_applyFrom_eq_self {r : Substitution} (htrims : Trims r.pattern r.replacement)
    {c : Char} {s : List Char} (h : r.applyFrom 0 (c :: s) = c :: s) {n : Nat}
    (hn : r.pattern.span? (c :: s) = some (n + 1)) :
    r.replacement = c :: s.take n ∧ r.applyFrom n s = s.drop n := by
  obtain ⟨m, rest, hm, hlen, htakes⟩ := Pattern.takes_of_span? hn
  have hlength : n ≤ s.length := by
    have := congrArg List.length hm
    simp only [List.length_cons, List.length_append] at this
    omega
  have htake : c :: s.take n = m := by rw [← List.take_succ_cons, hm, ← hlen, List.take_left]
  have hdrop : s.drop n = rest := by
    rw [← List.drop_succ_cons (a := c), hm, ← hlen, List.drop_left]
  rw [applyFrom_eq_apply_drop r hlength, htake, hdrop]
  refine eq_of_append_eq htrims htakes ?_
  rw [← hm, ← h, Substitution.applyFrom, hn]
  simp only [applyFrom_eq_apply_drop r hlength, hdrop]

/-- Where a substitution changes nothing, an occurrence at any place is as long as what is written
for it, unless the place is inside of an occurrence. -/
theorem length_of_apply_eq_self {r : Substitution} (htrims : Trims r.pattern r.replacement)
    {a b : List Char} (h : r.apply (a ++ b) = a ++ b) {n : Nat} (hn : r.pattern.span? b = some n)
    (hhead : ∀ c ∈ b.head?, c ∉ r.replacement.tail) : n ≤ r.replacement.length := by
  -- The characters to skip are the last ones of an occurrence.
  have hfrom : ∀ (a : List Char) (skip : Nat), skip ≤ (a ++ b).length →
      r.applyFrom skip (a ++ b) = (a ++ b).drop skip →
      (∀ c ∈ (a ++ b).take skip, c ∈ r.replacement.tail) →
      n ≤ r.replacement.length := by
    intro a
    induction a with
    | nil =>
      intro skip _ happly htaken
      cases b with
      | nil =>
        obtain ⟨m, rest, hm, rfl, -⟩ := Pattern.takes_of_span? hn
        rw [(List.append_eq_nil_iff.1 hm.symm).1]
        exact Nat.zero_le _
      | cons c s =>
        rcases skip with _ | skip
        · rcases n with _ | n
          · exact Nat.zero_le _
          · rw [(found_of_applyFrom_eq_self htrims happly hn).1]
            obtain ⟨m, rest, hm, hlen, -⟩ := Pattern.takes_of_span? hn
            have := congrArg List.length hm
            simp only [List.length_cons, List.length_append, List.length_take] at this ⊢
            omega
        · exact absurd (htaken c (by simp)) (hhead c rfl)
    | cons c a ih =>
      intro skip hskip happly htaken
      rcases skip with _ | skip
      · rcases hfound : r.pattern.span? (c :: (a ++ b)) with _ | _ | k
        · refine ih 0 (Nat.zero_le _) ?_ (by simp)
          simpa [Substitution.applyFrom, hfound] using happly
        · refine ih 0 (Nat.zero_le _) ?_ (by simp)
          simpa [Substitution.applyFrom, hfound] using happly
        · obtain ⟨hreplacement, hrest⟩ := found_of_applyFrom_eq_self htrims happly hfound
          refine ih k ?_ hrest (by simp [hreplacement])
          obtain ⟨m, rest, hm, hlen, -⟩ := Pattern.takes_of_span? hfound
          have := congrArg List.length hm
          simp only [List.length_cons, List.length_append] at this ⊢
          omega
      · refine ih skip (by simpa using hskip) ?_ fun d hd => htaken d ?_
        · simpa [Substitution.applyFrom] using happly
        · simpa using Or.inr hd
  exact hfrom a 0 (Nat.zero_le _) h (by simp)

/-- A text that no substitution of the table changes is tight. -/
theorem not_loose_of_apply {s : List Char} (h : ∀ r ∈ jsonRules, r.apply s = s) : ¬ Loose s := by
  -- An occurrence that is longer than what is written for it would change the text.
  have hshort : ∀ (r : Substitution) {n : Nat} {a b : List Char}, r ∈ jsonRules → s = a ++ b →
      r.pattern.span? b = some n → (∀ c ∈ b.head?, c ∉ r.replacement.tail) →
      ¬ r.replacement.length < n := by
    rintro r n a b hr rfl hn hhead
    exact Nat.not_lt.2 (length_of_apply_eq_self (trims_jsonRules r hr) (h r hr) hn hhead)
  -- What most of the substitutions write is one character.
  have hsingle : ∀ (r : Substitution) (x : Char) {n : Nat} {a b : List Char}, r ∈ jsonRules →
      r.replacement = [x] → s = a ++ b → r.pattern.span? b ≠ some (n + 2) := by
    intro r x n a b hr hx hs hspan
    exact hshort r hr hs hspan (by simp [hx]) (by simp [hx])
  have hopen : isBlank '\x7b' = false ∧ isBlank '[' = false ∧ isBlank ']' = false ∧
      isBlank '\x7d' = false := by decide
  intro hloose
  cases hloose with
  | @after x c hx hc hinfix =>
    obtain ⟨a, b, hs⟩ := hinfix
    have hsplit : s = a ++ x :: c :: b := by simp [← hs]
    simp only [List.mem_cons, List.not_mem_nil, or_false] at hx
    rcases hx with rfl | rfl | rfl
    · refine hsingle closeOpenBrace '\x7b' (n := (b.takeWhile isBlank).length)
        (by simp [jsonRules]) rfl hsplit ?_
      simp [closeOpenBrace, Pattern.span?, Part.blanks, Part.char, Part.blanks1,
        Pattern.takeMany, Pattern.takeMany_last, hopen, hc]
    · refine hsingle closeOpenBracket '[' (n := (b.takeWhile isBlank).length)
        (by simp [jsonRules]) rfl hsplit ?_
      simp [closeOpenBracket, Pattern.span?, Part.blanks, Part.char, Pattern.takeMany_last, hc]
    · refine hsingle closeCloseBracket ']' (n := (b.takeWhile isBlank).length)
        (by simp [jsonRules]) rfl hsplit ?_
      simp [closeCloseBracket, Pattern.span?, Part.blanks, Part.char, Pattern.takeMany,
        Pattern.takeMany_last, hopen, hc]
  | @before c y hc hy hinfix =>
    obtain ⟨a, b, hs⟩ := hinfix
    have hsplit : s = a ++ c :: y :: b := by simp [← hs]
    simp only [List.mem_cons, List.not_mem_nil, or_false] at hy
    rcases hy with rfl | rfl
    · refine hsingle closeCloseBrace '\x7d' (n := (b.takeWhile isBlank).length)
        (by simp [jsonRules]) rfl hsplit ?_
      simp [closeCloseBrace, Pattern.span?, Part.blanks, Part.char, Part.blanks1,
        Pattern.takeMany, Pattern.takeMany_last, hopen, hc]
    · refine hsingle closeCloseBracket ']' (n := (b.takeWhile isBlank).length)
        (by simp [jsonRules]) rfl hsplit ?_
      simp [closeCloseBracket, Pattern.span?, Part.blanks, Part.char, Pattern.takeMany,
        Pattern.takeMany_last, hopen, hc]
  | @between x y gap hxy hgap hne hinfix =>
    obtain ⟨a, b, hs⟩ := hinfix
    have hsplit : s = a ++ x :: (gap ++ y :: b) := by simp [← hs]
    have hrule : closeBetween x y ∈ jsonRules ∧ isBlank y = false ∧ x ≠ y := by
      simp only [tightPairs, List.mem_cons, Prod.mk.injEq, List.not_mem_nil, or_false] at hxy
      rcases hxy with ⟨rfl, rfl⟩ | ⟨rfl, rfl⟩ | ⟨rfl, rfl⟩ | ⟨rfl, rfl⟩ | ⟨rfl, rfl⟩ | ⟨rfl, rfl⟩
        <;>
        exact ⟨by simp [jsonRules], by decide, by decide⟩
    have hspan := Pattern.span?_char_blanks_char (x := x) hgap hrule.2.1 b
    have hlength : 0 < gap.length := List.length_pos_iff.2 hne
    exact hshort _ hrule.1 hsplit hspan (by simpa [closeBetween] using hrule.2.2)
      (by simpa [closeBetween] using hlength)
  | @double c d hc hd hinfix =>
    obtain ⟨a, b, hs⟩ := hinfix
    have hsplit : s = a ++ ',' :: c :: d :: b := by simp [← hs]
    have hspan : closeComma.pattern.span? (',' :: c :: d :: b) =
        some ((b.takeWhile isBlank).length + 3) := by
      simp [closeComma, Pattern.span?, Part.char, Part.blanks1, Pattern.takeMany_last, hc, hd]
    exact hshort closeComma (by simp [jsonRules]) hsplit hspan (by simp [closeComma])
      (by simp [closeComma])

/-! ## Minified texts -/

/-- If a row of substitutions changes nothing, none of them does. -/
theorem apply_eq_self_of_applyAll {rs : List Substitution}
    (htrims : ∀ r ∈ rs, Trims r.pattern r.replacement) {s : List Char}
    (h : Substitution.applyAll rs s = s) : ∀ r ∈ rs, r.apply s = s := by
  induction rs with
  | nil => exact fun _ hr => absurd hr List.not_mem_nil
  | cons r rs ih =>
    have hlater := fun q hq => htrims q (List.mem_cons_of_mem r hq)
    obtain ⟨hr, hrest⟩ :=
      (comp_eq_self_iff (lightens_apply (htrims r List.mem_cons_self))
        (lightens_applyAll hlater)).1 h
    exact List.forall_mem_cons.2 ⟨hr, ih hlater hrest⟩

theorem applyAll_eq_self {rs : List Substitution} {s : List Char} (h : ∀ r ∈ rs, r.apply s = s) :
    Substitution.applyAll rs s = s := by
  induction rs with
  | nil => rfl
  | cons r rs ih =>
    rw [Substitution.applyAll, List.foldl_cons, h r List.mem_cons_self]
    exact ih fun q hq => h q (List.mem_cons_of_mem r hq)

/-- A text that ends with no opening bracket is minified already exactly if it is tight. -/
theorem json_eq_self_iff {s : List Char} (hlast : s.getLast? ≠ some '[') : json s = s ↔
    ¬ Loose s := by
  refine (Minifier.minify_eq_self_iff (m := .json)).trans ⟨fun hpass => ?_, fun hs => ?_⟩
  · exact not_loose_of_apply (apply_eq_self_of_applyAll trims_jsonRules hpass)
  · exact applyAll_eq_self (apply_of_not_loose hs hlast)

end Reindent.Minify
