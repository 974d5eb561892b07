import Mathlib
import Reindent.Proofs.Css.Comments

/-!
# Where style sheets are broken

The seven rules that put marks into a style sheet amount to one reading of the collapsed text
(`breakUp`): a mark goes in front of a closing brace and of an opening delimiter, and behind a
brace, a semicolon and a closing delimiter, except where the slash of the closing delimiter and a
star behind it make an opening one. The last rule joins marks that have only blanks between them.
-/

namespace Reindent.Css

open Text

/-- Whether a line is broken in front of a character, given the text behind it. -/
def breaksBefore (c : Char) (s : List Char) : Bool :=
  c == '\x7d' || (c == '/' && s.head? == some '*')

/-- Characters behind which a line is always broken. -/
def endsLine (c : Char) : Bool :=
  c == '\x7b' || c == '\x7d' || c == ';'

/-- Whether a line is broken behind a character, given the character in front of it and the text
behind it. -/
def breaksAfter (previous : Option Char) (c : Char) (s : List Char) : Bool :=
  endsLine c || (previous == some '*' && c == '/' && s.head? != some '*')

/-- A text behind the character `previous` with a gap at each break. In front of the first
character of all there is no break. -/
def breakUp (gap : Char) : Option Char → List Char → List Char
  | _, [] => []
  | previous, c :: s =>
    (if previous.isSome && breaksBefore c s then [gap] else []) ++
      c :: ((if breaksAfter previous c s then [gap] else []) ++ breakUp gap (some c) s)

section

variable {mark : Char}

/-! ## The rules one by one -/

theorem markClosing_pair (mark : Char) (s : List Char) :
    (markClosing mark).apply ('*' :: '/' :: s) =
      '*' :: '/' :: mark :: (markClosing mark).apply s := by
  simp [markClosing, Substitution.apply, Substitution.applyFrom, Pattern.span?, Part.char]

theorem markClosing_cons (mark : Char) {c : Char} {s : List Char}
    (h : c = '*' → s.head? ≠ some '/') :
    (markClosing mark).apply (c :: s) = c :: (markClosing mark).apply s := by
  refine Substitution.apply_cons_of_not_takes _ fun m rest hm _ htakes => ?_
  rw [markClosing, takes_char_iff] at htakes
  obtain ⟨m, rfl, htakes⟩ := htakes
  obtain ⟨m, rfl, -⟩ := takes_char_iff.1 htakes
  obtain ⟨rfl, rfl⟩ := List.cons_eq_cons.1 hm
  exact h rfl rfl

theorem markClosing_append (mark : Char) {u : List Char} (hu : '*' ∉ u) (s : List Char) :
    (markClosing mark).apply (u ++ s) = u ++ (markClosing mark).apply s := by
  induction u with
  | nil => rfl
  | cons c u ih =>
    rw [List.mem_cons, not_or] at hu
    rw [List.cons_append, markClosing_cons mark fun hc => absurd hc.symm hu.1, ih hu.2,
      List.cons_append]

theorem markOpening_append (mark : Char) {u : List Char} (hu : '/' ∉ u) (s : List Char) :
    (markOpening mark).apply (u ++ s) = u ++ (markOpening mark).apply s := by
  induction u with
  | nil => rfl
  | cons c u ih =>
    rw [List.mem_cons, not_or] at hu
    rw [List.cons_append, markOpening_cons mark fun _ hc => absurd hc.symm hu.1, ih hu.2,
      List.cons_append]

/-! ## The rules together -/

/-- A character with the marks that it gets by itself. -/
def withMarks (mark c : Char) : List Char :=
  (if c == '\x7d' then [mark] else []) ++ c :: (if endsLine c then [mark] else [])

/-- A text with the marks around braces, behind semicolons and in front of opening delimiters. -/
def opened (mark : Char) : List Char → List Char
  | [] => []
  | c :: s =>
    (if breaksBefore c s then [mark] else []) ++ c ::
      ((if endsLine c then [mark] else []) ++ opened mark s)

theorem opened_cons_of_ne {c : Char} (hc : c ≠ '/') (s : List Char) :
    opened mark (c :: s) = withMarks mark c ++ opened mark s := by
  simp [opened, withMarks, breaksBefore, hc]

theorem opened_slash (s : List Char) : opened mark ('/' :: s) =
    (if s.head? == some '*' then [mark] else []) ++ '/' :: opened mark s := by
  simp [opened, breaksBefore, endsLine]

variable (hm : Marker.IsCandidate mark)

include hm

/-- Braces and semicolons are replaced one by one, so their rules work as one. -/
theorem apply_braces (s : List Char) :
    (markBehind mark ';').apply ((markAround mark '\x7d').apply
      ((markBehind mark '\x7b').apply s)) = s.flatMap (withMarks mark) := by
  have hclose := hm.ne_of_toNat (c := '\x7d') (by decide) (by decide)
  have hsemicolon := hm.ne_of_toNat (c := ';') (by decide) (by decide)
  rw [markBehind, markAround, markBehind, Substitution.apply_char, Substitution.apply_char,
    Substitution.apply_char, List.flatMap_assoc, List.flatMap_assoc]
  refine List.flatMap_congr fun c _ => ?_
  by_cases hbrace : c = '\x7b'
  · simp [hbrace, withMarks, endsLine, hclose.symm, hsemicolon.symm]
  · by_cases hbrace' : c = '\x7d'
    · simp [hbrace', withMarks, endsLine, hsemicolon.symm]
    · by_cases hend : c = ';'
      · simp [hend, withMarks, endsLine]
      · simp [hbrace, hbrace', hend, withMarks, endsLine]

theorem notMem_withMarks {c d : Char} (hlo : 0 < d.toNat) (hhi : d.toNat < 0xE000) (hd : d ≠ c) :
    d ∉ withMarks mark c := by
  have hmark := hm.ne_of_toNat hlo hhi
  unfold withMarks
  split_ifs <;> simp [hmark, hd]

theorem head?_flatMap_withMarks {s : List Char}
    (h : (s.flatMap (withMarks mark)).head? = some '*') :
    s.head? = some '*' := by
  cases s with
  | nil => cases h
  | cons c s =>
    by_contra hne
    have hc : '*' ≠ c := fun hc => hne (by rw [hc, List.head?_cons])
    have hnot := notMem_withMarks hm (c := c) (d := '*') (by decide) (by decide) hc
    have hmarks : withMarks mark c ≠ [] := by simp [withMarks]
    rw [List.flatMap_cons, List.head?_append_of_ne_nil _ hmarks] at h
    exact hnot (List.mem_of_head? h)

theorem markOpening_withMarks (s : List Char) :
    (markOpening mark).apply (s.flatMap (withMarks mark)) = opened mark s := by
  induction hn : s.length using Nat.strong_induction_on generalizing s with
  | _ n ih =>
    subst hn
    cases s with
    | nil => rfl
    | cons c s =>
      have htail := ih s.length (by simp) s rfl
      rw [List.flatMap_cons]
      by_cases hc : c = '/'
      · subst hc
        rw [opened_slash]
        by_cases hstar : s.head? = some '*'
        · obtain ⟨t, rfl⟩ := List.head?_eq_some_iff.1 hstar
          have hpair := markOpening_pair mark (t.flatMap (withMarks mark))
          rw [ih t.length (by simp) t rfl] at hpair
          rw [List.head?_cons, beq_self_eq_true, if_pos rfl, opened_cons_of_ne (by decide)]
          exact hpair
        · rw [if_neg (by simpa using hstar), ← htail]
          exact markOpening_cons mark fun t _ hs =>
            hstar (head?_flatMap_withMarks hm (congrArg List.head? hs))
      · rw [opened_cons_of_ne hc, markOpening_append mark
          (notMem_withMarks hm (by decide) (by decide) (Ne.symm hc)), htail]

/-- A slash stays at the start unless it begins an opening delimiter. -/
theorem head?_opened {s : List Char} (h : (opened mark s).head? = some '/') :
    ∃ t, s = '/' :: t ∧ t.head? ≠ some '*' := by
  have hslash := hm.ne_of_toNat (c := '/') (by decide) (by decide)
  cases s with
  | nil => cases h
  | cons c s =>
    by_cases hc : c = '/'
    · subst hc
      refine ⟨s, rfl, fun hstar => ?_⟩
      rw [opened_slash, hstar, beq_self_eq_true, if_pos rfl] at h
      exact hslash (Option.some.inj h).symm
    · have hnot := notMem_withMarks hm (c := c) (d := '/') (by decide) (by decide) (Ne.symm hc)
      have hmarks : withMarks mark c ≠ [] := by simp [withMarks]
      rw [opened_cons_of_ne hc, List.head?_append_of_ne_nil _ hmarks] at h
      exact absurd (List.mem_of_head? h) hnot

/-- The text may start behind a star only if no closing delimiter goes across: such a one is marked
with its star. -/
theorem markClosing_opened (s : List Char) (previous : Char)
    (hprevious : ∀ t, previous = '*' → s = '/' :: t → t.head? = some '*') :
    (markClosing mark).apply (opened mark s) = breakUp mark (some previous) s := by
  have hmark := hm.ne_of_toNat (c := '*') (by decide) (by decide)
  induction hn : s.length using Nat.strong_induction_on generalizing s previous with
  | _ n ih =>
    subst hn
    cases s with
    | nil => rfl
    | cons c s =>
      by_cases hpair : ∃ t, c = '*' ∧ s = '/' :: t ∧ t.head? ≠ some '*'
      · obtain ⟨t, rfl, rfl, hstar⟩ := hpair
        have htail := ih t.length (by simp) t '/' (fun _ h => absurd h (by decide)) rfl
        have hclosing := markClosing_pair mark (opened mark t)
        rw [htail] at hclosing
        rw [opened_cons_of_ne (by decide), opened_slash, if_neg (by simpa using hstar)]
        refine hclosing.trans ?_
        simp [breakUp, breaksBefore, breaksAfter, endsLine, hstar]
      · have hrest := ih s.length (by simp) s c (fun t hc hs => by
          by_contra hstar
          exact hpair ⟨t, hc, hs, hstar⟩) rfl
        have hgap : ∀ b : Bool, '*' ∉ if b then [mark] else [] := by
          intro b
          cases b <;> simp [hmark]
        have hslash : (some previous == some '*' && c == '/' && s.head? != some '*') = false := by
          by_contra h
          simp only [Bool.not_eq_false, Bool.and_eq_true, beq_iff_eq, Option.some.injEq,
            bne_iff_ne] at h
          exact h.2 (hprevious s h.1.1 (by rw [h.1.2]))
        have hkeep : c = '*' → ((if endsLine c then [mark] else []) ++ opened mark s).head? ≠
            some '/' := by
          rintro rfl hhead
          obtain ⟨t, ht, hstar⟩ := head?_opened hm hhead
          exact hpair ⟨t, rfl, ht, hstar⟩
        rw [opened, markClosing_append mark (hgap _), markClosing_cons mark hkeep,
          markClosing_append mark (hgap _), hrest, breakUp, breaksAfter, hslash, Bool.or_false]
        rfl

/-- The rules put marks at the breaks of the collapsed text and join those that have only blanks
between them. -/
theorem applyAll_splitRules (text : List Char) : Substitution.applyAll (splitRules mark) text =
    (joinMarks mark).apply (breakUp mark (some ' ') (collapse text)) := by
  rw [← markClosing_opened hm _ ' ' (fun _ h => absurd h (by decide)), ← markOpening_withMarks hm,
    ← apply_braces hm, ← Substitution.apply_oneSpace]
  rfl

end

end Reindent.Css
