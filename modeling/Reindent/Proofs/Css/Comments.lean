import Mathlib
import Reindent.Css.Walk
import Reindent.Proofs.Marker
import Reindent.Proofs.Text.Cuts
import Reindent.Proofs.Text.Patterns
import Reindent.Proofs.Walks

/-!
# Comments in laid-out CSS

A comment starts with a slash and a star and goes on to the nearest star and slash behind them, or
to the end of the text. What a text holds in comments, blanks apart, is found by reading it from
the left with a small memory (`Place`); characters that are no part of a delimiter do not change
what comes after them, so marks and line starts next to them are harmless. The one step that tears
a delimiter apart is the mark in front of an opening one: where a comment is followed by a star,
its own slash and that star look like an opening delimiter, and the comment is no longer closed.
-/

namespace Reindent.Css

open Text

/-! ## The comments of a text -/

/-- A comment of a text, and the character right behind it if there is one. -/
structure Comment where
  text : List Char
  next : Option Char
deriving DecidableEq, Repr

/-- Puts a character in front of the first comment. -/
def Comment.extend (c : Char) : List Comment → List Comment
  | [] => []
  | k :: ks => { k with text := c :: k.text } :: ks

/-- The comments of a text that starts outside (`false`) or inside (`true`) a comment; in the
second case the first one is the rest of that comment. -/
def commentsFrom : Bool → List Char → List Comment
  | false, [] => []
  | false, '/' :: '*' :: s => Comment.extend '/' (Comment.extend '*' (commentsFrom true s))
  | false, _ :: s => commentsFrom false s
  | true, [] => [⟨[], none⟩]
  | true, '*' :: '/' :: s => ⟨['*', '/'], s.head?⟩ :: commentsFrom false s
  | true, c :: s => Comment.extend c (commentsFrom true s)

/-- The comments of a text, from the left. -/
def comments (s : List Char) : List Comment :=
  commentsFrom false s

/-- The texts of comments without their blanks. -/
def bareTexts (ks : List Comment) : List (List Char) :=
  ks.map fun k => deleteBlanks k.text

/-! ## Reading with a memory of one character -/

/-- What is known of a position from the characters before it. -/
inductive Place where
  /-- Outside comments. -/
  | outside
  /-- Outside comments, right behind a slash. -/
  | slash
  /-- Right behind a comment. -/
  | closed
  /-- Inside a comment. -/
  | inside
  /-- Inside a comment, right behind a star that may close it. -/
  | star
deriving DecidableEq, Repr

namespace Place

/-- Whether the position is inside a comment. -/
def isInside : Place → Bool
  | .inside | .star => true
  | _ => false

/-- The place behind a character that is no part of a delimiter. -/
def idle (p : Place) : Place :=
  if p.isInside then .inside else .outside

/-- The place behind a character. -/
def next (p : Place) (c : Char) : Place :=
  if c = '*' then
    if p = .slash then .inside else if p.isInside then .star else .outside
  else if c = '/' then
    if p = .star then .closed else if p.isInside then .inside else .slash
  else p.idle

@[simp] theorem isInside_idle (p : Place) : p.idle.isInside = p.isInside := by
  cases p <;> rfl

@[simp] theorem idle_idle (p : Place) : p.idle.idle = p.idle := by
  cases p <;> rfl

theorem next_of_ne {c : Char} (hstar : c ≠ '*') (hslash : c ≠ '/') (p : Place) :
    p.next c = p.idle := by
  rw [next, if_neg hstar, if_neg hslash]

end Place

/-- What a character at a place adds to the comments in the text behind it. Gaps add nothing. -/
def add (gap : Char → Bool) (p : Place) (c : Char) (found : List (List Char)) : List (List Char) :=
  if gap c then found
  else if p = .star ∧ c = '/' then ['/'] :: found
  else if p = .slash ∧ c = '*' then consFirst '/' (consFirst '*' found)
  else if p.isInside then consFirst c found
  else found

/-- The comments in a text that starts at a place, without gaps. -/
def bare (gap : Char → Bool) : Place → List Char → List (List Char)
  | p, [] => if p.isInside then [[]] else []
  | p, c :: s => add gap p c (bare gap (p.next c) s)

/-- No star stands right behind a comment. -/
def clear : Place → List Char → Bool
  | _, [] => true
  | p, c :: s => !(p = .closed && c = '*') && clear (p.next c) s

theorem bare_cons (gap : Char → Bool) (p : Place) (c : Char) (s : List Char) :
    bare gap p (c :: s) = add gap p c (bare gap (p.next c) s) := rfl

theorem clear_cons (p : Place) (c : Char) (s : List Char) :
    clear p (c :: s) = (!(p = .closed && c = '*') && clear (p.next c) s) := rfl

/-! ### The memory finds the comments -/

theorem extend_ne_nil {c : Char} {ks : List Comment} (hks : ks ≠ []) :
    Comment.extend c ks ≠ [] := by
  obtain ⟨k, ks, rfl⟩ := List.exists_cons_of_ne_nil hks
  simp [Comment.extend]

theorem bareTexts_extend (c : Char) {ks : List Comment} (hks : ks ≠ []) :
    bareTexts (Comment.extend c ks) = if isBlank c then bareTexts ks
    else consFirst c (bareTexts ks) := by
  obtain ⟨k, ks, rfl⟩ := List.exists_cons_of_ne_nil hks
  by_cases hc : isBlank c = true <;> simp [bareTexts, Comment.extend, deleteBlanks, consFirst, hc]

theorem forall_next_extend (c : Char) (ks : List Comment) :
    (∀ k ∈ Comment.extend c ks, k.next ≠ some '*') ↔ ∀ k ∈ ks, k.next ≠ some '*' := by
  cases ks with
  | nil => simp [Comment.extend]
  | cons k ks => simp [Comment.extend]

theorem commentsFrom_true_ne_nil (s : List Char) : commentsFrom true s ≠ [] := by
  induction s with
  | nil => simp [commentsFrom]
  | cons c s ih =>
    rw [commentsFrom.eq_def]
    split
    · contradiction
    · contradiction
    · contradiction
    · simp
    · simp
    · rename_i heq
      obtain ⟨rfl, rfl⟩ := List.cons.inj heq
      exact extend_ne_nil ih

/-- Behind a comment, comments are found as anywhere outside. -/
theorem bare_closed (gap : Char → Bool) (s : List Char) :
    bare gap .closed s = bare gap .outside s := by
  cases s with
  | nil => rfl
  | cons c s => simp [bare_cons, add, Place.next, Place.isInside, Place.idle]

theorem clear_closed (s : List Char) :
    clear .closed s = (s.head? ≠ some '*' && clear .outside s) := by
  cases s with
  | nil => rfl
  | cons c s => simp [clear_cons, Place.next, Place.isInside, Place.idle]

/-- A slash that no star follows is forgotten. -/
theorem forget_slash (gap : Char → Bool) {s : List Char} (h : s.head? ≠ some '*') :
    bare gap .slash s = bare gap .outside s ∧ clear .slash s = clear .outside s := by
  cases s with
  | nil => exact ⟨rfl, rfl⟩
  | cons c s =>
    have hc : c ≠ '*' := by simpa using h
    simp [bare_cons, clear_cons, add, Place.next, Place.isInside, Place.idle, hc]

/-- A star that no slash follows is forgotten. -/
theorem forget_star (gap : Char → Bool) {s : List Char} (h : s.head? ≠ some '/') :
    bare gap .star s = bare gap .inside s ∧ clear .star s = clear .inside s := by
  cases s with
  | nil => exact ⟨rfl, rfl⟩
  | cons c s =>
    have hc : c ≠ '/' := by simpa using h
    simp [bare_cons, clear_cons, add, Place.next, Place.isInside, Place.idle, hc]

theorem bare_idle (gap : Char → Bool) {p : Place} (hp : p ≠ .star) {s : List Char}
    (h : s.head? ≠ some '*') :
    bare gap p.idle s = bare gap p s := by
  cases p with
  | outside => rfl
  | slash => exact (forget_slash gap h).1.symm
  | closed => exact (bare_closed gap s).symm
  | inside => rfl
  | star => exact absurd rfl hp

/-- The place at which a text starts. -/
def startPlace : Bool → Place
  | true => .inside
  | false => .outside

/-- Reading with the memory finds the comments, and whether a star follows one. -/
theorem commentsFrom_spec (inside : Bool) (s : List Char) :
    bareTexts (commentsFrom inside s) = bare isBlank (startPlace inside) s ∧
      ((∀ k ∈ commentsFrom inside s, k.next ≠ some '*') ↔ clear (startPlace inside) s = true) := by
  fun_induction commentsFrom inside s with
  | case1 => simp [bareTexts, bare, clear, startPlace, Place.isInside]
  | case2 s ih =>
    rw [bareTexts_extend _ (extend_ne_nil (commentsFrom_true_ne_nil s)),
      bareTexts_extend _ (commentsFrom_true_ne_nil s), forall_next_extend, forall_next_extend,
      ih.1, ih.2]
    exact ⟨rfl, Iff.rfl⟩
  | case3 c s hopen ih =>
    rw [ih.1, ih.2]
    by_cases hc : c = '/'
    · subst hc
      have hhead : s.head? ≠ some '*' := by
        intro h
        obtain ⟨t, rfl⟩ := List.head?_eq_some_iff.1 h
        exact hopen t rfl rfl
      obtain ⟨hbare, hclear⟩ := forget_slash isBlank hhead
      exact ⟨hbare.symm, hclear ▸ Iff.rfl⟩
    · by_cases hstar : c = '*' <;>
        simp [bare_cons, clear_cons, add, startPlace, Place.next, Place.isInside, Place.idle,
          hc, hstar]
  | case4 => simp [bareTexts, bare, clear, startPlace, Place.isInside, deleteBlanks]
  | case5 s ih =>
    have hbare : bare isBlank (startPlace true) ('*' :: '/' :: s) =
        ['*', '/'] :: bare isBlank .closed s := rfl
    have hclear : clear (startPlace true) ('*' :: '/' :: s) = clear .closed s := rfl
    rw [List.forall_mem_cons, ih.2, bareTexts, List.map_cons, ← bareTexts, ih.1, hbare, hclear,
      bare_closed, clear_closed]
    simp [deleteBlanks, isBlank, startPlace]
  | case6 c s hclose ih =>
    rw [bareTexts_extend _ (commentsFrom_true_ne_nil s), forall_next_extend, ih.1, ih.2]
    by_cases hc : c = '*'
    · subst hc
      have hhead : s.head? ≠ some '/' := by
        intro h
        obtain ⟨t, rfl⟩ := List.head?_eq_some_iff.1 h
        exact hclose t rfl rfl
      obtain ⟨hbare, hclear⟩ := forget_star isBlank hhead
      exact ⟨congrArg (consFirst '*') hbare.symm, hclear ▸ Iff.rfl⟩
    · by_cases hslash : c = '/' <;>
        simp [bare_cons, clear_cons, add, startPlace, Place.next, Place.isInside, Place.idle,
          hc, hslash]

/-! ## Changes of gaps -/

/-- Blanks and marks. -/
def isGap (mark c : Char) : Bool :=
  isBlank c || c == mark

/-- Two texts have the same comments, gaps apart, wherever they start, and stars follow comments in
both or in neither. -/
def SameComments (mark : Char) (s t : List Char) : Prop :=
  ∀ p, bare (isGap mark) p s = bare (isGap mark) p t ∧ clear p s = clear p t

variable {mark : Char}

/-- The characters of delimiters are no gaps. -/
def SparesDelimiters (gap : Char → Bool) : Prop :=
  gap '*' = false ∧ gap '/' = false

theorem sparesDelimiters_isBlank : SparesDelimiters isBlank :=
  ⟨by decide, by decide⟩

theorem sparesDelimiters_isGap (hm : Marker.IsCandidate mark) : SparesDelimiters (isGap mark) := by
  have hstar := hm.ne_of_toNat (c := '*') (by decide) (by decide)
  have hslash := hm.ne_of_toNat (c := '/') (by decide) (by decide)
  exact ⟨by simp [isGap, isBlank, hstar], by simp [isGap, isBlank, hslash]⟩

theorem isGap_of_isBlank {c : Char} (h : isBlank c = true) : isGap mark c = true := by
  rw [isGap, h, Bool.true_or]

theorem isGap_mark : isGap mark mark = true := by
  rw [isGap, beq_self_eq_true, Bool.or_true]

/-- Gaps only end what a slash or a star has begun. -/
theorem bare_gaps {gap : Char → Bool} (hgap : SparesDelimiters gap) {run : List Char}
    (hne : run ≠ []) (hrun : ∀ c ∈ run, gap c = true) (p : Place) (s : List Char) :
    bare gap p (run ++ s) = bare gap p.idle s ∧ clear p (run ++ s) = clear p.idle s := by
  induction run generalizing p with
  | nil => exact absurd rfl hne
  | cons c run ih =>
    have hc := hrun c List.mem_cons_self
    have hstar : c ≠ '*' := by
      rintro rfl
      rw [hgap.1] at hc
      cases hc
    have hslash : c ≠ '/' := by
      rintro rfl
      rw [hgap.2] at hc
      cases hc
    have hcons : bare gap p (c :: (run ++ s)) = bare gap p.idle (run ++ s) ∧
        clear p (c :: (run ++ s)) = clear p.idle (run ++ s) := by
      rw [bare_cons, clear_cons, add, if_pos hc, Place.next_of_ne hstar hslash]
      simp [hstar]
    rw [List.cons_append, hcons.1, hcons.2]
    cases run with
    | nil => exact ⟨rfl, rfl⟩
    | cons d run =>
      have := ih (by simp) (fun x hx => hrun x (List.mem_cons_of_mem c hx)) p.idle
      rwa [Place.idle_idle] at this

theorem bare_mark (hm : Marker.IsCandidate mark) (p : Place) (s : List Char) :
    bare (isGap mark) p (mark :: s) = bare (isGap mark) p.idle s ∧
    clear p (mark :: s) = clear p.idle s :=
  bare_gaps (sparesDelimiters_isGap hm) (List.cons_ne_nil mark [])
    (List.forall_mem_singleton.2 isGap_mark) p s

namespace SameComments

theorem refl (s : List Char) : SameComments mark s s :=
  fun _ => ⟨rfl, rfl⟩

theorem trans {s t u : List Char} (hst : SameComments mark s t) (htu : SameComments mark t u) :
    SameComments mark s u :=
  fun p => ⟨(hst p).1.trans (htu p).1, (hst p).2.trans (htu p).2⟩

theorem cons (c : Char) {s t : List Char} (h : SameComments mark s t) :
    SameComments mark (c :: s) (c :: t) := by
  intro p
  rw [bare_cons, bare_cons, clear_cons, clear_cons, (h (p.next c)).1, (h (p.next c)).2]
  exact ⟨rfl, rfl⟩

/-- One run of gaps is as good as another. -/
theorem gaps (hm : Marker.IsCandidate mark) {run run' s t : List Char}
    (hne : run ≠ []) (hne' : run' ≠ []) (hrun : ∀ c ∈ run, isGap mark c = true)
    (hrun' : ∀ c ∈ run', isGap mark c = true) (h : SameComments mark s t) :
    SameComments mark (run ++ s) (run' ++ t) := by
  intro p
  obtain ⟨hbare, hclear⟩ := bare_gaps (sparesDelimiters_isGap hm) hne hrun p s
  obtain ⟨hbare', hclear'⟩ := bare_gaps (sparesDelimiters_isGap hm) hne' hrun' p t
  rw [hbare, hclear, hbare', hclear']
  exact h p.idle

/-- A mark behind a character that is no part of a delimiter changes nothing. -/
theorem mark_after (hm : Marker.IsCandidate mark) {c : Char} (hstar : c ≠ '*') (hslash : c ≠ '/')
    {s t : List Char} (h : SameComments mark s t) :
    SameComments mark (c :: s) (c :: mark :: t) := by
  intro p
  obtain ⟨hbare, hclear⟩ := bare_mark hm p.idle t
  rw [Place.idle_idle] at hbare hclear
  rw [bare_cons, bare_cons, clear_cons, clear_cons, Place.next_of_ne hstar hslash, hbare, hclear,
    (h p.idle).1, (h p.idle).2]
  exact ⟨rfl, rfl⟩

/-- A mark in front of a character that is no part of a delimiter changes nothing. -/
theorem mark_before (hm : Marker.IsCandidate mark) {c : Char} (hstar : c ≠ '*') (hslash : c ≠ '/')
    {s t : List Char} (h : SameComments mark (c :: s) (c :: t)) :
    SameComments mark (c :: s) (mark :: c :: t) := by
  intro p
  obtain ⟨hbare, hclear⟩ := bare_mark hm p (c :: t)
  rw [hbare, hclear, ← (h p.idle).1, ← (h p.idle).2, bare_cons, bare_cons, clear_cons, clear_cons,
    Place.next_of_ne hstar hslash, Place.next_of_ne hstar hslash, Place.idle_idle]
  simp [add, hstar, hslash]

end SameComments

/-! ## The rules -/

theorem sameComments_collapse (hm : Marker.IsCandidate mark) (s : List Char) :
    SameComments mark s (Substitution.oneSpace.apply s) := by
  refine Substitution.rel_apply _ (.refl []) (fun c _ _ h => h.cons c) ?_ s
  intro m s t htakes h
  cases htakes with
  | many1 hrun hnil =>
    cases hnil
    rw [List.append_nil]
    exact SameComments.gaps hm (List.cons_ne_nil _ _) (List.cons_ne_nil _ _)
      (fun c hc => isGap_of_isBlank (hrun c hc))
      (List.forall_mem_singleton.2 (isGap_of_isBlank (by decide))) h

theorem sameComments_markBehind (hm : Marker.IsCandidate mark) {c : Char} (hstar : c ≠ '*')
    (hslash : c ≠ '/') (s : List Char) :
    SameComments mark s ((markBehind mark c).apply s) := by
  refine Substitution.rel_apply _ (.refl []) (fun c _ _ h => h.cons c) ?_ s
  intro m s t htakes h
  cases htakes with
  | one hc hnil =>
    cases hnil
    obtain rfl := beq_iff_eq.1 hc
    exact h.mark_after hm hstar hslash

theorem sameComments_markAround (hm : Marker.IsCandidate mark) {c : Char} (hstar : c ≠ '*')
    (hslash : c ≠ '/') (s : List Char) :
    SameComments mark s ((markAround mark c).apply s) := by
  refine Substitution.rel_apply _ (.refl []) (fun c _ _ h => h.cons c) ?_ s
  intro m s t htakes h
  cases htakes with
  | one hc hnil =>
    cases hnil
    obtain rfl := beq_iff_eq.1 hc
    exact (h.mark_after hm hstar hslash).mark_before hm hstar hslash

theorem sameComments_joinMarks (hm : Marker.IsCandidate mark) (s : List Char) :
    SameComments mark s ((joinMarks mark).apply s) := by
  refine Substitution.rel_apply _ (.refl []) (fun c _ _ h => h.cons c) ?_ s
  intro m s t htakes h
  cases htakes with
  | one hfirst htakes =>
    cases htakes with
    | many hrun htakes =>
      cases htakes with
      | one hlast hnil =>
        cases hnil
        rw [beq_iff_eq] at hfirst hlast
        subst hfirst hlast
        refine SameComments.gaps hm (List.cons_ne_nil _ _) (List.cons_ne_nil _ _) ?_
          (List.forall_mem_singleton.2 isGap_mark) h
        intro c hc
        simp only [List.mem_cons, List.mem_append, List.not_mem_nil, or_false] at hc
        rcases hc with rfl | hc | rfl
        · exact isGap_mark
        · exact isGap_of_isBlank (hrun c hc)
        · exact isGap_mark

/-! ### Marks next to delimiters -/

/-- Some text is shorter than the one at its place in the second list and starts it, and the texts
before it are the same in both lists. -/
inductive Outgrows : List (List Char) → List (List Char) → Prop where
  | here {x y : List Char} {xs ys : List (List Char)} (h : x <+: y) (hne : x ≠ y) :
      Outgrows (x :: xs) (y :: ys)
  | there {x : List Char} {xs ys : List (List Char)} (h : Outgrows xs ys) :
      Outgrows (x :: xs) (x :: ys)

namespace Outgrows

theorem ne {xs ys : List (List Char)} (h : Outgrows xs ys) : xs ≠ ys := by
  induction h with
  | here _ hne => simp [hne]
  | there _ ih => simp [ih]

theorem consFirst (c : Char) {xs ys : List (List Char)} (h : Outgrows xs ys) :
    Outgrows (Text.consFirst c xs) (Text.consFirst c ys) := by
  cases h with
  | here h hne => exact .here (List.cons_prefix_cons.2 ⟨rfl, h⟩) (by simpa using hne)
  | there h => exact .there h

theorem add (gap : Char → Bool) (p : Place) (c : Char)
    {xs ys : List (List Char)} (h : Outgrows xs ys) :
    Outgrows (Css.add gap p c xs) (Css.add gap p c ys) := by
  unfold Css.add
  split
  · exact h
  · split
    · exact .there h
    · split
      · exact (h.consFirst '*').consFirst '/'
      · split
        · exact h.consFirst c
        · exact h

end Outgrows

theorem markOpening_pair (mark : Char) (s : List Char) :
    (markOpening mark).apply ('/' :: '*' :: s) =
      mark :: '/' :: '*' :: (markOpening mark).apply s := by
  simp [markOpening, Substitution.apply, Substitution.applyFrom, Pattern.span?, Part.char]

theorem markOpening_cons (mark : Char) {c : Char} {s : List Char}
    (h : ∀ t, c = '/' → s ≠ '*' :: t) :
    (markOpening mark).apply (c :: s) = c :: (markOpening mark).apply s := by
  refine Substitution.apply_cons_of_not_takes _ ?_
  intro m rest hsplit _ htakes
  cases htakes with
  | one hc htakes =>
    cases htakes with
    | one hd hnil =>
      cases hnil
      rw [beq_iff_eq] at hc hd
      subst hc hd
      obtain ⟨rfl, rfl⟩ := List.cons.inj hsplit
      exact h rest rfl rfl

/-- An opening delimiter outside a comment starts one, and inside a comment its star may close
it. -/
theorem bare_opening (hm : Marker.IsCandidate mark) {p : Place} (hp : p ≠ .star) (s : List Char) :
    bare (isGap mark) p ('/' :: '*' :: s) =
        consFirst '/' (consFirst '*' (bare (isGap mark)
          (if p.isInside then .star else .inside) s)) ∧
      clear p ('/' :: '*' :: s) = clear (if p.isInside then .star else .inside) s := by
  obtain ⟨hstar, hslash⟩ := sparesDelimiters_isGap hm
  cases p <;> simp_all [bare_cons, clear_cons, add, Place.next, Place.isInside]

/-- A mark in front of opening delimiters keeps the comments if no star stands right behind a
comment. If one does, the comment goes on. -/
theorem bare_markOpening (hm : Marker.IsCandidate mark) (s : List Char) (p : Place)
    (hp : p = .closed → s.head? ≠ some '*') :
    (clear p s = true → bare (isGap mark) p ((markOpening mark).apply s) = bare (isGap mark) p s) ∧
      (clear p s = false → Outgrows (bare (isGap mark) p s)
        (bare (isGap mark) p ((markOpening mark).apply s))) := by
  induction hlen : s.length using Nat.strong_induction_on generalizing s p with
  | _ n ih =>
    subst hlen
    cases s with
    | nil => exact ⟨fun _ => rfl, nofun⟩
    | cons c s =>
      by_cases hopen : ∃ t, c = '/' ∧ s = '*' :: t
      · obtain ⟨t, rfl, rfl⟩ := hopen
        have hidle : p.idle ≠ .star := by cases p <;> decide
        rw [markOpening_pair, (bare_mark hm p _).1, (bare_opening hm hidle _).1,
          Place.isInside_idle]
        by_cases hstar : p = .star
        · -- The slash would have closed the comment.
          subst hstar
          have hslash := (sparesDelimiters_isGap hm).2
          have hclosed : bare (isGap mark) .star ('/' :: '*' :: t) =
              ['/'] :: bare (isGap mark) .closed ('*' :: t) := by
            rw [bare_cons, add, if_neg (by simp [hslash]), if_pos ⟨rfl, rfl⟩]
            rfl
          refine ⟨nofun, fun _ => ?_⟩
          obtain ⟨x, xs, hx⟩ : ∃ x xs, consFirst '/' (consFirst '*' (bare (isGap mark)
              (if Place.star.isInside then .star else .inside) ((markOpening mark).apply t))) =
                ('/' :: '*' :: x) :: xs := by
            cases bare (isGap mark) _ ((markOpening mark).apply t) <;> simp [consFirst]
          rw [hclosed, hx]
          exact .here (List.cons_prefix_cons.2 ⟨rfl, List.nil_prefix⟩) (by simp)
        · rw [(bare_opening hm hstar t).1, (bare_opening hm hstar t).2]
          obtain ⟨hsame, hgrows⟩ := ih t.length (by simp) t (if p.isInside then .star else .inside)
            (by split <;> simp) rfl
          exact ⟨fun h => by rw [hsame h], fun h => ((hgrows h).consFirst '*').consFirst '/'⟩
      · have hkeep : ∀ t, c = '/' → s ≠ '*' :: t := fun t hc hs => hopen ⟨t, hc, hs⟩
        rw [markOpening_cons mark hkeep, bare_cons, bare_cons, clear_cons]
        have hclosed : p.next c = .closed → s.head? ≠ some '*' := by
          intro hnext hhead
          obtain ⟨t, rfl⟩ := List.head?_eq_some_iff.1 hhead
          refine hkeep t ?_ rfl
          unfold Place.next Place.idle at hnext
          grind
        obtain ⟨hsame, hgrows⟩ := ih s.length (by simp) s (p.next c) hclosed rfl
        have hfree : (!(p = .closed && c = '*')) = true := by
          simpa [imp_iff_not_or] using hp
        rw [hfree, Bool.true_and]
        exact ⟨fun h => congrArg _ (hsame h), fun h => (hgrows h).add _ p c⟩

theorem exists_star_of_markOpening (hm : Marker.IsCandidate mark) {s : List Char}
    (h : ['*'] <+: (markOpening mark).apply s) : ∃ t, s = '*' :: t := by
  cases s with
  | nil => simp [Substitution.apply, Substitution.applyFrom] at h
  | cons c s =>
    by_cases hopen : ∃ t, c = '/' ∧ s = '*' :: t
    · obtain ⟨t, rfl, rfl⟩ := hopen
      rw [markOpening_pair, List.cons_prefix_cons] at h
      exact absurd h.1 (hm.ne_of_toNat (by decide) (by decide))
    · rw [markOpening_cons mark fun t hc hs => hopen ⟨t, hc, hs⟩, List.cons_prefix_cons] at h
      exact ⟨s, by rw [h.1]⟩

/-- Behind a star no opening delimiter is left. -/
theorem not_infix_markOpening (hm : Marker.IsCandidate mark) (s : List Char) :
    ¬ ['*', '/', '*'] <:+: (markOpening mark).apply s ∧
    ¬ ['/', '*'] <+: (markOpening mark).apply s := by
  have hstar := hm.ne_of_toNat (c := '*') (by decide) (by decide)
  have hslash := hm.ne_of_toNat (c := '/') (by decide) (by decide)
  induction hlen : s.length using Nat.strong_induction_on generalizing s with
  | _ n ih =>
    subst hlen
    cases s with
    | nil => simp [Substitution.apply, Substitution.applyFrom]
    | cons c s =>
      by_cases hopen : ∃ t, c = '/' ∧ s = '*' :: t
      · obtain ⟨t, rfl, rfl⟩ := hopen
        obtain ⟨htriple, hopening⟩ := ih t.length (by simp) t rfl
        rw [markOpening_pair]
        simp only [List.infix_cons_iff, List.cons_prefix_cons]
        exact ⟨by grind, by grind⟩
      · have hkeep : ∀ t, c = '/' → s ≠ '*' :: t := fun t hc hs => hopen ⟨t, hc, hs⟩
        obtain ⟨htriple, hopening⟩ := ih s.length (by simp) s rfl
        rw [markOpening_cons mark hkeep]
        refine ⟨?_, ?_⟩
        · simp only [List.infix_cons_iff, List.cons_prefix_cons]
          rintro (⟨-, h⟩ | h)
          · exact hopening h
          · exact htriple h
        · intro h
          obtain ⟨rfl, hhead⟩ := List.cons_prefix_cons.1 h
          obtain ⟨t, rfl⟩ := exists_star_of_markOpening hm hhead
          exact hkeep t rfl rfl

/-- A mark behind closing delimiters keeps the comments where no star follows such a delimiter. -/
theorem bare_markClosing (hm : Marker.IsCandidate mark) (s : List Char)
    (hs : ¬ ['*', '/', '*'] <:+: s) (p : Place) :
    bare (isGap mark) p ((markClosing mark).apply s) =
      bare (isGap mark) p s := by
  refine Substitution.rel_apply (markClosing mark)
    (R := fun s t => ¬ ['*', '/', '*'] <:+: s → ∀ p, bare (isGap mark) p t = bare (isGap mark) p s)
    (fun _ _ => rfl) ?_ ?_ s hs p
  · intro c s t h htriple p
    rw [bare_cons, bare_cons, h (fun hs => htriple (hs.trans (List.suffix_cons c s).isInfix))]
  · intro m s t htakes h htriple p
    cases htakes with
    | one hstar htakes =>
      cases htakes with
      | one hslash hnil =>
        cases hnil
        rw [beq_iff_eq] at hstar hslash
        subst hstar hslash
        have hhead : s.head? ≠ some '*' := by
          intro hhead
          obtain ⟨u, rfl⟩ := List.head?_eq_some_iff.1 hhead
          exact htriple ⟨[], u, rfl⟩
        have hrest := h fun hs => htriple (hs.trans (List.suffix_append ['*', '/'] s).isInfix)
        have hgap := (bare_mark hm ((p.next '*').next '/') t).1
        rw [hrest, bare_idle _ (by cases p <;> decide) hhead] at hgap
        exact congrArg (fun found => add _ p '*' (add _ (p.next '*') '/' found)) hgap

/-! ## Lines -/

theorem bare_append_congr {gap gap' : Char → Bool} {f s t : List Char}
    (hf : ∀ c ∈ f, gap c = gap' c) (h : ∀ p, bare gap p s = bare gap' p t) (p : Place) :
    bare gap p (f ++ s) = bare gap' p (f ++ t) := by
  induction f generalizing p with
  | nil => exact h p
  | cons c f ih =>
    rw [List.cons_append, List.cons_append, bare_cons, bare_cons, add, add,
      hf c List.mem_cons_self, ih fun d hd => hf d (List.mem_cons_of_mem c hd)]

theorem exists_line_eq (table : IndentTable) (state : State) (f : List Char) :
    ∃ depth, (move state f).line table = table.lineStart depth ++ f := by
  unfold move
  cases classify f <;> exact ⟨_, rfl⟩

/-- Lines in place of marks keep the comments. -/
theorem bare_written (hm : Marker.IsCandidate mark) {table : IndentTable}
    (hunit : ∀ c ∈ table.unit, isBlank c = true) {fs : List (List Char)} (hne : fs ≠ [])
    (hfs : ∀ f ∈ fs, mark ∉ f) (state : State) (p : Place) :
    bare isBlank p (written table move state fs) =
      bare (isGap mark) p.idle ([mark].intercalate fs) := by
  induction fs generalizing state p with
  | nil => exact absurd rfl hne
  | cons f fs ih =>
    obtain ⟨depth, hline⟩ := exists_line_eq table state f
    have hstart : table.lineStart depth ≠ [] := List.cons_ne_nil _ _
    have hf : ∀ c ∈ f, isBlank c = isGap mark c := by
      intro c hc
      have : c ≠ mark := fun h => hfs f List.mem_cons_self (h ▸ hc)
      simp [isGap, this]
    rw [written_cons, hline, List.append_assoc,
      (bare_gaps sparesDelimiters_isBlank hstart
        (fun c => table.isBlank_of_mem_lineStart hunit) p _).1]
    cases fs with
    | nil =>
      have := bare_append_congr hf (s := []) (t := []) (fun _ => rfl) p.idle
      simpa using this
    | cons g fs =>
      have hrest :=
        ih (by simp) (fun x hx => hfs x (List.mem_cons_of_mem f hx)) (move state f).next
      have hmark : ∀ q, bare isBlank q (written table move (move state f).next (g :: fs)) =
          bare (isGap mark) q (mark :: [mark].intercalate (g :: fs)) := by
        intro q
        rw [hrest, (bare_mark hm q _).1]
      have := bare_append_congr hf hmark p.idle
      simpa using this

/-! ## Whole texts -/

theorem pretty_of_clamp {table : IndentTable} (hclamp : table.overflow = .clamp) {text : List Char}
    (hmark : Marker.pick? text = some mark) : pretty table text =
      .ok ((written table move {} (splitWith mark text)).dropWhile (· == '\n')) := by
  unfold pretty split render
  rw [hmark]
  simp only [walkThrough_of_clamp hclamp]
  rfl

/-- The marks keep the comments if no star stands right behind a comment, and if one does, a
comment grows. -/
theorem bare_splitRules (hm : Marker.IsCandidate mark) (text : List Char) :
    (clear .outside text = true → bare (isGap mark) .outside
      (Substitution.applyAll (splitRules mark) text) = bare (isGap mark) .outside text) ∧
      (clear .outside text = false → Outgrows (bare (isGap mark) .outside text)
        (bare (isGap mark) .outside (Substitution.applyAll (splitRules mark) text))) := by
  -- Of the seven rules only the fifth, which marks opening delimiters, can change the comments.
  have hrules : ∀ s, SameComments mark text s →
      let marked := (joinMarks mark).apply ((markClosing mark).apply ((markOpening mark).apply s))
      (clear .outside text = true → bare (isGap mark) .outside marked =
        bare (isGap mark) .outside text) ∧ (clear .outside text = false →
          Outgrows (bare (isGap mark) .outside text) (bare (isGap mark) .outside marked)) := by
    intro s hs
    simp only
    rw [(hs .outside).1, (hs .outside).2, ← (sameComments_joinMarks hm _ .outside).1,
      bare_markClosing hm _ (not_infix_markOpening hm s).1]
    exact bare_markOpening hm s .outside nofun
  refine hrules _ ?_
  exact (((sameComments_collapse hm text).trans
    (sameComments_markBehind hm (c := '\x7b') (by decide) (by decide) _)).trans
    (sameComments_markAround hm (c := '\x7d') (by decide) (by decide) _)).trans
    (sameComments_markBehind hm (c := ';') (by decide) (by decide) _)

theorem bare_dropWhile_newline (s : List Char) :
    bare isBlank .outside (s.dropWhile (· == '\n')) = bare isBlank .outside s := by
  conv_rhs => rw [← List.takeWhile_append_dropWhile (p := (· == '\n')) (l := s)]
  by_cases hne : s.takeWhile (· == '\n') = []
  · rw [hne, List.nil_append]
  · have hblank : ∀ c ∈ s.takeWhile (· == '\n'), isBlank c = true := by
      intro c hc
      have hnewline : (c == '\n') = true := List.mem_takeWhile_imp (p := (· == '\n')) hc
      rw [beq_iff_eq.1 hnewline]
      exact isBlank_newline
    exact (bare_gaps sparesDelimiters_isBlank hne hblank .outside _).1.symm

/-- With blank indentation and a free mark, a laid-out text has the comments of the text, blanks
apart, exactly if no star stands right behind a comment. -/
theorem bareTexts_pretty_iff (table : IndentTable) (hclamp : table.overflow = .clamp)
    (hunit : ∀ c ∈ table.unit, isBlank c = true) (text : List Char)
    (hmark : (Marker.pick? text).isSome = true) :
    ∃ out, pretty table text = .ok out ∧
      (bareTexts (comments out) = bareTexts (comments text) ↔
        ∀ k ∈ comments text, k.next ≠ some '*') := by
  obtain ⟨mark, hpick⟩ := Option.isSome_iff_exists.1 hmark
  obtain ⟨hm, hfree⟩ := Marker.pick?_eq_some hpick
  refine ⟨_, pretty_of_clamp hclamp hpick, ?_⟩
  have hout : bareTexts (comments
      ((written table move {} (splitWith mark text)).dropWhile (· == '\n'))) =
      bare (isGap mark) .outside (Substitution.applyAll (splitRules mark) text) := by
    rw [comments, (commentsFrom_spec false _).1, startPlace, bare_dropWhile_newline, splitWith,
      bare_written hm hunit (splitOn_ne_nil mark _) (fun f hf => notMem_of_mem_splitOn hf),
      intercalate_splitOn]
    rfl
  have htext : bareTexts (comments text) = bare (isGap mark) .outside text := by
    have hgap : ∀ c ∈ text, isBlank c = isGap mark c := by
      intro c hc
      have : c ≠ mark := fun h => hfree (h ▸ hc)
      simp [isGap, this]
    have := bare_append_congr hgap (s := []) (t := []) (fun _ => rfl) .outside
    rw [comments, (commentsFrom_spec false text).1, startPlace]
    simpa using this
  obtain ⟨hsame, hgrows⟩ := bare_splitRules hm text
  rw [hout, htext, comments, (commentsFrom_spec false text).2, startPlace]
  constructor
  · intro heq
    by_contra hclear
    exact (hgrows (by simpa using hclear)).ne heq.symm
  · exact hsame

/-- A comment in front of a block and one that holds a delimiter are kept. -/
theorem bareTexts_pretty_block :
    let text := "/* a */ b\x7b/*/ c */d:e\x7d".toList
    IndentTable.default.overflow = .clamp ∧ (∀ c ∈ IndentTable.default.unit, isBlank c = true) ∧
      (Marker.pick? text).isSome = true ∧ (∀ k ∈ comments text, k.next ≠ some '*') ∧
      ∃ out, pretty IndentTable.default text = .ok out ∧
        bareTexts (comments out) = bareTexts (comments text) ∧
        bareTexts (comments text) = ["/*a*/".toList, "/*/c*/".toList] := by
  intro text
  have hunit : ∀ c ∈ IndentTable.default.unit, isBlank c = true := List.all_eq_true.1 (by decide)
  have hnext : ∀ k ∈ comments text, k.next ≠ some '*' := by decide
  obtain ⟨out, hout, hkept⟩ := bareTexts_pretty_iff IndentTable.default rfl hunit text (by decide)
  exact ⟨rfl, hunit, by decide, hnext, out, hout, hkept.2 hnext, by decide⟩

/-- The closing delimiter in front of a universal selector is torn apart. -/
theorem pretty_opens_comment :
    let text := "/*a*/*\x7bb:c\x7d".toList
    ∃ out, pretty IndentTable.default text = .ok out ∧ out = "/*a*\n/*\x7b\n  b:c\n\x7d\n".toList ∧
      bareTexts (comments text) = ["/*a*/".toList] ∧
      bareTexts (comments out) = ["/*a*/*\x7bb:c\x7d".toList] :=
  ⟨_, rfl, by decide, by decide, by decide⟩

end Reindent.Css
