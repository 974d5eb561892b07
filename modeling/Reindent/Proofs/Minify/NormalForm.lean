import Mathlib
import Reindent.Proofs.Css.Boundaries
import Reindent.Proofs.Minify.Content
import Reindent.Proofs.Minify.Tightness

/-!
# The normal form of minified XML and CSS

A pass puts together steps that each make a text lighter or leave it as it is, so a text that a
pass leaves as it is is left as it is by every step. For each step this is said without the step:
no comment occurs, no blanks are left between tags, behind braces and semicolons and the like. The
texts with all of this are the normal forms; minified texts are in normal form, and no other text
is left as it is by minifying.
-/

namespace Reindent.Minify

open Text

/-! ## Comments -/

/-- What may stand between the dashes of an XML comment: characters other than a dash, and dashes
with such a character behind each. -/
inductive IsCommentText : List Char → Prop where
  | nil : IsCommentText []
  | char {c : Char} {s : List Char} (hc : c ≠ '-') (h : IsCommentText s) : IsCommentText (c :: s)
  | dash {c : Char} {s : List Char} (hc : c ≠ '-') (h : IsCommentText s) :
      IsCommentText ('-' :: c :: s)

/-- Blanks of the kind that may stand in the delimiters of a comment. -/
def IsCommentGap (s : List Char) : Prop :=
  ∀ c ∈ s, isCommentBlank c = true

/-- An XML comment, with blanks in its delimiters. -/
def IsXmlComment (m : List Char) : Prop :=
  ∃ gap text gap', IsCommentGap gap ∧ IsCommentText text ∧ IsCommentGap gap' ∧
    m = '<' :: '!' :: (gap ++ '-' :: '-' :: (text ++ '-' :: '-' :: (gap' ++ ['>'])))

/-- A CSS comment. It may go on beyond the first closing delimiter in it. -/
def IsCssComment (m : List Char) : Prop :=
  ∃ text, m = '/' :: '*' :: (text ++ ['*', '/'])

theorem span_commentGap {gap : List Char} (hgap : IsCommentGap gap) {c : Char}
    (hc : isCommentBlank c = false) (s : List Char) :
    (gap ++ c :: s).takeWhile isCommentBlank = gap ∧
      (gap ++ c :: s).dropWhile isCommentBlank = c :: s := by
  rw [List.takeWhile_append_of_pos hgap, List.dropWhile_append_of_pos hgap]
  simp [hc]

theorem xmlCommentBody?_char {c : Char} (hc : c ≠ '-') (s : List Char) :
    xmlCommentBody? (c :: s) = (xmlCommentBody? s).map (· + 1) :=
  xmlCommentBody?.eq_5 c s (fun _ h _ => hc h) (fun _ _ h _ => hc h) (fun h _ => hc h)

theorem xmlCommentBody?_dash {c : Char} (hc : c ≠ '-') (s : List Char) :
    xmlCommentBody? ('-' :: c :: s) = (xmlCommentBody? s).map (· + 2) :=
  xmlCommentBody?.eq_3 c s hc

theorem xmlCommentBody?_complete {text gap : List Char} (htext : IsCommentText text)
    (hgap : IsCommentGap gap) (rest : List Char) :
    xmlCommentBody? (text ++ '-' :: '-' :: (gap ++ '>' :: rest)) =
      some (text.length + (gap.length + 3)) := by
  induction htext with
  | nil =>
    obtain ⟨htake, hdrop⟩ := span_commentGap hgap (c := '>') (by decide) rest
    simp only [List.nil_append, xmlCommentBody?, htake, hdrop, List.length_nil, Option.some.injEq]
    omega
  | char hc _ ih =>
    rw [List.cons_append, xmlCommentBody?_char hc, ih, Option.map_some, List.length_cons,
      Nat.succ_add]
  | dash hc _ ih =>
    rw [List.cons_append, List.cons_append, xmlCommentBody?_dash hc, ih, Option.map_some,
      List.length_cons, List.length_cons, Nat.succ_add, Nat.succ_add]

theorem xmlCommentBody?_sound {s : List Char} {n : Nat} (h : xmlCommentBody? s = some n) :
    ∃ text gap rest, IsCommentText text ∧ IsCommentGap gap ∧
    s = text ++ '-' :: '-' :: (gap ++ '>' :: rest) ∧ n = text.length + (gap.length + 3) := by
  fun_induction xmlCommentBody? s generalizing n with
  | case1 => cases h
  | case2 s rest hrest =>
    refine ⟨[], s.takeWhile isCommentBlank, rest, .nil,
      fun _ hc => List.mem_takeWhile_imp hc, ?_, ?_⟩
    · rw [List.nil_append, ← hrest, List.takeWhile_append_dropWhile]
    · rw [← Option.some.inj h, List.length_nil, Nat.zero_add, Nat.add_comm]
  | case3 => cases h
  | case4 c s hc ih =>
    obtain ⟨k, hk, rfl⟩ := Option.map_eq_some_iff.1 h
    obtain ⟨text, gap, rest, htext, hgap, rfl, rfl⟩ := ih hk
    exact ⟨'-' :: c :: text, gap, rest, .dash hc htext, hgap,
      rfl, by simp only [List.length_cons]; omega⟩
  | case5 => cases h
  | case6 c s _ hpair hlast ih =>
    obtain ⟨k, hk, rfl⟩ := Option.map_eq_some_iff.1 h
    obtain ⟨text, gap, rest, htext, hgap, rfl, rfl⟩ := ih hk
    have hc : c ≠ '-' := fun hc => by
      obtain ⟨d, t, ht⟩ :=
        List.exists_cons_of_ne_nil (show text ++ '-' :: '-' :: (gap ++ '>' :: rest) ≠ [] by simp)
      exact hpair d t hc ht
    exact ⟨c :: text, gap, rest, .char hc htext, hgap, rfl, by simp only [List.length_cons]; omega⟩

/-- What `find?` measures are the texts of one kind, none of them empty. -/
structure Measures (find? : List Char → Option Nat) (IsFound : List Char → Prop) : Prop where
  ne_nil : ∀ m, IsFound m → m ≠ []
  sound : ∀ s n, find? s = some n → ∃ m, IsFound m ∧ m <+: s
  complete : ∀ m s, IsFound m → ∃ n, find? (m ++ s) = some (n + 1)

theorem measures_xmlComment? : Measures xmlComment? IsXmlComment where
  ne_nil := by
    rintro m ⟨gap, text, gap', -, -, -, rfl⟩
    exact List.cons_ne_nil _ _
  sound := by
    intro s n h
    unfold xmlComment? at h
    split at h
    · rename_i s
      split at h
      · rename_i r hr
        obtain ⟨k, hk, -⟩ := Option.map_eq_some_iff.1 h
        obtain ⟨text, gap', rest, htext, hgap', rfl, -⟩ := xmlCommentBody?_sound hk
        have hgap : IsCommentGap (s.takeWhile isCommentBlank) :=
          fun _ hc => List.mem_takeWhile_imp hc
        refine ⟨_, ⟨_, text, gap', hgap, htext, hgap', rfl⟩, rest, ?_⟩
        conv_rhs => rw [← List.takeWhile_append_dropWhile (p := isCommentBlank) (l := s), hr]
        simp
      · cases h
    · cases h
  complete := by
    rintro m s ⟨gap, text, gap', hgap, htext, hgap', rfl⟩
    obtain ⟨htake, hdrop⟩ := span_commentGap hgap (c := '-') (by decide)
      ('-' :: (text ++ '-' :: '-' :: (gap' ++ '>' :: s)))
    have hbody := xmlCommentBody?_complete htext hgap' s
    refine ⟨text.length + (gap'.length + 3) + 3 + gap.length, ?_⟩
    simp only [List.cons_append, List.append_assoc, List.nil_append, xmlComment?, hdrop,
      htake, hbody, Option.map_some, Option.some.injEq]
    omega

theorem cssCommentBody?_sound {s : List Char} {n : Nat} (h : cssCommentBody? s = some n) :
    ∃ text rest, s = text ++ '*' :: '/' :: rest := by
  induction s generalizing n with
  | nil => cases h
  | cons c s ih =>
    rw [cssCommentBody?] at h
    split at h
    · rename_i hend
      rw [Bool.and_eq_true, decide_eq_true_eq, beq_iff_eq] at hend
      obtain ⟨rest, rfl⟩ := List.head?_eq_some_iff.1 hend.2
      exact ⟨[], rest, by rw [hend.1, List.nil_append]⟩
    · obtain ⟨k, hk, -⟩ := Option.map_eq_some_iff.1 h
      obtain ⟨text, rest, rfl⟩ := ih hk
      exact ⟨c :: text, rest, rfl⟩

theorem cssCommentBody?_complete (text rest : List Char) :
    ∃ n, cssCommentBody? (text ++ '*' :: '/' :: rest) = some n := by
  induction text with
  | nil => exact ⟨2, rfl⟩
  | cons c text ih =>
    obtain ⟨n, hn⟩ := ih
    rw [List.cons_append, cssCommentBody?, hn]
    split
    · exact ⟨_, rfl⟩
    · exact ⟨_, rfl⟩

theorem measures_cssComment? : Measures cssComment? IsCssComment where
  ne_nil := by
    rintro m ⟨text, rfl⟩
    exact List.cons_ne_nil _ _
  sound := by
    intro s n h
    unfold cssComment? at h
    split at h
    · obtain ⟨k, hk, -⟩ := Option.map_eq_some_iff.1 h
      obtain ⟨text, rest, rfl⟩ := cssCommentBody?_sound hk
      exact ⟨_, ⟨text, rfl⟩, rest, by simp⟩
    · cases h
  complete := by
    rintro m s ⟨text, rfl⟩
    obtain ⟨n, hn⟩ := cssCommentBody?_complete text s
    exact ⟨n + 1, by simp [cssComment?, hn]⟩

/-- Nothing is dropped exactly if nothing that would be dropped occurs. -/
theorem dropFound_eq_self_iff {find? : List Char → Option Nat} {IsFound : List Char → Prop}
    (h : Measures find? IsFound) {s : List Char} : dropFound find? 0 s = s ↔
    ∀ m, IsFound m → ¬ m <:+: s := by
  induction s with
  | nil => exact ⟨fun _ m hm hoccurs => h.ne_nil m hm (List.infix_nil.1 hoccurs), fun _ => rfl⟩
  | cons c s ih =>
    -- What is found here makes the text shorter; otherwise all that occurs starts further on.
    by_cases hfound : ∃ m, IsFound m ∧ m <+: c :: s
    · obtain ⟨m, hm, rest, hrest⟩ := hfound
      obtain ⟨n, hn⟩ := h.complete m rest hm
      rw [hrest] at hn
      refine ⟨fun hself => ?_, fun hnone => absurd ⟨[], rest, hrest⟩ (hnone m hm)⟩
      have hlength := (dropFound_sublist find? n s).length_le
      have hdrop : dropFound find? 0 (c :: s) = dropFound find? n s := by rw [dropFound, hn]
      rw [← hdrop, hself, List.length_cons] at hlength
      omega
    · have hnone : find? (c :: s) = none := by
        cases hfind : find? (c :: s) with
        | none => rfl
        | some n => exact absurd (h.sound _ n hfind) hfound
      rw [dropFound, hnone]
      simp only [List.cons.injEq, true_and, ih, List.infix_cons_iff, not_or]
      exact forall₂_congr fun m hm => (and_iff_right fun hstart => hfound ⟨m, hm, hstart⟩).symm

/-! ## Steps that change nothing -/

/-- Nothing is dropped between tags exactly if there are no blanks between a `>` and a `<`. -/
theorem closeGaps_eq_self_iff {s : List Char} : Xml.closeGaps s = s ↔
    ∀ gap, gap ≠ [] → (∀ c ∈ gap, isBlank c = true) → ¬ '>' :: (gap ++ ['<']) <:+: s := by
  rw [Xml.closeGaps_eq_apply]
  constructor
  · rintro hself gap hne hgap ⟨a, b, rfl⟩
    have hspan := Pattern.span?_char_blanks_char (x := '>') (y := '<') hgap (by decide) b
    have hlength :=
      length_of_apply_eq_self trims_betweenTags (a := a) (b := '>' :: (gap ++ '<' :: b))
      (by simpa using hself) hspan (by simp [Xml.betweenTags])
    have hpos := List.length_pos_iff.2 hne
    simp only [Xml.betweenTags, List.length_cons, List.length_nil] at hlength
    omega
  · intro hnone
    refine apply_eq_self fun a m b hs htakes => ?_
    simp only [Xml.betweenTags, takes_char_iff, takes_blanks_iff, takes_nil_iff] at htakes
    obtain ⟨_, rfl, gap, _, rfl, hgap, _, rfl, rfl⟩ := htakes
    by_cases hne : gap = []
    · rw [hne]
      rfl
    · exact absurd ⟨a, b, by simp [hs]⟩ (hnone gap hne hgap)

theorem takes_trimBehind_iff {front m s : List Char} : Takes (front.map .char ++ [.blanks1]) m s ↔
    ∃ c run, m = front ++ c :: run ∧ ∀ d ∈ c :: run, isBlank d = true := by
  induction front generalizing m with
  | nil => simp [takes_blanks1_iff, takes_nil_iff]
  | cons x front ih =>
    rw [List.map_cons, List.cons_append, takes_char_iff]
    constructor
    · rintro ⟨m', rfl, h⟩
      obtain ⟨c, run, rfl, hrun⟩ := ih.1 h
      exact ⟨c, run, rfl, hrun⟩
    · rintro ⟨c, run, rfl, hrun⟩
      exact ⟨_, rfl, ih.2 ⟨c, run, rfl, hrun⟩⟩

theorem span?_trimBehind {c : Char} (hc : isBlank c = true) (front s : List Char) :
    (trimBehind front).pattern.span? (front ++ c :: s) =
      some (front.length + ((s.takeWhile isBlank).length + 1)) := by
  simp only [trimBehind]
  induction front with
  | nil => simp [Pattern.span?, Part.blanks1, Pattern.takeMany_last, hc]
  | cons x front ih =>
    rw [List.map_cons, List.cons_append, List.cons_append, Part.char, Pattern.span?, ih,
      List.length_cons]
    simp
    omega

/-- Nothing is left out behind a text exactly if no blank is behind it anywhere. -/
theorem trimBehind_eq_self_iff {x : Char} {tail s : List Char} (hx : x ∉ tail) :
    (trimBehind (x :: tail)).apply s = s ↔
    ∀ c, isBlank c = true → ¬ x :: (tail ++ [c]) <:+: s := by
  constructor
  · rintro hself c hc ⟨a, b, rfl⟩
    have hlength :=
      length_of_apply_eq_self (trims_trimBehind (x :: tail)) (a := a) (b := x :: tail ++ c :: b)
      (by simpa using hself) (span?_trimBehind hc (x :: tail) b) (by simpa [trimBehind] using hx)
    simp only [trimBehind] at hlength
    omega
  · intro hnone
    refine apply_eq_self fun a m b hs htakes => ?_
    obtain ⟨c, run, rfl, hrun⟩ := takes_trimBehind_iff.1 htakes
    exact absurd ⟨a, run ++ b, by simp [hs]⟩ (hnone c (hrun c List.mem_cons_self))

/-- A text is stripped already exactly if no blank is at either end. -/
theorem strip_eq_self_iff {s : List Char} : strip s = s ↔
    (∀ c ∈ s.head?, isBlank c = false) ∧ ∀ c ∈ s.getLast?, isBlank c = false := by
  have hfirst : ∀ {t : List Char}, (∀ c ∈ t.head?, isBlank c = false) ↔
      t.dropWhile isBlank = t := by
    intro t
    cases t with
    | nil => simp
    | cons c t => simp
  have hlast : s.getLast? = s.reverse.head? := by simp
  rw [hlast, hfirst, hfirst, strip]
  constructor
  · intro hself
    have hlength := congrArg List.length hself
    have hback := (List.dropWhile_suffix isBlank (l := (s.dropWhile isBlank).reverse)).length_le
    rw [List.length_reverse] at hlength hback
    have hfront : s.dropWhile isBlank = s :=
      (List.dropWhile_suffix isBlank).eq_of_length
        (le_antisymm (List.dropWhile_suffix isBlank).length_le (by omega))
    rw [hfront] at hself
    exact ⟨hfront, List.reverse_eq_iff.1 hself⟩
  · rintro ⟨hfront, hback⟩
    rw [hfront, hback, List.reverse_reverse]

/-! ## Normal forms -/

/-- No blanks are between tags, and no comment is anywhere unless comments are kept. -/
structure XmlNormal (preserveComments : Bool) (s : List Char) : Prop where
  noGap : ∀ gap, gap ≠ [] → (∀ c ∈ gap, isBlank c = true) → ¬ '>' :: (gap ++ ['<']) <:+: s
  noComment : preserveComments = false → ∀ m, IsXmlComment m → ¬ m <:+: s

/-- The texts behind which no blank is left in CSS. -/
def cssFronts : List (List Char) :=
  [['\x7b'], ['\x7d'], [';'], ['/', '*'], ['*', '/']]

/-- All blanks are spaces that stand alone, not at the ends and not behind a brace, a semicolon or
a delimiter of comments, and no comment is anywhere unless comments are kept. -/
structure CssNormal (preserveComments : Bool) (s : List Char) : Prop where
  plain : ∀ c ∈ s, isBlank c = true → c = ' '
  single : ¬ [' ', ' '] <:+: s
  noStart : ∀ c ∈ s.head?, isBlank c = false
  noEnd : ∀ c ∈ s.getLast?, isBlank c = false
  noneBehind : ∀ front ∈ cssFronts, ∀ c, isBlank c = true → ¬ front ++ [c] <:+: s
  noComment : preserveComments = false → ∀ m, IsCssComment m → ¬ m <:+: s

/-- A pass that drops comments first leaves a text as it is exactly if both steps do. -/
theorem pass_eq_self_iff {find? : List Char → Option Nat} {IsFound : List Char → Prop}
    (h : Measures find? IsFound) {next : List Char → List Char} (hnext : ∀ s, Lightens s (next s))
    (preserve : Bool) (s : List Char) :
    next (if preserve then s else dropFound find? 0 s) = s ↔
      next s = s ∧ (preserve = false → ∀ m, IsFound m → ¬ m <:+: s) := by
  cases preserve with
  | true => simp
  | false =>
    rw [if_neg Bool.false_ne_true,
      comp_eq_self_iff (fun s => .of_sublist (dropFound_sublist find? 0 s)) hnext,
      dropFound_eq_self_iff h, and_comm]
    simp

theorem xmlPass_eq_self_iff {preserve : Bool} {s : List Char} : xmlPass preserve s = s ↔
    XmlNormal preserve s := by
  rw [xmlPass, pass_eq_self_iff measures_xmlComment? fun s => .of_sublist (closeGaps_sublist s),
    closeGaps_eq_self_iff]
  exact ⟨fun h => ⟨h.1, h.2⟩, fun h => ⟨h.noGap, h.noComment⟩⟩

theorem cssRules_eq : cssRules = .oneSpace :: cssFronts.map trimBehind := rfl

theorem applyAll_cssRules_eq_self_iff {s : List Char} : Substitution.applyAll cssRules s = s ↔
    collapse s = s ∧ ∀ front ∈ cssFronts, (trimBehind front).apply s = s := by
  have hall : Substitution.applyAll cssRules s = s ↔ ∀ r ∈ cssRules, r.apply s = s :=
    ⟨apply_eq_self_of_applyAll trims_cssRules, applyAll_eq_self⟩
  rw [hall, cssRules_eq, List.forall_mem_cons, List.forall_mem_map, Substitution.apply_oneSpace]

theorem cssPass_eq_self_iff {preserve : Bool} {s : List Char} : cssPass preserve s = s ↔
    CssNormal preserve s := by
  have hrules := lightens_applyAll trims_cssRules
  have hstrip := fun s => Lightens.of_sublist (strip_sublist s)
  have hfronts : (∀ front ∈ cssFronts, (trimBehind front).apply s = s) ↔
      ∀ front ∈ cssFronts, ∀ c, isBlank c = true → ¬ front ++ [c] <:+: s := by
    simp only [cssFronts, List.forall_mem_cons]
    refine and_congr (trimBehind_eq_self_iff (by decide))
      (and_congr (trimBehind_eq_self_iff (by decide)) (and_congr
      (trimBehind_eq_self_iff (by decide))
      (and_congr (trimBehind_eq_self_iff (by decide)) (and_congr
      (trimBehind_eq_self_iff (by decide)) ?_))))
    simp
  have hnext : ∀ s, Lightens s (strip (Substitution.applyAll cssRules s)) :=
    fun s => (hrules s).trans (hstrip _)
  refine (pass_eq_self_iff measures_cssComment? hnext preserve s).trans ?_
  rw [comp_eq_self_iff hrules hstrip, applyAll_cssRules_eq_self_iff, collapse_eq_self_iff,
    strip_eq_self_iff, hfronts]
  exact ⟨fun h => ⟨h.1.1.1.1, h.1.1.1.2, h.1.2.1, h.1.2.2, h.1.1.2, h.2⟩,
    fun h => ⟨⟨⟨⟨h.plain, h.single⟩, h.noneBehind⟩, h.noStart, h.noEnd⟩, h.noComment⟩⟩

/-- Minified XML and CSS are in normal form, and only texts in normal form are minified already. -/
theorem normal_minify (preserve : Bool) (s : List Char) :
    XmlNormal preserve (xml preserve s) ∧ (xml preserve s = s ↔ XmlNormal preserve s) ∧
      CssNormal preserve (css preserve s) ∧ (css preserve s = s ↔ CssNormal preserve s) := by
  refine ⟨?_, ?_, ?_, ?_⟩
  · exact xmlPass_eq_self_iff.1 (Minifier.pass_minify (.xml preserve) s)
  · exact (Minifier.minify_eq_self_iff (m := .xml preserve)).trans xmlPass_eq_self_iff
  · exact cssPass_eq_self_iff.1 (Minifier.pass_minify (.css preserve) s)
  · exact (Minifier.minify_eq_self_iff (m := .css preserve)).trans cssPass_eq_self_iff

/-- A comment that appears when another one is dropped is dropped as well. -/
example : xml false "<a> <!<!-- x -->-- y --> </a>".toList = "<a></a>".toList := by decide

end Reindent.Minify
