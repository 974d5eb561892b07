import Mathlib
import Reindent.Proofs.Sql.Keywords
import Reindent.Sql.Split

/-!
# Qualified joins

The rule for joins parts every qualifier from its `JOIN`, and the rule for the qualifier puts the
two together again. In the row of tokens, a cut (`CutAt`) is a place where they are still apart.
Rules for other keywords leave joins alone (`Neutral`): they make no cut and move none
(`KeepsCuts`), and they do not bring two joins of one kind next to each other (`KeepsDoubles`).
-/

set_option maxRecDepth 2000

namespace Reindent.Sql

open Text Marker
open Text.Token (keyword sign)

/-- The words that qualify a join. -/
def qualifiers : List (List Char) :=
  [['C', 'R', 'O', 'S', 'S'], ['I', 'N', 'N', 'E', 'R'], ['L', 'E', 'F', 'T'],
    ['R', 'I', 'G', 'H', 'T']]

/-! ## Cuts -/

/-- Behind the tokens `a` and the blank `b`, marks part a qualifier from its join. -/
structure CutAt (mark : Char) (kw : List Char) (ts a : List Token) (b : Char) (us c : List Token) :
    Prop where
  blank : isBlank b = true
  ne_nil : us ≠ []
  marks : ∀ x ∈ us, x = sign mark
  eq : ts = a ++ sign b :: keyword kw :: (us ++ keyword joinWord :: sign ' ' :: c)

/-- The tokens of a join that has been put together, with the space behind it. -/
def glued (mark : Char) (kw : List Char) : List Token :=
  [sign mark, keyword kw, sign ' ', keyword joinWord, sign ' ']

/-- Every cut stands right behind a join of the same kind, which has been put together. -/
def Settled (mark : Char) (kw : List Char) (ts : List Token) : Prop :=
  ∀ a b us c, CutAt mark kw ts a b us c → ∃ a', a ++ [sign b] = a' ++ glued mark kw

/-- Somewhere a qualifier is parted from its join. -/
def HasCut (mark : Char) (kw : List Char) (ts : List Token) : Prop :=
  ∃ a b us c, CutAt mark kw ts a b us c

/-- The cuts of the second row have been there in the first one, and stay in their places. -/
structure KeepsCuts (mark : Char) (kw : List Char) (s t : List Token) : Prop where
  settled : Settled mark kw s → Settled mark kw t
  hasCut : HasCut mark kw t → HasCut mark kw s

theorem KeepsCuts.refl {mark : Char} {kw : List Char} {s : List Token} : KeepsCuts mark kw s s :=
  ⟨id, id⟩

theorem KeepsCuts.trans {mark : Char} {kw : List Char} {s t u : List Token}
    (hst : KeepsCuts mark kw s t) (htu : KeepsCuts mark kw t u) : KeepsCuts mark kw s u :=
  ⟨htu.settled ∘ hst.settled, hst.hasCut ∘ htu.hasCut⟩

/-- A way of rewriting keeps to whole words with blanks around them and does not write a kind of
qualifier. -/
structure Tidy (kw : List Char) (L : List Token → List Token → Prop) : Prop where
  taken_ne_nil : ∀ m r, L m r → m ≠ []
  ne_nil : ∀ m r, L m r → r ≠ []
  notMem : ∀ m r, L m r → keyword kw ∉ r
  space : ∀ m r, L m r → r.head? = some (sign ' ') → m.head? = some (sign ' ')
  last : ∀ m r, L m r → ∀ c, m.getLast? = some (sign c) → isBlank c = true

/-- A way of rewriting leaves a kind of join alone. -/
structure Neutral (mark : Char) (kw : List Char) (L : List Token → List Token → Prop) :
    Prop extends Tidy kw L where
  first : ∀ m r, L m r → ∃ x, r.find? Token.isWord = some x ∧ x ≠ keyword joinWord
  stop : ∀ m r, L m r → ∀ a z, z ≠ [] → z <+: glued mark kw → ¬ m <:+ a ++ z

section

variable {mark : Char} {kw : List Char} {L : List Token → List Token → Prop} {text : List Char}
  {t a us c z : List Token} {b : Char}

/-- No replacement starts among signs with a join behind them. -/
theorem Neutral.not_starts (hL : Neutral mark kw L) (hus : ∀ x ∈ us, x.isWord = false)
    (c : List Token) :
    ∀ m r, L m r → ∀ z, z ≠ [] → z <:+ us ++ [keyword joinWord] → ¬ r <+: z ++ c := by
  intro m r hmr z hne hz hr
  obtain ⟨x, hx, hjoin⟩ := hL.first m r hmr
  obtain rfl | ⟨z, rfl, hsuffix⟩ := List.suffix_concat_iff.1 hz
  · exact hne rfl
  · have hsigns : z.find? Token.isWord = none :=
      List.find?_eq_none.2 fun y hy => by simp [hus y (hsuffix.subset hy)]
    have hfirst := hr.find?_eq_some hx
    rw [List.append_assoc, List.find?_append, hsigns, Option.none_or, List.singleton_append,
      List.find?_cons_of_pos rfl] at hfirst
    exact hjoin (Option.some.inj hfirst).symm

/-- What ends in a blank in front of a word has done so before. -/
theorem Tidy.exists_last (hL : Tidy kw L) {front rest : List Token} {w : List Char}
    (hfront : Rewritten L front (a ++ [sign b])) (hb : isBlank b = true)
    (hs : tokens text = front ++ .word w :: rest) :
    ∃ a' b', front = a' ++ [sign b'] ∧ isBlank b' = true := by
  obtain ⟨a', rfl⟩ | ⟨m, r, hmr, -, hm⟩ := hfront.last_cases hL.ne_nil
  · exact ⟨a', b, rfl, hb⟩
  · obtain ⟨f, rfl⟩ := hm
    obtain rfl | ⟨m, x, rfl⟩ := List.eq_nil_or_concat m
    · exact absurd rfl (hL.taken_ne_nil _ _ hmr)
    · rw [List.concat_eq_append] at hmr hs ⊢
      cases x with
      | word v =>
        rw [← List.append_assoc, List.append_assoc, List.singleton_append] at hs
        exact absurd hs tokens_ne_word_word
      | sign d => exact ⟨f ++ m, d, by simp, hL.last _ _ hmr d (by simp)⟩

/-- What starts with a space has done so before. -/
theorem Tidy.exists_head (hL : Tidy kw L) {s : List Token} (h : Rewritten L s (sign ' ' :: c)) :
    ∃ s', s = sign ' ' :: s' := by
  obtain ⟨s', rfl, -⟩ | ⟨m, r, s', hmr, hr, rfl⟩ := h.head_cases hL.ne_nil
  · exact ⟨s', rfl⟩
  · obtain ⟨m', rfl⟩ := List.head?_eq_some_iff.1 (hL.space m r hmr hr)
    exact ⟨m' ++ s', rfl⟩

/-- A cut was there before, and what stands in front of it has been rewritten by itself. -/
theorem Neutral.cutAt (hL : Neutral mark kw L)
    (h : Rewritten L (tokens text) t) (hcut : CutAt mark kw t a b us c) :
    ∃ a' b' c', CutAt mark kw (tokens text) a' b' us c' ∧
    Rewritten L (a' ++ [sign b']) (a ++ [sign b]) := by
  have ht : t = (a ++ [sign b]) ++ keyword kw ::
      ((us ++ [keyword joinWord]) ++ sign ' ' :: c) := by
    rw [hcut.eq]
    simp
  have hus : ∀ x ∈ us, x.isWord = false := fun x hx => by rw [hcut.marks x hx]; rfl
  rw [ht] at h
  obtain ⟨front, rest, hs, hfront, hrest⟩ := h.split hL.notMem
  obtain ⟨rest, rfl, hbehind⟩ := hrest.keeps (hL.not_starts hus _)
  obtain ⟨c', rfl⟩ := hL.exists_head hbehind
  obtain ⟨a', b', rfl, hb'⟩ := hL.exists_last hfront hcut.blank hs
  exact ⟨a', b', c', ⟨hb', hcut.ne_nil, hcut.marks, by simpa using hs⟩, hfront⟩

/-- Rewriting that leaves a kind of join alone keeps its cuts in their places. -/
theorem Neutral.keepsCuts (hL : Neutral mark kw L) (h : Rewritten L (tokens text) t) :
    KeepsCuts mark kw (tokens text) t where
  settled := by
    intro hs a b us c hcut
    obtain ⟨a', b', c', hcut', hfront⟩ := hL.cutAt h hcut
    obtain ⟨f, hf⟩ := hs _ _ _ _ hcut'
    rw [hf] at hfront
    obtain ⟨g, hg, -⟩ :=
      hfront.keeps_last hL.taken_ne_nil fun m r hmr z hne hz => hL.stop m r hmr f z hne hz
    exact ⟨g, hg⟩
  hasCut := by
    rintro ⟨a, b, us, c, hcut⟩
    obtain ⟨a', b', c', hcut', -⟩ := hL.cutAt h hcut
    exact ⟨a', b', us, c', hcut'⟩

/-! ## Rules that leave a join alone -/

/-- A part at the end that does not hold an element ends behind it. -/
theorem suffix_of_suffix_append_cons {α : Type} {m a b : List α} {x : α} (h : m <:+ a ++ x :: b)
    (hx : x ∉ m) :
    m <:+ b := by
  rcases List.suffix_or_suffix_of_suffix h (List.suffix_append a (x :: b)) with hm | hm
  · rcases List.suffix_cons_iff.1 hm with rfl | hm
    · exact absurd List.mem_cons_self hx
    · exact hm
  · exact absurd (hm.subset List.mem_cons_self) hx

theorem Headed.notMem {key : List Char} {ts : List Token} (h : Headed key ts) {x : List Char}
    (hkey : keyword key ≠ keyword x) (hby : keyword byWord ≠ keyword x)
    (hjoin : keyword joinWord ≠ keyword x) : keyword x ∉ ts := by
  cases h with
  | mk hne hpost =>
    rw [List.mem_append, List.mem_cons, not_or, not_or]
    refine ⟨by simp [keyword], hkey.symm, fun hx => ?_⟩
    rcases hpost _ hx with heq | heq
    · exact hby heq.symm
    · exact hjoin heq.symm

theorem Headed.mem {key : List Char} {ts : List Token} (h : Headed key ts) : keyword key ∈ ts := by
  cases h with
  | mk => simp

theorem Headed.find? {key : List Char} {ts : List Token} (h : Headed key ts) :
    ts.find? Token.isWord = some (keyword key) := by
  cases h with
  | @mk pre post hne hpost =>
    have hsigns : (pre.map sign).find? Token.isWord = none :=
      List.find?_eq_none.2 fun y hy => by
        obtain ⟨c, -, rfl⟩ := List.mem_map.1 hy
        simp [Token.isWord]
    rw [List.find?_append, hsigns, Option.none_or, List.find?_cons_of_pos rfl]

/-- A part with a word of its own does not end within a join that has been put together. -/
theorem not_suffix_glued {m a z : List Token} {w : List Char}
    (hlast : m.getLast? ≠ some (sign mark)) (hkw : keyword kw ∉ m) (hw : .word w ∈ m)
    (hjoin : .word w ≠ keyword joinWord) (hne : z ≠ []) (hz : z <+: glued mark kw) :
    ¬ m <:+ a ++ z := by
  intro hsuffix
  obtain ⟨x, z, rfl⟩ := List.exists_cons_of_ne_nil hne
  obtain ⟨rfl, hz'⟩ := List.cons_prefix_cons.1 hz
  cases z with
  | nil =>
    obtain rfl | ⟨ts, rfl, -⟩ := List.suffix_concat_iff.1 hsuffix
    · cases hw
    · exact hlast List.getLast?_concat
  | cons y z =>
    -- The part starts behind the qualifier, where no word stands but `JOIN`.
    obtain ⟨rfl, hz''⟩ := List.cons_prefix_cons.1 hz'
    rw [List.append_cons] at hsuffix
    have hmem := hz''.subset ((suffix_of_suffix_append_cons hsuffix hkw).subset hw)
    simp [hjoin] at hmem

section

variable (hm : IsCandidate mark) {tab : List Char} {rule : Rule} {key : List Char}
  (h : Keyed tab mark rule key)
  (hkey : keyword key ≠ keyword kw) (hby : keyword byWord ≠ keyword kw)
  (hjoin : keyword joinWord ≠ keyword kw)

include h hkey hby hjoin

theorem Keyed.tidy : Tidy kw (rule.Swaps tab mark) where
  taken_ne_nil := by
    rintro m r ⟨u, s, htakes, rfl, rfl⟩ hnil
    obtain ⟨c, ts, hts⟩ := (h.headed htakes).exists_cons
    rw [hnil] at hts
    cases hts
  ne_nil := by
    rintro m r ⟨u, s, htakes, rfl, rfl⟩ hnil
    obtain ⟨c, ts, hts⟩ := h.written.exists_cons
    rw [hnil] at hts
    cases hts
  notMem := by
    rintro m r ⟨u, s, htakes, rfl, rfl⟩
    exact h.written.notMem hkey hby hjoin
  space := by
    rintro m r ⟨u, s, htakes, rfl, rfl⟩ hhead
    exact h.space htakes hhead
  last := by
    rintro m r ⟨u, s, htakes, rfl, rfl⟩ c hlast
    exact h.last htakes hlast

include hm

/-- A rule for another keyword leaves a kind of join alone. -/
theorem Keyed.neutral (hkey' : keyword key ≠ keyword joinWord) :
    Neutral mark kw (rule.Swaps tab mark) where
  toTidy := h.tidy hkey hby hjoin
  first := by
    rintro m r ⟨u, s, htakes, rfl, rfl⟩
    exact ⟨_, h.written.find?, hkey'⟩
  stop := by
    rintro m r ⟨u, s, htakes, rfl, rfl⟩ a z hne hz
    have hheaded := h.headed htakes
    refine not_suffix_glued (fun hlast => ?_)
      (hheaded.notMem hkey hby hjoin) hheaded.mem hkey' hne hz
    have hblank := h.last htakes hlast
    rw [hm.isBlank_eq_false] at hblank
    cases hblank

end

/-- So does the rule for `SELECT`, which writes longer words only. -/
theorem neutral_selectSwaps (hm : IsCandidate mark) (hkw : kw.length < selectWord.length) :
    Neutral mark kw SelectSwaps := by
  have hword : ∀ (w key : List Char), key.length < selectWord.length →
      Token.word (w ++ selectWord.map letterOf) ≠ keyword key := by
    intro w key hkey heq
    have hlength := congrArg List.length (Token.word.inj heq)
    simp only [List.length_append, List.length_map] at hlength
    omega
  have hfree : ∀ w, keyword kw ∉ [.word (w ++ selectWord.map letterOf), sign ' '] := by
    intro w hmem
    rcases List.mem_cons.1 hmem with heq | heq
    · exact hword w kw hkw heq.symm
    · simp [keyword] at heq
  refine ⟨⟨fun m r h hnil => ?_, fun m r h hnil => ?_, fun m r h hmem => ?_, fun m r h hhead => ?_,
    fun m r h c hc => ?_⟩, fun m r h => ?_, fun m r h a z hz hstart hsuffix => ?_⟩
  · obtain ⟨m', rfl⟩ := h.taken
    simp at hnil
  · obtain ⟨w, rfl⟩ := h.written
    cases hnil
  · obtain ⟨w, rfl⟩ := h.written
    exact hfree w hmem
  · obtain ⟨w, rfl⟩ := h.written
    cases hhead
  · obtain ⟨m', rfl⟩ := h.taken
    simp only [List.getLast?_append, List.getLast?_cons_cons, List.getLast?_singleton,
      Option.some_or, Option.some.injEq, Token.sign.injEq] at hc
    rw [← hc]
    decide
  · obtain ⟨w, rfl⟩ := h.written
    exact ⟨_, rfl, hword w joinWord (by decide)⟩
  · -- The last word of the part is not in the join.
    obtain ⟨m', rfl⟩ := h.taken
    exact not_suffix_glued (by simpa using space_ne hm) (hfree []) List.mem_cons_self
      (hword [] _ (by decide)) hz hstart
      ((List.suffix_append m' _).trans hsuffix)

/-! ## One mark of a run -/

theorem MarkSwaps.ne_nil {m r : List Token} (h : MarkSwaps mark m r) : m ≠ [] ∧ r ≠ [] := by
  obtain ⟨n, rfl, rfl⟩ := h
  simp

theorem MarkSwaps.head? {m r : List Token} (h : MarkSwaps mark m r) :
    r.head? = some (sign mark) := by
  obtain ⟨n, rfl, rfl⟩ := h
  rfl

theorem MarkSwaps.notMem {m r : List Token} (h : MarkSwaps mark m r) {x : Token}
    (hx : x ≠ sign mark) :
    x ∉ m ∧ x ∉ r := by
  obtain ⟨n, rfl, rfl⟩ := h
  simp [hx]

/-- A mark at the end stays there. -/
theorem MarkSwaps.concat {s t : List Token} (h : Rewritten (MarkSwaps mark) (s ++ [sign mark]) t) :
    ∃ t', t = t' ++ [sign mark] := by
  obtain rfl | ⟨t, x, rfl⟩ := List.eq_nil_or_concat t
  · have hnil := h.nil_right fun m r hmr => hmr.ne_nil.2
    simp at hnil
  · rw [List.concat_eq_append] at h ⊢
    obtain ⟨s', hs⟩ | ⟨m, r, ⟨n, -, rfl⟩, hlast, -⟩ := h.last_cases fun m r hmr => hmr.ne_nil.2
    · rw [List.singleton_injective (List.append_inj' hs rfl).2]
      exact ⟨t, rfl⟩
    · obtain rfl : sign mark = x := Option.some.inj hlast
      exact ⟨t, rfl⟩

/-- Runs of marks come from runs of marks. -/
theorem MarkSwaps.marks {s t : List Token}
    (h : Rewritten (MarkSwaps mark) s t) (ht : ∀ x ∈ t, x = sign mark) :
    ∀ x ∈ s, x = sign mark := by
  induction h with
  | nil => exact ht
  | keep _ _ ih =>
    obtain ⟨hx, ht⟩ := List.forall_mem_cons.1 ht
    exact List.forall_mem_cons.2 ⟨hx, ih ht⟩
  | replace hmr _ ih =>
    obtain ⟨n, rfl, rfl⟩ := hmr
    exact List.forall_mem_append.2
      ⟨fun x hx => List.eq_of_mem_replicate hx, ih (List.forall_mem_append.1 ht).2⟩

/-- A cut was there before, perhaps with more marks. -/
theorem MarkSwaps.cutAt (hm : IsCandidate mark) {s : List Token}
    (h : Rewritten (MarkSwaps mark) s t) (hcut : CutAt mark kw t a b us c) :
    ∃ a' us' c', CutAt mark kw s a' b us' c' ∧
    Rewritten (MarkSwaps mark) (a' ++ [sign b]) (a ++ [sign b]) := by
  have hb : sign b ≠ sign mark := by
    rintro heq
    have hblank := hcut.blank
    rw [Token.sign.inj heq, hm.isBlank_eq_false] at hblank
    cases hblank
  have ht : t = (a ++ [sign b]) ++ keyword kw :: (us ++ keyword joinWord :: sign ' ' :: c) := by
    rw [hcut.eq]
    simp
  have hword : ∀ key, keyword key ≠ sign mark := fun key heq => by cases heq
  have hspace : sign ' ' ≠ sign mark := by
    simpa using space_ne hm
  rw [ht] at h
  obtain ⟨front, rest, rfl, hfront, hrest⟩ := h.split fun m r hmr => (hmr.notMem (hword kw)).2
  obtain ⟨us', rest, rfl, hus, hrest⟩ := hrest.split fun m r hmr => (hmr.notMem (hword joinWord)).2
  obtain ⟨c', rfl, -⟩ := hrest.keeps_of_head? (z := [sign ' ']) (fun m r hmr => hmr.head?)
    (by simpa using hspace.symm)
  have hne : us' ≠ [] := by
    rintro rfl
    exact hcut.ne_nil (hus.nil_left fun m r hmr => hmr.ne_nil.1)
  obtain ⟨a', rfl⟩ | ⟨m, r, hmr, hlast, -⟩ := hfront.last_cases fun m r hmr => hmr.ne_nil.2
  · exact ⟨a', us', c', ⟨hcut.blank, hne, MarkSwaps.marks hus hcut.marks, by simp⟩, hfront⟩
  · exact absurd (List.mem_of_getLast? hlast) (hmr.notMem hb).2

theorem MarkSwaps.keepsCuts (hm : IsCandidate mark) {s : List Token}
    (h : Rewritten (MarkSwaps mark) s t) :
    KeepsCuts mark kw s t where
  settled := by
    intro hs a b us c hcut
    obtain ⟨a', us', c', hcut', hfront⟩ := MarkSwaps.cutAt hm h hcut
    obtain ⟨f, hf⟩ := hs _ _ _ _ hcut'
    have hglued : f ++ glued mark kw =
        (f ++ [sign mark]) ++ [keyword kw, sign ' ', keyword joinWord, sign ' '] := by
      simp [glued]
    rw [hf, hglued] at hfront
    have hspace : ' ' ≠ mark := space_ne hm
    have hstop : ∀ m r, MarkSwaps mark m r → ∀ z, z ≠ [] →
        z <+: [keyword kw, sign ' ', keyword joinWord, sign ' '] →
        ¬ m <:+ (f ++ [sign mark]) ++ z := by
      rintro m r ⟨n, rfl, rfl⟩ z hne hz hsuffix
      obtain ⟨z, x, rfl⟩ := (List.eq_nil_or_concat z).resolve_left hne
      rw [List.concat_eq_append] at hz hsuffix
      rw [← List.append_assoc] at hsuffix
      obtain hnil | ⟨ts, hts, -⟩ := List.suffix_concat_iff.1 hsuffix
      · simp at hnil
      · have hx : x ∈ List.replicate (n + 1) (sign mark) := by simp [hts]
        obtain rfl := List.eq_of_mem_replicate hx
        have hmem := hz.subset (a := sign mark) (by simp)
        simp [keyword, hspace.symm] at hmem
    obtain ⟨g, hg, hmarks⟩ := hfront.keeps_last (fun m r hmr => hmr.ne_nil.1) hstop
    obtain ⟨g, rfl⟩ := MarkSwaps.concat hmarks
    exact ⟨g, by rw [hg]; simp [glued]⟩
  hasCut := by
    rintro ⟨a, b, us, c, hcut⟩
    obtain ⟨a', us', c', hcut', -⟩ := MarkSwaps.cutAt hm h hcut
    exact ⟨a', b, us', c', hcut'⟩

/-! ## Blanks in front of a qualifier -/

/-- No blank but the space stands right before a kind of qualifier. -/
def Spaced (kw : List Char) (ts : List Token) : Prop :=
  ∀ a b c, ts = a ++ sign b :: keyword kw :: c → isBlank b = true → b = ' '

theorem Spaced.suffix {s t : List Token} (h : Spaced kw t) (hs : s <:+ t) : Spaced kw s := by
  rintro a b c rfl hb
  obtain ⟨f, rfl⟩ := hs
  exact h (f ++ a) b c (by simp) hb

/-- Rewriting keeps to it if what it writes ends in a space. -/
theorem Tidy.spaced (hL : Tidy kw L)
    (hlast : ∀ m r, L m r → r.getLast? = some (sign ' ')) {s : List Token} (h : Rewritten L s t)
    (hs : Spaced kw s) : Spaced kw t := by
  rintro a b c rfl hb
  rw [List.append_cons] at h
  obtain ⟨front, rest, rfl, hfront, -⟩ := h.split hL.notMem
  obtain ⟨f, rfl⟩ | ⟨m, r, hmr, hr, -⟩ := hfront.last_cases hL.ne_nil
  · exact hs f b rest (by simp) hb
  · rw [hlast m r hmr] at hr
    exact (Token.sign.inj (Option.some.inj hr)).symm

/-! ## Joins that are written twice -/

/-- Marks and spaces, and at least one of them. -/
structure Parting (mark : Char) (us : List Token) : Prop where
  ne_nil : us ≠ []
  signs : ∀ x ∈ us, x = sign mark ∨ x = sign ' '

/-- Somewhere behind a blank, a qualified join stands right behind another one of its kind. -/
inductive Doubled (mark : Char) (kw : List Char) : List Token → Prop where
  | mk {a : List Token} {b : Char} {us vs c : List Token} (hb : isBlank b = true)
      (hus : Parting mark us)
      (hvs : Parting mark vs) :
      Doubled mark kw (a ++ sign b :: keyword kw ::
        (us ++ keyword joinWord :: sign ' ' :: keyword kw ::
        (vs ++ keyword joinWord :: sign ' ' :: c)))

theorem Doubled.append (h : Doubled mark kw t) (front : List Token) :
    Doubled mark kw (front ++ t) := by
  cases h with
  | mk hb hus hvs =>
    rw [← List.append_assoc]
    exact .mk hb hus hvs

/-- Spaces before a kind of qualifier are kept, and joins of its kind that are written twice have
been before. -/
structure KeepsDoubles (mark : Char) (kw : List Char) (s t : List Token) : Prop where
  spaced : Spaced kw s → Spaced kw t
  doubled : Doubled mark kw t → Doubled mark kw s

theorem KeepsDoubles.refl {s : List Token} : KeepsDoubles mark kw s s :=
  ⟨id, id⟩

theorem KeepsDoubles.trans {s t u : List Token} (hst : KeepsDoubles mark kw s t)
    (htu : KeepsDoubles mark kw t u) :
    KeepsDoubles mark kw s u :=
  ⟨htu.spaced ∘ hst.spaced, hst.doubled ∘ htu.doubled⟩

/-- A way of rewriting finds a join, and two in a row, where it leaves them. -/
structure KeepsJoins (mark : Char) (kw : List Char) (L : List Token → List Token → Prop) :
    Prop extends Tidy kw L where
  single : ∀ {s us c}, Parting mark us → Rewritten L s (us ++ keyword joinWord :: sign ' ' :: c) →
    ∃ us' c', Parting mark us' ∧ s = us' ++ keyword joinWord :: sign ' ' :: c'
  pair : ∀ {s us c}, Parting mark us →
    Rewritten L s (us ++ keyword joinWord :: sign ' ' :: keyword kw :: c) →
    ∃ us' c', Parting mark us' ∧ s = us' ++ keyword joinWord :: sign ' ' :: keyword kw :: c' ∧
    Rewritten L c' c

theorem KeepsJoins.keepsDoubles (hL : KeepsJoins mark kw L)
    (hlast : ∀ m r, L m r → r.getLast? = some (sign ' ')) (h : Rewritten L (tokens text) t) :
    KeepsDoubles mark kw (tokens text) t where
  spaced := hL.spaced hlast h
  doubled := by
    rintro ⟨hb, hus, hvs⟩
    rw [List.append_cons] at h
    obtain ⟨front, rest, hs, hfront, hrest⟩ := h.split hL.notMem
    obtain ⟨us', rest', hus', rfl, hrest'⟩ := hL.pair hus hrest
    obtain ⟨vs', c', hvs', rfl⟩ := hL.single hvs hrest'
    obtain ⟨a', b', rfl, hb'⟩ := hL.exists_last hfront hb hs
    rw [hs, List.append_assoc, List.singleton_append]
    exact .mk hb' hus' hvs'

theorem Parting.isWord_eq_false (hus : Parting mark us) : ∀ x ∈ us, x.isWord = false := by
  intro x hx
  rcases hus.signs x hx with rfl | rfl <;> rfl

theorem Neutral.keepsJoins (hL : Neutral mark kw L) : KeepsJoins mark kw L where
  toTidy := hL.toTidy
  single := by
    intro s us c hus h
    rw [List.append_cons] at h
    obtain ⟨s, rfl, h'⟩ := h.keeps (hL.not_starts hus.isWord_eq_false _)
    obtain ⟨c', rfl⟩ := hL.exists_head h'
    exact ⟨us, c', hus, by simp⟩
  pair := by
    intro s us c hus h
    rw [List.append_cons] at h
    obtain ⟨s, rfl, h'⟩ := h.keeps (hL.not_starts hus.isWord_eq_false _)
    obtain ⟨gap, c', rfl, hgap, hc⟩ := h'.split (a := [sign ' ']) hL.notMem
    -- A replacement has a word, so the space between the joins is kept.
    have hword : ∀ m r, L m r → ∀ z, z ≠ [] → z <:+ [sign ' '] → ¬ r <+: z ++ [] := by
      intro m r hmr z hne hz hr
      obtain ⟨x, hx, -⟩ := hL.first m r hmr
      have hmem : x ∈ [sign ' '] :=
        hz.subset (by simpa using hr.subset (List.mem_of_find?_eq_some hx))
      rw [List.mem_singleton.1 hmem] at hx
      cases List.find?_some hx
    obtain ⟨rest, rfl, hrest⟩ := hgap.keeps (c := []) hword
    obtain rfl := hrest.nil_right hL.ne_nil
    exact ⟨us, c', hus, by simp, hc⟩

section

variable {tab : List Char} {name : String}

theorem swaps_join (hm : IsCandidate mark) {m r : List Token}
    (h : (Rule.clause name joinWord 0).Swaps tab mark m r) :
    m = [sign ' ', keyword joinWord, sign ' '] ∧ r = [sign mark, keyword joinWord, sign ' '] := by
  have htokens : ∀ {c w}, isWord c = false → SameLetters joinWord w →
      tokens (c :: (w ++ [' '])) = [sign c, keyword joinWord, sign ' '] := by
    intro c w hc hw
    rw [tokens_sign hc, tokens_keyword_space isKeyword_joinWord hw, tokens_nil]
  obtain ⟨u, s, htakes, rfl, rfl⟩ := h
  obtain ⟨w, hw, rfl⟩ := takes_spaced htakes
  exact ⟨htokens isWord_space hw, htokens hm.isWord_eq_false (sameLetters_refl joinWord)⟩

theorem head?_of_swaps_join (hm : IsCandidate mark) {m r : List Token}
    (h : (Rule.clause name joinWord 0).Swaps tab mark m r) : r.head? = some (sign mark) := by
  rw [(swaps_join hm h).2, List.head?_cons]

/-- Where the rule for joins leaves a join behind marks and spaces, it has found one. -/
theorem rewritten_join (hm : IsCandidate mark) {s : List Token} (hus : Parting mark us)
    (h : Rewritten ((Rule.clause name joinWord 0).Swaps tab mark) s
      (us ++ keyword joinWord :: sign ' ' :: c)) :
    ∃ us' c', Parting mark us' ∧ s = us' ++ keyword joinWord :: sign ' ' :: c' ∧
      Rewritten ((Rule.clause name joinWord 0).Swaps tab mark) c' c := by
  have hspace : ' ' ≠ mark := space_ne hm
  induction us generalizing s with
  | nil => exact absurd rfl hus.ne_nil
  | cons x us ih =>
    obtain ⟨hx, hsigns⟩ := List.forall_mem_cons.1 hus.signs
    generalize ht : x :: us ++ keyword joinWord :: sign ' ' :: c = t at h
    cases h with
    | nil => cases ht
    | @keep y s t _ h =>
      obtain ⟨rfl, rfl⟩ := List.cons_eq_cons.1 ht
      by_cases hnil : us = []
      · subst hnil
        obtain ⟨c', rfl, hc⟩ := h.keeps_of_head? (z := [keyword joinWord, sign ' '])
          (fun m r => head?_of_swaps_join hm) (by simp [keyword, hspace.symm])
        exact ⟨[x], c', hus, rfl, hc⟩
      · obtain ⟨us', c', hus', rfl, hc⟩ := ih ⟨hnil, hsigns⟩ h
        exact ⟨x :: us', c', ⟨by simp, List.forall_mem_cons.2 ⟨hx, hus'.signs⟩⟩, rfl, hc⟩
    | @replace m r s t hmr h =>
      obtain ⟨rfl, rfl⟩ := swaps_join hm hmr
      cases us with
      | nil =>
        obtain ⟨-, rfl⟩ : x = sign mark ∧ c = t := by simpa using ht
        exact ⟨[sign ' '], s, ⟨by simp, by simp⟩, rfl, h⟩
      | cons y us =>
        -- Behind its mark the rule writes a word at once.
        have hy : y = keyword joinWord := (List.cons_eq_cons.1 (List.cons_eq_cons.1 ht).2).1
        rcases hsigns y List.mem_cons_self with rfl | rfl <;> cases hy

theorem keepsJoins_join (hm : IsCandidate mark) (htab : ∀ c ∈ tab, isBlank c = true)
    (hby : keyword byWord ≠ keyword kw) (hjoin : keyword joinWord ≠ keyword kw) :
    KeepsJoins mark kw ((Rule.clause name joinWord 0).Swaps tab mark) where
  toTidy := (keyed_clause hm htab name (by decide) 0).tidy hjoin hby hjoin
  single := by
    intro s us c hus h
    obtain ⟨us', c', hus', hs, -⟩ := rewritten_join hm hus h
    exact ⟨us', c', hus', hs⟩
  pair := by
    intro s us c hus h
    obtain ⟨us', c', hus', rfl, hc⟩ := rewritten_join hm hus h
    obtain ⟨c'', rfl, hc'⟩ :=
      hc.keeps_of_head? (z := [keyword kw]) (fun m r => head?_of_swaps_join hm)
      (by simp [keyword])
    exact ⟨us', c'', hus', rfl, hc'⟩

end

end

end Reindent.Sql
