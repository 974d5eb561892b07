import Mathlib
import Reindent.Proofs.Sql.Rules
import Reindent.Proofs.Text.Rewriting
import Reindent.Proofs.Text.Tokens

/-!
# Rules and tokens

All rules but three are about a keyword: they take a whole word with the signs around it, and write
the same word among other signs. In the row of tokens such a rule rewrites in its own ways
(`Keyed.rewritten`), and what it takes and what it writes have one form (`Headed`): signs, the
keyword, and behind it signs, perhaps with `BY` or `JOIN` among them.
-/

set_option maxRecDepth 2000

namespace Reindent.Sql

open Text Marker
open Text.Token (keyword sign)

/-- The letters of `BY`. -/
def byWord : List Char := ['B', 'Y']

/-- Capitals, and at least one. -/
def isKeyword (key : List Char) : Bool :=
  !key.isEmpty && key.all Char.isUpper

theorem isKeyword_joinWord : isKeyword joinWord = true := by
  decide

/-- No mark is a space. -/
theorem space_ne {mark : Char} (hm : IsCandidate mark) : ' ' ≠ mark :=
  hm.ne_of_toNat (by decide) (by decide)

/-! ## Keywords as tokens -/

section

variable {key u s pre post : List Char} {c : Char}

theorem startsWord_of_sign (hc : isWord c = false) (s : List Char) :
    startsWord (c :: s) = false := hc

theorem isWord_space : isWord ' ' = false :=
  isWord_of_isBlank (by decide)

/-- A keyword in either case is one token. -/
theorem tokens_keyword (hkey : isKeyword key = true) (hu : SameLetters key u)
    (hs : startsWord s = false) : tokens (u ++ s) = keyword key :: tokens s := by
  rw [isKeyword, Bool.and_eq_true, Bool.not_eq_true', List.isEmpty_eq_false_iff,
    List.all_eq_true] at hkey
  have hne : u ≠ [] := by
    rintro rfl
    exact hkey.1 (List.forall₂_nil_right_iff.1 hu)
  have hword : ∀ c ∈ u, isWord c = true := by
    intro c hc
    obtain ⟨i, hi, rfl⟩ := List.mem_iff_getElem.1 hc
    have hi' : i < key.length := hu.length_eq ▸ hi
    have hsame := sameLetter_iff.1 (List.forall₂_iff_get.1 hu |>.2 i hi' hi)
    exact isWord_of_letterOf (isAlpha_of_isUpper (hkey.2 _ (List.getElem_mem hi'))) hsame
  rw [tokens_word hne hword hs, keyword, sameLetters_iff.1 hu]

theorem tokens_keyword_space (hkey : isKeyword key = true) (hu : SameLetters key u)
    (s : List Char) :
    tokens (u ++ ' ' :: s) = keyword key :: sign ' ' :: tokens s := by
  rw [tokens_keyword hkey hu (startsWord_of_sign isWord_space s), tokens_sign isWord_space]

theorem sameLetters_refl (s : List Char) : SameLetters s s :=
  sameLetters_iff.2 rfl

theorem tokens_of_keyword (hkey : isKeyword key = true) : tokens key = [keyword key] := by
  have h := tokens_keyword (s := []) hkey (sameLetters_refl key) rfl
  rwa [List.append_nil] at h

/-- Signs, then the keyword, and behind it no words but `BY` and `JOIN`. -/
inductive Headed (key : List Char) : List Token → Prop where
  | mk {pre : List Char} {post : List Token} (hne : pre ≠ [])
      (hpost : ∀ w, .word w ∈ post → Token.word w = keyword byWord ∨
        Token.word w = keyword joinWord) :
      Headed key (pre.map sign ++ keyword key :: post)

theorem headed_tokens (hne : pre ≠ []) (hpre : ∀ c ∈ pre, isWord c = false)
    (hkey : isKeyword key = true) (hu : SameLetters key u) (hs : startsWord post = false)
    (hpost : ∀ w, .word w ∈ tokens post → Token.word w = keyword byWord ∨
      Token.word w = keyword joinWord) :
    Headed key (tokens (pre ++ (u ++ post))) := by
  rw [tokens_signs hpre, tokens_keyword hkey hu hs]
  exact .mk hne hpost

theorem Headed.exists_cons {ts : List Token} (h : Headed key ts) :
    ∃ c ts', ts = sign c :: ts' := by
  cases h with
  | @mk pre post hne _ =>
    obtain ⟨c, pre, rfl⟩ := List.exists_cons_of_ne_nil hne
    exact ⟨c, _, rfl⟩

theorem getLast?_tokens_concat (hc : isWord c = false) (s : List Char) :
    (tokens (s ++ [c])).getLast? = some (sign c) := by
  rw [tokens_append (t := [c]) (.inr hc), tokens_sign hc, tokens_nil, List.getLast?_concat]

end

/-! ## Rules for keywords -/

/-- What a rule takes and what it writes, as tokens. -/
def Rule.Swaps (rule : Rule) (tab : List Char) (mark : Char) (m r : List Token) : Prop :=
  ∃ u s, Takes (rule.substitution tab mark).pattern u s ∧ m = tokens u ∧
    r = tokens (rule.substitution tab mark).replacement

/-- A rule takes and writes a keyword, with whole tokens around it. -/
structure Keyed (tab : List Char) (mark : Char) (rule : Rule) (key : List Char) : Prop where
  headed : ∀ {u s}, Takes (rule.substitution tab mark).pattern u s → Headed key (tokens u)
  /-- It takes a blank last, unless it takes a word last. -/
  last : ∀ {u s c}, Takes (rule.substitution tab mark).pattern u s →
    (tokens u).getLast? = some (sign c) → isBlank c = true
  apart : ∀ {u s}, Takes (rule.substitution tab mark).pattern u s → endsWord false u = false ∨
    startsWord s = false
  written : Headed key (tokens (rule.substitution tab mark).replacement)
  ends : endsWord false (rule.substitution tab mark).replacement = false
  /-- It writes a space first only where it takes one. -/
  space : ∀ {u s}, Takes (rule.substitution tab mark).pattern u s →
    (tokens (rule.substitution tab mark).replacement).head? = some (sign ' ') →
    (tokens u).head? = some (sign ' ')

section

variable {tab : List Char} {mark : Char} {rule : Rule} {key : List Char}

/-- A letter in front of rows that start with signs where they are rewritten. -/
theorem rewrites_consToken {stays : List Token → Prop} {L : List Token → List Token → Prop}
    {s t : List Token} {c : Char} (hc : isWord c = true) (hstays : ∀ w ts, stays (.word w :: ts))
    (hL : ∀ m r, L m r → (∃ d m', m = sign d :: m') ∧ ∃ d r', r = sign d :: r')
    (h : Rewrites stays L s t) :
    Rewrites stays L (consToken c s) (consToken c t) := by
  cases h with
  | nil =>
    rw [consToken_word_nil hc]
    exact .keep (hstays _ _) .nil
  | @keep x s t hx h =>
    cases x with
    | word w =>
      rw [consToken_word_word hc, consToken_word_word hc]
      exact .keep (hstays _ _) h
    | sign d =>
      rw [consToken_word_sign hc, consToken_word_sign hc]
      exact .keep (hstays _ _) (.keep hx h)
  | @replace m r s t hmr h =>
    obtain ⟨⟨d, m, rfl⟩, e, r, rfl⟩ := hL _ _ hmr
    rw [List.cons_append, List.cons_append, consToken_word_sign hc, consToken_word_sign hc]
    exact .keep (hstays _ _) (.replace hmr h)

/-- A rule for a keyword rewrites the tokens of a text. Signs are kept where it can take
nothing. -/
theorem Keyed.rewrites_of (h : Keyed tab mark rule key) {stays : List Token → Prop}
    (hword : ∀ w ts, stays (.word w :: ts))
    (hsign : ∀ c s, isWord c = false →
      (∀ m rest, c :: s = m ++ rest → ¬ Takes (rule.substitution tab mark).pattern m rest) →
      stays (tokens (c :: s)))
    (text : List Char) :
    Rewrites stays (rule.Swaps tab mark) (tokens text) (tokens (rule.apply tab mark text)) := by
  refine (rule.substitution tab mark).rel_apply_of_not_takes
    (R := fun s t => Rewrites stays (rule.Swaps tab mark) (tokens s) (tokens t)) ?_ .nil ?_ ?_ text
  · intro s htakes
    obtain ⟨c, ts, hts⟩ := (h.headed htakes).exists_cons
    cases hts
  · intro c s t hnot hst
    cases hc : isWord c with
    | false =>
      have hstays := hsign c s hc hnot
      rw [tokens_sign hc] at hstays ⊢
      rw [tokens_sign hc]
      exact .keep hstays hst
    | true =>
      refine rewrites_consToken hc hword ?_ hst
      rintro m r ⟨u, s, htakes, rfl, rfl⟩
      exact ⟨(h.headed htakes).exists_cons, h.written.exists_cons⟩
  · intro m s t htakes hst
    rw [tokens_append (h.apart htakes), tokens_append (.inl h.ends)]
    exact .replace ⟨m, s, htakes, rfl, rfl⟩ hst

theorem Keyed.rewritten (h : Keyed tab mark rule key) (text : List Char) :
    Rewritten (rule.Swaps tab mark) (tokens text) (tokens (rule.apply tab mark text)) :=
  h.rewrites_of (fun _ _ => trivial) (fun _ _ _ _ => trivial) text

/-! ## The forms of rules -/

theorem takes_word_append_iff {w m s : List Char} {p : List Atom} :
    Takes ((Rule.word w ++ p).map (Atom.part mark)) m s ↔ ∃ u m', m = u ++ m' ∧
      SameLetters w u ∧ Takes (p.map (Atom.part mark)) m' s := by
  induction w generalizing m with
  | nil => simp [Rule.word]
  | cons c w ih =>
    constructor
    · intro h
      cases h with
      | @one _ _ d m _ hc h =>
        obtain ⟨u, m', rfl, hu, hm'⟩ := ih.1 h
        exact ⟨d :: u, m', rfl, .cons hc hu, hm'⟩
    · rintro ⟨u, m', rfl, hu, hm'⟩
      cases hu with
      | cons hc hu => exact .one hc (ih.2 ⟨_, m', rfl, hu, hm'⟩)

/-- A sign of a pattern takes itself. -/
theorem takes_gap_iff {c : Char} (hc : gapChar c = true) {m s : List Char} {p : List Atom} :
    Takes ((.letter c :: p).map (Atom.part mark)) m s ↔
    ∃ m', m = c :: m' ∧ Takes (p.map (Atom.part mark)) m' s := by
  constructor
  · intro h
    cases h with
    | one hd h => exact ⟨_, by rw [eq_of_gapChar hc hd], h⟩
  · rintro ⟨m', rfl, h⟩
    exact .one (sameLetter_iff.2 rfl) h

theorem takes_space_iff {m s : List Char} : Takes ([.letter ' '].map (Atom.part mark)) m s ↔
    m = [' '] := by
  rw [takes_gap_iff (by decide)]
  constructor
  · rintro ⟨m', rfl, h⟩
    rw [takes_nil_iff.1 h]
  · rintro rfl
    exact ⟨[], rfl, .nil s⟩

/-- A keyword between spaces. -/
theorem takes_spaced {u s : List Char} (h : Takes ((Rule.spaced key).map (Atom.part mark)) u s) :
    ∃ w, SameLetters key w ∧ u = ' ' :: (w ++ [' ']) := by
  have hpattern : Rule.spaced key = Atom.letter ' ' :: (Rule.word key ++ [Atom.letter ' ']) := by
    simp [Rule.spaced, Rule.word]
  rw [hpattern, takes_gap_iff (by decide)] at h
  obtain ⟨u, rfl, h⟩ := h
  obtain ⟨w, u, rfl, hw, h⟩ := takes_word_append_iff.1 h
  obtain rfl := takes_space_iff.1 h
  exact ⟨w, hw, rfl⟩

/-- A keyword, blanks, `BY` and perhaps more blanks. -/
theorem takes_clauseBy {u s : List Char} {name : String}
    (h : Takes ((Rule.clauseBy name key).substitution tab mark).pattern u s) :
    ∃ w c gap b end_, SameLetters key w ∧ (∀ d ∈ c :: gap, isBlank d = true) ∧
      SameLetters byWord b ∧ (∀ d ∈ end_, isBlank d = true) ∧
      startsWord (end_ ++ s) = false ∧ u = ' ' :: (w ++ c :: (gap ++ (b ++ end_))) := by
  have hpattern : (Rule.clauseBy name key).pattern =
      Atom.letter ' ' :: (Rule.word key ++ Atom.blanks1 ::
        (Rule.word byWord ++ [.wordEnd, .blanks])) := by
    simp [Rule.clauseBy, Rule.word, byWord]
  rw [Rule.substitution, hpattern, takes_gap_iff (by decide)] at h
  obtain ⟨u, rfl, h⟩ := h
  obtain ⟨w, u, rfl, hw, h⟩ := takes_word_append_iff.1 h
  obtain ⟨c, gap, u, rfl, hgap, h⟩ := takes_blanks1_iff.1 h
  obtain ⟨b, u, rfl, hb, h⟩ := takes_word_append_iff.1 h
  cases h with
  | wordEnd hend h =>
    obtain ⟨run, u, rfl, hrun, h⟩ := takes_blanks_iff.1 h
    obtain rfl := takes_nil_iff.1 h
    rw [List.append_nil] at hend
    exact ⟨w, c, gap, b, run, hw, hgap, hb, hrun, hend, by simp⟩

/-- A qualifier that marks part from its join. -/
theorem takes_qualifiedJoin_iff (hm : IsCandidate mark) {u s : List Char} {name : String} :
    Takes ((Rule.qualifiedJoin name key).substitution tab mark).pattern u s ↔
      ∃ w n j, SameLetters key w ∧
        SameLetters joinWord j ∧
        u = ' ' :: (w ++ (List.replicate (n + 1) mark ++ (j ++ [' ']))) := by
  have hpattern : (Rule.qualifiedJoin name key).pattern =
      Atom.letter ' ' :: (Rule.word key ++ Atom.marks ::
        (Rule.word joinWord ++ [Atom.letter ' '])) := by
    simp [Rule.qualifiedJoin, Rule.word, joinWord]
  rw [Rule.substitution, hpattern, takes_gap_iff (by decide)]
  constructor
  · rintro ⟨u, rfl, h⟩
    obtain ⟨w, u, rfl, hw, h⟩ := takes_word_append_iff.1 h
    cases h with
    | @many1 _ _ c run u _ hrun h =>
      obtain ⟨j, u, rfl, hj, h⟩ := takes_word_append_iff.1 h
      obtain rfl := takes_space_iff.1 h
      have hmarks : c :: run = List.replicate (run.length + 1) mark :=
        List.eq_replicate_iff.2 ⟨rfl, fun d hd => hm.sameLetter_iff.1 (hrun d hd)⟩
      exact ⟨w, run.length, j, hw, hj, by rw [hmarks]⟩
  · rintro ⟨w, n, j, hw, hj, rfl⟩
    refine ⟨_, rfl, takes_word_append_iff.2 ⟨w, _, rfl, hw, ?_⟩⟩
    have hlast : Takes ((Rule.word joinWord ++ [Atom.letter ' ']).map (Atom.part mark))
        (j ++ [' ']) s :=
      takes_word_append_iff.2 ⟨j, [' '], rfl, hj, takes_space_iff.2 rfl⟩
    rw [List.replicate_succ]
    refine .many1 (fun d hd => ?_) hlast
    rw [← List.replicate_succ] at hd
    rw [List.eq_of_mem_replicate hd]
    exact hm.sameLetter_iff.2 rfl

/-- A bracket, blanks and a keyword with a space behind it. -/
theorem takes_bracket {u s : List Char} {c : Char} (hc : gapChar c = true)
    (h : Takes ((.letter c :: .blanks :: Rule.word (key ++ [' '])).map (Atom.part mark)) u s) :
    ∃ gap w, (∀ d ∈ gap, isBlank d = true) ∧ SameLetters key w ∧
      u = c :: (gap ++ (w ++ [' '])) := by
  have hword : Rule.word (key ++ [' ']) = Rule.word key ++ [Atom.letter ' '] := by
    simp [Rule.word]
  rw [hword, takes_gap_iff hc] at h
  obtain ⟨u, rfl, h⟩ := h
  obtain ⟨gap, u, rfl, hgap, h⟩ := takes_blanks_iff.1 h
  obtain ⟨w, u, rfl, hw, h⟩ := takes_word_append_iff.1 h
  obtain rfl := takes_space_iff.1 h
  exact ⟨gap, w, hgap, hw, rfl⟩

/-! ### Rules of each form -/

theorem endsWord_of_signs {s : List Char}
    (hne : s ≠ []) (hs : ∀ c ∈ s, isWord c = false) (b : Bool) :
    endsWord b s = false := by
  obtain rfl | ⟨s, c, rfl⟩ := List.eq_nil_or_concat s
  · exact absurd rfl hne
  · rw [List.concat_eq_append] at hs ⊢
    simpa using hs c (by simp)

theorem startsWord_of_signs {s : List Char} (hs : ∀ c ∈ s, isWord c = false) :
    startsWord s = false := by
  cases s with
  | nil => rfl
  | cons c s => exact hs c List.mem_cons_self

theorem word_notMem_tokens {s : List Char} (hs : ∀ c ∈ s, isWord c = false) (w : List Char) :
    .word w ∉ tokens s := by
  rw [← List.append_nil s, tokens_signs hs]
  simp

/-- A keyword among signs. -/
theorem headed_of_signs (hkey : isKeyword key = true) {pre u post : List Char} (hpre : pre ≠ [])
    (hu : SameLetters key u) (hsigns : ∀ c ∈ pre ++ post, isWord c = false) :
    Headed key (tokens (pre ++ (u ++ post))) := by
  rw [List.forall_mem_append] at hsigns
  exact headed_tokens hpre hsigns.1 hkey hu (startsWord_of_signs hsigns.2)
    fun w hw => absurd hw (word_notMem_tokens hsigns.2 w)

/-- A rule takes a keyword among signs, the last one a space, and writes it among other signs. -/
theorem keyed_of_signs (hkey : isKeyword key = true) {pre post : List Char}
    (htakes : ∀ {u s}, Takes (rule.substitution tab mark).pattern u s → ∃ c gap w,
      (∀ d ∈ c :: gap, isWord d = false) ∧ SameLetters key w ∧
      u = c :: gap ++ (w ++ [' ']) ∧ (pre.head? = some ' ' → c = ' '))
    (hreplacement : (rule.substitution tab mark).replacement = pre ++ (key ++ post))
    (hpre : pre ≠ [])
    (hpost : post ≠ []) (hsigns : ∀ c ∈ pre ++ post, isWord c = false) :
    Keyed tab mark rule key := by
  refine ⟨fun h => ?_, fun h hlast => ?_, fun h => ?_, ?_, ?_, fun h hspace => ?_⟩
  · obtain ⟨c, gap, w, hgap, hw, rfl, -⟩ := htakes h
    exact headed_of_signs hkey (by simp) hw
      (List.forall_mem_append.2 ⟨hgap, by simpa using isWord_space⟩)
  · obtain ⟨c, gap, w, -, -, rfl, -⟩ := htakes h
    rw [← List.append_assoc, getLast?_tokens_concat isWord_space] at hlast
    obtain rfl := Token.sign.inj (Option.some.inj hlast)
    decide
  · obtain ⟨c, gap, w, -, -, rfl, -⟩ := htakes h
    exact .inl (by simp [isWord_space])
  · rw [hreplacement]
    exact headed_of_signs hkey hpre (sameLetters_refl key) hsigns
  · rw [hreplacement, endsWord_append, endsWord_append]
    exact endsWord_of_signs hpost (fun c hc => hsigns c (List.mem_append_right pre hc)) _
  · obtain ⟨c, gap, w, hgap, -, rfl, hhead⟩ := htakes h
    obtain ⟨d, pre, rfl⟩ := List.exists_cons_of_ne_nil hpre
    rw [hreplacement, List.cons_append, tokens_sign (hsigns d (by simp)), List.head?_cons,
      Option.some.injEq, Token.sign.injEq] at hspace
    rw [List.cons_append, tokens_sign (hgap c List.mem_cons_self),
      hhead (by rw [hspace, List.head?_cons]), List.head?_cons]

theorem keyed_of_spaced (hkey : isKeyword key = true) (hpattern : rule.pattern = Rule.spaced key)
    (pre post : List Char) (hreplacement : (rule.substitution tab mark).replacement =
    pre ++ (key ++ post)) (hpre : pre ≠ []) (hpost : post ≠ []) (hsigns :
    ∀ c ∈ pre ++ post, isWord c = false) : Keyed tab mark rule key := by
  refine keyed_of_signs hkey (fun h => ?_) hreplacement hpre hpost hsigns
  rw [Rule.substitution, hpattern] at h
  obtain ⟨w, hw, rfl⟩ := takes_spaced h
  exact ⟨' ', [], w, by simpa using isWord_space, hw, rfl, fun _ => rfl⟩

theorem keyed_of_bracket (hkey : isKeyword key = true) {c : Char} (hc : gapChar c = true)
    (hpattern : rule.pattern = .letter c :: .blanks :: Rule.word (key ++ [' '])) (pre : List Char)
    (hreplacement : (rule.substitution tab mark).replacement = pre ++ (key ++ [' ']))
    (hpre : pre ≠ [])
    (hhead : pre.head? ≠ some ' ') (hsigns : ∀ c ∈ pre, isWord c = false) :
    Keyed tab mark rule key := by
  refine keyed_of_signs hkey (fun h => ?_) hreplacement hpre (by simp)
    (List.forall_mem_append.2 ⟨hsigns, by simpa using isWord_space⟩)
  rw [Rule.substitution, hpattern] at h
  obtain ⟨gap, w, hgap, hw, rfl⟩ := takes_bracket hc h
  exact ⟨c, gap, w, List.forall_mem_cons.2
    ⟨isWord_of_gapChar hc, fun d hd => isWord_of_isBlank (hgap d hd)⟩, hw, rfl,
    fun h => absurd h hhead⟩

/-- A rule takes a keyword and a second word with signs between them, and writes both behind a
mark. -/
theorem keyed_of_pair (hm : IsCandidate mark) (hkey : isKeyword key = true) {second : List Char}
    (hsecond : second = byWord ∨ second = joinWord)
    (htakes : ∀ {u s}, Takes (rule.substitution tab mark).pattern u s → ∃ w gap v rest,
      SameLetters key w ∧ gap ≠ [] ∧ (∀ c ∈ gap, isWord c = false) ∧
      SameLetters second v ∧ (∀ c ∈ rest, isBlank c = true) ∧
      (rest = [] → startsWord s = false) ∧ u = [' '] ++ (w ++ (gap ++ (v ++ rest))))
    (hreplacement : (rule.substitution tab mark).replacement =
      [mark] ++ (key ++ ([' '] ++ (second ++ [' '])))) :
    Keyed tab mark rule key := by
  have hword : isKeyword second = true := by
    rcases hsecond with rfl | rfl <;> decide
  -- The tokens behind the keyword.
  have htail : ∀ {gap v rest}, (∀ c ∈ gap, isWord c = false) →
      SameLetters second v → (∀ c ∈ rest, isBlank c = true) →
      tokens (gap ++ (v ++ rest)) = gap.map sign ++ keyword second :: rest.map sign := by
    intro gap v rest hgap hv hrest
    have hsigns : ∀ c ∈ rest, isWord c = false := fun c hc => isWord_of_isBlank (hrest c hc)
    have hend : tokens rest = rest.map sign := by
      simpa using tokens_signs hsigns []
    rw [tokens_signs hgap, tokens_keyword hword hv (startsWord_of_signs hsigns), hend]
  have hheaded : ∀ {c w gap v rest}, isWord c = false → SameLetters key w →
      gap ≠ [] → (∀ c ∈ gap, isWord c = false) → SameLetters second v →
      (∀ c ∈ rest, isBlank c = true) →
      Headed key (tokens ([c] ++ (w ++ (gap ++ (v ++ rest))))) := by
    intro c w gap v rest hc hw hne hgap hv hrest
    obtain ⟨d, gap, rfl⟩ := List.exists_cons_of_ne_nil hne
    refine headed_tokens (by simp) (by simpa using hc) hkey hw (hgap d List.mem_cons_self)
      fun x hx => ?_
    rw [htail hgap hv hrest] at hx
    have heq : Token.word x = keyword second := by simpa using hx
    rw [heq]
    rcases hsecond with rfl | rfl
    · exact .inl rfl
    · exact .inr rfl
  have hspace : ∀ c ∈ [' '], isBlank c = true := List.forall_mem_singleton.2 (by decide)
  refine ⟨fun h => ?_, fun h hlast => ?_, fun h => ?_, ?_, ?_, fun _ hhead => ?_⟩
  · obtain ⟨w, gap, v, rest, hw, hne, hgap, hv, hrest, -, rfl⟩ := htakes h
    exact hheaded isWord_space hw hne hgap hv hrest
  · obtain ⟨w, gap, v, rest, hw, hne, hgap, hv, hrest, -, rfl⟩ := htakes h
    obtain rfl | ⟨rest, e, rfl⟩ := List.eq_nil_or_concat rest
    · obtain ⟨d, gap, rfl⟩ := List.exists_cons_of_ne_nil hne
      have hs : startsWord (d :: gap ++ (v ++ [])) = false := hgap d List.mem_cons_self
      rw [tokens_signs (by simpa using isWord_space), tokens_keyword hkey hw hs,
        htail hgap hv hrest] at hlast
      simp [keyword, List.getLast?_cons] at hlast
    · have he : isBlank e = true := hrest e (by simp)
      rw [List.concat_eq_append, ← List.append_assoc v, ← List.append_assoc gap,
        ← List.append_assoc w, ← List.append_assoc, getLast?_tokens_concat (isWord_of_isBlank he)]
        at hlast
      rwa [← Token.sign.inj (Option.some.inj hlast)]
  · obtain ⟨w, gap, v, rest, -, -, -, -, hrest, hs, rfl⟩ := htakes h
    by_cases hnil : rest = []
    · exact .inr (hs hnil)
    · refine .inl ?_
      simp only [endsWord_append]
      exact endsWord_of_signs hnil (fun c hc => isWord_of_isBlank (hrest c hc)) _
  · rw [hreplacement]
    exact hheaded hm.isWord_eq_false (sameLetters_refl key) (by simp) (by simpa using isWord_space)
      (sameLetters_refl second) hspace
  · rw [hreplacement]
    simp [isWord_space]
  · rw [hreplacement, List.singleton_append, tokens_sign hm.isWord_eq_false, List.head?_cons,
      Option.some.injEq, Token.sign.injEq] at hhead
    exact absurd hhead.symm (space_ne hm)

section

variable (hm : IsCandidate mark) (htab : ∀ c ∈ tab, isBlank c = true) (name : String)

theorem keyed_capitals (hkey : isKeyword key = true) :
    Keyed tab mark (Rule.capitals name key) key :=
  keyed_of_spaced hkey rfl [' '] [' '] (by simp [Rule.substitution, Rule.capitals, Piece.expand])
    (by simp) (by simp)
    (by simpa using isWord_space)

include hm

theorem keyed_union (hkey : isKeyword key = true) :
    Keyed tab mark ⟨name, Rule.spaced key, [.mark, .text key, .mark]⟩ key :=
  keyed_of_spaced hkey rfl [mark] [mark] (by simp [Rule.substitution, Piece.expand]) (by simp)
    (by simp)
    (by simpa using hm.isWord_eq_false)

theorem keyed_openBracket (hkey : isKeyword key = true) :
    Keyed tab mark ⟨name, .letter '(' :: .blanks :: Rule.word (key ++ [' ']),
      [.mark, .text ('(' :: (key ++ [' ']))]⟩
      key :=
  keyed_of_bracket hkey (c := '(') (by decide) rfl [mark, '(']
    (by simp [Rule.substitution, Piece.expand]) (by simp)
    (by simpa using (space_ne hm).symm)
    (List.forall_mem_cons.2 ⟨hm.isWord_eq_false,
      by simpa using isWord_of_gapChar (c := '(') (by decide)⟩)

theorem keyed_closeBracket (hkey : isKeyword key = true) :
    Keyed tab mark ⟨name, .letter ')' :: .blanks :: Rule.word (key ++ [' ']),
      [.text [')'], .mark, .text (key ++ [' '])]⟩ key :=
  keyed_of_bracket hkey (c := ')') (by decide) rfl [')', mark]
    (by simp [Rule.substitution, Piece.expand]) (by simp)
    (by simp) (List.forall_mem_cons.2
      ⟨isWord_of_gapChar (by decide), by simpa using hm.isWord_eq_false⟩)

theorem keyed_clauseBy (hkey : isKeyword key = true) :
    Keyed tab mark (Rule.clauseBy name key) key := by
  refine keyed_of_pair hm hkey (.inl rfl) (fun h => ?_)
    (by simp [Rule.substitution, Rule.clauseBy, Piece.expand, byWord])
  obtain ⟨w, c, gap, v, rest, hw, hgap, hv, hrest, hs, rfl⟩ := takes_clauseBy h
  refine ⟨w, c :: gap, v, rest, hw, by simp, fun d hd => isWord_of_isBlank (hgap d hd), hv, hrest,
    ?_, by simp⟩
  rintro rfl
  exact hs

theorem keyed_qualifiedJoin (hkey : isKeyword key = true) :
    Keyed tab mark (Rule.qualifiedJoin name key) key := by
  refine keyed_of_pair hm hkey (.inr rfl) (fun h => ?_)
    (by simp [Rule.substitution, Rule.qualifiedJoin, Piece.expand, joinWord])
  obtain ⟨w, n, v, hw, hv, rfl⟩ := (takes_qualifiedJoin_iff hm).1 h
  refine ⟨w, List.replicate (n + 1) mark, v, [' '], hw, by simp, fun d hd => ?_, hv,
    ?_, by simp, by simp⟩
  · rw [List.eq_of_mem_replicate hd]
    exact hm.isWord_eq_false
  · exact List.forall_mem_singleton.2 (by decide)

include htab

theorem keyed_clause (hkey : isKeyword key = true) (tabs : Nat) :
    Keyed tab mark (Rule.clause name key tabs) key := by
  have hgap : ∀ c ∈ (List.replicate tabs tab).flatten, isWord c = false := by
    intro c hc
    obtain ⟨t, ht, hc⟩ := List.mem_flatten.1 hc
    rw [List.eq_of_mem_replicate ht] at hc
    exact isWord_of_isBlank (htab c hc)
  refine keyed_of_spaced hkey rfl (mark :: (List.replicate tabs tab).flatten) [' '] ?_ (by simp)
    (by simp)
    (List.forall_mem_append.2 ⟨List.forall_mem_cons.2 ⟨hm.isWord_eq_false, hgap⟩,
      by simpa using isWord_space⟩)
  simp [Rule.substitution, Rule.clause, Piece.expand, List.flatMap]

theorem keyed_then (hkey : isKeyword key = true) :
    Keyed tab mark ⟨name, Rule.spaced key, [.text (' ' :: key), .mark, .tab]⟩ key :=
  keyed_of_spaced hkey rfl [' '] (mark :: tab) (by simp [Rule.substitution, Piece.expand])
    (by simp) (by simp)
    (List.forall_mem_cons.2 ⟨isWord_space, List.forall_mem_cons.2 ⟨hm.isWord_eq_false,
      fun c hc => isWord_of_isBlank (htab c hc)⟩⟩)

end

end

/-! ## The table -/

/-- The first word of a pattern. -/
def Rule.key (rule : Rule) : List Char :=
  let letters := rule.pattern.map fun a => match a with
    | .letter c => c
    | _ => ' '
  (letters.dropWhile fun c => !c.isUpper).takeWhile Char.isUpper

/-- The rules of all forms for a keyword. -/
def Rule.forms (name : String) (key : List Char) : List Rule := [
  Rule.clause name key 0,
  Rule.clause name key 1,
  Rule.clause name key 2,
  Rule.capitals name key,
  Rule.clauseBy name key,
  Rule.qualifiedJoin name key,
  ⟨name, Rule.spaced key, [.text (' ' :: key), .mark, .tab]⟩,
  ⟨name, Rule.spaced key, [.mark, .text key, .mark]⟩,
  ⟨name, .letter '(' :: .blanks :: Rule.word (key ++ [' ']),
    [.mark, .text ('(' :: (key ++ [' ']))]⟩,
  ⟨name, .letter ')' :: .blanks :: Rule.word (key ++ [' ']),
    [.text [')'], .mark, .text (key ++ [' '])]⟩]

/-- Whether a rule has one of the forms, for the first word of its pattern. -/
def Rule.isKeyed (rule : Rule) : Bool :=
  isKeyword rule.key && (Rule.forms rule.name rule.key).contains rule

theorem keyed_of_isKeyed {tab : List Char} {mark : Char} (hm : IsCandidate mark)
    (htab : ∀ c ∈ tab, isBlank c = true) {rule : Rule} (h : rule.isKeyed = true) :
    Keyed tab mark rule rule.key := by
  rw [Rule.isKeyed, Bool.and_eq_true, List.contains_iff_mem] at h
  obtain ⟨hkey, hform⟩ := h
  generalize rule.key = key at hkey hform ⊢
  generalize rule.name = name at hform
  simp only [Rule.forms, List.mem_cons, List.not_mem_nil, or_false] at hform
  rcases hform with rfl | rfl | rfl | rfl | rfl | rfl | rfl | rfl | rfl | rfl
  · exact keyed_clause hm htab name hkey 0
  · exact keyed_clause hm htab name hkey 1
  · exact keyed_clause hm htab name hkey 2
  · exact keyed_capitals name hkey
  · exact keyed_clauseBy hm name hkey
  · exact keyed_qualifiedJoin hm name hkey
  · exact keyed_then hm htab name hkey
  · exact keyed_union hm name hkey
  · exact keyed_openBracket hm name hkey
  · exact keyed_closeBracket hm name hkey

/-! ## The last two rules -/

/-- What the rule for `SELECT` takes and writes where blanks stand before the keyword: without a
word in front of them, and with one, to which the keyword is joined. -/
inductive SelectSwaps : List Token → List Token → Prop where
  | free {gap : List Char} (hne : gap ≠ []) (hgap : ∀ c ∈ gap, isBlank c = true) :
      SelectSwaps (gap.map sign ++ [keyword selectWord, sign ' ']) [keyword selectWord, sign ' ']
  | joined {w gap : List Char} (hne : gap ≠ []) (hgap : ∀ c ∈ gap, isBlank c = true) :
      SelectSwaps (.word w :: (gap.map sign ++ [keyword selectWord, sign ' ']))
        [.word (w ++ selectWord.map letterOf), sign ' ']

theorem SelectSwaps.taken {m r : List Token} (h : SelectSwaps m r) :
    ∃ m', m = m' ++ [keyword selectWord, sign ' '] := by
  cases h with
  | free hne hgap => exact ⟨_, rfl⟩
  | @joined w gap hne hgap => exact ⟨.word w :: gap.map sign, rfl⟩

theorem SelectSwaps.written {m r : List Token} (h : SelectSwaps m r) :
    ∃ w, r = [.word (w ++ selectWord.map letterOf), sign ' '] := by
  cases h with
  | free hne hgap => exact ⟨[], rfl⟩
  | @joined w gap hne hgap => exact ⟨w, rfl⟩

section

variable {tab : List Char} {mark : Char}

theorem selectSwaps_consToken {s t : List Token} {c : Char} (hc : isWord c = true)
    (h : Rewritten SelectSwaps s t) :
    Rewritten SelectSwaps (consToken c s) (consToken c t) := by
  cases h with
  | nil =>
    rw [consToken_word_nil hc]
    exact .keep trivial .nil
  | @keep x s t _ h =>
    cases x with
    | word w =>
      rw [consToken_word_word hc, consToken_word_word hc]
      exact .keep trivial h
    | sign d =>
      rw [consToken_word_sign hc, consToken_word_sign hc]
      exact .keep trivial (.keep trivial h)
  | @replace m r s t hmr h =>
    cases hmr with
    | @free gap hne hgap =>
      obtain ⟨d, gap, rfl⟩ := List.exists_cons_of_ne_nil hne
      have hjoined := Rewrites.replace (SelectSwaps.joined (w := [letterOf c]) hne hgap) h
      simp only [List.map_cons, List.cons_append, keyword, consToken_word_sign hc,
        consToken_word_word hc]
      exact hjoined
    | @joined w gap hne hgap =>
      have hjoined := Rewrites.replace (SelectSwaps.joined (w := letterOf c :: w) hne hgap) h
      simp only [List.cons_append, consToken_word_word hc]
      exact hjoined

theorem rewritten_selectRule (text : List Char) :
    Rewritten SelectSwaps (tokens text) (tokens (selectRule.apply tab mark text)) := by
  have hkey : isKeyword selectWord = true := by decide
  refine (selectRule.substitution tab mark).rel_apply
    (R := fun s t => Rewritten SelectSwaps (tokens s) (tokens t)) .nil ?_ ?_ text
  · intro c s t hst
    cases hc : isWord c with
    | false =>
      rw [tokens_sign hc, tokens_sign hc]
      exact .keep trivial hst
    | true => exact selectSwaps_consToken hc hst
  · intro m s t htakes hst
    have hpattern : selectRule.pattern =
        .blanks :: (Rule.word selectWord ++ [Atom.letter ' ']) := by decide
    have hreplacement : (selectRule.substitution tab mark).replacement = selectWord ++ [' '] := rfl
    rw [Rule.substitution, hpattern] at htakes
    obtain ⟨gap, m, rfl, hgap, htakes⟩ := takes_blanks_iff.1 htakes
    obtain ⟨w, m, rfl, hw, htakes⟩ := takes_word_append_iff.1 htakes
    obtain rfl := takes_space_iff.1 htakes
    simp only [hreplacement, List.append_assoc, List.singleton_append]
    rw [tokens_keyword_space hkey (sameLetters_refl selectWord),
      tokens_signs fun c hc => isWord_of_isBlank (hgap c hc), tokens_keyword_space hkey hw]
    by_cases hne : gap = []
    · subst hne
      exact .keep trivial (.keep trivial hst)
    · simpa using Rewrites.replace (SelectSwaps.free hne hgap) hst

/-- A run of marks becomes one. -/
def MarkSwaps (mark : Char) (m r : List Token) : Prop :=
  ∃ n, m = List.replicate (n + 1) (sign mark) ∧ r = [sign mark]

theorem rewritten_collapseMarks (hm : IsCandidate mark) (text : List Char) :
    Rewritten (MarkSwaps mark) (tokens text) (tokens (collapseMarks.apply tab mark text)) := by
  refine (collapseMarks.substitution tab mark).rel_apply
    (R := fun s t => Rewritten (MarkSwaps mark) (tokens s) (tokens t)) .nil ?_ ?_ text
  · intro c s t hst
    cases hc : isWord c with
    | false =>
      rw [tokens_sign hc, tokens_sign hc]
      exact .keep trivial hst
    | true =>
      refine rewrites_consToken hc (fun _ _ => trivial) ?_ hst
      rintro m r ⟨n, rfl, rfl⟩
      exact ⟨⟨mark, _, rfl⟩, mark, _, rfl⟩
  · intro m s t htakes hst
    cases htakes with
    | @many1 _ _ c run m _ hrun htakes =>
      obtain rfl := takes_nil_iff.1 htakes
      have hmarks : c :: run = List.replicate (run.length + 1) mark :=
        List.eq_replicate_iff.2 ⟨rfl, fun d hd => hm.sameLetter_iff.1 (hrun d hd)⟩
      have hsigns : ∀ d ∈ c :: run, isWord d = false := by
        intro d hd
        rw [hm.sameLetter_iff.1 (hrun d hd)]
        exact hm.isWord_eq_false
      have hreplacement : (collapseMarks.substitution tab mark).replacement = [mark] := rfl
      rw [hreplacement, List.append_nil, tokens_signs hsigns, List.singleton_append,
        tokens_sign hm.isWord_eq_false, hmarks, List.map_replicate]
      exact .replace ⟨run.length, rfl, rfl⟩ hst

end

end Reindent.Sql
