import Mathlib
import Reindent.Proofs.Minify.NormalForm
import Reindent.Proofs.Sql.Joins

/-!
# Torn joins

Qualified joins are put together again, but for one case. The rule that does so takes the spaces on
both sides of a join, so of two joins of one kind in a row it finds the first one only, and the
second one stays in two (`exists_glued_of_cutAt`). No other rule makes a cut or moves one
(`settled_applyRules`), so clauses between which a join is torn are of one form.
-/

set_option maxRecDepth 2000

namespace Reindent.Sql

open Text Marker
open Text.Token (keyword sign)

/-! ## The rule that puts a join together -/

/-- The tokens of a join that is in two, with a space before and behind it. -/
def torn (mark : Char) (kw : List Char) (n : Nat) : List Token :=
  sign ' ' :: keyword kw :: (List.replicate (n + 1) (sign mark) ++ [keyword joinWord, sign ' '])

section

variable {tab : List Char} {mark : Char} {kw : List Char} {name : String}

/-- What the rule takes and what it writes. -/
theorem swaps_qualifiedJoin (hm : IsCandidate mark) (hkw : isKeyword kw = true) {m r : List Token}
    (h : (Rule.qualifiedJoin name kw).Swaps tab mark m r) :
    (∃ n, m = torn mark kw n) ∧ r = glued mark kw := by
  obtain ⟨u, s, htakes, rfl, rfl⟩ := h
  obtain ⟨w, n, j, hw, hj, rfl⟩ := (takes_qualifiedJoin_iff hm).1 htakes
  have hmarks : ∀ c ∈ List.replicate (n + 1) mark, isWord c = false := fun c hc => by
    rw [List.eq_of_mem_replicate hc]
    exact hm.isWord_eq_false
  have hreplacement : ((Rule.qualifiedJoin name kw).substitution tab mark).replacement =
      mark :: (kw ++ ' ' :: (joinWord ++ [' '])) := by
    simp [Rule.substitution, Rule.qualifiedJoin, Piece.expand, joinWord]
  have hgap : startsWord (List.replicate (n + 1) mark ++ (j ++ [' '])) = false :=
    hm.isWord_eq_false
  refine ⟨⟨n, ?_⟩, ?_⟩
  · rw [tokens_sign isWord_space, tokens_keyword hkw hw hgap, tokens_signs hmarks,
      tokens_keyword_space isKeyword_joinWord hj, List.map_replicate, tokens_nil, torn]
  · rw [hreplacement, tokens_sign hm.isWord_eq_false,
      tokens_keyword_space hkw (sameLetters_refl kw),
      tokens_keyword_space isKeyword_joinWord (sameLetters_refl joinWord), tokens_nil, glued]

theorem takes_of_tokens_torn (hm : IsCandidate mark) (hkw : isKeyword kw = true) {u : List Char}
    {n : Nat} (hu : tokens u = torn mark kw n) (s : List Char) :
    Takes ((Rule.qualifiedJoin name kw).substitution tab mark).pattern u s := by
  have hcase : ∀ {key w}, isKeyword key = true → tokens w = [keyword key] → SameLetters key w :=
    fun hkey hw =>
    sameLetters_of_tokens_eq ((tokens_of_keyword hkey).trans hw.symm)
  have hparts : torn mark kw n = [' '].map sign ++ ([keyword kw] ++
      ((List.replicate (n + 1) mark).map sign ++ ([keyword joinWord] ++ [' '].map sign))) := by
    rw [List.map_replicate]
    rfl
  rw [hparts] at hu
  obtain ⟨b, u, rfl, hb, hu⟩ := exists_append_of_tokens hu
  obtain ⟨w, u, rfl, hw, hu⟩ := exists_append_of_tokens hu
  obtain ⟨gap, u, rfl, hgap, hu⟩ := exists_append_of_tokens hu
  obtain ⟨j, e, rfl, hj, he⟩ := exists_append_of_tokens hu
  rw [eq_of_tokens_signs hb, eq_of_tokens_signs hgap, eq_of_tokens_signs he]
  exact (takes_qualifiedJoin_iff hm).2 ⟨w, n, j, hcase hkw hw, hcase isKeyword_joinWord hj, rfl⟩

/-- The rule leaves no torn join where it keeps a token. -/
theorem rewrites_qualifiedJoin (hm : IsCandidate mark) (hkw : isKeyword kw = true)
    (text : List Char) :
    Rewrites (fun ts => ∀ n, ¬ torn mark kw n <+: ts) ((Rule.qualifiedJoin name kw).Swaps tab mark)
    (tokens text)
      (tokens ((Rule.qualifiedJoin name kw).apply tab mark text)) := by
  refine (keyed_qualifiedJoin hm name hkw).rewrites_of ?_ ?_ text
  · rintro w ts n ⟨rest, h⟩
    cases h
  · rintro c s - hnot n ⟨rest, h⟩
    obtain ⟨u, t, hsplit, hu, -⟩ := exists_append_of_tokens h.symm
    exact hnot u t hsplit (takes_of_tokens_torn hm hkw hu t)

/-! ## What the rule leaves -/

section

variable {L : List Token → List Token → Prop} {s t a us c rest : List Token} {b : Char}

theorem eq_mark_of_glued (hjoin : keyword joinWord ≠ keyword kw)
    (h : glued mark kw = a ++ sign b :: keyword kw :: rest) : b = mark := by
  rcases a with _ | ⟨x, _ | ⟨y, a⟩⟩
  · exact (Token.sign.inj (List.cons_eq_cons.1 h).1).symm
  · simp [glued, keyword] at h
  · have hmem : keyword kw ∈ [sign ' ', keyword joinWord, sign ' '] := by
      rw [(List.cons_eq_cons.1 (List.cons_eq_cons.1 h).2).2]
      simp
    simp only [List.mem_cons, hjoin.symm, List.not_mem_nil, or_false, false_or] at hmem
    rcases hmem with hmem | hmem <;> cases hmem

/-- A blank in front of a qualifier stands behind a join that has been put together, or is its last
space. -/
theorem glued_append_cases (hm : IsCandidate mark) (hjoin : keyword joinWord ≠ keyword kw)
    (hb : isBlank b = true) (h : glued mark kw ++ t = a ++ sign b :: keyword kw :: rest) :
    (∃ a', a = glued mark kw ++ a' ∧ t = a' ++ sign b :: keyword kw :: rest) ∨
      (a ++ [sign b] = glued mark kw ∧ t = keyword kw :: rest) := by
  obtain hbehind | ⟨e, hglued, he⟩ := List.append_eq_append_iff.1 h
  · exact .inl hbehind
  · rcases e with _ | ⟨x, _ | ⟨y, e⟩⟩
    · exact .inl ⟨[], by simpa using hglued.symm, by simpa using he.symm⟩
    · obtain ⟨rfl, ht⟩ := List.cons_eq_cons.1 he
      exact .inr ⟨hglued.symm, ht.symm⟩
    · -- In the join itself a mark stands before the qualifier.
      obtain ⟨rfl, he'⟩ := List.cons_eq_cons.1 he
      obtain ⟨rfl, -⟩ := List.cons_eq_cons.1 he'
      rw [eq_mark_of_glued hjoin hglued, hm.isBlank_eq_false] at hb
      cases hb

/-- A qualifier that marks part from its join has been there before. -/
theorem keeps_cut (hm : IsCandidate mark) (hjoin : keyword joinWord ≠ keyword kw)
    (hL : ∀ m r, L m r → r = glued mark kw) {stays : List Token → Prop}
    (hus : ∀ x ∈ us, x = sign mark)
    (h : Rewrites stays L s (keyword kw :: (us ++ keyword joinWord :: sign ' ' :: c))) :
    ∃ c', s = keyword kw :: (us ++ keyword joinWord :: sign ' ' :: c') := by
  have hspace : ' ' ≠ mark := space_ne hm
  have hfree : keyword kw ∉ us ++ [keyword joinWord, sign ' '] := by
    intro hmem
    simp only [List.mem_append, List.mem_cons, hjoin.symm, List.not_mem_nil, or_false,
      false_or] at hmem
    rcases hmem with hmem | hmem
    · cases hus _ hmem
    · cases hmem
  have hz : keyword kw :: (us ++ keyword joinWord :: sign ' ' :: c) =
      (keyword kw :: (us ++ [keyword joinWord, sign ' '])) ++ c := by simp
  rw [hz] at h
  -- A join that has been put together has its qualifier right behind a mark.
  have hstarts : ∀ m r, L m r → ∀ z, z ≠ [] →
      z <:+ keyword kw :: (us ++ [keyword joinWord, sign ' ']) → ¬ r <+: z ++ c := by
    intro m r hmr z hne hsuffix hr
    rw [hL m r hmr] at hr
    obtain ⟨x, z, rfl⟩ := List.exists_cons_of_ne_nil hne
    obtain ⟨rfl, hbehind⟩ := List.cons_prefix_cons.1 hr
    obtain heq | hsuffix' := List.suffix_cons_iff.1 hsuffix
    · cases heq
    · cases z with
      | nil =>
        have hlast := hsuffix'.getLast (by simp)
        simp [hspace.symm] at hlast
      | cons y z =>
        obtain ⟨rfl, -⟩ := List.cons_prefix_cons.1 hbehind
        exact hfree (hsuffix'.subset (by simp))
  obtain ⟨c', rfl, -⟩ := h.keeps hstarts
  exact ⟨c', by simp⟩

/-- Where the rule leaves a cut, it has found a join right behind another one: the first one it has
put together, and has taken the space in front of the second one with it. -/
theorem exists_glued_of_cutAt (hm : IsCandidate mark) (hjoin : keyword joinWord ≠ keyword kw)
    (hL : ∀ m r, L m r → (∃ n, m = torn mark kw n) ∧ r = glued mark kw)
    (h : Rewrites (fun ts => ∀ n, ¬ torn mark kw n <+: ts) L s t) (hs : Spaced kw s)
    (hcut : CutAt mark kw t a b us c) :
    (∃ a', a ++ [sign b] = a' ++ glued mark kw) ∧ Doubled mark kw s := by
  obtain ⟨hb, hne, hus, heq⟩ := hcut
  have hparting : Parting mark us := ⟨hne, fun x hx => .inl (hus x hx)⟩
  have hcount : us = List.replicate (us.length - 1 + 1) (sign mark) := by
    rw [Nat.sub_add_cancel (List.length_pos_of_ne_nil hne)]
    exact List.eq_replicate_iff.2 ⟨rfl, hus⟩
  induction h generalizing a with
  | nil => simp at heq
  | @keep x s t hstays h ih =>
    cases a with
    | nil =>
      -- The space before the qualifier is kept, so the rule would have taken it with the join.
      obtain ⟨rfl, rfl⟩ := List.cons_eq_cons.1 heq
      obtain ⟨c', rfl⟩ := keeps_cut hm hjoin (fun m r hmr => (hL m r hmr).2) hus h
      obtain rfl := hs [] b _ rfl hb
      refine absurd ⟨c', ?_⟩ (hstays (us.length - 1))
      rw [torn, ← hcount]
      simp
    | cons y a =>
      obtain ⟨rfl, htail⟩ := List.cons_eq_cons.1 heq
      obtain ⟨⟨a', ha'⟩, hdoubled⟩ := ih (hs.suffix (List.suffix_cons _ _)) htail
      exact ⟨⟨x :: a', by rw [List.cons_append, ha', List.cons_append]⟩, hdoubled.append [x]⟩
  | @replace m r s t hmr h ih =>
    obtain ⟨⟨n, rfl⟩, rfl⟩ := hL m r hmr
    obtain ⟨a', rfl, rfl⟩ | ⟨hlast, rfl⟩ := glued_append_cases hm hjoin hb heq
    · obtain ⟨⟨f, hf⟩, hdoubled⟩ := ih (hs.suffix (List.suffix_append _ _)) rfl
      exact ⟨⟨glued mark kw ++ f, by rw [List.append_assoc, hf, List.append_assoc]⟩,
        hdoubled.append _⟩
    · obtain ⟨c', rfl⟩ := keeps_cut hm hjoin (fun m r hmr => (hL m r hmr).2) hus h
      have hmarks : Parting mark (List.replicate (n + 1) (sign mark)) :=
        ⟨by simp, fun x hx => .inl (List.eq_of_mem_replicate hx)⟩
      have hsplit : torn mark kw n ++ keyword kw :: (us ++ keyword joinWord :: sign ' ' :: c') =
          [] ++ sign ' ' :: keyword kw ::
            (List.replicate (n + 1) (sign mark) ++ keyword joinWord :: sign ' ' ::
            keyword kw :: (us ++ keyword joinWord :: sign ' ' :: c')) := by
        simp [torn]
      rw [hsplit]
      exact ⟨⟨[], hlast⟩, .mk (by decide) hmarks hparting⟩

end

end

/-! ## The rules in order -/

/-- What the keywords of joins have to do with the other keywords. -/
theorem qualifiers_apart : ∀ kw ∈ qualifiers, isKeyword kw = true ∧ kw.length < selectWord.length ∧
    keyword byWord ≠ keyword kw ∧ keyword joinWord ≠ keyword kw := by
  decide

/-- Whether a rule is about a keyword that is not part of a kind of join. -/
def Rule.isForeign (kw : List Char) (rule : Rule) : Bool :=
  rule.isKeyed && keyword rule.key != keyword joinWord && keyword rule.key != keyword kw

/-- Whether a rule writes a space last. -/
def Rule.endsInSpace (rule : Rule) : Bool :=
  rule.replacement.getLast?.any fun piece => match piece with
    | .text s => s.getLast? == some ' '
    | _ => false

/-- The rules in front of the one for a qualifier write spaces last, and those behind it are not
about its joins. -/
theorem splitRules_around : ∀ kw ∈ qualifiers, ∃ name before after,
    splitRules = blanksRule :: (before ++ Rule.qualifiedJoin name kw ::
      (after ++ [selectRule, collapseMarks])) ∧
      (∀ rule ∈ before, (rule = joinRule ∨ rule.isForeign kw = true) ∧ rule.endsInSpace = true) ∧
      ∀ rule ∈ after, rule.isForeign kw = true := by
  simp only [qualifiers, List.forall_mem_cons]
  refine ⟨?_, ?_, ?_, ?_, by simp⟩
  · exact ⟨"cross_join", (splitRules.drop 1).take 10,
      (splitRules.drop 12).take 24, by decide, by decide, by decide⟩
  · exact ⟨"inner_join", (splitRules.drop 1).take 11,
      (splitRules.drop 13).take 23, by decide, by decide, by decide⟩
  · exact ⟨"left_join", (splitRules.drop 1).take 12,
      (splitRules.drop 14).take 22, by decide, by decide, by decide⟩
  · exact ⟨"right_join", (splitRules.drop 1).take 13,
      (splitRules.drop 15).take 21, by decide, by decide, by decide⟩

section

variable {tab : List Char} {mark : Char} {kw : List Char} {rule : Rule}

theorem getLast?_of_endsInSpace (h : rule.endsInSpace = true) {m r : List Token}
    (hmr : rule.Swaps tab mark m r) :
    r.getLast? = some (sign ' ') := by
  obtain ⟨u, s, -, -, rfl⟩ := hmr
  rw [Rule.endsInSpace, Option.any_eq_true] at h
  obtain ⟨piece, hpiece, hspace⟩ := h
  obtain ⟨pieces, hpieces⟩ := List.getLast?_eq_some_iff.1 hpiece
  cases piece with
  | text w =>
    obtain ⟨w, rfl⟩ := List.getLast?_eq_some_iff.1 (beq_iff_eq.1 hspace)
    rw [Rule.substitution, hpieces, List.flatMap_append, List.flatMap_singleton, Piece.expand,
      ← List.append_assoc]
    exact getLast?_tokens_concat isWord_space _
  | mark => cases hspace
  | tab => cases hspace

theorem spaced_collapse (text : List Char) : Spaced kw (tokens (collapse text)) := by
  intro a b c hsplit hb
  have hmem : sign b ∈ tokens (collapse text) := by simp [hsplit]
  exact isBlank_of_mem_collapse (sign_mem_tokens hmem).1 hb

section

variable (hm : IsCandidate mark) (htab : ∀ c ∈ tab, isBlank c = true) (hkw : kw ∈ qualifiers)

include hm htab hkw

theorem neutral_of_isForeign (h : rule.isForeign kw = true) (s : List Char) :
    Neutral mark kw (rule.Swaps tab mark) ∧
    Rewritten (rule.Swaps tab mark) (tokens s) (tokens (rule.apply tab mark s)) := by
  obtain ⟨-, -, hby, hjoin⟩ := qualifiers_apart kw hkw
  simp only [Rule.isForeign, Bool.and_eq_true, bne_iff_ne] at h
  obtain ⟨⟨hkeyed, hkey'⟩, hkey⟩ := h
  have hrule := keyed_of_isKeyed hm htab hkeyed
  exact ⟨hrule.neutral hm hkey hby hjoin hkey', hrule.rewritten s⟩

/-- The rules in front of the one for a qualifier keep spaces before it, and write no join
twice. -/
theorem keepsDoubles_apply (h : rule = joinRule ∨ rule.isForeign kw = true)
    (hspace : rule.endsInSpace = true) (s : List Char) :
    KeepsDoubles mark kw (tokens s) (tokens (rule.apply tab mark s)) := by
  obtain ⟨-, -, hby, hjoin⟩ := qualifiers_apart kw hkw
  have hlast : ∀ m r, rule.Swaps tab mark m r → r.getLast? = some (sign ' ') :=
    fun m r => getLast?_of_endsInSpace hspace
  rcases h with rfl | h
  · exact (keepsJoins_join hm htab hby hjoin).keepsDoubles hlast
      ((keyed_clause hm htab _ (by decide) 0).rewritten s)
  · obtain ⟨hneutral, hrewritten⟩ := neutral_of_isForeign hm htab hkw h s
    exact hneutral.keepsJoins.keepsDoubles hlast hrewritten

/-- The rules behind it make no cut, and leave those that it makes where they are. -/
theorem keepsCuts_apply (h : rule.isForeign kw = true) (s : List Char) :
    KeepsCuts mark kw (tokens s) (tokens (rule.apply tab mark s)) := by
  obtain ⟨hneutral, hrewritten⟩ := neutral_of_isForeign hm htab hkw h s
  exact hneutral.keepsCuts hrewritten

/-- In what all rules leave, a cut stands right behind a join of its kind, and there is none unless
the text holds two joins of its kind in a row. -/
theorem settled_applyRules (text : List Char) :
    Settled mark kw (tokens (applyRules tab mark text)) ∧
    (HasCut mark kw (tokens (applyRules tab mark text)) →
      Doubled mark kw (tokens (collapse text))) := by
  obtain ⟨hkey, hshort, -, hjoin⟩ := qualifiers_apart kw hkw
  obtain ⟨name, before, after, hrules, hbefore, hafter⟩ := splitRules_around kw hkw
  have hblanks : blanksRule.apply tab mark text = collapse text := Substitution.apply_oneSpace text
  rw [applyRules, hrules, List.foldl_cons, hblanks, List.foldl_append, List.foldl_cons,
    List.foldl_append, List.foldl_cons, List.foldl_cons, List.foldl_nil]
  have hfirst :=
    rel_foldl_apply (R := fun s t => KeepsDoubles mark kw (tokens s) (tokens t))
      (fun _ => .refl) .trans
    (fun rule hrule s => keepsDoubles_apply hm htab hkw (hbefore rule hrule).1
      (hbefore rule hrule).2 s) (collapse text)
  generalize before.foldl (fun s rule => rule.apply tab mark s) (collapse text) = s at hfirst ⊢
  have hcuts : ∀ a b us c, CutAt mark kw
    (tokens ((Rule.qualifiedJoin name kw).apply tab mark s)) a b us c →
      (∃ a', a ++ [sign b] = a' ++ glued mark kw) ∧ Doubled mark kw (tokens s) := fun a b us c =>
    exists_glued_of_cutAt hm hjoin (fun m r => swaps_qualifiedJoin hm hkey)
      (rewrites_qualifiedJoin hm hkey s)
      (hfirst.spaced (spaced_collapse text))
  generalize (Rule.qualifiedJoin name kw).apply tab mark s = t at hcuts ⊢
  have hmiddle :=
    rel_foldl_apply (R := fun s t => KeepsCuts mark kw (tokens s) (tokens t))
      (fun _ => .refl) .trans
    (fun rule hrule s => keepsCuts_apply hm htab hkw (hafter rule hrule) s) t
  generalize after.foldl (fun s rule => rule.apply tab mark s) t = u at hmiddle ⊢
  have hselect : KeepsCuts mark kw (tokens u) (tokens (selectRule.apply tab mark u)) :=
    (neutral_selectSwaps hm hshort).keepsCuts (rewritten_selectRule u)
  generalize selectRule.apply tab mark u = v at hselect ⊢
  have hmarks : KeepsCuts mark kw (tokens v) (tokens (collapseMarks.apply tab mark v)) :=
    MarkSwaps.keepsCuts hm (rewritten_collapseMarks hm v)
  have hall := (hmiddle.trans hselect).trans hmarks
  refine ⟨hall.settled fun a b us c hcut => (hcuts a b us c hcut).1, fun hcut => ?_⟩
  obtain ⟨a, b, us, c, hcut⟩ := hall.hasCut hcut
  exact hfirst.doubled (hcuts a b us c hcut).2

end

/-! ## Texts without marks -/

/-- A qualified join right behind another one of its kind, with spaces around them. -/
def twice (kw : List Char) : List Char :=
  ' ' :: (kw ++ ' ' :: (joinWord ++ ' ' :: (kw ++ ' ' :: (joinWord ++ [' ']))))

/-- Where blanks are collapsed, one space parts two words. -/
theorem Parting.eq_space {text : List Char} {us : List Token} (hus : Parting mark us)
    (hfree : mark ∉ collapse text) (h : us <:+: tokens (collapse text)) : us = [sign ' '] := by
  have hspaces : ∀ x ∈ us, x = sign ' ' := by
    intro x hx
    refine (hus.signs x hx).resolve_left ?_
    rintro rfl
    exact hfree (sign_mem_tokens (h.subset hx)).1
  rcases us with _ | ⟨x, _ | ⟨y, us⟩⟩
  · exact absurd rfl hus.ne_nil
  · rw [hspaces x (by simp)]
  · obtain rfl := hspaces x (by simp)
    obtain rfl := hspaces y (by simp)
    obtain ⟨xs, ys, h⟩ := h
    have hsigns : tokens (collapse text) = xs ++ ([' ', ' '].map sign ++ (us ++ ys)) := by
      rw [← h]
      simp
    obtain ⟨f, rest, hsplit, -, hrest⟩ := exists_append_of_tokens hsigns
    obtain ⟨gap, g, rfl, hgap, -⟩ := exists_append_of_tokens hrest
    rw [eq_of_tokens_signs hgap] at hsplit
    exact absurd ⟨f, g, by simp [hsplit]⟩
      (collapse_eq_self_iff.1 (collapse_collapse text)).2

theorem tokens_twice (hkw : isKeyword kw = true) : tokens (twice kw) =
    [sign ' ', keyword kw, sign ' ', keyword joinWord, sign ' ', keyword kw, sign ' ',
      keyword joinWord, sign ' '] := by
  rw [twice, tokens_sign isWord_space, tokens_keyword_space hkw (sameLetters_refl kw),
    tokens_keyword_space isKeyword_joinWord (sameLetters_refl joinWord),
    tokens_keyword_space hkw (sameLetters_refl kw),
    tokens_keyword_space isKeyword_joinWord (sameLetters_refl joinWord), tokens_nil]

/-- A text in which a join is written twice spells it so. -/
theorem Doubled.exists_twice (hkw : isKeyword kw = true) {text : List Char}
    (hfree : mark ∉ collapse text) (h : Doubled mark kw (tokens (collapse text))) :
    ∃ w, SameLetters (twice kw) w ∧ w <:+: collapse text := by
  generalize hts : tokens (collapse text) = ts at h
  cases h with
  | @mk a b us vs c hb hus hvs =>
    obtain rfl := spaced_collapse text a b _ hts hb
    have hinside : us <:+: tokens (collapse text) := by
      rw [hts, List.append_cons, List.append_cons]
      exact List.infix_append' _ _ _
    obtain rfl := hus.eq_space hfree hinside
    have hinside' : vs <:+: tokens (collapse text) := by
      rw [hts, List.singleton_append]
      iterate 6 rw [List.append_cons]
      exact List.infix_append' _ _ _
    obtain rfl := hvs.eq_space hfree hinside'
    have hsplit : tokens (collapse text) = a ++ (tokens (twice kw) ++ c) := by
      rw [hts, tokens_twice hkw]
      simp
    obtain ⟨f, rest, htext, -, hrest⟩ := exists_append_of_tokens hsplit
    obtain ⟨w, g, rfl, hw, -⟩ := exists_append_of_tokens hrest
    exact ⟨w, sameLetters_of_tokens_eq hw.symm, f, g, by simp [htext]⟩

/-! ## Fragments -/

/-- A text starts with `JOIN` and a space. -/
def StartsJoin (q : List Char) : Prop :=
  ∃ j rest, q = j ++ ' ' :: rest ∧ SameLetters joinWord j

/-- A join is in two: the first text ends in a space and its qualifier, and the second one starts
with its `JOIN`. -/
def Torn (kw p q : List Char) : Prop :=
  (∃ front w, p = front ++ ' ' :: w ∧ SameLetters kw w) ∧ StartsJoin q

/-- A torn join is a cut in the text. -/
theorem exists_cutAt (hm : IsCandidate mark) (hkw : isKeyword kw = true) {w q : List Char}
    (hw : SameLetters kw w) (hq : StartsJoin q) (x front y : List Char) :
    ∃ c, CutAt mark kw (tokens (x ++ (front ++ ' ' :: w ++ mark :: (q ++ y))))
    (tokens (x ++ front)) ' ' [sign mark]
      c := by
  obtain ⟨j, rest, rfl, hj⟩ := hq
  refine ⟨tokens (rest ++ y), by decide, by simp, by simp, ?_⟩
  have htext : x ++ (front ++ ' ' :: w ++ mark :: (j ++ ' ' :: rest ++ y)) =
      (x ++ front) ++ ' ' :: (w ++ mark :: (j ++ ' ' :: (rest ++ y))) := by simp
  rw [htext, tokens_append (.inr (startsWord_of_sign isWord_space _)), tokens_sign isWord_space,
    tokens_keyword hkw hw (startsWord_of_sign hm.isWord_eq_false _),
    tokens_sign hm.isWord_eq_false,
    tokens_keyword_space isKeyword_joinWord hj]
  rfl

/-- Behind a mark there is one way to part a text into what has none. -/
theorem eq_of_append_mark_eq {a b s t : List Char} (hs : mark ∉ s) (ht : mark ∉ t)
    (h : a ++ mark :: s = b ++ mark :: t) : s = t := by
  have hst : s <:+ t :=
    suffix_of_suffix_append_cons (h ▸ List.suffix_append_of_suffix (List.suffix_cons mark s)) hs
  have hts : t <:+ s :=
    suffix_of_suffix_append_cons (h ▸ List.suffix_append_of_suffix (List.suffix_cons mark t)) ht
  exact hst.eq_of_length_le hts.length_le

/-- The first part of a torn join is all of a fragment: a join of its kind, and its qualifier. -/
theorem sameLetters_of_settled (hm : IsCandidate mark) (hkw : isKeyword kw = true)
    {x y front w q : List Char} (hx : x = [] ∨ ∃ x', x = x' ++ [mark]) (hfront : mark ∉ front)
    (hw : SameLetters kw w) (hq : StartsJoin q)
    (hsettled : Settled mark kw (tokens (x ++ (front ++ ' ' :: w ++ mark :: (q ++ y))))) :
    SameLetters (kw ++ ' ' :: joinWord) front := by
  have hspelled : tokens (kw ++ ' ' :: joinWord) = [keyword kw, sign ' ', keyword joinWord] := by
    rw [tokens_keyword_space hkw (sameLetters_refl kw), tokens_of_keyword isKeyword_joinWord]
  obtain ⟨c, hcut⟩ := exists_cutAt hm hkw hw hq x front y
  obtain ⟨a, ha⟩ := hsettled _ _ _ _ hcut
  have hglued : tokens (x ++ front) =
      a ++ ([mark].map sign ++ tokens (kw ++ ' ' :: joinWord)) := by
    rw [hspelled]
    refine List.append_cancel_right (ha.trans ?_)
    simp [glued]
  obtain ⟨g, rest, htext, -, hrest⟩ := exists_append_of_tokens hglued
  obtain ⟨b, s, rfl, hb, hs⟩ := exists_append_of_tokens hrest
  rw [eq_of_tokens_signs hb, List.singleton_append] at htext
  have hfree : mark ∉ s := by
    intro hmem
    have hsign := sign_mem_tokens_of_mem hm.isWord_eq_false hmem
    have hspace : ' ' ≠ mark := space_ne hm
    rw [hs, hspelled] at hsign
    simp [keyword, hspace.symm] at hsign
  rcases hx with rfl | ⟨x, rfl⟩
  · rw [List.nil_append] at htext
    exact absurd (by simp [htext]) hfront
  · rw [List.append_assoc, List.singleton_append] at htext
    rw [eq_of_append_mark_eq hfront hfree htext]
    exact sameLetters_of_tokens_eq hs.symm

end

/-- With blanks for indentation, a text has clauses if a mark is left for it. Of two clauses in a
row, the first one ends in a space and a qualifier, and the second one starts with its `JOIN`,
exactly if the first one is a join of the same kind with the qualifier behind it and nothing else.
There are no such clauses unless the text has two joins of the same kind in a row. -/
theorem torn_iff_of_splitClauses (tab text : List Char) (htab : ∀ c ∈ tab, isBlank c = true)
    (hmark : (pick? (text ++ tab)).isSome = true) :
    ∃ fs, splitClauses tab text = .ok fs ∧ ∀ kw ∈ qualifiers,
      (∀ p q, [p, q] <:+: fs →
        (Torn kw p q ↔ SameLetters (kw ++ ' ' :: (joinWord ++ ' ' :: kw)) p ∧ StartsJoin q)) ∧
      ((∃ p q, [p, q] <:+: fs ∧ Torn kw p q) → ∃ w, SameLetters (twice kw) w ∧
        w <:+: collapse text) := by
  obtain ⟨mark, hpick⟩ := Option.isSome_iff_exists.1 hmark
  obtain ⟨hm, hfree⟩ := pick?_eq_some hpick
  have hfree' : mark ∉ collapse text := fun hmem =>
    hfree (List.mem_append_left tab (mem_of_mem_collapse hmem hm.isBlank_eq_false))
  refine ⟨splitClausesWith mark tab text, by rw [splitClauses, hpick], fun kw hkw => ?_⟩
  obtain ⟨hkey, -⟩ := qualifiers_apart kw hkw
  obtain ⟨hsettled, hdoubled⟩ := settled_applyRules hm htab hkw text
  refine ⟨fun p q hpq => ⟨?_, ?_⟩, ?_⟩
  · rintro ⟨⟨front, w, rfl, hw⟩, hq⟩
    have hfront : mark ∉ front := fun hmem =>
      notMem_of_mem_splitOn (hpq.subset List.mem_cons_self) (List.mem_append_left _ hmem)
    obtain ⟨x, y, htext, hx⟩ := exists_of_infix_splitOn hpq
    rw [htext] at hsettled
    have hjoin := sameLetters_of_settled hm hkey hx hfront hw hq hsettled
    refine ⟨?_, hq⟩
    rw [sameLetters_iff] at hjoin hw ⊢
    simp [← hjoin, ← hw]
  · rintro ⟨hp, hq⟩
    rw [← List.cons_append, ← List.append_assoc] at hp
    obtain ⟨front, tail, rfl, -, htail⟩ := hp.exists_append
    cases htail with
    | @cons _ c _ w hc hw =>
      obtain rfl := eq_of_gapChar (by decide) hc
      exact ⟨⟨front, w, rfl, hw⟩, hq⟩
  · rintro ⟨p, q, hpq, ⟨front, w, rfl, hw⟩, hq⟩
    obtain ⟨x, y, htext, -⟩ := exists_of_infix_splitOn hpq
    obtain ⟨c, hcut⟩ := exists_cutAt hm hkey hw hq x front y
    rw [← htext] at hcut
    exact (hdoubled ⟨_, _, _, _, hcut⟩).exists_twice hkey hfree'

/-- Joins of two kinds, one of them in small letters, are not torn. -/
theorem not_torn_cross_left :
    let text := "a cross join b LEFT JOIN c LEFT JOIN d".toList
    (∀ c ∈ [' ', ' '], isBlank c = true) ∧ (pick? (text ++ [' ', ' '])).isSome = true ∧
      ∃ fs, splitClauses [' ', ' '] text = .ok fs ∧ ∀ kw ∈ qualifiers, ∀ p q, [p, q] <:+: fs →
      ¬ Torn kw p q := by
  intro text
  have htab : ∀ c ∈ [' ', ' '], isBlank c = true := List.all_eq_true.1 (by decide)
  have hmark : (pick? (text ++ [' ', ' '])).isSome = true := by decide
  have hnone : ∀ kw ∈ qualifiers, ¬ (twice kw).map letterOf <:+: (collapse text).map letterOf := by
    decide
  obtain ⟨fs, hfs, htorn⟩ := torn_iff_of_splitClauses [' ', ' '] text htab hmark
  refine ⟨htab, hmark, fs, hfs, fun kw hkw p q hpq htorn' => ?_⟩
  obtain ⟨w, hw, hinside⟩ := (htorn kw hkw).2 ⟨p, q, hpq, htorn'⟩
  exact hnone kw hkw (sameLetters_iff.1 hw ▸ hinside.map letterOf)

/-- The second of two joins in a row is torn. -/
theorem torn_left_twice : splitClauses [' ', ' '] "a LEFT JOIN LEFT JOIN b".toList =
      .ok ["a".toList, "LEFT JOIN LEFT".toList, "JOIN b".toList] ∧
    Torn ['L', 'E', 'F', 'T'] "LEFT JOIN LEFT".toList "JOIN b".toList := by
  have hclauses : splitClausesWith preferred [' ', ' '] "a LEFT JOIN LEFT JOIN b".toList =
      ["a".toList, "LEFT JOIN LEFT".toList, "JOIN b".toList] := by
    decide
  refine ⟨?_, ⟨"LEFT JOIN".toList, "LEFT".toList, by decide, sameLetters_refl _⟩,
    "JOIN".toList, "b".toList, by decide, sameLetters_refl _⟩
  rw [splitClauses, pick?_of_notMem (by decide)]
  exact congrArg Except.ok hclauses

end Reindent.Sql
