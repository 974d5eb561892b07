import Mathlib
import Reindent.Css.Split
import Reindent.Proofs.Marker
import Reindent.Proofs.Sql.Rules
import Reindent.Proofs.Text.Renaming
import Reindent.Sql.Split

/-!
# The choice of the mark

The fragments of a text do not show which mark was put at its boundaries. Exchanging two marks
turns the rules for one of them into the rules for the other, since the rules ask for and write no
other mark than their own; and it changes neither a text that holds none of the two nor its
fragments. So any two free marks give the same fragments, and a text that holds the null character
is split like the text with a free mark in its place.
-/

namespace Reindent

open Text

namespace Marker

variable {a b : Char}

/-! ## Exchanging two marks -/

/-- What no mark has, is not changed by an exchange of two marks. -/
theorem apply_swap (ha : IsCandidate a) (hb : IsCandidate b) {P : Char → Bool}
    (hP : ∀ m, IsCandidate m → P m = false) (c : Char) : P (Equiv.swap a b c) = P c := by
  rw [Equiv.swap_apply_def]
  split
  · rename_i h
    rw [h, hP a ha, hP b hb]
  · split
    · rename_i h
      rw [h, hP a ha, hP b hb]
    · rfl

theorem isWord_swap (ha : IsCandidate a) (hb : IsCandidate b) (c : Char) :
    isWord (Equiv.swap a b c) = isWord c :=
  apply_swap ha hb (fun _ hm => hm.isWord_eq_false) c

theorem class_swap (ha : IsCandidate a) (hb : IsCandidate b) {P : Char → Bool}
    (hP : ∀ m, IsCandidate m → P m = false) : (fun c => P ((Equiv.swap a b).symm c)) = P := by
  funext c
  rw [Equiv.symm_swap, apply_swap ha hb hP]

theorem rename_blanks (ha : IsCandidate a) (hb : IsCandidate b) :
    Part.blanks.rename (Equiv.swap a b) = .blanks :=
  congrArg Part.many (class_swap ha hb fun _ hm => hm.isBlank_eq_false)

theorem rename_blanks1 (ha : IsCandidate a) (hb : IsCandidate b) :
    Part.blanks1.rename (Equiv.swap a b) = .blanks1 :=
  congrArg Part.many1 (class_swap ha hb fun _ hm => hm.isBlank_eq_false)

/-- Rules for every mark that ask for and write no other mark than the given one, if the unit of
indentation has none. -/
structure MarkBlind (tab : List Char) (rules : Char → List Substitution) : Prop where
  rename : ∀ {a b : Char}, IsCandidate a → IsCandidate b → a ∉ tab → b ∉ tab →
    (rules a).map (Substitution.rename (Equiv.swap a b)) = rules b
  fresh : ∀ {a b : Char}, IsCandidate a → IsCandidate b → a ≠ b → b ∉ tab →
    ∀ r ∈ rules a, b ∉ r.replacement

namespace MarkBlind

variable {tab : List Char} {rules : Char → List Substitution}

/-- Exchanging two marks, one of them the mark of the rules, exchanges them in the pieces. -/
theorem splitOn_map_swap (h : MarkBlind tab rules) (ha : IsCandidate a) (hb : IsCandidate b)
    (hat : a ∉ tab) (hbt : b ∉ tab) (s : List Char) :
    splitOn b (Substitution.applyAll (rules b) (s.map (Equiv.swap a b))) =
      (splitOn a (Substitution.applyAll (rules a) s)).map (List.map (Equiv.swap a b)) := by
  rw [← splitOn_map, Equiv.swap_apply_left, ← Substitution.applyAll_map _ (isWord_swap ha hb),
    h.rename ha hb hat hbt]

/-- Any two free marks give the same pieces. -/
theorem splitOn_eq (h : MarkBlind tab rules) (ha : IsCandidate a) (hb : IsCandidate b)
    (hat : a ∉ tab) (hbt : b ∉ tab) {s : List Char} (has : a ∉ s) (hbs : b ∉ s) :
    splitOn a (Substitution.applyAll (rules a) s) =
      splitOn b (Substitution.applyAll (rules b) s) := by
  by_cases hab : a = b
  · rw [hab]
  · have hfixed : ∀ p ∈ splitOn a (Substitution.applyAll (rules a) s),
        p.map (Equiv.swap a b) = p := by
      intro p hp
      have hb' := Substitution.notMem_applyAll hbs (h.fresh ha hb hab hbt)
      exact map_swap_of_notMem (notMem_of_mem_splitOn hp) fun hmem =>
        hb' (mem_of_mem_splitOn hp hmem)
    have hswap := h.splitOn_map_swap ha hb hat hbt s
    rw [map_swap_of_notMem has hbs] at hswap
    rw [hswap, List.map_congr_left hfixed, List.map_id']

end MarkBlind

/-! ## The null character -/

/-- The text with a character in place of every null character. -/
def replaceNull (c : Char) (s : List Char) : List Char :=
  s.map fun x => if x = preferred then c else x

theorem map_swap_null {c : Char} {s : List Char} (hc : c ∉ s) :
    s.map (Equiv.swap c preferred) = replaceNull c s := by
  refine List.map_congr_left fun x hx => ?_
  have hne : x ≠ c := fun h => hc (h ▸ hx)
  rw [Equiv.swap_apply_def, if_neg hne]

theorem null_notMem_replaceNull {c : Char} {s : List Char} (hc : c ∉ s) (hnull : preferred ∈ s) :
    preferred ∉ replaceNull c s := by
  rw [replaceNull, List.mem_map]
  rintro ⟨x, -, hx⟩
  split at hx
  · exact hc (hx ▸ hnull)
  · contradiction

/-- A text that holds the null character is split, with any free mark, like the text with another
character in its place, which leaves the null character to be the mark. -/
theorem MarkBlind.splitOn_replaceNull {tab : List Char} {rules : Char → List Substitution}
    (h : MarkBlind tab rules) {c m : Char} (hc : IsCandidate c) (hm : IsCandidate m)
    {s : List Char} (hcs : c ∉ s) (hms : m ∉ s) (hct : c ∉ tab) (hmt : m ∉ tab)
    (hnull : preferred ∉ tab) :
    splitOn preferred (Substitution.applyAll (rules preferred) (replaceNull c s)) =
      (splitOn m (Substitution.applyAll (rules m) s)).map (replaceNull c) := by
  have hswap := h.splitOn_map_swap hc isCandidate_preferred hct hnull s
  rw [map_swap_null hcs] at hswap
  rw [hswap, h.splitOn_eq hm hc hmt hct hms hcs]
  exact List.map_congr_left fun p hp => map_swap_null (notMem_of_mem_splitOn hp)

end Marker

open Marker

variable {a b : Char}

/-! ## The rules of CSS -/

theorem Css.markBlind_splitRules : MarkBlind [] Css.splitRules where
  rename {a b} ha hb _ _ := by
    have hfixed : ∀ c : Char, 0 < c.toNat → c.toNat < 0xE000 → Equiv.swap a b c = c :=
      fun c hlo hhi =>
      Equiv.swap_apply_of_ne_of_ne (ha.ne_of_toNat hlo hhi) (hb.ne_of_toNat hlo hhi)
    simp only [Css.splitRules, Substitution.oneSpace, Css.markBehind, Css.markAround,
      Css.markOpening, Css.markClosing, Css.joinMarks, List.map_cons, List.map_nil,
      Substitution.rename, Part.rename_char,
      rename_blanks ha hb, rename_blanks1 ha hb, Equiv.swap_apply_left,
      hfixed ' ' (by decide) (by decide), hfixed '\x7b' (by decide) (by decide),
      hfixed '\x7d' (by decide) (by decide), hfixed ';' (by decide) (by decide),
      hfixed '/' (by decide) (by decide), hfixed '*' (by decide) (by decide)]
  fresh {a b} _ hb hab _ := by
    have hne : ∀ c : Char, 0 < c.toNat → c.toNat < 0xE000 → b ≠ c :=
      fun c hlo hhi => (hb.ne_of_toNat hlo hhi).symm
    simp [Css.splitRules, Substitution.oneSpace, Css.markBehind, Css.markAround, Css.markOpening,
      Css.markClosing, Css.joinMarks, hab.symm, hne]

/-! ## The rules of SQL -/

namespace Sql

/-- No letter of a pattern is a mark. -/
theorem sameLetter_mark {c m : Char} (hm : IsCandidate m) (hc : plainChar c = true) :
    sameLetter c m = false := by
  rw [← Bool.not_eq_true]
  intro h
  have hletter : sameLetter m c = true := Text.sameLetter_iff.2 (Text.sameLetter_iff.1 h).symm
  exact ne_mark_of_plainChar hm hc (hm.sameLetter_iff.1 hletter)

theorem rename_part (ha : IsCandidate a) (hb : IsCandidate b) {atom : Atom}
    (hatom : atom.plain = true) :
    (atom.part a).rename (Equiv.swap a b) = atom.part b := by
  cases atom with
  | letter c =>
    rw [Atom.plain, Bool.and_eq_true] at hatom
    exact congrArg Part.one (class_swap ha hb fun m hm => sameLetter_mark hm hatom.1)
  | blanks => exact rename_blanks ha hb
  | blanks1 => exact rename_blanks1 ha hb
  | marks =>
    refine congrArg Part.many1 (funext fun c => ?_)
    rw [Bool.eq_iff_iff, ha.sameLetter_iff, hb.sameLetter_iff, Equiv.symm_apply_eq,
      Equiv.swap_apply_left]
  | wordEnd => rfl

variable {tab : List Char}

theorem map_swap_expand (ha : IsCandidate a) (hb : IsCandidate b) (hat : a ∉ tab) (hbt : b ∉ tab)
    {piece : Piece} (hpiece : piece.plain = true) :
    (piece.expand tab a).map (Equiv.swap a b) = piece.expand tab b := by
  cases piece with
  | text s =>
    rw [Piece.plain, List.all_eq_true] at hpiece
    exact map_swap_of_notMem (fun h => ne_mark_of_plainChar ha (hpiece a h) rfl)
      (fun h => ne_mark_of_plainChar hb (hpiece b h) rfl)
  | mark => exact congrArg (fun c => [c]) (Equiv.swap_apply_left a b)
  | tab => exact map_swap_of_notMem hat hbt

theorem notMem_expand (hb : IsCandidate b) (hab : a ≠ b) (hbt : b ∉ tab) {piece : Piece}
    (hpiece : piece.plain = true) :
    b ∉ piece.expand tab a := by
  cases piece with
  | text s =>
    rw [Piece.plain, List.all_eq_true] at hpiece
    exact fun h => ne_mark_of_plainChar hb (hpiece b h) rfl
  | mark => exact fun h => hab (List.mem_singleton.1 h).symm
  | tab => exact hbt

/-- The letters and the texts of all rules are plain. -/
theorem plain_of_mem_splitRules {rule : Rule} (h : rule ∈ splitRules) :
    (∀ atom ∈ rule.pattern, atom.plain = true) ∧
    ∀ piece ∈ rule.replacement, piece.plain = true := by
  have hrule := List.all_eq_true.1 splitRules_keepsInk rule h
  simp only [Rule.keepsInk, Bool.and_eq_true, List.all_eq_true] at hrule
  exact hrule.1.1

theorem markBlind_splitRules (tab : List Char) :
    MarkBlind tab fun mark => splitRules.map fun rule => rule.substitution tab mark where
  rename {a b} ha hb hat hbt := by
    rw [List.map_map]
    refine List.map_congr_left fun rule hrule => ?_
    obtain ⟨hpattern, hreplacement⟩ := plain_of_mem_splitRules hrule
    have hparts : (rule.pattern.map (Atom.part a)).map (Part.rename (Equiv.swap a b)) =
        rule.pattern.map (Atom.part b) := by
      rw [List.map_map]
      exact List.map_congr_left fun atom hatom => rename_part ha hb (hpattern atom hatom)
    have htext : (rule.replacement.flatMap (Piece.expand tab a)).map (Equiv.swap a b) =
        rule.replacement.flatMap (Piece.expand tab b) := by
      rw [List.map_flatMap]
      exact List.flatMap_congr fun piece hpiece =>
        map_swap_expand ha hb hat hbt (hreplacement piece hpiece)
    exact congrArg₂ Substitution.mk hparts htext
  fresh {a b} _ hb hab hbt := by
    intro r hr
    obtain ⟨rule, hrule, rfl⟩ := List.mem_map.1 hr
    show b ∉ rule.replacement.flatMap (Piece.expand tab a)
    rw [List.mem_flatMap]
    rintro ⟨piece, hpiece, hmem⟩
    exact notMem_expand hb hab hbt ((plain_of_mem_splitRules hrule).2 piece hpiece) hmem

theorem splitClausesWith_eq (mark : Char) (tab text : List Char) : splitClausesWith mark tab text =
    splitOn mark (Substitution.applyAll
      (splitRules.map fun rule => rule.substitution tab mark) text) := by
  rw [Substitution.applyAll, List.foldl_map]
  rfl

end Sql

/-! ## Any free mark -/

/-- A style sheet that holds the null character is split like the one with a free mark in its
place. -/
theorem Css.split_replaceNull {c : Char} (hc : IsCandidate c) {text : List Char} (hct : c ∉ text)
    (hnull : preferred ∈ text) :
    ∃ fs, Css.split text = .ok fs ∧
    Css.split (replaceNull c text) = .ok (fs.map (replaceNull c)) := by
  obtain ⟨mark, hpick⟩ := exists_pick?_eq_some hc hct
  obtain ⟨hm, hmt⟩ := pick?_eq_some hpick
  have hpieces : Css.splitWith preferred (replaceNull c text) =
      (Css.splitWith mark text).map (replaceNull c) :=
    Css.markBlind_splitRules.splitOn_replaceNull hc hm hct hmt List.not_mem_nil List.not_mem_nil
      List.not_mem_nil
  refine ⟨Css.splitWith mark text, ?_, ?_⟩
  · rw [Css.split, hpick]
  · rw [Css.split, pick?_of_notMem (null_notMem_replaceNull hct hnull), ← hpieces]

/-- A statement that holds the null character is split like the one with a free mark in its
place. -/
theorem Sql.splitClauses_replaceNull {c : Char} (hc : IsCandidate c) {tab text : List Char}
    (hct : c ∉ text) (hctab : c ∉ tab) (hnull : preferred ∈ text) (hntab : preferred ∉ tab) :
    ∃ fs, Sql.splitClauses tab text = .ok fs ∧
      Sql.splitClauses tab (replaceNull c text) = .ok (fs.map (replaceNull c)) := by
  have hfree : c ∉ text ++ tab := by simpa using ⟨hct, hctab⟩
  have hnfree : preferred ∉ replaceNull c text ++ tab := by
    rw [List.mem_append, not_or]
    exact ⟨null_notMem_replaceNull hct hnull, hntab⟩
  obtain ⟨mark, hpick⟩ := exists_pick?_eq_some hc hfree
  obtain ⟨hm, hmt⟩ := pick?_eq_some hpick
  rw [List.mem_append, not_or] at hmt
  have hpieces : Sql.splitClausesWith preferred tab (replaceNull c text) =
      (Sql.splitClausesWith mark tab text).map (replaceNull c) := by
    rw [Sql.splitClausesWith_eq, Sql.splitClausesWith_eq]
    exact (Sql.markBlind_splitRules tab).splitOn_replaceNull hc hm hct hmt.1 hctab hmt.2 hntab
  refine ⟨Sql.splitClausesWith mark tab text, ?_, ?_⟩
  · rw [Sql.splitClauses, hpick]
  · rw [Sql.splitClauses, pick?_of_notMem hnfree, ← hpieces]

/-- Style sheets and statements are split alike with any two free marks. If a text holds the null
character, it is split like the text with a free mark in its place, the fragments of which have
that mark in its place as well. -/
theorem split_markChoice (tab text : List Char) :
    (∀ a b, IsCandidate a → IsCandidate b → a ∉ text → b ∉ text →
      Css.splitWith a text = Css.splitWith b text ∧
        (a ∉ tab → b ∉ tab → Sql.splitClausesWith a tab text = Sql.splitClausesWith b tab text)) ∧
    ∀ c, IsCandidate c → c ∉ text → preferred ∈ text →
      (∃ fs, Css.split text = .ok fs ∧
        Css.split (replaceNull c text) = .ok (fs.map (replaceNull c))) ∧
        (c ∉ tab → preferred ∉ tab → ∃ fs, Sql.splitClauses tab text = .ok fs ∧
          Sql.splitClauses tab (replaceNull c text) = .ok (fs.map (replaceNull c))) := by
  constructor
  · intro a b ha hb hat hbt
    refine ⟨?_, fun hatab hbtab => ?_⟩
    · exact Css.markBlind_splitRules.splitOn_eq ha hb List.not_mem_nil List.not_mem_nil hat hbt
    · rw [Sql.splitClausesWith_eq, Sql.splitClausesWith_eq]
      exact (Sql.markBlind_splitRules tab).splitOn_eq ha hb hatab hbtab hat hbt
  · intro c hc hct hnull
    exact ⟨Css.split_replaceNull hc hct hnull,
      fun hctab hntab => Sql.splitClauses_replaceNull hc hct hctab hnull hntab⟩

/-- A text with a null character, in which a join is put together at its mark, split with the first
and the last of the private-use marks and with the first one in place of the null character. -/
theorem split_markChoice_join :
    let text :=
      ['a', preferred, ' ', 'l', 'e', 'f', 't', ' ', 'j', 'o', 'i', 'n', ' ', 'b', ';', '*', '/',
        ' ', '\x7d']
    let tab := ['\t']
    let first := Char.ofNat 0xE000
    let last := Char.ofNat 0x10FFFD
    IsCandidate first ∧ IsCandidate last ∧ first ∉ text ∧ last ∉ text ∧ first ∉ tab ∧ last ∉ tab ∧
    preferred ∈ text ∧ preferred ∉ tab ∧ Css.splitWith first text = Css.splitWith last text ∧
      Sql.splitClausesWith first tab text = Sql.splitClausesWith last tab text ∧
      (∃ fs, Css.split text = .ok fs ∧
        Css.split (replaceNull first text) = .ok (fs.map (replaceNull first))) ∧
      ∃ fs, Sql.splitClauses tab text = .ok fs ∧
        Sql.splitClauses tab (replaceNull first text) = .ok (fs.map (replaceNull first)) := by
  intro text tab first last
  have hfirst : IsCandidate first := Or.inr (Or.inl (by decide))
  have hlast : IsCandidate last := Or.inr (Or.inr (by decide))
  have hfirst_text : first ∉ text := by decide
  have hlast_text : last ∉ text := by decide
  have hfirst_tab : first ∉ tab := by decide
  have hlast_tab : last ∉ tab := by decide
  have hnull : preferred ∈ text := by decide
  have hnull_tab : preferred ∉ tab := by decide
  obtain ⟨hmarks, hrename⟩ := split_markChoice tab text
  obtain ⟨hcss, hsql⟩ := hmarks first last hfirst hlast hfirst_text hlast_text
  obtain ⟨hcss', hsql'⟩ := hrename first hfirst hfirst_text hnull
  exact ⟨hfirst, hlast, hfirst_text, hlast_text, hfirst_tab, hlast_tab, hnull, hnull_tab, hcss,
    hsql hfirst_tab hlast_tab, hcss', hsql' hfirst_tab hnull_tab⟩

end Reindent
