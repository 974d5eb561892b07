import Mathlib
import Reindent.Proofs.Marker
import Reindent.Proofs.Sql.Quotes
import Reindent.Proofs.Text.Patterns
import Reindent.Sql.Rule

/-!
# What the split rules do to a text

Two things can be read off a rule without a text: the characters that it takes and writes apart
from blanks and marks, and the words that it takes and writes. Both are computed from the pattern
and the replacement, compared for the whole table at once, and carried over to every text by
`Substitution.scan`.

A rule writes the characters that it takes, the letters of its keyword as capitals. Every rule but
the one for `SELECT` also writes the words that it takes; that one may drop the blanks behind
another word.
-/

set_option maxRecDepth 2000

namespace Reindent.Sql

open Text Marker

/-! ## Ink -/

/-- What a text holds apart from blanks and marks. -/
def ink (mark : Char) (s : List Char) : List Char :=
  s.filter fun c => !isBlank c && c != mark

/-- The character `d` may be written for `c`: it is the same one, or the capital of the same
letter. -/
def Recased (c d : Char) : Prop :=
  d = c ∨ (d.isUpper = true ∧ sameLetter d c = true)

theorem isAlpha_of_isUpper {c : Char} (h : c.isUpper = true) : c.isAlpha = true := by
  simp [Char.isAlpha, h]

@[refl] theorem Recased.refl (c : Char) : Recased c c := Or.inl rfl

theorem Recased.trans {a b c : Char} (hab : Recased a b) (hbc : Recased b c) : Recased a c := by
  rcases hbc with rfl | ⟨hupper, hsame⟩
  · exact hab
  · right
    rcases hab with rfl | ⟨-, hsame'⟩
    · exact ⟨hupper, hsame⟩
    · rw [sameLetter_iff] at hsame hsame'
      exact ⟨hupper, sameLetter_iff.2 (hsame.trans hsame')⟩

/-- Only letters are written as other characters. -/
theorem Recased.eq_of_not_isWord {c d : Char} (h : Recased c d) (hc : isWord c = false) :
    d = c := by
  rcases h with heq | ⟨hupper, hsame⟩
  · exact heq
  · rw [isWord_of_letterOf (isAlpha_of_isUpper hupper) (sameLetter_iff.1 hsame)] at hc
    cases hc

theorem Recased.eq_of_not_isUpper {c d : Char} (h : Recased c d) (hd : d.isUpper = false) :
    d = c := by
  rcases h with heq | ⟨hupper, -⟩
  · exact heq
  · rw [hupper] at hd
    cases hd

section

variable {tab : List Char} {mark : Char}

theorem ink_append (s t : List Char) : ink mark (s ++ t) = ink mark s ++ ink mark t := by
  simp [ink]

theorem ink_cons (c : Char) (s : List Char) : ink mark (c :: s) = ink mark [c] ++ ink mark s :=
  ink_append [c] s

theorem ink_eq_nil {s : List Char} (h : ∀ c ∈ s, isBlank c = true ∨ c = mark) :
    ink mark s = [] := by
  rw [ink, List.filter_eq_nil_iff]
  intro c hc
  rcases h c hc with hblank | heq
  · simp [hblank]
  · simp [heq]

theorem ink_singleton {c : Char} (hblank : isBlank c = false) (hc : c ≠ mark) :
    ink mark [c] = [c] := by
  simp [ink, hblank, hc]

/-- Without marks in a text, its ink is the text without blanks. -/
theorem ink_of_notMem {s : List Char} (h : mark ∉ s) : ink mark s = deleteBlanks s := by
  rw [ink, deleteBlanks]
  refine List.filter_congr fun c hc => ?_
  have hne : c ≠ mark := by
    rintro rfl
    exact h hc
  simp [hne]

/-! ### The ink of a rule -/

/-- A character that neither lies beyond ASCII nor is null. -/
def plainChar (c : Char) : Bool :=
  0 < c.toNat && c.toNat < 0x80

/-- A pattern asks for capitals and for characters without case. -/
def Atom.plain : Atom → Bool
  | .letter c => plainChar c && (c.isUpper || !c.isAlpha)
  | _ => true

def Piece.plain : Piece → Bool
  | .text s => s.all plainChar
  | _ => true

/-- The character that a part of a pattern takes, unless it is blank. -/
def Atom.ink : Atom → List Char
  | .letter c => deleteBlanks [c]
  | _ => []

/-- The characters of a piece of a replacement that are not blank. -/
def Piece.ink : Piece → List Char
  | .text s => deleteBlanks s
  | _ => []

/-- A rule writes the characters that it takes, and no quote is among them. -/
def Rule.keepsInk (rule : Rule) : Bool :=
  rule.pattern.all Atom.plain && rule.replacement.all Piece.plain &&
    rule.pattern.flatMap Atom.ink == rule.replacement.flatMap Piece.ink &&
    !(rule.pattern.flatMap Atom.ink).contains '\x27'

theorem splitRules_keepsInk : splitRules.all Rule.keepsInk = true := by
  decide

theorem ne_mark_of_plainChar (hm : IsCandidate mark) {c : Char} (h : plainChar c = true) :
    c ≠ mark := by
  simp only [plainChar, Bool.and_eq_true, decide_eq_true_eq] at h
  exact hm.ne_of_toNat h.1 (by omega)

/-- A letter of a pattern takes one character, which it may be written for. -/
theorem ink_of_sameLetter (hm : IsCandidate mark) {c d : Char}
    (hplain : (Atom.letter c).plain = true) (h : sameLetter c d = true) :
    List.Forall₂ Recased (ink mark [d]) (Atom.letter c).ink := by
  simp only [Atom.plain, Bool.and_eq_true, Bool.or_eq_true, Bool.not_eq_true'] at hplain
  obtain ⟨hchar, hcase⟩ := hplain
  rw [Atom.ink]
  rcases hcase with hupper | halpha
  · have hletter := sameLetter_iff.1 h
    have hword : isWord d = true := isWord_of_letterOf (isAlpha_of_isUpper hupper) hletter
    have hd : d ≠ mark := by
      rintro rfl
      rw [hm.isWord_eq_false] at hword
      cases hword
    have hc : isBlank c = false :=
      not_isBlank_of_isWord (isWord_of_letterOf (isAlpha_of_isUpper hupper) rfl)
    rw [ink_singleton (not_isBlank_of_isWord hword) hd]
    have hkept : deleteBlanks [c] = [c] := by simp [deleteBlanks, hc]
    rw [hkept]
    exact .cons (Or.inr ⟨hupper, h⟩) .nil
  · have hascii : c.toNat < 0x80 := by
      simp only [plainChar, Bool.and_eq_true, decide_eq_true_eq] at hchar
      exact hchar.2
    obtain rfl : c = d := eq_of_letterOf_eq hascii halpha (sameLetter_iff.1 h)
    have hc : mark ∉ [c] := by
      simpa using (ne_mark_of_plainChar hm hchar).symm
    rw [ink_of_notMem hc]
    exact List.forall₂_same.2 fun _ _ => Recased.refl _

/-- What a pattern takes has the ink of the pattern. -/
theorem ink_of_takes (hm : IsCandidate mark) {p : List Atom} (hp : p.all Atom.plain = true)
    {m s : List Char} (h : Takes (p.map (Atom.part mark)) m s) :
    List.Forall₂ Recased (ink mark m) (p.flatMap Atom.ink) := by
  induction p generalizing m with
  | nil =>
    cases h
    exact .nil
  | cons a p ih =>
    rw [List.all_cons, Bool.and_eq_true] at hp
    rw [List.flatMap_cons]
    cases a with
    | letter c =>
      cases h with
      | one hc h =>
        rw [ink_cons]
        exact List.rel_append (ink_of_sameLetter hm hp.1 hc) (ih hp.2 h)
    | blanks =>
      cases h with
      | many hrun h =>
        rw [ink_append, ink_eq_nil fun c hc => Or.inl (hrun c hc)]
        exact ih hp.2 h
    | blanks1 =>
      cases h with
      | many1 hrun h =>
        rw [ink_append, ink_eq_nil fun c hc => Or.inl (hrun c hc)]
        exact ih hp.2 h
    | marks =>
      cases h with
      | many1 hrun h =>
        rw [ink_append, ink_eq_nil fun c hc => Or.inr (hm.sameLetter_iff.1 (hrun c hc))]
        exact ih hp.2 h
    | wordEnd =>
      cases h with
      | wordEnd _ h => exact ih hp.2 h

/-- What a replacement writes has the ink of the replacement. -/
theorem ink_expand (hm : IsCandidate mark) (htab : ∀ c ∈ tab, isBlank c = true) {ps : List Piece}
    (hps : ps.all Piece.plain = true) :
    ink mark (ps.flatMap (Piece.expand tab mark)) = ps.flatMap Piece.ink := by
  induction ps with
  | nil => rfl
  | cons p ps ih =>
    rw [List.all_cons, Bool.and_eq_true] at hps
    rw [List.flatMap_cons, List.flatMap_cons, ink_append, ih hps.2]
    congr 1
    cases p with
    | text s =>
      refine ink_of_notMem fun hmem => ?_
      exact ne_mark_of_plainChar hm (List.all_eq_true.1 hps.1 mark hmem) rfl
    | mark => exact ink_eq_nil fun c hc => Or.inr (by simpa [Piece.expand] using hc)
    | tab => exact ink_eq_nil fun c hc => Or.inl (htab c hc)

theorem Rule.ink_apply (hm : IsCandidate mark) (htab : ∀ c ∈ tab, isBlank c = true) {rule : Rule}
    (h : rule.keepsInk = true) (text : List Char) :
    List.Forall₂ Recased (ink mark text) (ink mark (rule.apply tab mark text)) := by
  simp only [Rule.keepsInk, Bool.and_eq_true, beq_iff_eq] at h
  obtain ⟨⟨⟨hpattern, hreplacement⟩, hsame⟩, -⟩ := h
  refine Substitution.rel_apply (rule.substitution tab mark)
    (R := fun s t => List.Forall₂ Recased (ink mark s) (ink mark t)) .nil ?_ ?_ text
  · intro c s t hst
    rw [ink_cons, ink_cons c t]
    exact List.rel_append (List.forall₂_same.2 fun _ _ => Recased.refl _) hst
  · intro m s t htakes hst
    rw [ink_append, ink_append]
    refine List.rel_append ?_ hst
    rw [Rule.substitution, ink_expand hm htab hreplacement, ← hsame]
    exact ink_of_takes hm hpattern htakes

theorem isUpper_quote : '\x27'.isUpper = false := by
  decide

/-- A quote is written where one is taken, and nowhere else. -/
theorem Recased.quote_iff {c d : Char} (h : Recased c d) : d = '\x27' ↔ c = '\x27' := by
  constructor
  · rintro rfl
    exact (h.eq_of_not_isUpper isUpper_quote).symm
  · rintro rfl
    exact h.eq_of_not_isWord isWord_quote

theorem quote_mem_iff {s t : List Char} (h : List.Forall₂ Recased s t) : '\x27' ∈ t ↔
    '\x27' ∈ s := by
  induction h with
  | nil => rfl
  | cons hab _ ih => rw [List.mem_cons, List.mem_cons, ih, eq_comm, hab.quote_iff, eq_comm]

theorem Rule.apply_quote_cons (hm : IsCandidate mark) {rule : Rule} (h : rule.keepsInk = true)
    (s : List Char) :
    rule.apply tab mark ('\x27' :: s) = '\x27' :: rule.apply tab mark s := by
  simp only [Rule.keepsInk, Bool.and_eq_true, Bool.not_eq_true'] at h
  obtain ⟨⟨⟨hpattern, -⟩, -⟩, hquote⟩ := h
  refine Substitution.apply_cons_of_not_takes _ fun m rest hsplit hne htakes => ?_
  obtain ⟨c, m, rfl⟩ := List.exists_cons_of_ne_nil hne
  obtain ⟨rfl, -⟩ := List.cons_eq_cons.1 hsplit
  -- The quote is in the ink of what is taken, so a quote would be in the pattern.
  have hink := ink_of_takes hm hpattern htakes
  rw [ink_cons, ink_singleton isBlank_quote (ne_mark_of_plainChar hm (by decide)),
    List.singleton_append, List.forall₂_cons_left_iff] at hink
  obtain ⟨d, ds, hd, -, hds⟩ := hink
  rw [hds, hd.quote_iff.2 rfl] at hquote
  simp at hquote

/-- A preorder that every rule of a list keeps to holds between a text and what all of them leave
of it. -/
theorem rel_foldl_apply {R : List Char → List Char → Prop} (refl : ∀ s, R s s)
    (trans : ∀ {s t u}, R s t → R t u → R s u) {rules : List Rule}
    (step : ∀ rule ∈ rules, ∀ s, R s (rule.apply tab mark s)) (text : List Char) :
    R text (rules.foldl (fun s rule => rule.apply tab mark s) text) := by
  induction rules generalizing text with
  | nil => exact refl text
  | cons rule rules ih =>
    exact trans (step rule List.mem_cons_self text)
      (ih (fun r hr => step r (List.mem_cons_of_mem _ hr)) _)

theorem forall₂_recased_trans {s t u : List Char} (hst : List.Forall₂ Recased s t)
    (htu : List.Forall₂ Recased t u) :
    List.Forall₂ Recased s u := by
  induction hst generalizing u with
  | nil => exact htu
  | cons hab _ ih =>
    cases htu with
    | cons hbc htu => exact .cons (hab.trans hbc) (ih htu)

/-- The rules write what they take, the letters of keywords as capitals. -/
theorem ink_applyRules (hm : IsCandidate mark) (htab : ∀ c ∈ tab, isBlank c = true)
    (text : List Char) :
    List.Forall₂ Recased (ink mark text) (ink mark (applyRules tab mark text)) :=
  rel_foldl_apply (R := fun s t => List.Forall₂ Recased (ink mark s) (ink mark t))
    (fun _ => List.forall₂_same.2 fun _ _ => Recased.refl _) forall₂_recased_trans
    (fun rule hrule s => Rule.ink_apply hm htab
      (List.all_eq_true.1 splitRules_keepsInk rule hrule) s) text

/-- A quote at the start of a text stays there. -/
theorem applyRules_quote_cons (hm : IsCandidate mark) (s : List Char) :
    applyRules tab mark ('\x27' :: s) = '\x27' :: applyRules tab mark s := by
  have hrules := List.all_eq_true.1 splitRules_keepsInk
  rw [applyRules, applyRules]
  generalize splitRules = rules at hrules
  induction rules generalizing s with
  | nil => rfl
  | cons rule rules ih =>
    rw [List.foldl_cons, List.foldl_cons,
      Rule.apply_quote_cons hm (hrules rule List.mem_cons_self)]
    exact ih _ fun r hr => hrules r (List.mem_cons_of_mem _ hr)

/-! ## Words -/

/-- The characters without case in the patterns. -/
def gapChar (c : Char) : Bool :=
  c == ' ' || c == '(' || c == ')'

/-- What a pattern spells and whether it ends within a word, if that is the same for all that it
takes. -/
def spellAtoms : Bool → List Atom → Option (List (Option Char) × Bool)
  | inWord, [] => some ([], inWord)
  | inWord, .letter c :: p =>
    if c.isUpper then
      (spellAtoms true p).map fun (ls, e) =>
      ((if inWord then [] else [none]) ++ some (letterOf c) :: ls, e)
    else if gapChar c then spellAtoms false p
    else none
  | false, .blanks :: p => spellAtoms false p
  | true, .blanks :: _ => none
  | _, .blanks1 :: p => spellAtoms false p
  | _, .marks :: p => spellAtoms false p
  | _, .wordEnd :: p => spellAtoms false p

/-- What a replacement spells and whether it ends within a word, if that is the same for all units
of indentation. -/
def spellPieces : Bool → List Piece → Option (List (Option Char) × Bool)
  | inWord, [] => some ([], inWord)
  | inWord, .text s :: ps =>
    (spellPieces (endsWord inWord s) ps).map fun (ls, e) => (spell inWord s ++ ls, e)
  | _, .mark :: ps => spellPieces false ps
  | false, .tab :: ps => spellPieces false ps
  | true, .tab :: _ => none

/-- A rule writes the words that it takes, within a word and outside. -/
def Rule.keepsWords (rule : Rule) : Bool :=
  [false, true].all fun b =>
    (spellAtoms b rule.pattern).isSome && spellAtoms b rule.pattern ==
      spellPieces b rule.replacement

theorem isWord_of_gapChar {c : Char} (h : gapChar c = true) : isWord c = false := by
  simp only [gapChar, Bool.or_eq_true, beq_iff_eq] at h
  rcases h with (rfl | rfl) | rfl
  · exact isWord_eq_false_of_punctuation (by decide)
  · exact isWord_eq_false_of_punctuation (by decide)
  · exact isWord_eq_false_of_punctuation (by decide)

theorem eq_of_gapChar {c d : Char} (h : gapChar c = true) (hd : sameLetter c d = true) :
    d = c := by
  simp only [gapChar, Bool.or_eq_true, beq_iff_eq] at h
  rcases h with (rfl | rfl) | rfl
  · exact (eq_of_letterOf_eq (by decide) (by decide) (sameLetter_iff.1 hd)).symm
  · exact (eq_of_letterOf_eq (by decide) (by decide) (sameLetter_iff.1 hd)).symm
  · exact (eq_of_letterOf_eq (by decide) (by decide) (sameLetter_iff.1 hd)).symm

/-- What a pattern takes is spelled like the pattern. -/
theorem spell_of_takes (hm : IsCandidate mark) {p : List Atom} {b e : Bool}
    {ls : List (Option Char)} (hp : spellAtoms b p = some (ls, e)) {m s : List Char}
    (h : Takes (p.map (Atom.part mark)) m s) :
    spell b (m ++ s) = ls ++ spell e s := by
  induction p generalizing b ls m with
  | nil =>
    cases h
    simp only [spellAtoms, Option.some.injEq, Prod.mk.injEq] at hp
    rw [← hp.1, ← hp.2, List.nil_append, List.nil_append]
  | cons a p ih =>
    cases a with
    | letter c =>
      cases h with
      | @one _ _ d _ _ hc h =>
        rw [spellAtoms] at hp
        split at hp
        · rename_i hupper
          obtain ⟨⟨ls, e⟩, hp', heq⟩ := Option.map_eq_some_iff.1 hp
          cases heq
          have hletter := sameLetter_iff.1 hc
          have hword : isWord d = true := isWord_of_letterOf (isAlpha_of_isUpper hupper) hletter
          rw [List.cons_append, spell_cons_of_isWord hword, ih hp' h, hletter, List.append_assoc,
            List.cons_append]
        · split at hp
          · rename_i hgap
            rw [eq_of_gapChar hgap hc, List.cons_append,
              spell_cons_of_not_isWord (isWord_of_gapChar hgap)]
            exact ih hp h
          · cases hp
    | blanks =>
      cases h with
      | many hrun h =>
        cases b with
        | true => simp [spellAtoms] at hp
        | false =>
          rw [List.append_assoc, spell_false_gap_append fun c hc => isWord_of_isBlank (hrun c hc)]
          exact ih hp h
    | blanks1 =>
      cases h with
      | many1 hrun h =>
        rw [List.append_assoc, spell_gap_append (by simp) fun c hc =>
          isWord_of_isBlank (hrun c hc)]
        cases b <;> exact ih hp h
    | marks =>
      cases h with
      | many1 hrun h =>
        have hgap : ∀ c ∈ _, isWord c = false := fun c hc => by
          rw [hm.sameLetter_iff.1 (hrun c hc)]
          exact hm.isWord_eq_false
        rw [List.append_assoc, spell_gap_append (by simp) hgap]
        cases b <;> exact ih hp h
    | wordEnd =>
      cases h with
      | wordEnd hend h =>
        rw [spell_eq_of_not_startsWord hend]
        cases b <;> exact ih hp h

/-- What a replacement writes is spelled like the replacement. -/
theorem spell_expand (hm : IsCandidate mark) (htab : ∀ c ∈ tab, isBlank c = true) {ps : List Piece}
    {b e : Bool} {ls : List (Option Char)} (hps : spellPieces b ps = some (ls, e))
    (s : List Char) :
    spell b (ps.flatMap (Piece.expand tab mark) ++ s) = ls ++ spell e s := by
  induction ps generalizing b ls with
  | nil =>
    simp only [spellPieces, Option.some.injEq, Prod.mk.injEq] at hps
    rw [← hps.1, ← hps.2, List.flatMap_nil, List.nil_append, List.nil_append]
  | cons p ps ih =>
    rw [List.flatMap_cons, List.append_assoc]
    cases p with
    | text t =>
      rw [spellPieces] at hps
      obtain ⟨⟨ls, e⟩, hps', heq⟩ := Option.map_eq_some_iff.1 hps
      cases heq
      rw [Piece.expand, spell_append, ih hps', List.append_assoc]
    | mark =>
      rw [Piece.expand, List.singleton_append, spell_cons_of_not_isWord hm.isWord_eq_false]
      cases b <;> exact ih hps
    | tab =>
      cases b with
      | true => simp [spellPieces] at hps
      | false =>
        rw [Piece.expand, spell_false_gap_append fun c hc => isWord_of_isBlank (htab c hc)]
        exact ih hps

/-- A rule that writes the words that it takes keeps the words of every text. -/
theorem Rule.spell_apply (hm : IsCandidate mark) (htab : ∀ c ∈ tab, isBlank c = true) {rule : Rule}
    (h : rule.keepsWords = true) (b : Bool) (text : List Char) :
    spell b (rule.apply tab mark text) = spell b text := by
  refine (Substitution.rel_apply (rule.substitution tab mark)
    (R := fun s t => ∀ b, spell b t = spell b s) (fun _ => rfl) ?_ ?_ text) b
  · intro c s t hst b
    rw [spell_cons, spell_cons b c s, hst]
  · intro m s t htakes hst b
    simp only [Rule.keepsWords, List.all_eq_true, Bool.and_eq_true, beq_iff_eq] at h
    obtain ⟨hsome, hsame⟩ := h b (by cases b <;> simp)
    obtain ⟨⟨ls, e⟩, hp⟩ := Option.isSome_iff_exists.1 hsome
    rw [spell_of_takes hm hp htakes, ← hst e]
    exact spell_expand hm htab (hsame ▸ hp) t

/-! ### The rule for `SELECT` -/

end

/-- The rules in front of the one for `SELECT`. -/
def earlierRules : List Rule :=
  splitRules.take 36

theorem splitRules_eq : splitRules = earlierRules ++ [selectRule, collapseMarks] := by
  decide

theorem earlierRules_keepsWords : earlierRules.all Rule.keepsWords = true := by
  decide

theorem collapseMarks_keepsWords : collapseMarks.keepsWords = true := by
  decide

/-- The text that the rules in front of the one for `SELECT` leave. -/
def beforeSelect (tab : List Char) (mark : Char) (text : List Char) : List Char :=
  earlierRules.foldl (fun s rule => rule.apply tab mark s) text

/-- The occurrences of `SELECT` that its rule replaces in a statement. -/
def selects (tab : List Char) (mark : Char) (text : List Char) : List Occurrence :=
  (selectRule.substitution tab mark).occurrences (beforeSelect tab mark text)

/-- A word stands before an occurrence, and only the blanks at its start part the two. -/
def joinsWords (o : Occurrence) : Bool :=
  o.before.getLast?.any isWord && o.taken.head?.any isBlank

section

variable {tab : List Char} {mark : Char}

theorem applyRules_eq (tab : List Char) (mark : Char) (text : List Char) :
    applyRules tab mark text =
    collapseMarks.apply tab mark (selectRule.apply tab mark (beforeSelect tab mark text)) := by
  rw [applyRules, splitRules_eq, List.foldl_append, List.foldl_cons, List.foldl_cons,
    List.foldl_nil, beforeSelect]

theorem spell_beforeSelect (hm : IsCandidate mark) (htab : ∀ c ∈ tab, isBlank c = true) (b : Bool)
    (text : List Char) : spell b (beforeSelect tab mark text) = spell b text :=
  rel_foldl_apply (R := fun s t => spell b t = spell b s) (fun _ => rfl)
    (fun hst htu => htu.trans hst)
    (fun rule hrule s => Rule.spell_apply hm htab
      (List.all_eq_true.1 earlierRules_keepsWords rule hrule) b s) text

/-- The letters of `SELECT`, with the sign of a new word unless one goes on before them. -/
def spellSelect (inWord : Bool) : List (Option Char) :=
  (if inWord then [] else [none]) ++ selectWord.map fun c => some (letterOf c)

theorem spellAtoms_selectWord (b : Bool) :
    spellAtoms b (Rule.word (selectWord ++ [' '])) = some (spellSelect b, false) := by
  cases b <;> decide

theorem spellPieces_selectWord (b : Bool) :
    spellPieces b [.text (selectWord ++ [' '])] = some (spellSelect b, false) := by
  cases b <;> decide

theorem forall₂_of_takes_word {w m s : List Char}
    (h : Takes ((Rule.word w).map (Atom.part mark)) m s) :
    List.Forall₂ (fun c d => sameLetter c d = true) w m := by
  induction w generalizing m with
  | nil =>
    cases h
    exact .nil
  | cons c w ih =>
    cases h with
    | one hc h => exact .cons hc (ih h)

/-- What the rule for `SELECT` takes: blanks, and then the keyword with the space behind it. -/
theorem takes_selectRule {m s : List Char}
    (h : Takes (selectRule.substitution tab mark).pattern m s) :
    ∃ gap key, m = gap ++ key ∧ (∀ c ∈ gap, isBlank c = true) ∧ key.head?.any isBlank = false ∧
      (∀ b, endsWord b key = false) ∧
      Takes ((Rule.word (selectWord ++ [' '])).map (Atom.part mark)) key s := by
  cases h with
  | @many _ _ gap key _ hgap h =>
    have hletters := forall₂_of_takes_word h
    simp only [selectWord, List.cons_append, List.nil_append, List.forall₂_cons_left_iff,
      List.forall₂_nil_left_iff] at hletters
    obtain ⟨c, k, hc, ⟨_, _, -, ⟨_, _, -,
      ⟨_, _, -, ⟨_, _, -, ⟨_, _, -, ⟨space, _, hspace, rfl, rfl⟩, rfl⟩, rfl⟩, rfl⟩, rfl⟩, rfl⟩,
      rfl⟩ := hletters
    have hword : isWord c = true := isWord_of_letterOf (by decide) (sameLetter_iff.1 hc)
    have hgap' : isWord space = false := by
      rw [eq_of_gapChar (by decide) hspace]
      exact isWord_of_gapChar (by decide)
    exact ⟨gap, _, rfl, hgap, by simpa using not_isBlank_of_isWord hword,
      fun b => by simpa using hgap', h⟩

/-- An occurrence of `SELECT` is spelled as it is written, but for the sign of a new word where it
is joined to the word before it. -/
theorem spell_occurrence (hm : IsCandidate mark) (htab : ∀ c ∈ tab, isBlank c = true)
    {m s : List Char} (h : Takes (selectRule.substitution tab mark).pattern m s)
    (before t : List Char) :
    endsWord false (before ++ m) = false ∧
      spell (endsWord false before) (m ++ s) =
        (if joinsWords ⟨before, m, s⟩ then [none] else []) ++
        spellSelect (endsWord false before) ++ spell false s ∧
      spell (endsWord false before) ((selectRule.substitution tab mark).replacement ++ t) =
        spellSelect (endsWord false before) ++ spell false t := by
  obtain ⟨gap, key, rfl, hgap, hkey, hend, htakes⟩ := takes_selectRule h
  refine ⟨by simp [hend], ?_, spell_expand hm htab (spellPieces_selectWord _) t⟩
  rw [joinsWords, ← endsWord_eq_getLast?, List.append_assoc]
  cases gap with
  | nil =>
    rw [List.nil_append, List.nil_append, hkey, Bool.and_false, if_neg Bool.false_ne_true,
      List.nil_append]
    exact spell_of_takes hm (spellAtoms_selectWord _) htakes
  | cons c gap =>
    rw [spell_gap_append (by simp) fun d hd => isWord_of_isBlank (hgap d hd),
      spell_of_takes hm (spellAtoms_selectWord false) htakes]
    have hc : isBlank c = true := hgap c List.mem_cons_self
    cases endsWord false before <;> simp [spellSelect, hc]

/-- Every occurrence of `SELECT` that is joined to a word loses the sign of one word, and without
such an occurrence all words stay. -/
theorem spell_selectRule_apply (hm : IsCandidate mark) (htab : ∀ c ∈ tab, isBlank c = true)
    (text : List Char) :
    (((selectRule.substitution tab mark).occurrences text).countP joinsWords = 0 →
      spell false (selectRule.apply tab mark text) = spell false text) ∧
    (spell false (selectRule.apply tab mark text)).count none +
      ((selectRule.substitution tab mark).occurrences text).countP joinsWords =
        (spell false text).count none := by
  refine Substitution.scan (selectRule.substitution tab mark) (R := fun before s t os =>
    (os.countP joinsWords = 0 → spell (endsWord false before) t =
      spell (endsWord false before) s) ∧
      (spell (endsWord false before) t).count none + os.countP joinsWords =
        (spell (endsWord false before) s).count none) ?_ ?_ ?_ text
  · intro before
    simp
  · intro before c s t os hrest
    rw [endsWord_append, endsWord_cons, endsWord_nil] at hrest
    rw [spell_cons, spell_cons _ c s]
    refine ⟨fun hnone => by rw [hrest.1 hnone], ?_⟩
    rw [List.count_append, List.count_append, ← hrest.2]
    omega
  · intro before m s t os _ htakes hrest
    obtain ⟨hend, hs, ht⟩ := spell_occurrence hm htab htakes before t
    rw [hend] at hrest
    rw [hs, ht, List.countP_cons]
    by_cases hjoin : joinsWords ⟨before, m, s⟩ = true
    · refine ⟨fun hnone => by simp [hjoin] at hnone, ?_⟩
      simp only [hjoin, if_true, List.count_append, List.count_singleton_self]
      omega
    · simp only [hjoin, if_false, List.nil_append, List.count_append, Bool.false_eq_true,
        Nat.add_zero]
      exact ⟨fun hnone => by rw [hrest.1 hnone], by omega⟩

/-- The words after all rules: as many signs of words are lost as there are occurrences of `SELECT`
that are joined to a word. -/
theorem spell_applyRules (hm : IsCandidate mark) (htab : ∀ c ∈ tab, isBlank c = true)
    (text : List Char) :
    ((selects tab mark text).countP joinsWords = 0 →
      spell false (applyRules tab mark text) = spell false text) ∧
    (spell false (applyRules tab mark text)).count none + (selects tab mark text).countP
    joinsWords = (spell false text).count none := by
  rw [applyRules_eq, Rule.spell_apply hm htab collapseMarks_keepsWords,
    ← spell_beforeSelect hm htab false text]
  exact spell_selectRule_apply hm htab (beforeSelect tab mark text)

end

end Reindent.Sql
