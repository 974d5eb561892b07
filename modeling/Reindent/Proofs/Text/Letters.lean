import Mathlib
import Reindent.Marker
import Reindent.Text.Blank
import Reindent.Text.Caseless
import Reindent.Text.Word

/-!
# Letters, blanks and marks

What the character tables have in common and what keeps them apart. Two characters are one letter
exactly when `letterOf` sends them to the same character; only four characters beyond ASCII share a
letter with one of ASCII, and all of them are word characters. Blanks and marks are no word
characters, and a mark is the only form of itself.

Every fact about a table is a comparison of ranges that is evaluated once; the statements about
characters follow by arithmetic.
-/

set_option maxRecDepth 4000

namespace Reindent.Text

/-! ## Ranges of code points -/

theorem inRanges_eq_false {ranges : List (Nat × Nat)} {n : Nat}
    (h : ∀ r ∈ ranges, n < r.1 ∨ r.2 < n) :
    inRanges ranges n = false := by
  simp only [inRanges, List.any_eq_false, Bool.and_eq_true, decide_eq_true_eq]
  intro r hr hn
  have := h r hr
  omega

/-- The code points of blanks, of boundary marks and of punctuation. -/
def gapRanges : List (Nat × Nat) :=
  [(0, 0x2F), (0x3A, 0x40), (0x5B, 0x5E), (0x7B, 0xA9), (0x1680, 0x1680), (0x2000, 0x200A),
    (0x2028, 0x2029), (0x202F, 0x202F), (0x205F, 0x205F), (0x3000, 0x3000), (0xE000, 0xF8FF),
    (0xF0000, 0x10FFFD)]

theorem wordRanges_apart : ∀ g ∈ gapRanges, ∀ r ∈ wordRanges, g.2 < r.1 ∨ r.2 < g.1 := by
  decide

/-- No character of a gap is a word character. -/
theorem isWord_eq_false_of_gap {c : Char} {g : Nat × Nat} (hg : g ∈ gapRanges)
    (hlo : g.1 ≤ c.toNat) (hhi : c.toNat ≤ g.2) : isWord c = false := by
  have hword : inRanges wordRanges c.toNat = false := by
    refine inRanges_eq_false fun r hr => ?_
    have := wordRanges_apart g hg r hr
    omega
  have hline : c ≠ '_' := by
    rintro rfl
    have hall : ∀ g ∈ gapRanges, '_'.toNat < g.1 ∨ g.2 < '_'.toNat := by decide
    have := hall g hg
    omega
  simp [isWord, hword, hline]

theorem isWord_eq_false_of_punctuation {c : Char}
    (h : c.toNat < 0x30 ∨ (0x3A ≤ c.toNat ∧ c.toNat ≤ 0x40) ∨ (0x5B ≤ c.toNat ∧ c.toNat ≤ 0x5E)) :
    isWord c = false := by
  rcases h with h | h | h
  · exact isWord_eq_false_of_gap (g := (0, 0x2F)) (by decide) (Nat.zero_le _) (by omega)
  · exact isWord_eq_false_of_gap (g := (0x3A, 0x40)) (by decide) h.1 h.2
  · exact isWord_eq_false_of_gap (g := (0x5B, 0x5E)) (by decide) h.1 h.2

theorem exists_gap_of_isBlank {c : Char} (h : isBlank c = true) :
    ∃ g ∈ gapRanges, g.1 ≤ c.toNat ∧ c.toNat ≤ g.2 := by
  simp only [isBlank, Bool.or_eq_true, Bool.and_eq_true, decide_eq_true_eq, beq_iff_eq] at h
  simp only [gapRanges, List.mem_cons, List.not_mem_nil, or_false, exists_eq_or_imp,
    exists_eq_left]
  omega

@[simp] theorem isWord_of_isBlank {c : Char} (h : isBlank c = true) : isWord c = false := by
  obtain ⟨g, hg, hlo, hhi⟩ := exists_gap_of_isBlank h
  exact isWord_eq_false_of_gap hg hlo hhi

theorem not_isBlank_of_isWord {c : Char} (h : isWord c = true) : isBlank c = false := by
  by_contra hb
  rw [isWord_of_isBlank (by simpa using hb)] at h
  exact Bool.false_ne_true h

/-! ## Small forms -/

/-- Every capital of a run has a small letter, and it is a character. -/
theorem capitalRuns_valid : ∀ r ∈ capitalRuns, 0 ≤ (r.1 : Int) + r.2.2.2 ∧
    ((r.2.1 : Int) + r.2.2.2 < 0xD800 ∨
      0xE000 ≤ (r.1 : Int) + r.2.2.2 ∧ (r.2.1 : Int) + r.2.2.2 < 0x110000) := by
  decide

theorem sharedCapitals_valid : ∀ p ∈ sharedCapitals, p.2.isValidChar := by
  decide

/-- A character without a small letter of its own stays, and any other moves by the distance of its
run. -/
theorem toNat_lowerChar (c : Char) :
    lowerChar c = c ∨ ∃ r ∈ capitalRuns, r.1 ≤ c.toNat ∧ c.toNat ≤ r.2.1 ∧
    ((lowerChar c).toNat : Int) = c.toNat + r.2.2.2 := by
  rw [lowerChar]
  split
  · rename_i r hfind
    right
    have hmem := List.mem_of_find?_eq_some hfind
    have hin := List.find?_some hfind
    simp only [Bool.and_eq_true, decide_eq_true_eq] at hin
    obtain ⟨⟨hlo, hhi⟩, -⟩ := hin
    refine ⟨r, hmem, hlo, hhi, ?_⟩
    have hvalid := capitalRuns_valid r hmem
    rw [Char.toNat_ofNat, if_pos]
    · omega
    · unfold Nat.isValidChar
      omega
  · exact Or.inl rfl

/-- The letter of a character is its small form, unless that one shares its capital with
another. -/
theorem letterOf_cases (c : Char) : letterOf c = smallForm c ∨
    ∃ p ∈ sharedCapitals, p.1 = (smallForm c).toNat ∧ (letterOf c).toNat = p.2 := by
  simp only [letterOf]
  split
  · rename_i n hlookup
    obtain ⟨before, after, hsplit, -⟩ := List.lookup_eq_some_iff.1 hlookup
    have hmem : ((smallForm c).toNat, n) ∈ sharedCapitals := by
      rw [hsplit]
      simp
    refine Or.inr ⟨_, hmem, rfl, ?_⟩
    rw [Char.toNat_ofNat, if_pos (sharedCapitals_valid _ hmem)]
  · exact Or.inl rfl

theorem smallForm_of_ge {c : Char} (h : 0x80 ≤ c.toNat) (hne : c.toNat ≠ 0x130) :
    smallForm c = lowerChar c := by
  rw [smallForm, if_neg (by omega), if_neg hne]

/-- A code point that no run of capitals and no shared capital leads to is the letter of one
character only. -/
theorem toNat_eq_of_letterOf {c : Char} {n : Nat} (hn : 0x80 ≤ n)
    (hruns : ∀ r ∈ capitalRuns, (n : Int) < r.1 + r.2.2.2 ∨ (r.2.1 : Int) + r.2.2.2 < n)
    (hshared : ∀ p ∈ sharedCapitals, p.2 ≠ n) (h : (letterOf c).toNat = n) : c.toNat = n := by
  have hsmall : (smallForm c).toNat = n := by
    rcases letterOf_cases c with heq | ⟨p, hp, -, hto⟩
    · rw [← heq, h]
    · exact absurd (hto.symm.trans h) (hshared p hp)
  by_cases hc : c.toNat < 0x80
  · have hall : ∀ k < 128, (smallForm (Char.ofNat k)).toNat < 0x80 := by decide
    have := hall c.toNat hc
    rw [Char.ofNat_toNat] at this
    omega
  · by_cases h130 : c.toNat = 0x130
    · rw [smallForm, if_neg hc, if_pos h130] at hsmall
      have : 'i'.toNat < 0x80 := by decide
      omega
    · rw [smallForm_of_ge (by omega) h130] at hsmall
      rcases toNat_lowerChar c with heq | ⟨r, hr, hlo, hhi, hto⟩
      · rw [← hsmall, heq]
      · have := hruns r hr
        omega

/-! ## Letters of ASCII -/

/-- A property of the ASCII characters can be evaluated for each of them. -/
theorem forall_ascii {P : Char → Prop}
    (h : ∀ n < 128, P (Char.ofNat n)) {c : Char} (hc : c.toNat < 0x80) : P c := by
  have := h c.toNat hc
  rwa [Char.ofNat_toNat] at this

theorem letterOf_ascii {c : Char} (h : c.toNat < 0x80) : letterOf c = c.toLower :=
  forall_ascii (P := fun c => letterOf c = c.toLower) (by decide) h

theorem toLower_of_not_isAlpha {c : Char} (h : c.toNat < 0x80) :
    c.isAlpha = false → c.toLower = c :=
  forall_ascii (P := fun c => c.isAlpha = false → c.toLower = c) (by decide) h

/-- Lower-casing keeps ASCII letters apart from the other characters. -/
theorem isAlpha_toLower {c : Char} (h : c.toNat < 0x80) : c.toLower.isAlpha = c.isAlpha :=
  forall_ascii (P := fun c => c.toLower.isAlpha = c.isAlpha) (by decide) h

theorem isWord_of_isAlpha {c : Char} (h : c.toNat < 0x80) : c.isAlpha = true → isWord c = true :=
  forall_ascii (P := fun c => c.isAlpha = true → isWord c = true) (by decide) h

theorem toNat_lt_of_isAlpha {c : Char} (h : c.isAlpha = true) : c.toNat < 0x80 := by
  simp only [Char.isAlpha, Char.isUpper, Char.isLower, Bool.or_eq_true, Bool.and_eq_true,
    decide_eq_true_eq, UInt32.le_iff_toNat_le, Char.toNat_val, ge_iff_le] at h
  have hZ : 'Z'.toNat = 90 := rfl
  have hz : 'z'.toNat = 122 := rfl
  omega

/-- The characters beyond ASCII that have the letter of an ASCII character: the capital I with a
dot, the small i without one, the long s and the sign for Kelvin. -/
def foreignForms : List Char :=
  [Char.ofNat 0x130, Char.ofNat 0x131, Char.ofNat 0x17F, Char.ofNat 0x212A]

theorem mem_foreignForms {c : Char} : c ∈ foreignForms ↔
    c.toNat = 0x130 ∨ c.toNat = 0x131 ∨ c.toNat = 0x17F ∨ c.toNat = 0x212A := by
  have hcode : ∀ n, n.isValidChar → (c = Char.ofNat n ↔ c.toNat = n) := by
    intro n hn
    constructor
    · rintro rfl
      rw [Char.toNat_ofNat, if_pos hn]
    · rintro rfl
      rw [Char.ofNat_toNat]
  simp only [foreignForms, List.mem_cons, List.not_mem_nil, or_false]
  rw [hcode _ (by decide), hcode _ (by decide), hcode _ (by decide), hcode _ (by decide)]

theorem capitalRuns_beyond_ascii :
    ∀ r ∈ capitalRuns, r.2.1 < 0x80 ∨ (r.1 = 0x212A ∧ r.2.1 = 0x212A) ∨
    (0x80 ≤ (r.1 : Int) + r.2.2.2 ∧
      ((r.2.1 : Int) + r.2.2.2 < 0x131 ∨ 0x131 < (r.1 : Int) + r.2.2.2) ∧
      ((r.2.1 : Int) + r.2.2.2 < 0x17F ∨ 0x17F < (r.1 : Int) + r.2.2.2)) := by
  decide

theorem sharedCapitals_beyond_ascii :
    ∀ p ∈ sharedCapitals, p.1 = 0x131 ∨ p.1 = 0x17F ∨ 0x80 ≤ p.2 := by
  decide

theorem toNat_letterOf_ge {c : Char} (h : 0x80 ≤ c.toNat) (hc : c ∉ foreignForms) :
    0x80 ≤ (letterOf c).toNat := by
  rw [mem_foreignForms] at hc
  have hsmall : 0x80 ≤ (lowerChar c).toNat ∧ (lowerChar c).toNat ≠ 0x131 ∧
      (lowerChar c).toNat ≠ 0x17F := by
    rcases toNat_lowerChar c with heq | ⟨r, hr, hlo, hhi, hto⟩
    · rw [heq]
      omega
    · have := capitalRuns_beyond_ascii r hr
      omega
  rw [← smallForm_of_ge h (by omega)] at hsmall
  rcases letterOf_cases c with heq | ⟨p, hp, hfrom, hto⟩
  · rw [heq]
    exact hsmall.1
  · have := sharedCapitals_beyond_ascii p hp
    omega

/-- Whatever has the letter of an ASCII character is an ASCII character or one of the four foreign
forms. -/
theorem ascii_or_foreign {c : Char} (h : (letterOf c).toNat < 0x80) :
    c.toNat < 0x80 ∨ c ∈ foreignForms := by
  by_contra hc
  rw [not_or] at hc
  have := toNat_letterOf_ge (by omega) hc.2
  omega

theorem isAlpha_letterOf_foreign {c : Char} (h : c ∈ foreignForms) :
    (letterOf c).isAlpha = true := by
  have hall : foreignForms.all (fun c => (letterOf c).isAlpha) = true := by decide
  exact List.all_eq_true.1 hall c h

theorem isWord_foreign {c : Char} (h : c ∈ foreignForms) : isWord c = true := by
  have hall : foreignForms.all isWord = true := by decide
  exact List.all_eq_true.1 hall c h

/-- An ASCII character that is no letter is alone with its letter. -/
theorem eq_of_letterOf_eq {a b : Char} (hascii : a.toNat < 0x80) (halpha : a.isAlpha = false)
    (h : letterOf a = letterOf b) : a = b := by
  rw [letterOf_ascii hascii, toLower_of_not_isAlpha hascii halpha] at h
  rcases ascii_or_foreign (h ▸ hascii) with hb | hb
  · rw [letterOf_ascii hb] at h
    have hb' : b.isAlpha = false := by rw [← isAlpha_toLower hb, ← h, halpha]
    rw [h, toLower_of_not_isAlpha hb hb']
  · have := isAlpha_letterOf_foreign hb
    rw [← h, halpha] at this
    exact absurd this Bool.false_ne_true

/-- Two characters are one letter exactly when `letterOf` does not tell them apart. -/
theorem sameLetter_iff {a b : Char} : sameLetter a b = true ↔ letterOf a = letterOf b := by
  rw [sameLetter]
  split
  · rename_i ha
    simp only [Bool.and_eq_true, decide_eq_true_eq, Bool.not_eq_true'] at ha
    rw [beq_iff_eq]
    exact ⟨fun h => by rw [h], eq_of_letterOf_eq ha.1 ha.2⟩
  · exact beq_iff_eq

/-- Whatever is one letter with an ASCII letter is a word character. -/
theorem isWord_of_letterOf {k c : Char} (hk : k.isAlpha = true) (h : letterOf k = letterOf c) :
    isWord c = true := by
  have hascii := toNat_lt_of_isAlpha hk
  have halpha : (letterOf c).isAlpha = true := by
    rw [← h, letterOf_ascii hascii, isAlpha_toLower hascii, hk]
  rcases ascii_or_foreign (toNat_lt_of_isAlpha halpha) with hc | hc
  · rw [letterOf_ascii hc, isAlpha_toLower hc] at halpha
    exact isWord_of_isAlpha hc halpha
  · exact isWord_foreign hc

/-! ## Parentheses -/

/-- Whether a character is a parenthesis. -/
def isParenthesis (c : Char) : Bool :=
  c == '(' || c == ')'

theorem isParenthesis_iff {c : Char} : isParenthesis c = true ↔ c = '(' ∨ c = ')' := by
  simp [isParenthesis]

theorem isWord_of_isParenthesis {c : Char} (h : isParenthesis c = true) : isWord c = false := by
  rcases isParenthesis_iff.1 h with rfl | rfl <;> exact isWord_eq_false_of_punctuation (by decide)

theorem isParenthesis_of_isBlank {c : Char} (h : isBlank c = true) : isParenthesis c = false := by
  by_contra hc
  rcases isParenthesis_iff.1 (by simpa using hc) with rfl | rfl <;> exact absurd h (by decide)

end Reindent.Text
