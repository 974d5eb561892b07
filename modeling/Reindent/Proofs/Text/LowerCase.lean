import Mathlib
import Reindent.Proofs.Text.Letters

/-!
# Names in lower case

A name that is made of small letters of ASCII is found by lower-casing once exactly where it is
found by lower-casing twice. The only characters that become such letters and are none are the
capitals of ASCII and the sign for Kelvin, and lower-casing leaves none of these.
-/

set_option maxRecDepth 4000

namespace Reindent.Text

/-! ## Characters -/

theorem capitalRuns_ascii : ∀ r ∈ capitalRuns, r = (0x41, 0x5A, 1, 32) ∨ 0x80 ≤ r.1 := by
  decide

theorem capitalRuns_ne_kelvin : ∀ r ∈ capitalRuns,
    (r.2.1 : Int) + r.2.2.2 < 0x212A ∨ 0x212A < (r.1 : Int) + r.2.2.2 := by
  decide

theorem lowerChar_of_capital {c : Char} (hlo : 0x41 ≤ c.toNat) (hhi : c.toNat ≤ 0x5A) :
    (lowerChar c).toNat = c.toNat + 32 := by
  have hrun : lowerChar c = Char.ofNat ((c.toNat : Int) + 32).toNat := by
    have hfind : capitalRuns.find?
      (fun r => r.1 ≤ c.toNat && c.toNat ≤ r.2.1 && (c.toNat - r.1) % r.2.2.1 == 0) =
        some (0x41, 0x5A, 1, 32) :=
      List.find?_cons_of_pos (l := capitalRuns.tail) (by simp [hlo, hhi, Nat.mod_one])
    simp only [lowerChar, hfind]
  rw [hrun, Char.toNat_ofNat, if_pos]
  · omega
  · unfold Nat.isValidChar
    omega

theorem lowerChar_ascii {c : Char} (h : c.toNat < 0x80) : lowerChar c = c.toLower := by
  by_cases hcapital : 0x41 ≤ c.toNat ∧ c.toNat ≤ 0x5A
  · have hlower : c.toLower.toNat = c.toNat + 32 :=
      forall_ascii (P := fun c => 0x41 ≤ c.toNat ∧ c.toNat ≤ 0x5A → c.toLower.toNat = c.toNat + 32)
        (by decide) h
        hcapital
    rw [← Char.toNat_inj, lowerChar_of_capital hcapital.1 hcapital.2, hlower]
  · have hlower : c.toLower = c :=
      forall_ascii (P := fun c => ¬ (0x41 ≤ c.toNat ∧ c.toNat ≤ 0x5A) → c.toLower = c)
        (by decide) h hcapital
    rw [hlower]
    rcases toNat_lowerChar c with heq | ⟨r, hr, hlo, hhi, -⟩
    · exact heq
    · rcases capitalRuns_ascii r hr with rfl | hbeyond
      · exact absurd ⟨hlo, hhi⟩ hcapital
      · omega

/-- A character that is lower-cased to one of ASCII is one of ASCII or the sign for Kelvin. -/
theorem ascii_or_kelvin {c : Char} (h : (lowerChar c).toNat < 0x80) :
    c.toNat < 0x80 ∨ c = Char.ofNat 0x212A := by
  rcases toNat_lowerChar c with heq | ⟨r, hr, hlo, hhi, hto⟩
  · exact .inl (heq ▸ h)
  · have hrun := capitalRuns_beyond_ascii r hr
    by_cases hc : c.toNat < 0x80
    · exact .inl hc
    · right
      have hkelvin : c.toNat = 0x212A := by omega
      rw [← hkelvin, Char.ofNat_toNat]

/-- Capitals of ASCII, and the sign for Kelvin, which has the small letter of one of them. -/
def isPlainCapital (c : Char) : Bool :=
  c.isUpper || c == Char.ofNat 0x212A

theorem toNat_lt_of_isLower {c : Char} (h : c.isLower = true) : c.toNat < 0x80 :=
  toNat_lt_of_isAlpha (by simp [Char.isAlpha, h])

theorem isPlainCapital_lowerChar (c : Char) : isPlainCapital (lowerChar c) = false := by
  have hkelvin : isPlainCapital (lowerChar (Char.ofNat 0x212A)) = false := by decide
  by_contra hcapital
  rw [Bool.not_eq_false, isPlainCapital, Bool.or_eq_true, beq_iff_eq] at hcapital
  rcases hcapital with hupper | heq
  · have hascii : (lowerChar c).toNat < 0x80 :=
      toNat_lt_of_isAlpha (by simp [Char.isAlpha, hupper])
    rcases ascii_or_kelvin hascii with hc | rfl
    · have hnone : c.toLower.isUpper = false :=
        forall_ascii (P := fun c => c.toLower.isUpper = false) (by decide) hc
      rw [lowerChar_ascii hc, hnone] at hupper
      cases hupper
    · simp [isPlainCapital, hupper] at hkelvin
  · rcases toNat_lowerChar c with hsame | ⟨r, hr, hlo, hhi, hto⟩
    · rw [← hsame.symm.trans heq, heq] at hkelvin
      exact absurd hkelvin (by decide)
    · have hrun := capitalRuns_ne_kelvin r hr
      rw [heq, Char.toNat_ofNat, if_pos (by decide)] at hto
      omega

/-- A character that has a small letter of ASCII and is no capital is that letter. -/
theorem lowerChar_eq_self_of_isLower {c : Char} (hcapital : isPlainCapital c = false)
    (h : (lowerChar c).isLower = true) : lowerChar c = c := by
  rcases ascii_or_kelvin (toNat_lt_of_isLower h) with hc | rfl
  · rw [lowerChar_ascii hc]
    exact forall_ascii (P := fun c => isPlainCapital c = false → c.toLower = c)
      (by decide) hc hcapital
  · exact absurd hcapital (by decide)

theorem lowerChar_of_isLower {c : Char} (h : c.isLower = true) : lowerChar c = c := by
  rw [lowerChar_ascii (toNat_lt_of_isLower h)]
  exact forall_ascii (P := fun c => c.isLower = true → c.toLower = c) (by decide)
    (toNat_lt_of_isLower h) h

/-! ## Texts -/

theorem lowerAfter_cons {c : Char} (hdotted : c.toNat ≠ 0x130) (hsigma : c.toNat ≠ 0x3A3)
    (before s : List Char) :
    lowerAfter before (c :: s) = lowerChar c :: lowerAfter (c :: before) s := by
  rw [lowerAfter, if_neg hdotted, if_neg hsigma]

/-- Lower-casing leaves no capitals. -/
theorem isPlainCapital_of_mem_lowerAfter {before s : List Char} {d : Char}
    (hd : d ∈ lowerAfter before s) :
    isPlainCapital d = false := by
  induction s generalizing before with
  | nil => cases hd
  | cons c s ih =>
    rw [lowerAfter] at hd
    split_ifs at hd with hdotted hsigma hfinal
    · rcases List.mem_cons.1 hd with rfl | hd
      · decide
      · rcases List.mem_cons.1 hd with rfl | hd
        · decide
        · exact ih hd
    · rcases List.mem_cons.1 hd with rfl | hd
      · decide
      · exact ih hd
    · rcases List.mem_cons.1 hd with rfl | hd
      · decide
      · exact ih hd
    · rcases List.mem_cons.1 hd with rfl | hd
      · exact isPlainCapital_lowerChar c
      · exact ih hd

/-- A text without capitals is in lower case already if its lower case is made of small letters of
ASCII. -/
theorem lowerAfter_eq_self {before s : List Char} (hcapital : ∀ c ∈ s, isPlainCapital c = false)
    (h : ∀ d ∈ lowerAfter before s, d.isLower = true) : lowerAfter before s = s := by
  induction s generalizing before with
  | nil => rfl
  | cons c s ih =>
    have hdotted : c.toNat ≠ 0x130 := by
      intro hc
      rw [lowerAfter, if_pos hc] at h
      exact absurd (h (Char.ofNat 0x307) (by simp)) (by decide)
    have hsigma : c.toNat ≠ 0x3A3 := by
      intro hc
      rw [lowerAfter, if_neg hdotted, if_pos hc] at h
      have hfirst := h _ List.mem_cons_self
      split at hfirst <;> exact absurd hfirst (by decide)
    rw [lowerAfter_cons hdotted hsigma] at h ⊢
    rw [List.forall_mem_cons] at hcapital h
    rw [lowerChar_eq_self_of_isLower hcapital.1 h.1, ih hcapital.2 h.2]

theorem lowerCase_of_isLower {s : List Char} (h : ∀ c ∈ s, c.isLower = true) :
    lowerCase s = s := by
  suffices ∀ before, lowerAfter before s = s from this []
  induction s with
  | nil => exact fun _ => rfl
  | cons c s ih =>
    rw [List.forall_mem_cons] at h
    have hascii := toNat_lt_of_isLower h.1
    intro before
    rw [lowerAfter_cons (by omega) (by omega), lowerChar_of_isLower h.1, ih h.2]

/-- A name in small letters is the lower case of a text exactly if it is so after lower-casing once
more. -/
theorem lowerCase_lowerCase_eq_iff {name : List Char} (hname : ∀ c ∈ name, c.isLower = true)
    (s : List Char) :
    lowerCase (lowerCase s) = name ↔ lowerCase s = name := by
  constructor
  · rintro rfl
    exact (lowerAfter_eq_self (fun c => isPlainCapital_of_mem_lowerAfter) hname).symm
  · rintro rfl
    exact lowerCase_of_isLower hname

end Reindent.Text
