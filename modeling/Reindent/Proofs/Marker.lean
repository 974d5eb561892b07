import Mathlib
import Reindent.Proofs.Text.Letters

/-!
# Boundary marks

A mark that is picked for a text does not occur in it, and it is a character of a kind of its own:
neither blank nor part of a word, and no other character is the same letter. A pattern that asks
for marks finds the marks that were put in, and nothing else.
-/

set_option maxRecDepth 2000

namespace Reindent.Marker

open Text

/-- The null character and the private-use characters from which marks are taken. -/
def IsCandidate (m : Char) : Prop :=
  m.toNat = 0 ∨ (0xE000 ≤ m.toNat ∧ m.toNat ≤ 0xF8FF) ∨ (0xF0000 ≤ m.toNat ∧ m.toNat ≤ 0x10FFFD)

theorem isCandidate_preferred : IsCandidate preferred :=
  Or.inl rfl

theorem isCandidate_of_mem_fallbacks {m : Char} (h : m ∈ fallbacks) : IsCandidate m := by
  obtain ⟨n, hn, rfl⟩ := List.mem_map.1 h
  rw [List.mem_append, List.mem_range'_1, List.mem_range'_1] at hn
  have hvalid : n.isValidChar := by
    unfold Nat.isValidChar
    omega
  rw [IsCandidate, Char.toNat_ofNat, if_pos hvalid]
  omega

theorem mem_candidates {m : Char} (hm : IsCandidate m) : m ∈ preferred :: fallbacks := by
  rcases hm with hnull | hprivate
  · rw [← Char.ofNat_toNat m, hnull]
    exact List.mem_cons_self
  · refine List.mem_cons_of_mem _ (List.mem_map.2 ⟨m.toNat, ?_, Char.ofNat_toNat m⟩)
    rw [List.mem_append, List.mem_range'_1, List.mem_range'_1]
    omega

theorem mem_candidates_iff {m : Char} : m ∈ preferred :: fallbacks ↔ IsCandidate m := by
  refine ⟨fun h => ?_, mem_candidates⟩
  rcases List.mem_cons.1 h with rfl | h
  · exact isCandidate_preferred
  · exact isCandidate_of_mem_fallbacks h

theorem contains_used (text : List Char) (m : Char) :
    (Std.HashSet.ofList (text.map Char.toNat)).contains m.toNat = decide (m ∈ text) := by
  rw [Std.HashSet.contains_ofList, Bool.eq_iff_iff, List.contains_eq_mem, decide_eq_true_iff,
    decide_eq_true_iff, List.mem_map]
  constructor
  · rintro ⟨c, hc, hcode⟩
    exact Char.toNat_inj.1 hcode ▸ hc
  · intro hm
    exact ⟨m, hm, rfl⟩

/-- The preferred mark is picked wherever it is free. -/
theorem pick?_of_notMem {text : List Char} (h : preferred ∉ text) :
    pick? text = some preferred := by
  rw [pick?, if_neg (by simpa using h)]

/-- The mark is the first candidate that the text does not hold. -/
theorem pick?_eq_find? (text : List Char) :
    pick? text = (preferred :: fallbacks).find? fun m => decide (m ∉ text) := by
  by_cases h : preferred ∈ text
  · rw [pick?, if_pos (by simpa using h), List.find?_cons_of_neg (by simpa using h)]
    simp only [contains_used, decide_not]
  · rw [pick?_of_notMem h, List.find?_cons_of_pos (by simpa using h)]

/-- A picked mark is a candidate that the text does not hold. -/
theorem pick?_eq_some {text : List Char} {m : Char} (h : pick? text = some m) :
    IsCandidate m ∧ m ∉ text := by
  rw [pick?_eq_find?] at h
  exact ⟨mem_candidates_iff.1 (List.mem_of_find?_eq_some h), by simpa using List.find?_some h⟩

/-- Which mark is picked depends on the candidates in the text only. -/
theorem pick?_congr {s t : List Char} (h : ∀ m, IsCandidate m → (m ∈ s ↔ m ∈ t)) :
    pick? s = pick? t := by
  rw [pick?_eq_find?, pick?_eq_find?]
  refine List.find?_congr fun m hm => ?_
  rw [decide_eq_decide, h m (mem_candidates_iff.1 hm)]

/-- If no mark is left, all are taken. -/
theorem pick?_eq_none {text : List Char} (h : pick? text = none) :
    ∀ m ∈ preferred :: fallbacks, m ∈ text := by
  rw [pick?_eq_find?, List.find?_eq_none] at h
  intro m hm
  simpa using h m hm

/-- If a candidate is free, a mark is picked. -/
theorem exists_pick?_eq_some {text : List Char} {m : Char} (hm : IsCandidate m)
    (hfree : m ∉ text) :
    ∃ mark, pick? text = some mark := by
  cases hpick : pick? text with
  | some mark => exact ⟨mark, rfl⟩
  | none => exact absurd (pick?_eq_none hpick m (mem_candidates hm)) hfree

namespace IsCandidate

variable {m : Char}

theorem isWord_eq_false (hm : IsCandidate m) : isWord m = false := by
  rcases hm with h | h | h
  · exact isWord_eq_false_of_gap (g := (0, 0x2F)) (by decide) (by omega) (by omega)
  · exact isWord_eq_false_of_gap (g := (0xE000, 0xF8FF)) (by decide) h.1 h.2
  · exact isWord_eq_false_of_gap (g := (0xF0000, 0x10FFFD)) (by decide) h.1 h.2

theorem isBlank_eq_false (hm : IsCandidate m) : isBlank m = false := by
  unfold IsCandidate at hm
  simp only [isBlank, Bool.or_eq_false_iff, Bool.and_eq_false_iff, decide_eq_false_iff_not,
    beq_eq_false_iff_ne]
  omega

/-- A mark is found among the characters that are no blanks. -/
theorem mem_deleteBlanks_iff (hm : IsCandidate m) {s : List Char} : m ∈ deleteBlanks s ↔
    m ∈ s := by
  rw [deleteBlanks, List.mem_filter, hm.isBlank_eq_false]
  simp

/-- A mark is none of the characters that lie between the null character and the private-use
characters. -/
theorem ne_of_toNat (hm : IsCandidate m) {c : Char} (hlo : 0 < c.toNat) (hhi : c.toNat < 0xE000) :
    c ≠ m := by
  rintro rfl
  unfold IsCandidate at hm
  omega

/-- Neither a capital nor its small letter is a private-use character. -/
theorem capitalRuns_apart : ∀ r ∈ capitalRuns,
    (r.2.1 < 0xE000 ∨ (0xF8FF < r.1 ∧ r.2.1 < 0xF0000)) ∧
      ((r.2.1 : Int) + r.2.2.2 < 0xE000 ∨
        (0xF8FF < (r.1 : Int) + r.2.2.2 ∧ (r.2.1 : Int) + r.2.2.2 < 0xF0000)) := by
  decide

theorem sharedCapitals_apart : ∀ p ∈ sharedCapitals,
    (p.1 < 0xE000 ∨ (0xF8FF < p.1 ∧ p.1 < 0xF0000)) ∧
    (p.2 < 0xE000 ∨ (0xF8FF < p.2 ∧ p.2 < 0xF0000)) := by
  decide

/-- A mark is its own letter. -/
theorem letterOf_eq_self (hm : IsCandidate m) : letterOf m = m := by
  rcases hm with h0 | hprivate
  · rw [← Char.ofNat_toNat m, h0]
    decide
  · have hlower : lowerChar m = m := by
      rcases toNat_lowerChar m with heq | ⟨r, hr, hlo, hhi, -⟩
      · exact heq
      · have := (capitalRuns_apart r hr).1
        omega
    have hsmall : smallForm m = m := (smallForm_of_ge (by omega) (by omega)).trans hlower
    rcases letterOf_cases m with heq | ⟨p, hp, hfrom, -⟩
    · rw [heq, hsmall]
    · rw [hsmall] at hfrom
      have := (sharedCapitals_apart p hp).1
      omega

/-- A mark is one letter with itself only. -/
theorem sameLetter_iff (hm : IsCandidate m) {c : Char} : sameLetter m c = true ↔ c = m := by
  constructor
  · intro h
    have hletter : letterOf c = m := (Text.sameLetter_iff.1 h).symm.trans hm.letterOf_eq_self
    rcases hm with h0 | hprivate
    · have halpha : m.isAlpha = false := by
        rw [← Char.ofNat_toNat m, h0]
        decide
      exact (eq_of_letterOf_eq (by omega) halpha (Text.sameLetter_iff.1 h)).symm
    · refine Char.toNat_inj.1 (toNat_eq_of_letterOf (by omega) ?_ ?_ (congrArg Char.toNat hletter))
      · intro r hr
        have := (capitalRuns_apart r hr).2
        omega
      · intro p hp
        have := (sharedCapitals_apart p hp).2
        omega
  · rintro rfl
    exact Text.sameLetter_iff.2 rfl

end IsCandidate

end Reindent.Marker
