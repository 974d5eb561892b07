import Mathlib
import Reindent.Css.Split
import Reindent.Proofs.Marker
import Reindent.Sql.Split

/-!
# The search for a mark

The candidates are tried by their code points: the null character, then the two ranges of
private-use characters. The first one that the text does not hold is the least of the free ones.
There are 137471 candidates, and a text holds all of them only if it has that many characters, so
the search succeeds for every shorter one.
-/

namespace Reindent.Marker

open Text

/-! ## The order of the candidates -/

theorem ofNat_lt_ofNat {m n : Nat} (hm : m.isValidChar) (hn : n.isValidChar) (h : m < n) :
    Char.ofNat m < Char.ofNat n := by
  show (Char.ofNat m).toNat < (Char.ofNat n).toNat
  rwa [Char.toNat_ofNat, Char.toNat_ofNat, if_pos hm, if_pos hn]

/-- The code points of the candidates, in the order in which these are tried. -/
def codes : List Nat :=
  0 :: (List.range' 0xE000 0x1900 ++ List.range' 0xF0000 0x1FFFE)

theorem candidates_eq : preferred :: fallbacks = codes.map Char.ofNat := rfl

theorem isValidChar_of_mem_codes {n : Nat} (h : n ∈ codes) : n.isValidChar := by
  rw [codes, List.mem_cons, List.mem_append, List.mem_range'_1, List.mem_range'_1] at h
  unfold Nat.isValidChar
  omega

theorem pairwise_codes : codes.Pairwise (· < ·) := by
  rw [codes, List.pairwise_cons, List.pairwise_append]
  refine ⟨fun n hn => ?_, List.pairwise_lt_range' 1, List.pairwise_lt_range' 1,
    fun a ha b hb => ?_⟩
  · rw [List.mem_append, List.mem_range'_1, List.mem_range'_1] at hn
    omega
  · rw [List.mem_range'_1] at ha hb
    omega

/-- The candidates are listed by their code points. -/
theorem pairwise_candidates : (preferred :: fallbacks).Pairwise (· < ·) := by
  rw [candidates_eq, List.pairwise_map]
  refine pairwise_codes.imp_of_mem fun hm hn h => ?_
  exact ofNat_lt_ofNat (isValidChar_of_mem_codes hm) (isValidChar_of_mem_codes hn) h

theorem length_candidates : (preferred :: fallbacks).length = 137471 := by
  rw [candidates_eq, List.length_map, codes, List.length_cons, List.length_append,
    List.length_range', List.length_range']

theorem nodup_candidates : (preferred :: fallbacks).Nodup :=
  pairwise_candidates.nodup

theorem ncard_isCandidate : {m | IsCandidate m}.ncard = 137471 := by
  have hset : {m | IsCandidate m} = ↑(preferred :: fallbacks).toFinset := by
    ext m
    rw [Finset.mem_coe, List.mem_toFinset, mem_candidates_iff]
    rfl
  rw [hset, Set.ncard_coe_finset, List.toFinset_card_of_nodup nodup_candidates, length_candidates]

/-! ## The outcome of the search -/

variable {text : List Char} {m : Char}

/-- The mark is the least of the free candidates. -/
theorem isLeast_of_pick? (h : pick? text = some m) : IsLeast {c | IsCandidate c ∧ c ∉ text} m := by
  refine ⟨pick?_eq_some h, ?_⟩
  rintro c ⟨hc, hfree⟩
  rw [pick?_eq_find?, List.find?_eq_some_iff_append] at h
  obtain ⟨-, before, after, hlist, htaken⟩ := h
  have hsorted := pairwise_candidates
  have hmem := mem_candidates hc
  rw [hlist, List.pairwise_append, List.pairwise_cons] at hsorted
  rw [hlist, List.mem_append, List.mem_cons] at hmem
  -- The search has passed over what stands before the mark, and what stands behind it is greater.
  rcases hmem with hbefore | rfl | hafter
  · exact absurd (by simpa using htaken c hbefore) hfree
  · exact le_refl c
  · exact (hsorted.2.1.1 c hafter).le

theorem pick?_eq_some_iff_isLeast : pick? text = some m ↔
    IsLeast {c | IsCandidate c ∧ c ∉ text} m := by
  refine ⟨isLeast_of_pick?, fun h => ?_⟩
  obtain ⟨mark, hmark⟩ := exists_pick?_eq_some h.1.1 h.1.2
  rw [hmark, (isLeast_of_pick? hmark).unique h]

theorem pick?_eq_none_iff : pick? text = none ↔ ∀ c, IsCandidate c → c ∈ text := by
  refine ⟨fun h c hc => pick?_eq_none h c (mem_candidates hc), fun h => ?_⟩
  rw [Option.eq_none_iff_forall_ne_some]
  intro m hm
  obtain ⟨hcandidate, hfree⟩ := pick?_eq_some hm
  exact hfree (h m hcandidate)

/-- A text that holds all candidates has at least as many characters. -/
theorem le_length_of_pick?_eq_none (h : pick? text = none) : 137471 ≤ text.length := by
  rw [← length_candidates]
  exact (List.subperm_of_subset nodup_candidates (pick?_eq_none h)).length_le

/-- The mark that is picked is the least candidate that the text does not hold, neither blank nor
part of a word. None is picked exactly if the text holds all 137471 candidates, so one is picked
for every text that is shorter than that. Style sheets and statements cannot be split exactly if
none is picked. -/
theorem pick_least_free (text : List Char) :
    {c | IsCandidate c}.ncard = 137471 ∧
    (∀ m, pick? text = some m ↔ IsLeast {c | IsCandidate c ∧ c ∉ text} m) ∧
    (∀ m, pick? text = some m → isBlank m = false ∧ isWord m = false) ∧
    (pick? text = none ↔ ∀ c, IsCandidate c → c ∈ text) ∧
    (text.length < 137471 → ∃ m, pick? text = some m) ∧
    (Css.split text = .error .noMarkLeft ↔ ∀ c, IsCandidate c → c ∈ text) ∧
    ∀ tab, Sql.splitClauses tab text = .error .noMarkLeft ↔
    ∀ c, IsCandidate c → c ∈ text ++ tab := by
  refine ⟨ncard_isCandidate, fun m => pick?_eq_some_iff_isLeast, fun m hm => ?_, pick?_eq_none_iff,
    fun hlength => ?_, ?_, fun tab => ?_⟩
  · obtain ⟨hcandidate, -⟩ := pick?_eq_some hm
    exact ⟨hcandidate.isBlank_eq_false, hcandidate.isWord_eq_false⟩
  · rw [← Option.ne_none_iff_exists']
    intro hnone
    exact absurd (le_length_of_pick?_eq_none hnone) (Nat.not_le.2 hlength)
  · rw [← pick?_eq_none_iff, Css.split]
    cases pick? text <;> simp
  · rw [← pick?_eq_none_iff, Sql.splitClauses]
    cases pick? (text ++ tab) <;> simp

/-- A text that holds the null character and the first private-use character gets the second
one. -/
theorem pick_least_free_second :
    let text := [preferred, 'a', Char.ofNat 0xE000]
    text.length < 137471 ∧ (∃ m, pick? text = some m) ∧ pick? text = some (Char.ofNat 0xE001) ∧
      isBlank (Char.ofNat 0xE001) = false ∧ isWord (Char.ofNat 0xE001) = false := by
  intro text
  obtain ⟨-, hleast, hclass, -, hshort, -⟩ := pick_least_free text
  have hlength : text.length < 137471 := by decide
  have hpick : pick? text = some (Char.ofNat 0xE001) := by
    refine (hleast _).2 ⟨⟨Or.inr (Or.inl (by decide)), by decide⟩, ?_⟩
    rintro c ⟨hc, hfree⟩
    have htaken : ∀ d ∈ text, c.toNat ≠ d.toNat := by
      intro d hd hcode
      exact hfree (Char.toNat_inj.1 hcode ▸ hd)
    have hnull : c.toNat ≠ 0 := htaken preferred (by decide)
    have hfirst : c.toNat ≠ 0xE000 := htaken (Char.ofNat 0xE000) (by decide)
    show 0xE001 ≤ c.toNat
    unfold IsCandidate at hc
    omega
  exact ⟨hlength, hshort hlength, hpick, hclass _ hpick⟩

end Reindent.Marker
