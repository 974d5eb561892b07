import Mathlib
import Reindent.Proofs.Text.Letters

/-!
# Words

The words of a text are its maximal runs of word characters, and two lists of words are the same if
they agree letter by letter. `spell` writes the words of a text as one list of letters with a sign
in front of each word. It can be computed character by character, so it says what a piece of text
does to the words around it; `sameWords_iff` says that it tells exactly the texts with different
words apart.
-/

namespace Reindent.Text

/-- The maximal runs of word characters. -/
def words (s : List Char) : List (List Char) :=
  (s.splitOnP fun c => !isWord c).filter fun w => !w.isEmpty

/-- The words agree one by one, letter by letter. -/
def SameWords (ws vs : List (List Char)) : Prop :=
  List.Forall₂ (List.Forall₂ fun a b => sameLetter a b = true) ws vs

instance : DecidableRel SameWords :=
  fun ws vs => inferInstanceAs (Decidable (List.Forall₂ _ ws vs))

/-- The letters of a text with `none` in front of each word. A word that goes on from the text
before it (`inWord`) has no sign. -/
def spell : Bool → List Char → List (Option Char)
  | _, [] => []
  | inWord, c :: s =>
    if isWord c then (if inWord then [] else [none]) ++ some (letterOf c) :: spell true s
    else spell false s

/-- Whether a word goes on after a text, where `inWord` says whether one did before it. -/
def endsWord (inWord : Bool) (s : List Char) : Bool :=
  s.foldl (fun _ c => isWord c) inWord

/-! ## Spelling piece by piece -/

@[simp] theorem endsWord_nil (b : Bool) : endsWord b [] = b := rfl

@[simp] theorem endsWord_cons (b : Bool) (c : Char) (s : List Char) :
    endsWord b (c :: s) = endsWord (isWord c) s := rfl

@[simp] theorem endsWord_append (b : Bool) (s t : List Char) :
    endsWord b (s ++ t) = endsWord (endsWord b s) t := by
  simp [endsWord]

theorem endsWord_eq_getLast? (s : List Char) : endsWord false s = s.getLast?.any isWord := by
  rcases List.eq_nil_or_concat s with rfl | ⟨s, c, rfl⟩ <;> simp

@[simp] theorem spell_nil (b : Bool) : spell b [] = [] := rfl

theorem spell_cons (b : Bool) (c : Char) (s : List Char) :
    spell b (c :: s) = spell b [c] ++ spell (isWord c) s := by
  by_cases hc : isWord c = true <;> simp [spell, hc]

theorem spell_append (b : Bool) (s t : List Char) :
    spell b (s ++ t) = spell b s ++ spell (endsWord b s) t := by
  induction s generalizing b with
  | nil => rfl
  | cons c s ih =>
    rw [List.cons_append, spell_cons, spell_cons b c s, ih, endsWord_cons, List.append_assoc]

theorem spell_cons_of_not_isWord {c : Char} (hc : isWord c = false) (b : Bool) (s : List Char) :
    spell b (c :: s) = spell false s := by
  simp [spell, hc]

theorem spell_cons_of_isWord {c : Char} (hc : isWord c = true) (b : Bool) (s : List Char) :
    spell b (c :: s) = (if b then [] else [none]) ++ some (letterOf c) :: spell true s := by
  simp [spell, hc]

/-- A gap that is not empty ends the word before it and spells nothing. -/
theorem spell_gap_append {g : List Char}
    (hne : g ≠ []) (hg : ∀ c ∈ g, isWord c = false) (b : Bool) (s : List Char) :
    spell b (g ++ s) = spell false s := by
  induction g generalizing b with
  | nil => exact absurd rfl hne
  | cons c g ih =>
    rw [List.cons_append, spell_cons_of_not_isWord (hg c (by simp))]
    cases g with
    | nil => rfl
    | cons d g => exact ih (by simp) (fun e he => hg e (List.mem_cons_of_mem _ he)) false

theorem spell_false_gap_append {g : List Char} (hg : ∀ c ∈ g, isWord c = false) (s : List Char) :
    spell false (g ++ s) = spell false s := by
  cases g with
  | nil => rfl
  | cons c g => exact spell_gap_append (by simp) hg false s

/-- Where no word goes on, it does not matter whether one stands before. -/
theorem spell_eq_of_not_startsWord {s : List Char} (h : startsWord s = false) (b : Bool) :
    spell b s = spell false s := by
  cases s with
  | nil => rfl
  | cons c s => rw [spell_cons_of_not_isWord h, spell_cons_of_not_isWord h]

/-! ## Spelling and words -/

/-- A word with its sign. -/
def spellWord (w : List Char) : List (Option Char) :=
  none :: w.map fun c => some (letterOf c)

/-- The pieces between the gaps of a text are its words, apart from empty ones; the first of them
goes on from the text before it. -/
theorem spell_eq_pieces (s : List Char) (w : List Char) (ws : List (List Char))
    (h : s.splitOnP (fun c => !isWord c) = w :: ws) :
    spell true s = (w.map fun c => some (letterOf c)) ++
      (ws.filter fun w => !w.isEmpty).flatMap spellWord ∧
      spell false s = ((w :: ws).filter fun w => !w.isEmpty).flatMap spellWord := by
  induction s generalizing w ws with
  | nil =>
    rw [List.splitOnP_nil, List.cons.injEq] at h
    obtain ⟨rfl, rfl⟩ := h
    simp
  | cons c s ih =>
    rw [List.splitOnP_cons_eq_if_modifyHead] at h
    obtain ⟨v, vs, hv⟩ := List.exists_cons_of_ne_nil (List.splitOnP_ne_nil (fun c => !isWord c) s)
    obtain ⟨htrue, hfalse⟩ := ih v vs hv
    rw [hv] at h
    by_cases hc : isWord c = true
    · simp only [hc, Bool.not_true, Bool.false_eq_true, if_false, List.modifyHead_cons,
        List.cons.injEq] at h
      obtain ⟨rfl, rfl⟩ := h
      rw [spell_cons_of_isWord hc, spell_cons_of_isWord hc, htrue]
      simp [spellWord]
    · simp only [hc, Bool.not_false, if_true, List.cons.injEq] at h
      obtain ⟨rfl, rfl⟩ := h
      have hc' : isWord c = false := by simpa using hc
      rw [spell_cons_of_not_isWord hc', spell_cons_of_not_isWord hc', hfalse]
      simp

theorem spell_eq_flatMap_words (s : List Char) : spell false s = (words s).flatMap spellWord := by
  obtain ⟨w, ws, hw⟩ := List.exists_cons_of_ne_nil (List.splitOnP_ne_nil (fun c => !isWord c) s)
  rw [(spell_eq_pieces s w ws hw).2, words, hw]

/-- The signs of the words after the first one show where the first one ends. -/
theorem forall₂_of_spelled {w v : List Char} {ws vs : List (List Char)}
    (h : (w.map fun c => some (letterOf c)) ++ ws.flatMap spellWord =
      (v.map fun c => some (letterOf c)) ++ vs.flatMap spellWord) :
    List.Forall₂ (fun a b => sameLetter a b = true) w v ∧
    ws.flatMap spellWord = vs.flatMap spellWord := by
  induction w generalizing v with
  | nil =>
    cases v with
    | nil => exact ⟨.nil, by simpa using h⟩
    | cons b v =>
      cases ws with
      | nil => simp at h
      | cons u us => simp [spellWord] at h
  | cons a w ih =>
    cases v with
    | nil =>
      cases vs with
      | nil => simp at h
      | cons u us => simp [spellWord] at h
    | cons b v =>
      simp only [List.map_cons, List.cons_append, List.cons.injEq, Option.some.injEq] at h
      obtain ⟨hword, hrest⟩ := ih h.2
      exact ⟨.cons (sameLetter_iff.2 h.1) hword, hrest⟩

theorem sameWords_of_spelled {ws vs : List (List Char)}
    (h : ws.flatMap spellWord = vs.flatMap spellWord) :
    SameWords ws vs := by
  induction ws generalizing vs with
  | nil =>
    cases vs with
    | nil => exact .nil
    | cons v vs => simp [spellWord] at h
  | cons w ws ih =>
    cases vs with
    | nil => simp [spellWord] at h
    | cons v vs =>
      simp only [List.flatMap_cons, spellWord, List.cons_append, List.cons.injEq, true_and] at h
      obtain ⟨hword, hrest⟩ := forall₂_of_spelled h
      exact .cons hword (ih hrest)

theorem spellWord_congr {w v : List Char}
    (h : List.Forall₂ (fun a b => sameLetter a b = true) w v) :
    spellWord w = spellWord v := by
  have hletters : (w.map fun c => some (letterOf c)) = v.map fun c => some (letterOf c) := by
    induction h with
    | nil => rfl
    | cons hab _ ih => rw [List.map_cons, List.map_cons, ih, sameLetter_iff.1 hab]
  rw [spellWord, spellWord, hletters]

theorem spelled_of_sameWords {ws vs : List (List Char)} (h : SameWords ws vs) :
    ws.flatMap spellWord = vs.flatMap spellWord := by
  induction h with
  | nil => rfl
  | cons hword _ ih => rw [List.flatMap_cons, List.flatMap_cons, ih, spellWord_congr hword]

/-- Two texts have the same words exactly when they are spelled alike. -/
theorem sameWords_iff {s t : List Char} : SameWords (words s) (words t) ↔
    spell false s = spell false t := by
  rw [spell_eq_flatMap_words, spell_eq_flatMap_words]
  exact ⟨spelled_of_sameWords, sameWords_of_spelled⟩

end Reindent.Text
