import Mathlib
import Reindent.Proofs.Text.Words

/-!
# Tokens

A text as a row of words and of the signs between them. Letters that differ in case are the same in
a word, and a word is as long as it can be, so no two words stand next to each other. Texts with
the same tokens agree letter by letter (`sameLetters_of_tokens_eq`), and where the tokens of a text
can be parted, so can the text (`exists_append_of_tokens`).
-/

namespace Reindent.Text

/-- A word, or a character that is part of no word. -/
inductive Token where
  | word (letters : List Char)
  | sign (c : Char)
deriving DecidableEq, Repr

/-- Whether a token is a word. -/
def Token.isWord : Token → Bool
  | .word _ => true
  | .sign _ => false

/-- Puts a character in front of tokens. -/
def consToken (c : Char) (ts : List Token) : List Token :=
  if isWord c then
    match ts with
    | .word w :: ts => .word (letterOf c :: w) :: ts
    | ts => .word [letterOf c] :: ts
  else .sign c :: ts

/-- The words of a text and the signs between them, in order. -/
def tokens (s : List Char) : List Token :=
  s.foldr consToken []

/-- The word of a keyword. -/
def Token.keyword (key : List Char) : Token :=
  .word (key.map letterOf)

/-- Two texts agree letter by letter, in whatever case. -/
abbrev SameLetters (s t : List Char) : Prop :=
  List.Forall₂ (fun a b => sameLetter a b = true) s t

section

variable {c : Char} {s t u : List Char} {ts : List Token}

/-! ## Characters in front -/

theorem consToken_sign (hc : isWord c = false) (ts : List Token) :
    consToken c ts = .sign c :: ts := by
  simp [consToken, hc]

theorem consToken_word_word (hc : isWord c = true) (w : List Char) (ts : List Token) :
    consToken c (.word w :: ts) = .word (letterOf c :: w) :: ts := by
  simp [consToken, hc]

theorem consToken_word_sign (hc : isWord c = true) (d : Char) (ts : List Token) :
    consToken c (.sign d :: ts) = .word [letterOf c] :: .sign d :: ts := by
  simp [consToken, hc]

theorem consToken_word_nil (hc : isWord c = true) : consToken c [] = [.word [letterOf c]] := by
  simp [consToken, hc]

@[simp] theorem tokens_nil : tokens [] = [] := rfl

theorem tokens_cons (c : Char) (s : List Char) : tokens (c :: s) = consToken c (tokens s) := rfl

theorem tokens_sign (hc : isWord c = false) (s : List Char) :
    tokens (c :: s) = .sign c :: tokens s :=
  consToken_sign hc _

theorem tokens_signs (hs : ∀ c ∈ s, isWord c = false) (t : List Char) :
    tokens (s ++ t) = s.map .sign ++ tokens t := by
  induction s with
  | nil => rfl
  | cons c s ih =>
    obtain ⟨hc, hs⟩ := List.forall_mem_cons.1 hs
    rw [List.cons_append, tokens_sign hc, ih hs, List.map_cons, List.cons_append]

/-- The first character says what the first token is. -/
theorem tokens_cons_cases (c : Char) (s : List Char) :
    (isWord c = false ∧ tokens (c :: s) = .sign c :: tokens s) ∨
      (isWord c = true ∧ ∃ w ts, tokens (c :: s) = .word (letterOf c :: w) :: ts) := by
  cases hc : isWord c with
  | false => exact .inl ⟨rfl, tokens_sign hc s⟩
  | true =>
    refine .inr ⟨rfl, ?_⟩
    rw [tokens_cons]
    cases tokens s with
    | nil => exact ⟨[], [], consToken_word_nil hc⟩
    | cons x ts =>
      cases x with
      | word w => exact ⟨w, ts, consToken_word_word hc w ts⟩
      | sign d => exact ⟨[], _, consToken_word_sign hc d ts⟩

theorem tokens_eq_nil_iff : tokens s = [] ↔ s = [] := by
  cases s with
  | nil => simp
  | cons c s =>
    obtain ⟨-, h⟩ | ⟨-, w, ts, h⟩ := tokens_cons_cases c s <;> simp [h]

theorem consToken_of_not_startsWord (hc : isWord c = true) (hs : startsWord s = false) :
    consToken c (tokens s) = .word [letterOf c] :: tokens s := by
  cases s with
  | nil => exact consToken_word_nil hc
  | cons d s => rw [tokens_sign hs, consToken_word_sign hc]

/-! ## Parting a text -/

/-- Where no word goes on, the tokens of two texts stand one behind the other. -/
theorem tokens_append (h : endsWord false s = false ∨ startsWord t = false) :
    tokens (s ++ t) = tokens s ++ tokens t := by
  induction s with
  | nil => rfl
  | cons c s ih =>
    rw [List.cons_append, tokens_cons, tokens_cons]
    cases s with
    | nil =>
      rw [List.nil_append, tokens_nil]
      cases hc : isWord c with
      | false => rw [consToken_sign hc, consToken_sign hc, List.singleton_append]
      | true =>
        have ht : startsWord t = false := h.resolve_left (by simp [hc])
        rw [consToken_of_not_startsWord hc ht, consToken_word_nil hc, List.singleton_append]
    | cons d s =>
      rw [ih (by simpa using h)]
      cases hc : isWord c with
      | false => rw [consToken_sign hc, consToken_sign hc, List.cons_append]
      | true =>
        obtain ⟨-, h'⟩ | ⟨-, w, ts, h'⟩ := tokens_cons_cases d s
        · rw [h', List.cons_append, consToken_word_sign hc, consToken_word_sign hc,
            List.cons_append, List.cons_append]
        · rw [h', List.cons_append, consToken_word_word hc, consToken_word_word hc,
            List.cons_append]

/-- A run of word characters is one word. -/
theorem tokens_word (hne : u ≠ []) (hu : ∀ c ∈ u, isWord c = true) (hs : startsWord s = false) :
    tokens (u ++ s) = .word (u.map letterOf) :: tokens s := by
  induction u with
  | nil => exact absurd rfl hne
  | cons c u ih =>
    obtain ⟨hc, hu⟩ := List.forall_mem_cons.1 hu
    rw [List.cons_append, tokens_cons]
    cases u with
    | nil => exact consToken_of_not_startsWord hc hs
    | cons d u =>
      rw [ih (by simp) hu, consToken_word_word hc]
      rfl

/-- Where its tokens can be parted, so can the text. -/
theorem exists_append_of_tokens {xs ys : List Token} (h : tokens s = xs ++ ys) :
    ∃ a b, s = a ++ b ∧ tokens a = xs ∧ tokens b = ys := by
  induction s generalizing xs with
  | nil =>
    obtain ⟨rfl, rfl⟩ := List.append_eq_nil_iff.1 h.symm
    exact ⟨[], [], rfl, rfl, rfl⟩
  | cons c s ih =>
    cases xs with
    | nil => exact ⟨[], c :: s, rfl, rfl, h⟩
    | cons x xs =>
      rw [tokens_cons] at h
      cases hc : isWord c with
      | false =>
        rw [consToken_sign hc, List.cons_append, List.cons_eq_cons] at h
        obtain ⟨rfl, h⟩ := h
        obtain ⟨a, b, rfl, rfl, rfl⟩ := ih h
        exact ⟨c :: a, b, rfl, tokens_sign hc a, rfl⟩
      | true =>
        cases hs : tokens s with
        | nil =>
          rw [hs, consToken_word_nil hc, List.cons_append, List.cons_eq_cons] at h
          obtain ⟨rfl, h⟩ := h
          obtain ⟨a, b, rfl, rfl, rfl⟩ := ih (hs.trans h)
          refine ⟨c :: a, b, rfl, ?_, rfl⟩
          rw [tokens_cons, (List.append_eq_nil_iff.1 h.symm).1, consToken_word_nil hc]
        | cons y ts =>
          cases y with
          | word w =>
            rw [hs, consToken_word_word hc, List.cons_append, List.cons_eq_cons] at h
            obtain ⟨rfl, h⟩ := h
            have hword : tokens s = (.word w :: xs) ++ ys := by rw [hs, h, List.cons_append]
            obtain ⟨a, b, rfl, ha, rfl⟩ := ih hword
            exact ⟨c :: a, b, rfl, by rw [tokens_cons, ha, consToken_word_word hc], rfl⟩
          | sign d =>
            rw [hs, consToken_word_sign hc, List.cons_append, List.cons_eq_cons] at h
            obtain ⟨rfl, h⟩ := h
            obtain ⟨a, b, rfl, ha, rfl⟩ := ih (hs.trans h)
            refine ⟨c :: a, b, rfl, ?_, rfl⟩
            rw [tokens_cons, ha]
            cases xs with
            | nil => exact consToken_word_nil hc
            | cons x xs =>
              obtain ⟨rfl, -⟩ := List.cons_eq_cons.1 h
              exact consToken_word_sign hc d xs

/-! ## Letters and neighbours -/

/-- The letters of a token. -/
def Token.letters : Token → List Char
  | .word w => w
  | .sign c => [letterOf c]

theorem flatMap_letters_tokens (s : List Char) :
    (tokens s).flatMap Token.letters = s.map letterOf := by
  induction s with
  | nil => rfl
  | cons c s ih =>
    rw [List.map_cons, ← ih, tokens_cons]
    cases hc : isWord c with
    | false => rw [consToken_sign hc, List.flatMap_cons, Token.letters, List.singleton_append]
    | true =>
      cases tokens s with
      | nil => rw [consToken_word_nil hc, List.flatMap_cons, Token.letters, List.singleton_append]
      | cons x ts =>
        cases x with
        | word w =>
          rw [consToken_word_word hc, List.flatMap_cons, List.flatMap_cons, Token.letters,
            Token.letters, List.cons_append]
        | sign d =>
          rw [consToken_word_sign hc, List.flatMap_cons, Token.letters, List.singleton_append]

theorem sameLetters_iff : SameLetters s t ↔ s.map letterOf = t.map letterOf := by
  unfold SameLetters
  induction s generalizing t with
  | nil => cases t <;> simp
  | cons c s ih =>
    cases t with
    | nil => simp
    | cons d t =>
      rw [List.forall₂_cons, ih, sameLetter_iff, List.map_cons, List.map_cons, List.cons_eq_cons]

theorem SameLetters.exists_append {a b : List Char} (h : SameLetters (a ++ b) s) :
    ∃ u v, s = u ++ v ∧ SameLetters a u ∧ SameLetters b v := by
  rw [sameLetters_iff, List.map_append] at h
  obtain ⟨u, v, rfl, hu, hv⟩ := List.map_eq_append_iff.1 h.symm
  exact ⟨u, v, rfl, sameLetters_iff.2 hu.symm, sameLetters_iff.2 hv.symm⟩

/-- Texts with the same tokens agree letter by letter. -/
theorem sameLetters_of_tokens_eq (h : tokens s = tokens t) : SameLetters s t := by
  rw [sameLetters_iff, ← flatMap_letters_tokens, h, flatMap_letters_tokens]

/-- A sign of a text is one of its characters. -/
theorem sign_mem_tokens (h : .sign c ∈ tokens s) : c ∈ s ∧ isWord c = false := by
  obtain ⟨xs, ys, hs⟩ := List.append_of_mem h
  obtain ⟨a, b, rfl, -, hb⟩ := exists_append_of_tokens hs
  cases b with
  | nil => cases hb
  | cons d b =>
    obtain ⟨hd, h'⟩ | ⟨-, w, ts, h'⟩ := tokens_cons_cases d b
    · rw [hb, List.cons_eq_cons, Token.sign.injEq] at h'
      obtain ⟨rfl, -⟩ := h'
      exact ⟨by simp, hd⟩
    · rw [hb] at h'
      cases h'

theorem sign_mem_tokens_of_mem (hc : isWord c = false) (h : c ∈ s) : .sign c ∈ tokens s := by
  obtain ⟨a, b, rfl⟩ := List.append_of_mem h
  rw [tokens_append (.inr (show startsWord (c :: b) = false from hc)), tokens_sign hc]
  simp

/-- A text whose tokens are signs consists of them. -/
theorem eq_of_tokens_signs {cs : List Char} (h : tokens s = cs.map .sign) : s = cs := by
  induction cs generalizing s with
  | nil => exact tokens_eq_nil_iff.1 h
  | cons c cs ih =>
    cases s with
    | nil => cases h
    | cons d s =>
      obtain ⟨-, h'⟩ | ⟨-, w, ts, h'⟩ := tokens_cons_cases d s
      · rw [h', List.map_cons, List.cons_eq_cons, Token.sign.injEq] at h
        rw [h.1, ih h.2]
      · rw [h'] at h
        cases h

/-- No two words stand next to each other. -/
theorem tokens_ne_word_word {w v : List Char} {xs ys : List Token} :
    tokens s ≠ xs ++ .word w :: .word v :: ys := by
  intro h
  obtain ⟨a, b, rfl, -, hb⟩ := exists_append_of_tokens h
  clear h
  induction b generalizing w with
  | nil => cases hb
  | cons c b ih =>
    rw [tokens_cons] at hb
    cases hc : isWord c with
    | false =>
      rw [consToken_sign hc] at hb
      cases hb
    | true =>
      cases htail : tokens b with
      | nil =>
        rw [htail, consToken_word_nil hc] at hb
        cases hb
      | cons x ts =>
        cases x with
        | word w' =>
          rw [htail, consToken_word_word hc, List.cons_eq_cons] at hb
          exact ih (by rw [htail, hb.2])
        | sign d =>
          rw [htail, consToken_word_sign hc] at hb
          cases hb

end

end Reindent.Text
