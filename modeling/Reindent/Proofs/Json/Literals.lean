import Mathlib
import Reindent.Json.Reader
import Reindent.Json.Writer

/-!
# JSON strings

What stands between the quotes of a string is a row of characters that stand for themselves and of
escapes. `Spells` says which string a row spells. The reader takes exactly such rows up to the
closing quote, and the writer produces one for every string without lone halves.
-/

namespace Reindent.Json

open Text

/-- The characters between two quotes spell a string. -/
inductive Spells : List Char → List Symbol → Prop where
  | nil : Spells [] []
  | char {c : Char} {body : List Char} {s : List Symbol} (hquote : c ≠ '"') (hslash : c ≠ '\\')
      (hcontrol : 0x20 ≤ c.toNat) (h : Spells body s) : Spells (c :: body) (.char c :: s)
  | short {e x : Char} {body : List Char} {s : List Symbol} (he : shortEscape? e = some x)
      (h : Spells body s) :
      Spells ('\\' :: e :: body) (.char x :: s)
  | unit {h₁ h₂ h₃ h₄ : Char} {n : Nat} {body : List Char} {s : List Symbol}
      (hn : hexValue4? h₁ h₂ h₃ h₄ = some n) (h : Spells body s) :
      Spells ('\\' :: 'u' :: h₁ :: h₂ :: h₃ :: h₄ :: body) (consJoined (unitSymbol n) s)

theorem consJoined_char (c : Char) (s : List Symbol) : consJoined (.char c) s = .char c :: s := by
  rfl

theorem shortEscape?_u : shortEscape? 'u' = none := by
  decide

/-! ## Reading -/

variable {start : Nat} {s : List Char} {x : List Symbol} {rest : List Char}

theorem readString_quote (start : Nat) (s : List Char) :
    readString start ('"' :: s) = .ok ([], s) := by
  rw [readString.eq_def]
  simp

theorem readString_char {c : Char} (hquote : c ≠ '"') (hslash : c ≠ '\\')
    (hcontrol : 0x20 ≤ c.toNat) :
    readString start (c :: s) = consSymbol (.char c) (readString start s) := by
  rw [readString.eq_def]
  simp [hquote, hslash, Nat.not_lt.2 hcontrol]

theorem readString_short {e y : Char} (he : shortEscape? e = some y) :
    readString start ('\\' :: e :: s) = consSymbol (.char y) (readString start s) := by
  have hu : e ≠ 'u' := by
    rintro rfl
    rw [shortEscape?_u] at he
    cases he
  rw [readString.eq_def]
  simp [hu, he]

theorem readString_unit {h₁ h₂ h₃ h₄ : Char} {n : Nat} (hn : hexValue4? h₁ h₂ h₃ h₄ = some n)
    (hs : s ≠ []) :
    readString start ('\\' :: 'u' :: h₁ :: h₂ :: h₃ :: h₄ :: s) =
      consSymbol (unitSymbol n) (readString start s) := by
  rw [readString.eq_def]
  simp [hn, hs]

theorem consSymbol_ok (y : Symbol) (x : List Symbol) (rest : List Char) :
    consSymbol y (.ok (x, rest)) = .ok (consJoined y x, rest) := rfl

/-- The reader takes what spells a string, and the closing quote. -/
theorem readString_append {body : List Char} (h : Spells body x) (start : Nat) (rest : List Char) :
    readString start (body ++ '"' :: rest) = .ok (x, rest) := by
  induction h with
  | nil => exact readString_quote start rest
  | char hquote hslash hcontrol _ ih =>
    rw [List.cons_append, readString_char hquote hslash hcontrol, ih, consSymbol_ok,
      consJoined_char]
  | short he _ ih =>
    rw [List.cons_append, List.cons_append, readString_short he, ih, consSymbol_ok,
      consJoined_char]
  | unit hn _ ih =>
    simp only [List.cons_append]
    rw [readString_unit hn (by simp), ih, consSymbol_ok]

theorem consSymbol_eq_ok {y : Symbol} {r : Except Fault (List Symbol × List Char)}
    (h : consSymbol y r = .ok (x, rest)) : ∃ z, r = .ok (z, rest) ∧ x = consJoined y z := by
  cases r with
  | error e => cases h
  | ok p =>
    obtain ⟨z, t⟩ := p
    rw [consSymbol_ok, Except.ok.injEq, Prod.mk.injEq] at h
    exact ⟨z, by rw [h.2], h.1.symm⟩

/-- What the reader takes in front of a closing quote spells the string. -/
theorem exists_spells_of_readString (h : readString start s = .ok (x, rest)) :
    ∃ body, s = body ++ '"' :: rest ∧ Spells body x := by
  fun_induction readString start s generalizing x rest with
  | case1 => cases h
  | case2 s =>
    obtain ⟨rfl, rfl⟩ := Prod.mk.inj (Except.ok.inj h)
    exact ⟨[], rfl, .nil⟩
  | case3 => cases h
  | case4 => cases h
  | case5 => cases h
  | case6 h₁ h₂ h₃ h₄ t n hn _ _ ih =>
    obtain ⟨z, hz, rfl⟩ := consSymbol_eq_ok h
    obtain ⟨body, rfl, hbody⟩ := ih hz
    exact ⟨_, rfl, .unit hn hbody⟩
  | case7 => cases h
  | case8 e r _ y he _ ih =>
    obtain ⟨z, hz, rfl⟩ := consSymbol_eq_ok h
    obtain ⟨body, rfl, hbody⟩ := ih hz
    exact ⟨_, rfl, .short he hbody⟩
  | case9 => cases h
  | case10 => cases h
  | case11 c r hquote hslash hcontrol ih =>
    obtain ⟨z, hz, rfl⟩ := consSymbol_eq_ok h
    obtain ⟨body, rfl, hbody⟩ := ih hz
    exact ⟨_, rfl, .char hquote hslash (Nat.not_lt.1 hcontrol) hbody⟩

/-- No string is read exactly if none is spelled in front of a closing quote. -/
theorem exists_error_readString_iff :
    (∃ e, readString start s = .error e) ↔
      ∀ body x rest, Spells body x → s ≠ body ++ '"' :: rest := by
  constructor
  · rintro ⟨e, he⟩ body x rest hbody rfl
    rw [readString_append hbody] at he
    cases he
  · intro h
    cases hread : readString start s with
    | error e => exact ⟨e, rfl⟩
    | ok found =>
      obtain ⟨body, hs, hbody⟩ := exists_spells_of_readString hread
      exact absurd hs (h _ _ _ hbody)

/-! ## Writing -/

theorem hexValue4?_hexDigits : ∀ n < 0x20, ∃ h₁ h₂ h₃ h₄, hexDigits 4 n = [h₁, h₂, h₃, h₄] ∧
    hexValue4? h₁ h₂ h₃ h₄ = some n := by
  intro n hn
  refine ⟨hexDigit (n / 16 / 16 / 16 % 16), hexDigit (n / 16 / 16 % 16), hexDigit (n / 16 % 16),
    hexDigit (n % 16), rfl, ?_⟩
  revert n
  decide

theorem spells_writeChar (c : Char) {body : List Char} (h : Spells body x) :
    Spells (writeChar c ++ body) (.char c :: x) := by
  unfold writeChar
  split_ifs with h₁ h₂ h₃ h₄ h₅ h₆ h₇ hcontrol
  · subst h₁
    exact .short (by decide) h
  · subst h₂
    exact .short (by decide) h
  · subst h₃
    exact .short (by decide) h
  · subst h₄
    exact .short (by decide) h
  · subst h₅
    exact .short (by decide) h
  · subst h₆
    exact .short (by decide) h
  · subst h₇
    exact .short (by decide) h
  · obtain ⟨a, b, c', d, hdigits, hvalue⟩ := hexValue4?_hexDigits c.toNat hcontrol
    have hunit : unitSymbol c.toNat = .char c := by
      have hhalf : (isHighHalf c.toNat || isLowHalf c.toNat) = false := by
        simp only [isHighHalf, isLowHalf, Bool.or_eq_false_iff, Bool.and_eq_false_iff,
          decide_eq_false_iff_not]
        omega
      rw [unitSymbol, hhalf]
      simp
    have := Spells.unit hvalue h
    rw [hunit, consJoined_char] at this
    rw [hdigits]
    exact this
  · exact .char h₁ h₂ (by omega) h

/-- What is written for a text spells it. -/
theorem spells_flatMap_writeChar (s : List Char) : Spells (s.flatMap writeChar) (symbols s) := by
  induction s with
  | nil => exact .nil
  | cons c s ih =>
    rw [List.flatMap_cons]
    exact spells_writeChar c ih

theorem writeString_symbols (s : List Char) :
    writeString (symbols s) = symbols ('"' :: (s.flatMap writeChar ++ ['"'])) := by
  simp [writeString, symbols, List.flatMap_map, List.map_flatMap, writeSymbol]

end Reindent.Json
