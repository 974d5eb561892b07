import Mathlib
import Reindent.Json.Reader

/-!
# JSON numbers and names

A numeral has a sign, digits in front of the point, and possibly digits behind it and an exponent;
only an integer has neither of these two. The reader takes a numeral up to a character that cannot
continue it, and refuses integers with too many digits. Numbers and names together are the scalars
of a document; their texts hold neither blanks nor quotes nor any of the marks that structure a
document.
-/

namespace Reindent.Json

open Text Decimal

/-! ## Numerals -/

/-- A row of digits. -/
def IsDigits (ds : List Char) : Prop :=
  ∀ d ∈ ds, isDigit d = true

theorem isDigits_nil : IsDigits [] :=
  List.forall_mem_nil _

/-- Digits that may stand in front of the point: a zero alone, or digits that do not start with
zero. -/
def IsWhole (ds : List Char) : Prop :=
  ds = ['0'] ∨ ∃ c r, ds = c :: r ∧ c ≠ '0' ∧ IsDigits ds

/-- The exponent of a numeral. -/
structure Exponent where
  letter : Char
  /-- Whether the sign, if there is one, is a minus. -/
  sign : Option Bool
  digits : List Char
  letter_eq : letter = 'e' ∨ letter = 'E'
  isDigits : IsDigits digits
  ne_nil : digits ≠ []

namespace Exponent

/-- The sign of an exponent. -/
def signText : Option Bool → List Char
  | none => []
  | some true => ['-']
  | some false => ['+']

/-- The text of an exponent. -/
def text (e : Exponent) : List Char :=
  e.letter :: (signText e.sign ++ e.digits)

/-- The value of an exponent. -/
def value (e : Exponent) : Int :=
  if e.sign = some true then -(digitsValue e.digits : Int) else digitsValue e.digits

end Exponent

/-- A number in decimal notation. -/
structure Numeral where
  negative : Bool
  whole : List Char
  /-- The digits behind the point; the point is missing if there are none. -/
  fraction : List Char
  exponent : Option Exponent
  isWhole : IsWhole whole
  isDigits : IsDigits fraction

/-- The point and the digits behind it. -/
def fractionText : List Char → List Char
  | [] => []
  | d :: ds => '.' :: d :: ds

/-- The text of an exponent, if there is one. -/
def exponentText : Option Exponent → List Char
  | none => []
  | some e => e.text

namespace Numeral

/-- The text of a numeral without its sign. -/
def unsigned (n : Numeral) : List Char :=
  n.whole ++ (fractionText n.fraction ++ exponentText n.exponent)

/-- The text of a numeral. -/
def text (n : Numeral) : List Char :=
  (if n.negative then ['-'] else []) ++ n.unsigned

/-- Whether the numeral is an integer. -/
def isInteger (n : Numeral) : Bool :=
  n.fraction.isEmpty && n.exponent.isNone

/-- Whether the numeral is an integer that is too long to be read. -/
def isOverlong (n : Numeral) : Bool :=
  n.isInteger && decide (maxDigits < n.whole.length)

/-- The number that a numeral stands for. -/
def value (n : Numeral) : Json :=
  if n.isInteger then
    .int (if n.negative then -(digitsValue n.whole : Int) else digitsValue n.whole)
  else
    .real (Binary64.ofDecimal n.negative (digitsValue (n.whole ++ n.fraction))
      ((n.exponent.map Exponent.value).getD 0 - (n.fraction.length : Int)))

end Numeral

/-! ## Reading numerals -/

/-- No digit stands at the start. -/
def NoDigit (s : List Char) : Prop :=
  ∀ c ∈ s.head?, isDigit c = false

theorem noDigit_nil : NoDigit [] := by
  simp [NoDigit]

theorem takeWhile_isDigit {ds s : List Char} (hds : IsDigits ds) (hs : NoDigit s) :
    (ds ++ s).takeWhile isDigit = ds ∧ (ds ++ s).dropWhile isDigit = s := by
  rw [List.takeWhile_append_of_pos hds, List.dropWhile_append_of_pos hds]
  cases s with
  | nil => simp
  | cons c s => simp [hs c rfl]

theorem isDigits_takeWhile (s : List Char) : IsDigits (s.takeWhile isDigit) :=
  fun _ hd => List.mem_takeWhile_imp hd

theorem noDigit_dropWhile (s : List Char) : NoDigit (s.dropWhile isDigit) := by
  intro c hc
  have := List.head?_dropWhile_not isDigit s
  rw [Option.mem_def.1 hc] at this
  exact this

theorem ne_of_isDigit {c : Char} (h : isDigit c = true) :
    c ≠ '-' ∧ c ≠ '+' ∧ c ≠ '.' ∧ c ≠ 'e' ∧ c ≠ 'E' := by
  refine ⟨?_, ?_, ?_, ?_, ?_⟩ <;>
  · rintro rfl
    exact absurd h (by decide)

theorem readWhole?_append {w s : List Char} (hw : IsWhole w) (hs : NoDigit s) :
    readWhole? (w ++ s) = some (w, s) := by
  rcases hw with rfl | ⟨c, r, rfl, hc, hds⟩
  · rfl
  · have hr : IsDigits r := fun d hd => hds d (List.mem_cons_of_mem c hd)
    rw [List.cons_append, readWhole?, if_neg hc, if_pos (hds c List.mem_cons_self),
      (takeWhile_isDigit hr hs).1, (takeWhile_isDigit hr hs).2]

theorem isWhole_of_readWhole? {s w rest : List Char} (h : readWhole? s = some (w, rest)) :
    s = w ++ rest ∧ IsWhole w ∧ (w = ['0'] ∨ NoDigit rest) := by
  cases s with
  | nil => cases h
  | cons c s =>
    rw [readWhole?] at h
    split_ifs at h with hzero hdigit
    · obtain ⟨rfl, rfl⟩ := Prod.mk.inj (Option.some.inj h)
      exact ⟨by rw [hzero, List.singleton_append], Or.inl rfl, Or.inl rfl⟩
    · obtain ⟨rfl, rfl⟩ := Prod.mk.inj (Option.some.inj h)
      refine ⟨by simp, Or.inr ⟨c, _, rfl, hzero, ?_⟩, Or.inr (noDigit_dropWhile s)⟩
      exact List.forall_mem_cons.2 ⟨hdigit, isDigits_takeWhile s⟩

theorem readFraction_of_head {s : List Char} (h : s.head? ≠ some '.') :
    readFraction s = ([], s) := by
  unfold readFraction
  split
  · simp at h
  · rfl

theorem readFraction_append {f s : List Char} (hf : IsDigits f) (hs : NoDigit s)
    (hpoint : s.head? ≠ some '.') :
    readFraction (fractionText f ++ s) = (f, s) := by
  cases f with
  | nil => exact readFraction_of_head hpoint
  | cons d ds =>
    obtain ⟨htake, hdrop⟩ := takeWhile_isDigit hf hs
    rw [fractionText, List.cons_append, readFraction, htake, hdrop]

theorem isDigits_of_readFraction {s f rest : List Char} (h : readFraction s = (f, rest)) :
    s = fractionText f ++ rest ∧ IsDigits f := by
  unfold readFraction at h
  split at h
  · rename_i s
    split at h
    · obtain ⟨rfl, rfl⟩ := Prod.mk.inj h
      exact ⟨rfl, fun _ hd => by cases hd⟩
    · rename_i hne
      obtain ⟨rfl, rfl⟩ := Prod.mk.inj h
      have htext : fractionText (s.takeWhile isDigit) = '.' :: s.takeWhile isDigit := by
        cases htake : s.takeWhile isDigit with
        | nil => exact absurd htake hne
        | cons d ds => rfl
      exact ⟨by rw [htext, List.cons_append, List.takeWhile_append_dropWhile],
        isDigits_takeWhile s⟩
  · obtain ⟨rfl, rfl⟩ := Prod.mk.inj h
    exact ⟨rfl, fun _ hd => by cases hd⟩

theorem readExponent_of_head {s : List Char} (h : s.head? ≠ some 'e') (h' : s.head? ≠ some 'E') :
    readExponent s = (none, s) := by
  cases s with
  | nil => rfl
  | cons c s =>
    have hc : ¬ (c = 'e' || c = 'E') = true := by simpa using And.intro h h'
    rw [readExponent, if_neg hc]

theorem readSign_append (sign : Option Bool) {ds s : List Char} (hds : IsDigits ds)
    (hne : ds ≠ []) :
    readSign (Exponent.signText sign ++ (ds ++ s)) = (decide (sign = some true), ds ++ s) := by
  obtain ⟨d, ds, rfl⟩ := List.exists_cons_of_ne_nil hne
  obtain ⟨hminus, hplus, -⟩ := ne_of_isDigit (hds d List.mem_cons_self)
  rcases sign with _ | _ | _
  · rw [Exponent.signText, List.nil_append, List.cons_append, readSign]
    · rfl
    · exact fun _ h => hminus (List.cons.inj h).1
    · exact fun _ h => hplus (List.cons.inj h).1
  · rfl
  · rfl

theorem readExponent_append (e : Exponent) {s : List Char} (hs : NoDigit s) :
    readExponent (e.text ++ s) = (some e.value, s) := by
  obtain ⟨htake, hdrop⟩ := takeWhile_isDigit e.isDigits hs
  have hmark : (e.letter = 'e' || e.letter = 'E') = true := by simpa using e.letter_eq
  rw [Exponent.text, List.cons_append, List.append_assoc, readExponent, if_pos hmark,
    readSign_append e.sign e.isDigits e.ne_nil]
  simp only [htake, hdrop]
  split
  · rename_i hnil
    exact absurd hnil e.ne_nil
  · simp [Exponent.value]

theorem exists_sign_eq (s : List Char) :
    ∃ sign, s = Exponent.signText sign ++ (readSign s).2 ∧
    (readSign s).1 = decide (sign = some true) := by
  unfold readSign
  split
  · exact ⟨some true, rfl, rfl⟩
  · exact ⟨some false, rfl, rfl⟩
  · exact ⟨none, rfl, rfl⟩

theorem exists_exponent_of_readExponent {s rest : List Char} {value : Option Int}
    (h : readExponent s = (value, rest)) :
    ∃ e : Option Exponent, s = exponentText e ++ rest ∧ value = e.map Exponent.value := by
  cases s with
  | nil =>
    obtain ⟨rfl, rfl⟩ := Prod.mk.inj h
    exact ⟨none, rfl, rfl⟩
  | cons c s =>
    rw [readExponent] at h
    split_ifs at h with hmark
    · obtain ⟨sign, hs, hnegative⟩ := exists_sign_eq s
      simp only at h
      split at h
      · obtain ⟨rfl, rfl⟩ := Prod.mk.inj h
        exact ⟨none, rfl, rfl⟩
      · rename_i hne
        obtain ⟨rfl, rfl⟩ := Prod.mk.inj h
        refine ⟨some ⟨c, sign, (readSign s).2.takeWhile isDigit, by simpa using hmark,
          isDigits_takeWhile _, hne⟩, ?_, ?_⟩
        · rw [exponentText, Exponent.text, List.cons_append, List.append_assoc,
            List.takeWhile_append_dropWhile, ← hs]
        · simp [Exponent.value, hnegative]
    · obtain ⟨rfl, rfl⟩ := Prod.mk.inj h
      exact ⟨none, rfl, rfl⟩

/-- No digit, fraction or exponent stands at the start, so that an integer in front of the text
ends there. -/
def EndsInteger (s : List Char) : Prop :=
  NoDigit s ∧ readFraction s = ([], s) ∧ readExponent s = (none, s)

/-- A character that cannot continue any numeral stands at the start, or nothing. -/
def EndsNumeral (s : List Char) : Prop :=
  NoDigit s ∧ s.head? ≠ some '.' ∧ s.head? ≠ some 'e' ∧ s.head? ≠ some 'E'

namespace Numeral

/-- What is read for a numeral in front of a text. -/
def result (n : Numeral) (rest : List Char) : Except Stop (Json × List Char) :=
  if n.isOverlong then .error (.overlong n.whole.length) else .ok (n.value, rest)

theorem readUnsigned_eq {s a b : List Char} (n : Numeral) {rest : List Char}
    (hwhole : readWhole? s = some (n.whole, a)) (hfraction : readFraction a = (n.fraction, b))
    (hexponent : readExponent b = (n.exponent.map Exponent.value, rest)) :
    readUnsigned n.negative s = some (n.result rest) := by
  unfold readUnsigned result isOverlong value
  rw [hwhole]
  simp only [Option.bind_eq_bind, Option.bind_some, hfraction, hexponent, Option.isNone_map]
  rw [← isInteger]
  cases n.isInteger with
  | false => simp
  | true =>
    by_cases hlong : maxDigits < n.whole.length
    · simp [hlong]
    · simp [hlong]

/-- An exponent starts with no digit and no point. -/
theorem head_exponentText (e : Option Exponent) {rest : List Char} (hrest : EndsNumeral rest) :
    NoDigit (exponentText e ++ rest) ∧ (exponentText e ++ rest).head? ≠ some '.' := by
  cases e with
  | none => exact ⟨hrest.1, hrest.2.1⟩
  | some e =>
    have hhead : (exponentText (some e) ++ rest).head? = some e.letter := rfl
    simp only [NoDigit, hhead, Option.mem_some_iff, forall_eq', ne_eq, Option.some.injEq]
    rcases e.letter_eq with h | h <;> rw [h] <;> decide

theorem readExponent_exponentText (e : Option Exponent) {rest : List Char}
    (hrest : EndsNumeral rest) :
    readExponent (exponentText e ++ rest) = (e.map Exponent.value, rest) := by
  cases e with
  | none => exact readExponent_of_head hrest.2.2.1 hrest.2.2.2
  | some e => exact readExponent_append e hrest.1

/-- A numeral is read up to a character that cannot continue it. -/
theorem readUnsigned_append (n : Numeral) {rest : List Char} (hrest : EndsNumeral rest) :
    readUnsigned n.negative (n.unsigned ++ rest) = some (n.result rest) := by
  obtain ⟨hdigit, hpoint⟩ := head_exponentText n.exponent hrest
  have hfraction := readFraction_append n.isDigits hdigit hpoint
  have hafter : NoDigit (fractionText n.fraction ++ (exponentText n.exponent ++ rest)) := by
    cases n.fraction with
    | nil => exact hdigit
    | cons d ds =>
      intro c hc
      obtain rfl : '.' = c := by simpa [fractionText] using hc
      decide
  refine readUnsigned_eq n ?_ hfraction (readExponent_exponentText n.exponent hrest)
  rw [unsigned, List.append_assoc, List.append_assoc]
  exact readWhole?_append n.isWhole hafter

/-- An integer is read up to where it ends. -/
theorem readUnsigned_integer (n : Numeral) (hn : n.isInteger = true) {rest : List Char}
    (hrest : EndsInteger rest) :
    readUnsigned n.negative (n.unsigned ++ rest) = some (n.result rest) := by
  obtain ⟨hfraction, hexponent⟩ : n.fraction = [] ∧ n.exponent = none := by
    simpa [isInteger] using hn
  refine readUnsigned_eq n (a := rest) (b := rest) ?_ ?_ ?_
  · rw [unsigned, hfraction, hexponent, fractionText, exponentText, List.append_nil,
      List.append_nil]
    exact readWhole?_append n.isWhole hrest.1
  · rw [hfraction]
    exact hrest.2.1
  · rw [hexponent]
    exact hrest.2.2

/-- What is read without a sign is a numeral. -/
theorem exists_of_readUnsigned {negative : Bool} {s : List Char}
    {r : Except Stop (Json × List Char)} (h : readUnsigned negative s = some r) :
    ∃ (n : Numeral) (rest : List Char), n.negative = negative ∧
      s = n.unsigned ++ rest ∧ r = n.result rest ∧ (n.isOverlong = true → EndsInteger rest) := by
  cases hread : readWhole? s with
  | none =>
    rw [readUnsigned, hread] at h
    cases h
  | some p =>
    obtain ⟨whole, a⟩ := p
    obtain ⟨rfl, hwhole, hend⟩ := isWhole_of_readWhole? hread
    rcases hfraction : readFraction a with ⟨fraction, b⟩
    rcases hexponent : readExponent b with ⟨value, rest⟩
    obtain ⟨rfl, hdigits⟩ := isDigits_of_readFraction hfraction
    obtain ⟨exponent, rfl, rfl⟩ := exists_exponent_of_readExponent hexponent
    let n : Numeral := ⟨negative, whole, fraction, exponent, hwhole, hdigits⟩
    have hn := readUnsigned_eq n hread hfraction hexponent
    refine ⟨n, rest, rfl, ?_, Option.some.inj (h.symm.trans hn), ?_⟩
    · rw [unsigned, List.append_assoc, List.append_assoc]
    · intro hlong
      obtain ⟨⟨rfl, rfl⟩, hlength⟩ :
          (fraction = [] ∧ exponent = none) ∧ maxDigits < whole.length := by
        simpa [n, isOverlong, isInteger] using hlong
      refine ⟨hend.resolve_left ?_, hfraction, hexponent⟩
      rintro rfl
      exact absurd hlength (by decide)

end Numeral

/-! ## Scalars -/

/-- The name of an infinite number. -/
def infinityName : List Char := ['I', 'n', 'f', 'i', 'n', 'i', 't', 'y']

/-- A text stands for a value that is neither a string nor a list nor an object. -/
inductive IsScalar : List Char → Json → Prop where
  | name {x : List Char} {v : Json} (h : (x, v) ∈ names) : IsScalar x v
  | minusInfinity : IsScalar ('-' :: infinityName) (.real (.infinite true))
  | number (n : Numeral) (h : n.isOverlong = false) : IsScalar n.text n.value

theorem after?_eq_some_iff {lead s rest : List Char} : after? lead s = some rest ↔
    s = lead ++ rest := by
  induction lead generalizing s with
  | nil => simp [after?]
  | cons a lead ih =>
    cases s with
    | nil => simp [after?]
    | cons c s =>
      rw [after?]
      split_ifs with hc
      · rw [ih, hc, List.cons_append, List.cons.injEq, and_iff_right rfl]
      · simp [Ne.symm hc]

theorem after?_cons_of_ne {a c : Char} (h : a ≠ c) (lead s : List Char) :
    after? (a :: lead) (c :: s) = none := by
  rw [after?, if_neg h]

/-- No name starts as numbers do. -/
theorem readName?_of_isDigit {c : Char} (h : c = '-' ∨ isDigit c = true) (s : List Char) :
    readName? (c :: s) = none := by
  have hne : ∀ (a : Char) (lead : List Char), isDigit a = false → a ≠ '-' →
      after? (a :: lead) (c :: s) = none := by
    intro a lead hdigit hminus
    refine after?_cons_of_ne ?_ lead s
    rintro rfl
    rcases h with h | h
    · exact hminus h
    · rw [hdigit] at h
      cases h
  simp only [readName?, List.findSome?_eq_none_iff, Option.map_eq_none_iff, names,
    List.forall_mem_cons]
  exact ⟨hne _ _ (by decide) (by decide), hne _ _ (by decide) (by decide),
    hne _ _ (by decide) (by decide), hne _ _ (by decide) (by decide),
    hne _ _ (by decide) (by decide), nofun⟩

theorem readName?_append {x : List Char} {v : Json} (h : (x, v) ∈ names) (rest : List Char) :
    readName? (x ++ rest) = some (v, rest) := by
  simp only [names, List.mem_cons, Prod.mk.injEq, List.not_mem_nil, or_false] at h
  rcases h with ⟨rfl, rfl⟩ | ⟨rfl, rfl⟩ | ⟨rfl, rfl⟩ | ⟨rfl, rfl⟩ | ⟨rfl, rfl⟩ <;> rfl

theorem Numeral.exists_unsigned_eq (n : Numeral) :
    ∃ d ds, isDigit d = true ∧ n.unsigned = d :: ds := by
  rcases n.isWhole with h | ⟨c, r, h, -, hdigits⟩
  · exact ⟨'0', fractionText n.fraction ++ exponentText n.exponent, by decide,
      by rw [unsigned, h]; rfl⟩
  · exact ⟨c, r ++ (fractionText n.fraction ++ exponentText n.exponent),
      hdigits c (h ▸ List.mem_cons_self), by rw [unsigned, h]; rfl⟩

/-- A numeral is read as its sign and the rest say. -/
theorem Numeral.readScalar_append (n : Numeral) {rest : List Char}
    {r : Except Stop (Json × List Char)} (h : readUnsigned n.negative (n.unsigned ++ rest) =
      some r) : readScalar (n.text ++ rest) = r := by
  obtain ⟨d, ds, hd, hn⟩ := n.exists_unsigned_eq
  rw [readScalar, text]
  cases hsign : n.negative with
  | true =>
    have hinfinity : after? ['I', 'n', 'f', 'i', 'n', 'i', 't', 'y'] (n.unsigned ++ rest) =
        none := by
      rw [hn, List.cons_append]
      refine after?_cons_of_ne ?_ _ _
      rintro rfl
      exact absurd hd (by decide)
    rw [if_pos rfl, List.singleton_append, List.cons_append, readName?_of_isDigit (Or.inl rfl),
      readNumber]
    simp only [hinfinity]
    rw [← hsign, h, Option.getD_some]
  | false =>
    rw [if_neg (by decide), List.nil_append]
    have hname : readName? (n.unsigned ++ rest) = none := by
      rw [hn, List.cons_append, readName?_of_isDigit (Or.inr hd)]
    have hnumber : readNumber (n.unsigned ++ rest) = r := by
      unfold readNumber
      split
      · rename_i heq
        rw [hn, List.cons_append] at heq
        exact absurd (List.cons.inj heq).1 (ne_of_isDigit hd).1
      · rw [← hsign, h, Option.getD_some]
    rw [hname, hnumber]

/-- A scalar is read up to a character that cannot continue it. -/
theorem readScalar_append {x : List Char} {v : Json} (h : IsScalar x v) {rest : List Char}
    (hrest : EndsNumeral rest) :
    readScalar (x ++ rest) = .ok (v, rest) := by
  cases h with
  | name h => rw [readScalar, readName?_append h]
  | minusInfinity =>
    have hinfinity : after? ['I', 'n', 'f', 'i', 'n', 'i', 't', 'y'] (infinityName ++ rest) =
        some rest :=
      after?_eq_some_iff.2 rfl
    rw [readScalar, List.cons_append, readName?_of_isDigit (Or.inl rfl), readNumber]
    simp only [hinfinity]
  | number n h =>
    rw [n.readScalar_append (n.readUnsigned_append hrest), Numeral.result, h]
    rfl

theorem exists_name_of_readName? {s rest : List Char} {v : Json}
    (h : readName? s = some (v, rest)) :
    ∃ x, (x, v) ∈ names ∧ s = x ++ rest := by
  obtain ⟨⟨x, w⟩, hmem, hx⟩ := List.exists_of_findSome?_eq_some h
  obtain ⟨t, ht, heq⟩ := Option.map_eq_some_iff.1 hx
  obtain ⟨rfl, rfl⟩ := Prod.mk.inj heq
  exact ⟨x, hmem, after?_eq_some_iff.1 ht⟩

/-- What comes of reading a scalar: its value, an integer that is too long, or nothing. -/
inductive ScalarReading (s : List Char) : Except Stop (Json × List Char) → Prop where
  | found {x rest : List Char} {v : Json} (hs : s = x ++ rest) (h : IsScalar x v) :
      ScalarReading s (.ok (v, rest))
  | overlong (n : Numeral) {rest : List Char} (hs : s = n.text ++ rest) (hn : n.isOverlong = true)
      (hrest : EndsInteger rest) : ScalarReading s (.error (.overlong n.whole.length))
  | missing : ScalarReading s (.error (.fault ⟨.expectingValue, s.length⟩))

theorem ScalarReading.of_readUnsigned {negative : Bool} {s r : List Char}
    (hs : s = (if negative then ['-'] else []) ++ r) :
    ScalarReading s ((readUnsigned negative r).getD
      (.error (.fault ⟨.expectingValue, s.length⟩))) := by
  cases h : readUnsigned negative r with
  | none => exact .missing
  | some res =>
    obtain ⟨n, rest, rfl, rfl, rfl, hend⟩ := Numeral.exists_of_readUnsigned h
    have htext : s = n.text ++ rest := by rw [hs, Numeral.text, List.append_assoc]
    rw [Option.getD_some, Numeral.result]
    split_ifs with hlong
    · exact .overlong n htext hlong (hend hlong)
    · exact .found htext (.number n (by simpa using hlong))

theorem scalarReading_readScalar (s : List Char) : ScalarReading s (readScalar s) := by
  unfold readScalar
  split
  · rename_i found hname
    obtain ⟨x, hmem, hs⟩ := exists_name_of_readName? hname
    exact .found hs (.name hmem)
  · unfold readNumber
    split
    · rename_i r
      split
      · rename_i rest hinfinity
        exact .found (congrArg ('-' :: ·) (after?_eq_some_iff.1 hinfinity)) .minusInfinity
      · exact .of_readUnsigned rfl
    · exact .of_readUnsigned rfl

/-! ## The names of numbers -/

/-- A numeral is not written as a name. -/
theorem Numeral.isNumberName_append (n : Numeral) (rest : List Char) :
    isNumberName (n.text ++ rest) = false := by
  obtain ⟨d, ds, hd, hn⟩ := n.exists_unsigned_eq
  have hne : d ≠ 'N' ∧ d ≠ 'I' := by
    constructor
    all_goals
      rintro rfl
      exact absurd hd (by decide)
  have hdigit : isNumberName (d :: (ds ++ rest)) = false := by
    have hminus := (ne_of_isDigit hd).1
    simp [isNumberName, numberNames, List.isPrefixOf, hne.1.symm, hne.2.symm, hminus.symm]
  rw [text, hn]
  cases n.negative with
  | false => exact hdigit
  | true => simp [isNumberName, numberNames, List.isPrefixOf, hne.2.symm]

/-- Whether a scalar is the name of a number does not depend on what follows it. -/
theorem IsScalar.isNumberName_append {x : List Char} {v : Json} (h : IsScalar x v)
    (rest : List Char) : isNumberName (x ++ rest) = isNumberName x := by
  cases h with
  | name h =>
    simp only [names, List.mem_cons, Prod.mk.injEq, List.not_mem_nil, or_false] at h
    rcases h with ⟨rfl, -⟩ | ⟨rfl, -⟩ | ⟨rfl, -⟩ | ⟨rfl, -⟩ | ⟨rfl, -⟩ <;> rfl
  | minusInfinity => rfl
  | number n _ =>
    have hnil := n.isNumberName_append []
    rw [List.append_nil] at hnil
    rw [n.isNumberName_append, hnil]

/-! ## The characters of scalars -/

/-- Letters, digits, signs and the point. -/
def inScalar (c : Char) : Bool :=
  isDigit c || ('a' ≤ c && c ≤ 'z') || ('A' ≤ c && c ≤ 'Z') || c == '+' || c == '-' || c == '.'

theorem inScalar_of_isDigits {ds : List Char} (h : IsDigits ds) : ∀ c ∈ ds, inScalar c = true := by
  intro c hc
  simp [inScalar, h c hc]

theorem Exponent.inScalar_text (e : Exponent) : ∀ c ∈ e.text, inScalar c = true := by
  have hsign : ∀ c ∈ signText e.sign, inScalar c = true := by
    rcases e.sign with _ | _ | _
    · exact nofun
    · exact List.forall_mem_singleton.2 (by decide)
    · exact List.forall_mem_singleton.2 (by decide)
  rw [text, List.forall_mem_cons, List.forall_mem_append]
  refine ⟨?_, hsign, inScalar_of_isDigits e.isDigits⟩
  rcases e.letter_eq with h | h <;> rw [h] <;> decide

theorem Numeral.inScalar_text (n : Numeral) : ∀ c ∈ n.text, inScalar c = true := by
  have hsign : ∀ c ∈ (if n.negative then ['-'] else []), inScalar c = true := by
    split_ifs
    · exact List.forall_mem_singleton.2 (by decide)
    · exact nofun
  have hwhole : IsDigits n.whole := by
    rcases n.isWhole with h | ⟨_, _, _, _, h⟩
    · rw [h]
      exact List.forall_mem_singleton.2 (by decide)
    · exact h
  have hfraction : ∀ c ∈ fractionText n.fraction, inScalar c = true := by
    have hdigits := n.isDigits
    cases hn : n.fraction with
    | nil => exact nofun
    | cons d ds =>
      rw [hn] at hdigits
      exact List.forall_mem_cons.2 ⟨by decide, inScalar_of_isDigits hdigits⟩
  have hexponent : ∀ c ∈ exponentText n.exponent, inScalar c = true := by
    cases n.exponent with
    | none => exact nofun
    | some e => exact e.inScalar_text
  rw [text, unsigned, List.forall_mem_append, List.forall_mem_append, List.forall_mem_append]
  exact ⟨hsign, inScalar_of_isDigits hwhole, hfraction, hexponent⟩

/-- The text of a scalar is not empty and made of letters, digits, signs and points. -/
theorem IsScalar.inScalar {x : List Char} {v : Json} (h : IsScalar x v) :
    x ≠ [] ∧ ∀ c ∈ x, Json.inScalar c = true := by
  cases h with
  | name h =>
    have hall : names.all (fun p => !p.1.isEmpty && p.1.all Json.inScalar) = true := by decide
    have := List.all_eq_true.1 hall _ h
    simpa using this
  | minusInfinity => exact ⟨by decide, List.all_eq_true.1 (by decide)⟩
  | number n _ =>
    obtain ⟨d, ds, -, hn⟩ := n.exists_unsigned_eq
    exact ⟨by simp [Numeral.text, hn], n.inScalar_text⟩

/-- No such character is blank, quotes a string, or structures a document. -/
theorem ne_of_inScalar {c : Char} (h : inScalar c = true) : isBlank c = false ∧
    c ∉ ['"', '\\', '[', ']', '\x7b', '\x7d', ',', ':'] := by
  constructor
  · simp only [inScalar, isDigit, Bool.or_eq_true, Bool.and_eq_true, decide_eq_true_eq,
      Char.le_def, UInt32.le_iff_toNat_le, beq_iff_eq, ← Char.toNat_inj] at h
    have hrange : 43 ≤ c.toNat ∧ c.toNat ≤ 122 := by
      have htoNat : ∀ d : Char, d.val.toNat = d.toNat := fun _ => rfl
      simp only [htoNat, Char.reduceToNat] at h
      omega
    simp only [isBlank, Bool.or_eq_false_iff, Bool.and_eq_false_iff, decide_eq_false_iff_not,
      beq_eq_false_iff_ne]
    omega
  · have hall : ['"', '\\', '[', ']', '\x7b', '\x7d', ',', ':'].all
        (fun c => !inScalar c) = true := by
      decide
    intro hmem
    have := List.all_eq_true.1 hall c hmem
    rw [h] at this
    cases this

end Reindent.Json
