import Mathlib
import Reindent.Proofs.Json.Reading
import Reindent.Proofs.Json.Rows
import Reindent.Proofs.Minify.Tightness

/-!
# The value of minified JSON

A document stays a document when it is minified, with the same structure, and each of its strings
becomes what it becomes when its text is minified alone (`layout_minify`). A string that this
changes has another value (`Literal.minify_eq_self_of_value`), and it is changed exactly if there
is a loose place in its text. So a document whose strings are tight keeps its value, and one that
names no member twice keeps it in no other case.
-/

namespace Reindent.Json

open Text Minify

/-! ## Strings -/

/-- Characters beyond the first plane count for two, and so do blanks other than the space. -/
def symbolHeft : Symbol → Nat
  | .char c => if 0x10000 ≤ c.toNat ∨ (isBlank c = true ∧ c ≠ ' ') then 2 else 1
  | .half _ => 1

/-- The size of a string. -/
def heft (s : List Symbol) : Nat :=
  (s.map symbolHeft).sum

theorem heft_cons (x : Symbol) (s : List Symbol) : heft (x :: s) = symbolHeft x + heft s := by
  simp [heft]

theorem symbolHeft_pos (x : Symbol) : 0 < symbolHeft x := by
  cases x with
  | char c =>
    rw [symbolHeft]
    split_ifs <;> omega
  | half n => exact Nat.one_pos

/-- Two halves that join count as much as the character. -/
theorem symbolHeft_pairSymbol {high low : Nat} (hhigh : isHighHalf high = true)
    (hlow : isLowHalf low = true) :
    symbolHeft (pairSymbol high low) = 2 := by
  simp only [isHighHalf, isLowHalf, Bool.and_eq_true, decide_eq_true_eq] at hhigh hlow
  have hvalid : (0x10000 + (high - 0xD800) * 0x400 + (low - 0xDC00)).isValidChar := by
    unfold Nat.isValidChar
    omega
  rw [pairSymbol, symbolHeft, Char.toNat_ofNat, if_pos hvalid, if_pos (.inl (by omega))]

theorem heft_consJoined (x : Symbol) (s : List Symbol) :
    heft (consJoined x s) = symbolHeft x + heft s := by
  unfold consJoined
  split
  · rename_i n m r
    split_ifs with hjoin
    · rw [Bool.and_eq_true] at hjoin
      rw [heft_cons, heft_cons, symbolHeft_pairSymbol hjoin.1 hjoin.2, symbolHeft, symbolHeft]
      omega
    · rw [heft_cons, heft_cons]
  · rw [heft_cons]

theorem isBlank_of_shortEscape? {e x : Char} (h : shortEscape? e = some x) :
    isBlank e = false := by
  unfold shortEscape? at h
  split_ifs at h with h₁ h₂ h₃ h₄ h₅ h₆
  · simp only [Bool.or_eq_true, decide_eq_true_eq] at h₁
    rcases h₁ with (rfl | rfl) | rfl <;> decide
  all_goals
    subst_vars
    decide

theorem isBlank_of_hexValue? {c : Char} {n : Nat} (h : hexValue? c = some n) :
    isBlank c = false := by
  have hrange : 48 ≤ c.toNat ∧ c.toNat ≤ 102 := by
    have htoNat : ∀ d : Char, d.val.toNat = d.toNat := fun _ => rfl
    simp only [hexValue?, Bool.and_eq_true, decide_eq_true_eq, Char.le_def,
      UInt32.le_iff_toNat_le, htoNat, Char.reduceToNat] at h
    split_ifs at h <;> omega
  simp only [isBlank, Bool.or_eq_false_iff, Bool.and_eq_false_iff, decide_eq_false_iff_not,
    beq_eq_false_iff_ne]
  omega

theorem isBlank_of_hexValue4? {a b c d : Char} {n : Nat} (h : hexValue4? a b c d = some n) :
    ∀ x ∈ ['\\', 'u', a, b, c, d], isBlank x = false := by
  unfold hexValue4? at h
  simp only [bind, Option.bind_eq_some_iff] at h
  obtain ⟨_, ha, _, hb, _, hc, _, hd, -⟩ := h
  simp [isBlank_of_hexValue? ha, isBlank_of_hexValue? hb, isBlank_of_hexValue? hc,
    isBlank_of_hexValue? hd,
    show isBlank '\\' = false by decide, show isBlank 'u' = false by decide]

/-- What is left of a string when blanks are thinned out is a string, and it is smaller unless it
is the same. -/
theorem Spells.exists_of_thins {body body' : List Char} {x : List Symbol} (h : Spells body x)
    (ht : Thins body body') :
    ∃ x', Spells body' x' ∧ ((body' = body ∧ x' = x) ∨ heft x' < heft x) := by
  induction h generalizing body' with
  | nil =>
    cases ht
    exact ⟨[], .nil, .inl ⟨rfl, rfl⟩⟩
  | @char c body s hquote hslash hcontrol _ ih =>
    have hkeep : ∀ {t}, Thins body t → ∃ x', Spells (c :: t) x' ∧
        ((c :: t = c :: body ∧ x' = .char c :: s) ∨ heft x' < heft (.char c :: s)) := by
      intro t ht
      obtain ⟨x', hx', hcase⟩ := ih ht
      refine ⟨.char c :: x', .char hquote hslash hcontrol hx', ?_⟩
      rw [heft_cons, heft_cons]
      rcases hcase with ⟨rfl, rfl⟩ | hlt
      · exact .inl ⟨rfl, rfl⟩
      · exact .inr (by omega)
    cases ht with
    | keep _ ht => exact hkeep ht
    | drop _ ht =>
      obtain ⟨x', hx', hcase⟩ := ih ht
      refine ⟨x', hx', .inr ?_⟩
      have hpos := symbolHeft_pos (.char c)
      rw [heft_cons]
      rcases hcase with ⟨-, rfl⟩ | hlt <;> omega
    | @space _ _ t hc ht =>
      by_cases hspace : c = ' '
      · subst hspace
        exact hkeep ht
      · obtain ⟨x', hx', hcase⟩ := ih ht
        refine ⟨.char ' ' :: x', .char (by decide) (by decide) (by decide) hx', .inr ?_⟩
        have hblank : symbolHeft (.char c) = 2 := if_pos (.inr ⟨hc, hspace⟩)
        have hone : symbolHeft (.char ' ') = 1 := by decide
        rw [heft_cons, heft_cons, hblank, hone]
        rcases hcase with ⟨-, rfl⟩ | hlt <;> omega
  | @short e y body s he _ ih =>
    obtain ⟨_, rfl, hescape⟩ := ht.exists_cons (by decide)
    obtain ⟨t, rfl, hbody⟩ := hescape.exists_cons (isBlank_of_shortEscape? he)
    obtain ⟨x', hx', hcase⟩ := ih hbody
    refine ⟨.char y :: x', .short he hx', ?_⟩
    rw [heft_cons, heft_cons]
    rcases hcase with ⟨rfl, rfl⟩ | hlt
    · exact .inl ⟨rfl, rfl⟩
    · exact .inr (by omega)
  | @unit a b c d n body s hn _ ih =>
    obtain ⟨front, t, rfl, hfront, ht⟩ := Thins.exists_append (s := ['\\', 'u', a, b, c, d]) ht
    rw [hfront.eq_of_forall_not_isBlank (isBlank_of_hexValue4? hn)]
    obtain ⟨x', hx', hcase⟩ := ih ht
    refine ⟨consJoined (unitSymbol n) x', .unit hn hx', ?_⟩
    rw [heft_consJoined, heft_consJoined]
    rcases hcase with ⟨rfl, rfl⟩ | hlt
    · exact .inl ⟨rfl, rfl⟩
    · exact .inr (by omega)

/-- A string that is minified alone stays between its quotes, and blanks are thinned out. -/
theorem Literal.exists_json_eq (l : Literal) :
    ∃ body, Minify.json l.text = '"' :: (body ++ ['"']) ∧ Thins l.body body := by
  obtain ⟨t, ht, hthins⟩ := quoteLocal_json.exists_quote (l.body ++ ['"'])
  obtain ⟨body, q, rfl, hbody, hq⟩ := hthins.exists_append
  rw [hq.eq_of_forall_not_isBlank isBare_quote] at ht
  exact ⟨body, ht, hbody⟩

/-- The text of a string that is minified alone is the text of a string. -/
theorem Literal.exists_minify (l : Literal) :
    ∃ body x, Minify.json l.text = '"' :: (body ++ ['"']) ∧ Spells body x ∧
    ((body = l.body ∧ x = l.value) ∨ heft x < heft l.value) := by
  obtain ⟨body, ht, hbody⟩ := l.exists_json_eq
  obtain ⟨x, hx, hcase⟩ := l.spells.exists_of_thins hbody
  exact ⟨body, x, ht, hx, hcase⟩

/-- The string that a row of characters between quotes spells. -/
def spelled (body : List Char) : List Symbol :=
  match readString 0 (body ++ ['"']) with
  | .ok (x, _) => x
  | .error _ => []

theorem spelled_eq {body : List Char} {x : List Symbol} (h : Spells body x) :
    spelled body = x := by
  rw [spelled, readString_append h]

/-- The minified text of a string without its quotes. -/
def Literal.minifiedBody (l : Literal) : List Char :=
  (Minify.json l.text).tail.dropLast

theorem Literal.minifiedBody_eq {l : Literal} {body : List Char}
    (h : Minify.json l.text = '"' :: (body ++ ['"'])) :
    l.minifiedBody = body := by
  rw [minifiedBody, h, List.tail_cons, List.dropLast_concat]

theorem Literal.spells_minifiedBody (l : Literal) :
    Spells l.minifiedBody (spelled l.minifiedBody) := by
  obtain ⟨body, x, hbody, hx, -⟩ := l.exists_minify
  rw [minifiedBody_eq hbody, spelled_eq hx]
  exact hx

/-- A string whose text is minified alone. -/
def Literal.minify (l : Literal) : Literal :=
  ⟨l.minifiedBody, spelled l.minifiedBody, l.spells_minifiedBody⟩

theorem Literal.body_minify (l : Literal) : l.minify.body = l.minifiedBody := by
  rw [minify]

theorem Literal.text_minify (l : Literal) : l.minify.text = Minify.json l.text := by
  obtain ⟨body, x, hbody, -, -⟩ := l.exists_minify
  rw [hbody, ← minifiedBody_eq hbody, Literal.text, body_minify]

theorem Literal.thins_minify (l : Literal) : Thins l.body l.minify.body := by
  obtain ⟨body, hbody, hthins⟩ := l.exists_json_eq
  rwa [body_minify, minifiedBody_eq hbody]

theorem Literal.ext {l l' : Literal} (hbody : l.body = l'.body) (hvalue : l.value = l'.value) :
    l = l' := by
  obtain ⟨body, x, h⟩ := l
  obtain ⟨body', x', h'⟩ := l'
  obtain rfl : body = body' := hbody
  obtain rfl : x = x' := hvalue
  rfl

/-- A string that is changed becomes smaller. -/
theorem Literal.minify_eq_or_heft_lt (l : Literal) :
    l.minify = l ∨ heft l.minify.value < heft l.value := by
  obtain ⟨body, x, hbody, hx, hcase⟩ := l.exists_minify
  have hminified : l.minify.body = body := by rw [body_minify, minifiedBody_eq hbody]
  have hvalue : l.minify.value = x := by
    rw [← spelled_eq l.minify.spells, hminified, spelled_eq hx]
  rcases hcase with ⟨rfl, rfl⟩ | hlt
  · exact .inl (Literal.ext hminified hvalue)
  · right
    rw [hvalue]
    exact hlt

/-- A string that is changed has another value. -/
theorem Literal.minify_eq_self_of_value {l : Literal} (h : l.minify.value = l.value) :
    l.minify = l := by
  rcases l.minify_eq_or_heft_lt with heq | hlt
  · exact heq
  · rw [h] at hlt
    exact absurd hlt (Nat.lt_irrefl _)

theorem Literal.minify_eq_self_iff (l : Literal) : l.minify = l ↔ ¬ Loose l.text := by
  have hlast : l.text.getLast? ≠ some '[' := by
    rw [Literal.text, ← List.cons_append, List.getLast?_concat]
    decide
  rw [← json_eq_self_iff hlast, ← l.text_minify]
  constructor
  · intro h
    rw [h]
  · intro h
    have hbody : l.minify.body = l.body := by simpa [Literal.text] using h
    refine minify_eq_self_of_value ?_
    rw [← spelled_eq l.minify.spells, hbody, spelled_eq l.spells]

/-! ## Rows of tokens -/

/-- A token with its string replaced, if it is one. -/
def Token.map (φ : Literal → Literal) : Token → Token
  | .mark m => .mark m
  | .string l => .string (φ l)
  | .scalar x => .scalar x

theorem Token.isBare_or_isQuoted (t : Token) : IsBare t.text ∨ IsQuoted t.text := by
  cases t with
  | mark m => exact .inl m.isBare
  | string l => exact .inr ⟨l.body, rfl⟩
  | scalar x => exact .inl (isBare_of_inScalar x.isScalar.inScalar.2)

theorem Mark.json_eq_self (m : Mark) : Minify.json [m.char] = [m.char] :=
  m.isBare.apply_eq_self quoteLocal_json

theorem Token.text_minify (t : Token) : (t.map Literal.minify).text = Minify.json t.text := by
  cases t with
  | mark m => exact m.json_eq_self.symm
  | string l => exact l.text_minify
  | scalar x =>
    exact ((isBare_of_inScalar x.isScalar.inScalar.2).apply_eq_self quoteLocal_json).symm

/-- A minified document has the same tokens, with its strings minified. -/
theorem layout_minify {ts : List Token} {s : List Char} (h : Layout ts s) :
    Layout (ts.map (Token.map Literal.minify)) (Minify.json s) := by
  have hminify := (layout_iff_spread.1 h).minify quoteLocal_json
    (List.forall_mem_map.2 fun t _ => t.isBare_or_isQuoted)
  rw [layout_iff_spread]
  simpa [Function.comp_def, Token.text_minify] using hminify

/-! ## Documents -/

mutual

/-- A document with each of its strings replaced. -/
def Form.map (φ : Literal → Literal) : Form → Form
  | .scalar x => .scalar x
  | .text l => .text (φ l)
  | .list items => .list (mapItems φ items)
  | .object members => .object (mapMembers φ members)

/-- Items with each of their strings replaced. -/
def mapItems (φ : Literal → Literal) : List Form → List Form
  | [] => []
  | f :: fs => f.map φ :: mapItems φ fs

/-- Members with each of their strings replaced, the names among them. -/
def mapMembers (φ : Literal → Literal) : List (Literal × Form) → List (Literal × Form)
  | [] => []
  | (name, f) :: ms => (φ name, f.map φ) :: mapMembers φ ms

end

mutual

/-- In no object of the document do two members have the same name. -/
def Form.NamesOnce : Form → Prop
  | .scalar _ => True
  | .text _ => True
  | .list items => ItemsNamedOnce items
  | .object members => ((memberPairs members).map Prod.fst).Nodup ∧ MembersNamedOnce members

/-- The same of items. -/
def ItemsNamedOnce : List Form → Prop
  | [] => True
  | f :: fs => f.NamesOnce ∧ ItemsNamedOnce fs

/-- The same of what the members hold. -/
def MembersNamedOnce : List (Literal × Form) → Prop
  | [] => True
  | (_, f) :: ms => f.NamesOnce ∧ MembersNamedOnce ms

end

section Map

variable {φ : Literal → Literal}

mutual

theorem Form.tokens_map (f : Form) : (f.map φ).tokens = f.tokens.map (Token.map φ) := by
  match f with
  | .scalar x => rfl
  | .text l => rfl
  | .list [] => rfl
  | .list (f :: fs) =>
    simp only [Form.map, mapItems, Form.tokens, List.map_cons, List.map_append, f.tokens_map,
      laterItems_mapItems fs, Token.map]
  | .object [] => rfl
  | .object ((name, f) :: ms) =>
    simp only [Form.map, mapMembers, Form.tokens, List.map_cons, List.map_append, f.tokens_map,
      laterMembers_mapMembers ms, Token.map]

theorem laterItems_mapItems (fs : List Form) :
    laterItems (mapItems φ fs) = (laterItems fs).map (Token.map φ) := by
  match fs with
  | [] => rfl
  | f :: fs =>
    simp only [mapItems, laterItems, List.map_cons, List.map_append, f.tokens_map,
      laterItems_mapItems fs, Token.map]

theorem laterMembers_mapMembers (ms : List (Literal × Form)) :
    laterMembers (mapMembers φ ms) = (laterMembers ms).map (Token.map φ) := by
  match ms with
  | [] => rfl
  | (name, f) :: ms =>
    simp only [mapMembers, laterMembers, List.map_cons, List.map_append, f.tokens_map,
      laterMembers_mapMembers ms, Token.map]

end

mutual

theorem Form.levels_map (f : Form) : (f.map φ).levels = f.levels := by
  match f with
  | .scalar x => rfl
  | .text l => rfl
  | .list items => rw [Form.map, Form.levels, Form.levels, itemLevels_mapItems items]
  | .object members => rw [Form.map, Form.levels, Form.levels, memberLevels_mapMembers members]

theorem itemLevels_mapItems (fs : List Form) :
    Form.itemLevels (mapItems φ fs) = Form.itemLevels fs := by
  match fs with
  | [] => rfl
  | f :: fs =>
    rw [mapItems, Form.itemLevels, Form.itemLevels, f.levels_map, itemLevels_mapItems fs]

theorem memberLevels_mapMembers (ms : List (Literal × Form)) :
    Form.memberLevels (mapMembers φ ms) = Form.memberLevels ms := by
  match ms with
  | [] => rfl
  | (name, f) :: ms =>
    rw [mapMembers, Form.memberLevels, Form.memberLevels, f.levels_map, memberLevels_mapMembers ms]

end

mutual

/-- A document whose strings all stay stays. -/
theorem Form.map_eq_self (f : Form) (h : ∀ l, .string l ∈ f.tokens → φ l = l) : f.map φ = f := by
  match f with
  | .scalar x => rfl
  | .text l => rw [Form.map, h l (List.mem_singleton.2 rfl)]
  | .list [] => rfl
  | .list (f :: fs) =>
    have hf := f.map_eq_self fun l hl => h l (by simp [Form.tokens, hl])
    have hfs := mapItems_eq_self fs fun l hl => h l (by simp [Form.tokens, hl])
    rw [Form.map, mapItems, hf, hfs]
  | .object [] => rfl
  | .object ((name, f) :: ms) =>
    have hname := h name (by simp [Form.tokens])
    have hf := f.map_eq_self fun l hl => h l (by simp [Form.tokens, hl])
    have hms := mapMembers_eq_self ms fun l hl => h l (by simp [Form.tokens, hl])
    rw [Form.map, mapMembers, hname, hf, hms]

theorem mapItems_eq_self (fs : List Form) (h : ∀ l, .string l ∈ laterItems fs → φ l = l) :
    mapItems φ fs = fs := by
  match fs with
  | [] => rfl
  | f :: fs =>
    have hf := f.map_eq_self fun l hl => h l (by simp [laterItems, hl])
    have hfs := mapItems_eq_self fs fun l hl => h l (by simp [laterItems, hl])
    rw [mapItems, hf, hfs]

theorem mapMembers_eq_self (ms : List (Literal × Form))
    (h : ∀ l, .string l ∈ laterMembers ms → φ l = l) :
    mapMembers φ ms = ms := by
  match ms with
  | [] => rfl
  | (name, f) :: ms =>
    have hname := h name (by simp [laterMembers])
    have hf := f.map_eq_self fun l hl => h l (by simp [laterMembers, hl])
    have hms := mapMembers_eq_self ms fun l hl => h l (by simp [laterMembers, hl])
    rw [mapMembers, hname, hf, hms]

end

/-- In a document that stays, every string stays. -/
theorem Form.eq_of_map_eq_self {f : Form} (h : f.map φ = f) {l : Literal}
    (hl : .string l ∈ f.tokens) : φ l = l := by
  have htokens := f.tokens_map (φ := φ)
  rw [h] at htokens
  have hfix := List.map_inj_left.1 (htokens.symm.trans (List.map_id _).symm) _ hl
  exact Token.string.inj hfix

theorem length_mapMembers (ms : List (Literal × Form)) : (mapMembers φ ms).length = ms.length := by
  induction ms with
  | nil => rfl
  | cons m ms ih =>
    obtain ⟨name, f⟩ := m
    rw [mapMembers, List.length_cons, List.length_cons, ih]

/-- Members that keep their values keep them pair by pair if no name appears twice. -/
theorem memberPairs_mapMembers
    {ms : List (Literal × Form)} (hms : ((memberPairs ms).map Prod.fst).Nodup)
    (h : memberValues [] (mapMembers φ ms) = memberValues [] ms) :
    memberPairs (mapMembers φ ms) = memberPairs ms := by
  have hpairs : memberValues [] ms = memberPairs ms := memberValues_of_nodup ms [] hms
  have hlength : (memberValues [] (mapMembers φ ms)).length = 0 + (mapMembers φ ms).length := by
    rw [h, hpairs, memberPairs, List.length_map, length_mapMembers, Nat.zero_add]
  have hmapped :=
    memberValues_of_nodup _ [] (nodup_of_length_memberValues _ [] List.nodup_nil hlength)
  rw [h, hpairs] at hmapped
  exact hmapped.symm

mutual

/-- If other strings have other values, a document that names no member twice keeps its value only
if it stays. -/
theorem Form.map_eq_self_of_value
    (hφ : ∀ l, (φ l).value = l.value → φ l = l) (f : Form) (hnames : f.NamesOnce)
    (h : (f.map φ).value = f.value) : f.map φ = f := by
  match f with
  | .scalar x => rfl
  | .text l =>
    rw [Form.map, Form.value, Form.value, Json.text.injEq] at h
    rw [Form.map, hφ l h]
  | .list fs =>
    rw [Form.map, Form.value, Form.value, Json.list.injEq] at h
    rw [Form.map, mapItems_eq_self_of_values hφ fs hnames h]
  | .object ms =>
    rw [Form.map, Form.value, Form.value, Json.object.injEq] at h
    rw [Form.map, mapMembers_eq_self_of_pairs hφ ms hnames.2 (memberPairs_mapMembers hnames.1 h)]

theorem mapItems_eq_self_of_values (hφ : ∀ l, (φ l).value = l.value → φ l = l) (fs : List Form)
    (hnames : ItemsNamedOnce fs) (h : itemValues (mapItems φ fs) = itemValues fs) :
    mapItems φ fs = fs := by
  match fs with
  | [] => rfl
  | f :: fs =>
    rw [mapItems, itemValues, itemValues, List.cons.injEq] at h
    rw [mapItems, f.map_eq_self_of_value hφ hnames.1 h.1,
      mapItems_eq_self_of_values hφ fs hnames.2 h.2]

theorem mapMembers_eq_self_of_pairs
    (hφ : ∀ l, (φ l).value = l.value → φ l = l) (ms : List (Literal × Form))
    (hnames : MembersNamedOnce ms) (h : memberPairs (mapMembers φ ms) = memberPairs ms) :
    mapMembers φ ms = ms := by
  match ms with
  | [] => rfl
  | (name, f) :: ms =>
    rw [mapMembers, memberPairs, memberPairs, List.map_cons, List.map_cons, List.cons.injEq,
      Prod.mk.injEq] at h
    rw [mapMembers, hφ name h.1.1, f.map_eq_self_of_value hφ hnames.1 h.1.2,
      mapMembers_eq_self_of_pairs hφ ms hnames.2 h.2]

end

end Map

/-! ## What is read -/

/-- A minified document is the document with its strings minified. -/
theorem layout_json {f : Form} {t : List Char} (h : Layout f.tokens t) :
    Layout (f.map Literal.minify).tokens (Minify.json t) := by
  rw [f.tokens_map]
  exact layout_minify h

/-- A minified document is read as the document with its strings minified. -/
theorem read_json {f : Form} {t : List Char} {room : Nat} (h : Layout f.tokens t)
    (hroom : f.levels ≤ room) :
    read room (Minify.json t) = .ok (f.map Literal.minify).value := by
  rw [read_of_layout (layout_json h), f.levels_map, if_pos hroom]

/-- What is read from a minified document. Its strings are minified one by one; if they are all
tight, the value stays, and if no object names a member twice, it stays only then. -/
theorem read_minified {room : Nat} {t : List Char} {v : Json} (h : read room t = .ok v) :
    (∃ f : Form, Layout f.tokens t) ∧
      ∀ f : Form, Layout f.tokens t →
        read room (Minify.json t) = .ok (f.map Literal.minify).value ∧
        ((∀ l, .string l ∈ f.tokens → ¬ Loose l.text) → read room (Minify.json t) = .ok v) ∧
        (f.NamesOnce → read room (Minify.json t) = .ok v → ∀ l, .string l ∈ f.tokens →
          ¬ Loose l.text) := by
  obtain ⟨f₀, hf₀, -⟩ := read_eq_ok_iff.1 h
  refine ⟨⟨f₀, hf₀⟩, fun f hf => ?_⟩
  obtain ⟨hv, hroom⟩ := of_read_eq_ok hf h
  rw [read_json hf hroom, ← hv]
  refine ⟨rfl, fun htight => ?_, fun hnames hvalue l hl => ?_⟩
  · rw [f.map_eq_self fun l hl => l.minify_eq_self_iff.2 (htight l hl)]
  · have hself : f.map Literal.minify = f :=
      f.map_eq_self_of_value (fun _ => Literal.minify_eq_self_of_value) hnames
        (Except.ok.inj hvalue)
    exact l.minify_eq_self_iff.1 (Form.eq_of_map_eq_self hself hl)

set_option maxRecDepth 4000 in
/-- A string without blanks is tight, and so is one with a single blank behind a comma. -/
theorem read_minified_listed_text :
    let t :=
      ['\x7b', ' ', '"', 'a', '"', ' ', ':', '[', '"', 'b', ',', ' ', 'c', '"', '\n', ']', '\x7d']
    let v := Json.object [(symbols ['a'], .list [.text (symbols ['b', ',', ' ', 'c'])])]
    read 2 t = .ok v ∧ Minify.json t ≠ t ∧ read 2 (Minify.json t) = .ok v := by
  intro t v
  have ht : read 2 t = .ok v := rfl
  have hchanged : Minify.json t ≠ t := by decide
  have htight_a : ¬ Loose ['"', 'a', '"'] := (json_eq_self_iff (by decide)).1 (by decide)
  have htight_b : ¬ Loose ['"', 'b', ',', ' ', 'c', '"'] :=
    (json_eq_self_iff (by decide)).1 (by decide)
  let a : Literal := ⟨['a'], _, spells_flatMap_writeChar ['a']⟩
  let b : Literal := ⟨['b', ',', ' ', 'c'], _, spells_flatMap_writeChar ['b', ',', ' ', 'c']⟩
  let f : Form := .object [(a, .list [.text b])]
  have hspace : IsSpaces [' '] := List.forall_mem_singleton.2 rfl
  have hline : IsSpaces ['\n'] := List.forall_mem_singleton.2 rfl
  have hend : Layout [.mark .closeList, .mark .closeObject] ['\n', ']', '\x7d'] :=
    .gap hline (.token _ (.single _))
  have hlist : Layout [.mark .colon, .mark .openList] [' ', ':', '['] :=
    .gap hspace (.token _ (.single _))
  have hname : Layout [.mark .openObject, .string a] ['\x7b', ' ', '"', 'a', '"'] :=
    .token _ (.gap hspace (.single _))
  have hf : Layout f.tokens t :=
    hname.append (hlist.append ((Layout.single (.string b)).append hend))
  have htight : ∀ l, .string l ∈ f.tokens → ¬ Loose l.text := by
    intro l hl
    have hcases : l = a ∨ l = b := by simpa [f, Form.tokens, laterItems, laterMembers] using hl
    rcases hcases with rfl | rfl
    · exact htight_a
    · exact htight_b
  exact ⟨ht, hchanged, ((read_minified ht).2 f hf).2.1 htight⟩

set_option maxRecDepth 4000 in
/-- A blank in front of a bracket is left out inside a string as well. -/
theorem read_json_bracket_in_string :
    let t := ['[', '"', 'a', ' ', ']', '"', ']']
    read 1 t = .ok (.list [.text (symbols ['a', ' ', ']'])]) ∧
      read 1 (Minify.json t) = .ok (.list [.text (symbols ['a', ']'])]) := by
  intro t
  have ht : Minify.json t = ['[', '"', 'a', ']', '"', ']'] := by decide
  rw [ht]
  exact ⟨rfl, rfl⟩

end Reindent.Json
