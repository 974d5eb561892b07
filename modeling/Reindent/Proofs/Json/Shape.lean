import Mathlib
import Reindent.Proofs.Json.Minified

/-!
# The shape of minified JSON

`IsValue` is the grammar of JSON on rows of tokens, with numbers of any length. A document is such
a row with white space around its tokens, and no text has two such rows (`IsRowOf.unique`). The
reader accepts the documents in which no integer is too long for it (`IsRowOf.exists_read_iff`).

A minified document is a document with the same tokens, one by one; only strings may have lost
blanks or have spaces in place of them.
-/

namespace Reindent.Json

open Text Minify

/-! ## Tokens and values -/

/-- A name, or a number of any length. -/
inductive IsAtom : List Char → Prop where
  | name {x : List Char} {v : Json} (h : (x, v) ∈ names) : IsAtom x
  | minusInfinity : IsAtom ('-' :: infinityName)
  | number (n : Numeral) : IsAtom n.text

/-- The text of a token. -/
inductive IsToken : List Char → Prop where
  | mark (m : Mark) : IsToken [m.char]
  | text (l : Literal) : IsToken l.text
  | atom {x : List Char} (h : IsAtom x) : IsToken x

/-- Rows of tokens between two marks, with a comma between each two. -/
def enclosed (first last : Mark) (rows : List (List (List Char))) : List (List Char) :=
  [first.char] :: ([[Mark.comma.char]].intercalate rows ++ [[last.char]])

/-- The tokens of a member of an object: its name, a colon and its value. -/
def memberRow (member : Literal × List (List Char)) : List (List Char) :=
  member.1.text :: [Mark.colon.char] :: member.2

/-- The tokens of a value. -/
inductive IsValue : List (List Char) → Prop where
  | atom {x : List Char} (h : IsAtom x) : IsValue [x]
  | text (l : Literal) : IsValue [l.text]
  | list {items : List (List (List Char))} (h : ∀ i ∈ items, IsValue i) :
      IsValue (enclosed .openList .closeList items)
  | object {members : List (Literal × List (List Char))} (h : ∀ m ∈ members, IsValue m.2) :
      IsValue (enclosed .openObject .closeObject (members.map memberRow))

/-- The text is a document with these tokens. -/
structure IsRowOf (ws : List (List Char)) (t : List Char) : Prop where
  isValue : IsValue ws
  spread : Spread ws t

/-- The text is a document. -/
def IsDocument (t : List Char) : Prop :=
  ∃ ws, IsRowOf ws t

theorem enclosed_cons (first last : Mark) (r : List (List Char)) (rs : List (List (List Char))) :
    enclosed first last (r :: rs) =
      [first.char] :: (r ++ (rs.flatMap (fun r => [Mark.comma.char] :: r) ++ [[last.char]])) := by
  have hrows : [[Mark.comma.char]].intercalate (r :: rs) =
      r ++ rs.flatMap fun r => [Mark.comma.char] :: r := by
    induction rs generalizing r with
    | nil => simp
    | cons r' rs ih =>
      rw [List.intercalate_cons_cons, ih, List.flatMap_cons]
      simp
  rw [enclosed, hrows, List.append_assoc]

theorem mem_enclosed {first last : Mark} {w : List Char} {rows : List (List (List Char))}
    (h : w ∈ enclosed first last rows) : (∃ m : Mark, w = [m.char]) ∨ ∃ r ∈ rows, w ∈ r := by
  cases rows with
  | nil =>
    have hcases : w = [first.char] ∨ w = [last.char] := by simpa [enclosed] using h
    exact .inl (hcases.elim (fun h => ⟨first, h⟩) fun h => ⟨last, h⟩)
  | cons r rs =>
    rw [enclosed_cons, List.mem_cons, List.mem_append, List.mem_append, List.mem_flatMap,
      List.mem_singleton] at h
    rcases h with h | h | ⟨r', hr', h⟩ | h
    · exact .inl ⟨first, h⟩
    · exact .inr ⟨r, List.mem_cons_self, h⟩
    · rcases List.mem_cons.1 h with h | h
      · exact .inl ⟨.comma, h⟩
      · exact .inr ⟨r', List.mem_cons_of_mem r hr', h⟩
    · exact .inl ⟨last, h⟩

theorem mem_enclosed_of_mem (first last : Mark) {w : List Char} {r : List (List Char)}
    {rows : List (List (List Char))} (hr : r ∈ rows) (hw : w ∈ r) :
    w ∈ enclosed first last rows := by
  cases rows with
  | nil => cases hr
  | cons r' rs =>
    rw [enclosed_cons, List.mem_cons, List.mem_append, List.mem_append, List.mem_flatMap]
    rcases List.mem_cons.1 hr with rfl | hr
    · exact .inr (.inl hw)
    · exact .inr (.inr (.inl ⟨r, hr, List.mem_cons_of_mem _ hw⟩))

theorem IsAtom.inScalar {x : List Char} (h : IsAtom x) :
    x ≠ [] ∧ ∀ c ∈ x, Json.inScalar c = true := by
  cases h with
  | name h => exact (IsScalar.name h).inScalar
  | minusInfinity => exact IsScalar.minusInfinity.inScalar
  | number n =>
    obtain ⟨c, r, hn, -⟩ := n.exists_text_eq
    exact ⟨by simp [hn], n.inScalar_text⟩

theorem IsValue.isToken {ws : List (List Char)} (h : IsValue ws) : ∀ w ∈ ws, IsToken w := by
  induction h with
  | atom h => exact List.forall_mem_singleton.2 (.atom h)
  | text l => exact List.forall_mem_singleton.2 (.text l)
  | list _ ih =>
    intro w hw
    rcases mem_enclosed hw with ⟨m, rfl⟩ | ⟨i, hi, hw⟩
    · exact .mark m
    · exact ih i hi w hw
  | object _ ih =>
    intro w hw
    rcases mem_enclosed hw with ⟨m, rfl⟩ | ⟨r, hr, hw⟩
    · exact .mark m
    · obtain ⟨member, hmember, rfl⟩ := List.mem_map.1 hr
      rcases List.mem_cons.1 hw with rfl | hw
      · exact .text member.1
      · rcases List.mem_cons.1 hw with rfl | hw
        · exact .mark .colon
        · exact ih member hmember w hw

/-! ## No text has two rows -/

/-- At most one of two neighbouring tokens is an atom. -/
def Parted (v w : List Char) : Prop :=
  IsAtom v → ¬ IsAtom w

theorem not_isAtom_mark (m : Mark) : ¬ IsAtom [m.char] := by
  intro h
  have hscalar := h.inScalar.2 m.char (List.mem_singleton_self _)
  cases m <;> exact absurd hscalar (by decide)

theorem not_isAtom_text (l : Literal) : ¬ IsAtom l.text := by
  intro h
  exact absurd (h.inScalar.2 '"' List.mem_cons_self) (by decide)

theorem isChain_mark (m : Mark) {ws : List (List Char)} (h : ws.IsChain Parted) :
    ([m.char] :: ws).IsChain Parted := by
  cases ws with
  | nil => exact .singleton _
  | cons w ws => exact .cons_cons (fun hm => absurd hm (not_isAtom_mark m)) h

theorem isChain_append_mark {vs ws : List (List Char)} (hvs : vs.IsChain Parted) (m : Mark)
    (hws : ws.IsChain Parted) :
    (vs ++ [m.char] :: ws).IsChain Parted := by
  refine List.isChain_append.2 ⟨hvs, isChain_mark m hws, fun v _ w hw _ => ?_⟩
  obtain rfl : [m.char] = w := by simpa using hw
  exact not_isAtom_mark m

/-- What follows the first row of tokens: the others with a comma in front of each, and a mark at
the end. -/
theorem isChain_flatMap_comma {r : List (List Char)} {rs : List (List (List Char))}
    (hr : r.IsChain Parted) (hrs : ∀ r ∈ rs, r.IsChain Parted) (m : Mark) :
    (r ++ (rs.flatMap (fun r => [Mark.comma.char] :: r) ++ [[m.char]])).IsChain Parted := by
  induction rs generalizing r with
  | nil => exact isChain_append_mark hr m .nil
  | cons r' rs ih =>
    obtain ⟨hr', hrs⟩ := List.forall_mem_cons.1 hrs
    rw [List.flatMap_cons, List.cons_append, List.cons_append, List.append_assoc]
    exact isChain_append_mark hr .comma (ih hr' hrs)

theorem isChain_enclosed {rows : List (List (List Char))} (h : ∀ r ∈ rows, r.IsChain Parted)
    (first last : Mark) :
    (enclosed first last rows).IsChain Parted := by
  cases rows with
  | nil => exact isChain_mark first (.singleton _)
  | cons r rs =>
    obtain ⟨hr, hrs⟩ := List.forall_mem_cons.1 h
    rw [enclosed_cons]
    exact isChain_mark first (isChain_flatMap_comma hr hrs last)

theorem IsValue.isChain {ws : List (List Char)} (h : IsValue ws) : ws.IsChain Parted := by
  induction h with
  | atom _ => exact .singleton _
  | text _ => exact .singleton _
  | list _ ih => exact isChain_enclosed ih _ _
  | object _ ih =>
    refine isChain_enclosed (List.forall_mem_map.2 fun m hm => ?_) _ _
    exact .cons_cons (fun hname => absurd hname (not_isAtom_text m.1))
      (isChain_mark .colon (ih m hm))

theorem IsToken.exists_eq {w : List Char} (h : IsToken w) :
    ∃ c r, w = c :: r ∧ isSpace c = false ∧ (¬ IsAtom w → inScalar c = false) := by
  cases h with
  | mark m => exact ⟨m.char, [], rfl, isSpace_mark m, fun _ => by cases m <;> decide⟩
  | text l => exact ⟨'"', l.body ++ ['"'], rfl, by decide, fun _ => by decide⟩
  | atom h =>
    obtain ⟨hne, hall⟩ := h.inScalar
    obtain ⟨c, r, rfl⟩ := List.exists_cons_of_ne_nil hne
    exact ⟨c, r, rfl, isSpace_of_inScalar (hall c List.mem_cons_self), fun hw => absurd h hw⟩

theorem IsToken.skipSpace_append {w : List Char} (h : IsToken w) {gap : List Char}
    (hgap : IsSpaces gap) (s : List Char) : skipSpace (gap ++ (w ++ s)) = w ++ s := by
  obtain ⟨c, r, rfl, hc, -⟩ := h.exists_eq
  rw [Json.skipSpace_append hgap]
  refine skipSpace_of_head fun d hd => ?_
  obtain rfl : c = d := by simpa using hd
  exact hc

/-- What stands behind the token at the start of a text. -/
def afterToken : List Char → List Char
  | [] => []
  | c :: s =>
    if c = '"' then
      match readString 0 s with
      | .ok (_, rest) => rest
      | .error _ => []
    else if inScalar c then s.dropWhile inScalar
    else s

/-- The end of a token is found without looking at the row; an atom must not be followed by one. -/
theorem IsToken.afterToken_append {w s : List Char} (h : IsToken w)
    (hs : IsAtom w → ∀ c ∈ s.head?, inScalar c = false) : afterToken (w ++ s) = s := by
  cases h with
  | mark m =>
    have hquote : m.char ≠ '"' := by cases m <;> decide
    have hscalar : inScalar m.char = false := by cases m <;> decide
    rw [List.singleton_append, afterToken, if_neg hquote, if_neg (by simp [hscalar])]
  | text l =>
    rw [Literal.text, List.cons_append, afterToken, if_pos rfl, List.append_assoc,
      List.singleton_append, readString_append l.spells]
  | atom h =>
    obtain ⟨hne, hall⟩ := h.inScalar
    obtain ⟨c, r, rfl⟩ := List.exists_cons_of_ne_nil hne
    obtain ⟨hc, hr⟩ := List.forall_mem_cons.1 hall
    have hquote : c ≠ '"' := by
      rintro rfl
      exact absurd hc (by decide)
    rw [List.cons_append, afterToken, if_neg hquote, if_pos hc, List.dropWhile_append_of_pos hr]
    cases s with
    | nil => rfl
    | cons d s => rw [List.dropWhile_cons_of_neg (by simp [hs h d rfl])]

/-- Behind an atom stands no character that may be in one. -/
theorem Spread.inScalar_head {w s : List Char}
    {ws : List (List Char)} (h : Spread ws s) (hws : ∀ v ∈ ws, IsToken v)
    (hchain : (w :: ws).IsChain Parted) (hw : IsAtom w) : ∀ c ∈ s.head?, inScalar c = false := by
  have hgaps : ∀ {gap r : List Char}, IsSpaces gap → (∀ c ∈ r.head?, inScalar c = false) →
      ∀ c ∈ (gap ++ r).head?, inScalar c = false := by
    intro gap r hgap hr c hc
    cases gap with
    | nil => exact hr c hc
    | cons d gap =>
      obtain rfl : d = c := by simpa using hc
      by_contra hscalar
      have hspace := isSpace_of_inScalar (c := d) (by simpa using hscalar)
      rw [hgap d List.mem_cons_self] at hspace
      cases hspace
  cases h with
  | nil hgap => simpa using hgaps hgap (r := []) (by simp)
  | cons hgap _ =>
    refine hgaps hgap fun c hc => ?_
    obtain ⟨d, r, rfl, -, hd⟩ := (List.forall_mem_cons.1 hws).1.exists_eq
    obtain rfl : d = c := by simpa using hc
    exact hd ((List.isChain_cons_cons.1 hchain).1 hw)

/-- Two rows of tokens with the same text are the same, if no two atoms stand next to each
other. -/
theorem Spread.unique {ws us : List (List Char)} {t t' : List Char} (h : Spread ws t)
    (h' : Spread us t') (ht : t = t') (hws : ∀ w ∈ ws, IsToken w) (hus : ∀ u ∈ us, IsToken u)
    (hwchain : ws.IsChain Parted) (huchain : us.IsChain Parted) : ws = us := by
  have hspaces : ∀ {gap : List Char}, IsSpaces gap → skipSpace gap = [] := fun hgap => by
    have happend := Json.skipSpace_append hgap []
    rwa [List.append_nil] at happend
  -- Behind the white space in front, the first token ends at the same place in both rows.
  induction h generalizing us t' with
  | nil hgap =>
    cases h' with
    | nil => rfl
    | @cons gap' u s' _ hgap' _ =>
      have hu := (List.forall_mem_cons.1 hus).1
      have heq := hu.skipSpace_append hgap' s'
      obtain ⟨c, r, rfl, -⟩ := hu.exists_eq
      rw [← ht, hspaces hgap] at heq
      cases heq
  | @cons gap w s ws hgap hs ih =>
    obtain ⟨hw, hws⟩ := List.forall_mem_cons.1 hws
    have heq := hw.skipSpace_append hgap s
    cases h' with
    | nil hgap' =>
      obtain ⟨c, r, rfl, -⟩ := hw.exists_eq
      rw [ht, hspaces hgap'] at heq
      cases heq
    | @cons gap' u s' us hgap' hs' =>
      obtain ⟨hu, hrestus⟩ := List.forall_mem_cons.1 hus
      have hsame : w ++ s = u ++ s' := by
        rw [← heq, ht, hu.skipSpace_append hgap' s']
      have hrest : s = s' := by
        rw [← hw.afterToken_append (hs.inScalar_head hws hwchain), hsame,
          hu.afterToken_append (hs'.inScalar_head hrestus huchain)]
      obtain rfl : w = u := List.append_cancel_right (hrest ▸ hsame)
      rw [ih hs' hrest hws hrestus hwchain.of_cons huchain.of_cons]

theorem IsRowOf.unique {ws us : List (List Char)} {t : List Char} (h : IsRowOf ws t)
    (h' : IsRowOf us t) : ws = us :=
  h.spread.unique h'.spread rfl h.isValue.isToken h'.isValue.isToken h.isValue.isChain
    h'.isValue.isChain

/-! ## What the reader accepts -/

/-- The texts of the tokens of a document. -/
def Form.texts (f : Form) : List (List Char) :=
  f.tokens.map Token.text

theorem texts_laterItems (fs : List Form) : (laterItems fs).map Token.text =
    (fs.map Form.texts).flatMap (fun r => [Mark.comma.char] :: r) ++ [[Mark.closeList.char]] := by
  induction fs with
  | nil => rfl
  | cons f fs ih =>
    rw [laterItems, List.map_cons, List.map_append, ih, List.map_cons, List.flatMap_cons,
      List.cons_append, List.cons_append, List.append_assoc]
    rfl

theorem Form.texts_list (fs : List Form) :
    (Form.list fs).texts = enclosed .openList .closeList (fs.map Form.texts) := by
  cases fs with
  | nil => rfl
  | cons f fs =>
    rw [texts, tokens, List.map_cons, List.map_append, texts_laterItems, List.map_cons,
      enclosed_cons]
    rfl

/-- The texts of the tokens of a member. -/
def memberTexts (m : Literal × Form) : Literal × List (List Char) :=
  (m.1, m.2.texts)

theorem texts_laterMembers (ms : List (Literal × Form)) : (laterMembers ms).map Token.text =
    ((ms.map memberTexts).map memberRow).flatMap (fun r => [Mark.comma.char] :: r) ++
      [[Mark.closeObject.char]] := by
  induction ms with
  | nil => rfl
  | cons m ms ih =>
    rw [laterMembers, List.map_cons, List.map_cons, List.map_cons, List.map_append, ih,
      List.map_cons, List.map_cons, List.flatMap_cons, List.cons_append, List.cons_append,
      List.append_assoc]
    rfl

theorem Form.texts_object (ms : List (Literal × Form)) :
    (Form.object ms).texts = enclosed .openObject .closeObject
    ((ms.map memberTexts).map memberRow) := by
  cases ms with
  | nil => rfl
  | cons m ms =>
    rw [texts, tokens, List.map_cons, List.map_cons, List.map_cons, List.map_append,
      texts_laterMembers, List.map_cons, List.map_cons, enclosed_cons]
    rfl

theorem IsScalar.isAtom {x : List Char} {v : Json} (h : IsScalar x v) : IsAtom x := by
  cases h with
  | name h => exact .name h
  | minusInfinity => exact .minusInfinity
  | number n _ => exact .number n

mutual

/-- The tokens of a syntax tree follow the grammar. -/
theorem Form.isValue (f : Form) : IsValue f.texts := by
  match f with
  | .scalar x => exact .atom x.isScalar.isAtom
  | .text l => exact .text l
  | .list fs =>
    rw [Form.texts_list]
    exact .list (List.forall_mem_map.2 (isValue_items fs))
  | .object ms =>
    rw [Form.texts_object]
    exact .object (List.forall_mem_map.2 (isValue_members ms))

theorem isValue_items (fs : List Form) : ∀ f ∈ fs, IsValue f.texts := by
  match fs with
  | [] => exact List.forall_mem_nil _
  | f :: fs => exact List.forall_mem_cons.2 ⟨f.isValue, isValue_items fs⟩

theorem isValue_members (ms : List (Literal × Form)) : ∀ m ∈ ms, IsValue (memberTexts m).2 := by
  match ms with
  | [] => exact List.forall_mem_nil _
  | (_, f) :: ms => exact List.forall_mem_cons.2 ⟨f.isValue, isValue_members ms⟩

end

/-- An integer that is too long for the reader. -/
def IsOverlong (w : List Char) : Prop :=
  ∃ n : Numeral, n.text = w ∧ n.isOverlong = true

theorem IsOverlong.isAtom {w : List Char} (h : IsOverlong w) : IsAtom w := by
  obtain ⟨n, rfl, -⟩ := h
  exact .number n

/-- No text is both an integer that is too long and a scalar that is read. -/
theorem IsScalar.not_isOverlong {x : List Char} {v : Json} (h : IsScalar x v) :
    ¬ IsOverlong x := by
  rintro ⟨n, rfl, hn⟩
  have hend : EndsNumeral [] := ⟨noDigit_nil, by simp⟩
  have hread := n.readScalar_append (n.readUnsigned_append hend)
  rw [readScalar_append h hend, Numeral.result, if_pos hn] at hread
  cases hread

theorem Token.not_isOverlong (t : Token) : ¬ IsOverlong t.text := by
  cases t with
  | mark m => exact fun h => not_isAtom_mark m h.isAtom
  | string l => exact fun h => not_isAtom_text l h.isAtom
  | scalar x => exact x.isScalar.not_isOverlong

/-- A value in which no integer is too long has a syntax tree. -/
theorem IsValue.exists_form {ws : List (List Char)} (h : IsValue ws)
    (hws : ∀ w ∈ ws, ¬ IsOverlong w) :
    ∃ f : Form, f.texts = ws := by
  induction h with
  | atom h =>
    cases h with
    | name h => exact ⟨.scalar ⟨_, _, .name h⟩, rfl⟩
    | minusInfinity => exact ⟨.scalar ⟨_, _, .minusInfinity⟩, rfl⟩
    | number n =>
      have hn : n.isOverlong = false := by
        by_contra hn
        exact hws n.text (List.mem_singleton_self _) ⟨n, rfl, by simpa using hn⟩
      exact ⟨.scalar ⟨_, _, .number n hn⟩, rfl⟩
  | text l => exact ⟨.text l, rfl⟩
  | @list items _ ih =>
    have hitems : items ∈ Set.range (List.map Form.texts) := by
      rw [Set.range_list_map]
      intro i hi
      exact ih i hi fun w hw => hws w (mem_enclosed_of_mem _ _ hi hw)
    obtain ⟨fs, rfl⟩ := hitems
    exact ⟨.list fs, Form.texts_list fs⟩
  | @object members _ ih =>
    have hmembers : members ∈ Set.range (List.map memberTexts) := by
      rw [Set.range_list_map]
      intro m hm
      have hrow : ∀ w ∈ m.2, w ∈ memberRow m :=
        fun w hw => List.mem_cons_of_mem _ (List.mem_cons_of_mem _ hw)
      obtain ⟨f, hf⟩ :=
        ih m hm fun w hw => hws w (mem_enclosed_of_mem _ _ (List.mem_map_of_mem hm) (hrow w hw))
      exact ⟨(m.1, f), by rw [memberTexts, hf]⟩
    obtain ⟨ms, rfl⟩ := hmembers
    exact ⟨.object ms, Form.texts_object ms⟩

theorem isRowOf_of_layout {f : Form} {t : List Char} (h : Layout f.tokens t) : IsRowOf f.texts t :=
  ⟨f.isValue, layout_iff_spread.1 h⟩

theorem isDocument_of_read {room : Nat} {t : List Char} {v : Json} (h : read room t = .ok v) :
    IsDocument t := by
  obtain ⟨f, hf, -⟩ := read_eq_ok_iff.1 h
  exact ⟨f.texts, isRowOf_of_layout hf⟩

/-- A document has a tree exactly if no integer in it is too long. -/
theorem IsRowOf.exists_layout_iff {ws : List (List Char)} {t : List Char} (h : IsRowOf ws t) :
    (∃ f : Form, Layout f.tokens t) ↔ ∀ w ∈ ws, ¬ IsOverlong w := by
  constructor
  · rintro ⟨f, hf⟩
    rw [h.unique (isRowOf_of_layout hf)]
    exact List.forall_mem_map.2 fun t _ => t.not_isOverlong
  · intro hws
    obtain ⟨f, rfl⟩ := h.isValue.exists_form hws
    exact ⟨f, layout_iff_spread.2 h.spread⟩

/-! ## Minified documents -/

/-- What a token may become: it stays, or it is a string that loses blanks or has spaces in place
of them. -/
inductive Keeps : List Char → List Char → Prop where
  | same (w : List Char) : Keeps w w
  | text {l l' : Literal} (h : Thins l.body l'.body) : Keeps l.text l'.text

theorem IsAtom.json_eq_self {x : List Char} (h : IsAtom x) : Minify.json x = x :=
  (isBare_of_inScalar h.inScalar.2).apply_eq_self quoteLocal_json

theorem IsToken.isBare_or_isQuoted {w : List Char} (h : IsToken w) : IsBare w ∨ IsQuoted w := by
  cases h with
  | mark m => exact .inl m.isBare
  | text l => exact .inr ⟨l.body, rfl⟩
  | atom h => exact .inl (isBare_of_inScalar h.inScalar.2)

theorem IsToken.keeps {w : List Char} (h : IsToken w) : Keeps w (Minify.json w) := by
  cases h with
  | mark m =>
    rw [m.json_eq_self]
    exact .same _
  | text l =>
    rw [← l.text_minify]
    exact .text l.thins_minify
  | atom h =>
    rw [h.json_eq_self]
    exact .same _

theorem IsToken.isOverlong_json {w : List Char} (h : IsToken w) : IsOverlong (Minify.json w) ↔
    IsOverlong w := by
  cases h with
  | mark m => rw [m.json_eq_self]
  | text l =>
    rw [← l.text_minify]
    exact iff_of_false (fun h => not_isAtom_text _ h.isAtom) fun h => not_isAtom_text _ h.isAtom
  | atom h => rw [h.json_eq_self]

theorem map_json_enclosed (first last : Mark) (rows : List (List (List Char))) :
    (enclosed first last rows).map Minify.json =
      enclosed first last (rows.map (List.map Minify.json)) := by
  cases rows with
  | nil => simp [enclosed, Mark.json_eq_self]
  | cons r rs =>
    rw [List.map_cons, enclosed_cons, enclosed_cons]
    simp [List.map_flatMap, List.flatMap_map, Mark.json_eq_self]

/-- The tokens of a value, each minified alone, are the tokens of a value. -/
theorem IsValue.minify {ws : List (List Char)} (h : IsValue ws) :
    IsValue (ws.map Minify.json) := by
  induction h with
  | @atom x h =>
    rw [List.map_singleton, h.json_eq_self]
    exact .atom h
  | text l =>
    rw [List.map_singleton, ← l.text_minify]
    exact .text l.minify
  | list _ ih =>
    rw [map_json_enclosed]
    exact .list (List.forall_mem_map.2 ih)
  | @object members _ ih =>
    have hmembers : (members.map memberRow).map (List.map Minify.json) =
        (members.map fun m => (m.1.minify, m.2.map Minify.json)).map memberRow := by
      simp [memberRow, Literal.text_minify, Mark.json_eq_self, Function.comp_def]
    rw [map_json_enclosed, hmembers]
    exact .object (List.forall_mem_map.2 ih)

theorem IsRowOf.minify {ws : List (List Char)} {t : List Char} (h : IsRowOf ws t) :
    IsRowOf (ws.map Minify.json) (Minify.json t) :=
  ⟨h.isValue.minify, h.spread.minify quoteLocal_json fun w hw =>
    (h.isValue.isToken w hw).isBare_or_isQuoted⟩

/-- A minified document has a tree if the document has one. -/
theorem IsRowOf.exists_layout_json_iff {ws : List (List Char)} {t : List Char} (h : IsRowOf ws t) :
    (∃ f : Form, Layout f.tokens (Minify.json t)) ↔ ∃ f : Form, Layout f.tokens t := by
  rw [h.exists_layout_iff, h.minify.exists_layout_iff, List.forall_mem_map]
  exact forall₂_congr fun w hw => not_congr (h.isValue.isToken w hw).isOverlong_json

/-- A minified document is a document with the same tokens one by one, and it is read exactly if
the document is, however many levels there are. -/
theorem isDocument_json {t : List Char} (h : IsDocument t) :
    IsDocument (Minify.json t) ∧
      (∀ ws ws', IsRowOf ws t → IsRowOf ws' (Minify.json t) → List.Forall₂ Keeps ws ws') ∧
      ∀ room, (∃ v, read room (Minify.json t) = .ok v) ↔ ∃ v, read room t = .ok v := by
  obtain ⟨ws₀, h₀⟩ := h
  refine ⟨⟨_, h₀.minify⟩, fun ws ws' hws hws' => ?_, fun room => ?_⟩
  · rw [hws'.unique hws.minify, List.forall₂_map_right_iff, List.forall₂_same]
    exact fun w hw => (hws.isValue.isToken w hw).keeps
  · have hlayout : ∀ {s v}, read room s = .ok v → ∃ f : Form, Layout f.tokens s := by
      intro s v hread
      obtain ⟨f, hf, -⟩ := read_eq_ok_iff.1 hread
      exact ⟨f, hf⟩
    constructor
    · rintro ⟨v, hv⟩
      obtain ⟨f, hf⟩ := h₀.exists_layout_json_iff.1 (hlayout hv)
      obtain ⟨-, hroom⟩ := of_read_eq_ok (layout_json hf) hv
      rw [f.levels_map] at hroom
      exact ⟨f.value, by rw [read_of_layout hf, if_pos hroom]⟩
    · rintro ⟨v, hv⟩
      obtain ⟨f, hf⟩ := hlayout hv
      exact ⟨_, read_json hf (of_read_eq_ok hf hv).2⟩

set_option maxRecDepth 4000 in
/-- The blank in front of a bracket is lost, also inside the string. -/
theorem isDocument_json_bracket_in_string :
    let t := ['[', ' ', '"', 'a', ' ', ']', '"', '\n', ',', '-', '1', '2', ' ', ']']
    read 1 t = .ok (.list [.text (symbols ['a', ' ', ']']), .int (-12)]) ∧
      Minify.json t = ['[', '"', 'a', ']', '"', ',', '-', '1', '2', ']'] ∧
      IsDocument (Minify.json t) ∧
      (∀ ws ws', IsRowOf ws t → IsRowOf ws' (Minify.json t) → List.Forall₂ Keeps ws ws') ∧
      ∃ v, read 1 (Minify.json t) = .ok v := by
  intro t
  have ht : read 1 t = .ok (.list [.text (symbols ['a', ' ', ']']), .int (-12)]) := rfl
  obtain ⟨hdocument, hkeeps, hread⟩ := isDocument_json (isDocument_of_read ht)
  exact ⟨ht, by decide, hdocument, hkeeps, (hread 1).2 ⟨_, ht⟩⟩

end Reindent.Json
