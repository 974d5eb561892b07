import Mathlib
import Reindent.Proofs.Json.Literals
import Reindent.Proofs.Json.Scalars

/-!
# JSON documents

The syntax tree of a document (`Form`) keeps every string and scalar as it is written, and every
member of an object, also those whose name appears again. It has a row of tokens and a value.
`Layout ts s` says that the text `s` is the row `ts` with white space before, between and behind
the tokens, and `Spread` says the same of words of any kind.
-/

namespace Reindent.Json

open Text

/-! ## Tokens -/

/-- The marks that structure a document. -/
inductive Mark where
  | openList
  | closeList
  | openObject
  | closeObject
  | comma
  | colon
deriving DecidableEq, Repr

/-- The character of a mark. -/
def Mark.char : Mark → Char
  | .openList => '['
  | .closeList => ']'
  | .openObject => '\x7b'
  | .closeObject => '\x7d'
  | .comma => ','
  | .colon => ':'

/-- A string as it is written, without its quotes. -/
structure Literal where
  body : List Char
  value : List Symbol
  spells : Spells body value

/-- A string between its quotes. -/
def Literal.text (l : Literal) : List Char :=
  '"' :: (l.body ++ ['"'])

/-- A name or a number as it is written. -/
structure Scalar where
  text : List Char
  value : Json
  isScalar : IsScalar text value

/-- A token of a document. -/
inductive Token where
  | mark (m : Mark)
  | string (l : Literal)
  | scalar (x : Scalar)

/-- The text of a token. -/
def Token.text : Token → List Char
  | .mark m => [m.char]
  | .string l => l.text
  | .scalar x => x.text

/-! ## Syntax trees -/

/-- The syntax tree of a document. -/
inductive Form where
  | scalar (x : Scalar)
  | text (l : Literal)
  | list (items : List Form)
  | object (members : List (Literal × Form))

mutual

/-- The tokens of a document. -/
def Form.tokens : Form → List Token
  | .scalar x => [.scalar x]
  | .text l => [.string l]
  | .list [] => [.mark .openList, .mark .closeList]
  | .list (f :: fs) => .mark .openList :: (f.tokens ++ laterItems fs)
  | .object [] => [.mark .openObject, .mark .closeObject]
  | .object ((name, f) :: ms) =>
    .mark .openObject :: .string name :: .mark .colon :: (f.tokens ++ laterMembers ms)

/-- The tokens of the items after the first, and of the end of the list. -/
def laterItems : List Form → List Token
  | [] => [.mark .closeList]
  | f :: fs => .mark .comma :: (f.tokens ++ laterItems fs)

/-- The tokens of the members after the first, and of the end of the object. -/
def laterMembers : List (Literal × Form) → List Token
  | [] => [.mark .closeObject]
  | (name, f) :: ms =>
    .mark .comma :: .string name :: .mark .colon :: (f.tokens ++ laterMembers ms)

end

mutual

/-- The value of a document. -/
def Form.value : Form → Json
  | .scalar x => x.value
  | .text l => .text l.value
  | .list items => .list (itemValues items)
  | .object members => .object (memberValues [] members)

/-- The values of items. -/
def itemValues : List Form → List Json
  | [] => []
  | f :: fs => f.value :: itemValues fs

/-- The members `done` and those that follow: a name that is there already keeps its place and
takes the new value. -/
def memberValues (done : List (List Symbol × Json)) :
    List (Literal × Form) → List (List Symbol × Json)
  | [] => done
  | (name, f) :: ms => memberValues (putMember name.value f.value done) ms

end

/-- The members of an object, all of them. -/
def memberPairs (ms : List (Literal × Form)) : List (List Symbol × Json) :=
  ms.map fun m => (m.1.value, m.2.value)

/-! ## Levels -/

mutual

/-- The levels that reading a document takes at its deepest point: one for each list or object that
is open there, and one for a number that is written as a name. -/
def Form.levels : Form → Nat
  | .scalar x => if isNumberName x.text then 1 else 0
  | .text _ => 0
  | .list items => Form.itemLevels items + 1
  | .object members => Form.memberLevels members + 1

/-- The levels that the deepest of some items takes. -/
def Form.itemLevels : List Form → Nat
  | [] => 0
  | f :: fs => max f.levels (Form.itemLevels fs)

/-- The levels that the deepest of some members takes. -/
def Form.memberLevels : List (Literal × Form) → Nat
  | [] => 0
  | (_, f) :: ms => max f.levels (Form.memberLevels ms)

end

/-! ## Documents that have been read in part -/

/-- A document that has been read up to some point. -/
inductive Unfinished where
  /-- In front of the value. -/
  | here
  | item (before : List Form) (inner : Unfinished)
  | member (before : List (Literal × Form)) (name : Literal) (inner : Unfinished)
  /-- Behind an item of a list. -/
  | behindItem (before : List Form) (f : Form)
  /-- In front of the name of a member. -/
  | atName (before : List (Literal × Form))
  | behindName (before : List (Literal × Form)) (name : Literal)
  /-- Behind a member of an object. -/
  | behindMember (before : List (Literal × Form)) (name : Literal) (f : Form)

/-- The tokens of items with a comma behind each. -/
def earlierItems (fs : List Form) : List Token :=
  fs.flatMap fun f => f.tokens ++ [.mark .comma]

/-- The tokens of members with a comma behind each. -/
def earlierMembers (ms : List (Literal × Form)) : List Token :=
  ms.flatMap fun m => .string m.1 :: .mark .colon :: (m.2.tokens ++ [.mark .comma])

namespace Unfinished

/-- The tokens in front of the point. -/
def tokens : Unfinished → List Token
  | .here => []
  | .item before inner => .mark .openList :: (earlierItems before ++ inner.tokens)
  | .member before name inner =>
    .mark .openObject :: (earlierMembers before ++ (.string name :: .mark .colon :: inner.tokens))
  | .behindItem before f => .mark .openList :: (earlierItems before ++ f.tokens)
  | .atName before => .mark .openObject :: earlierMembers before
  | .behindName before name => .mark .openObject :: (earlierMembers before ++ [.string name])
  | .behindMember before name f =>
    .mark .openObject :: (earlierMembers before ++ (.string name :: .mark .colon :: f.tokens))

/-- The levels that reading up to the point takes. -/
def levels : Unfinished → Nat
  | .here => 0
  | .item before inner => max (Form.itemLevels before) inner.levels + 1
  | .member before _ inner => max (Form.memberLevels before) inner.levels + 1
  | .behindItem before f => max (Form.itemLevels before) f.levels + 1
  | .atName before | .behindName before _ => Form.memberLevels before + 1
  | .behindMember before _ f => max (Form.memberLevels before) f.levels + 1

/-- The lists and objects that are open at the point. -/
def depth : Unfinished → Nat
  | .here => 0
  | .item _ inner | .member _ _ inner => inner.depth + 1
  | _ => 1

/-- Whether a value is to follow. -/
def atValue : Unfinished → Bool
  | .here => true
  | .item _ inner | .member _ _ inner => inner.atValue
  | _ => false

end Unfinished

/-- A document ends in front of `r`: if it is a name or a number, the reading of that goes no
further. -/
def Form.EndsAt (f : Form) (r : List Char) : Prop :=
  match f with
  | .scalar x => readScalar (x.text ++ r) = .ok (x.value, r)
  | _ => True

/-- A quote, but no string, stands at the start of a text. -/
def OpensNoString (s : List Char) : Prop :=
  ∃ t, s = '"' :: t ∧ ∀ (body : List Char) (x : List Symbol) (rest : List Char),
    Spells body x → t ≠ body ++ '"' :: rest

/-- What is left of a text cannot go on a document that has been read up to a point inside a value:
there is a string without its end, or another mark or a name is to stand there. -/
def Unfinished.Broken (u : Unfinished) (r : List Char) : Prop :=
  match u with
  | .here => OpensNoString (skipSpace r)
  | .item _ inner | .member _ _ inner => inner.Broken r
  | .behindItem _ f =>
    f.EndsAt r ∧ (skipSpace r).head? ≠ some ']' ∧ (skipSpace r).head? ≠ some ','
  | .atName before =>
    OpensNoString (skipSpace r) ∨ (skipSpace r).head? ≠ some '"' ∧
      (before = [] → (skipSpace r).head? ≠ some '\x7d')
  | .behindName _ _ => (skipSpace r).head? ≠ some ':'
  | .behindMember _ _ f =>
    f.EndsAt r ∧ (skipSpace r).head? ≠ some '\x7d' ∧ (skipSpace r).head? ≠ some ','

/-! ## Members -/

theorem mem_map_fst_putMember {name n : List Symbol} {v : Json} {ms : List (List Symbol × Json)} :
    n ∈ (putMember name v ms).map Prod.fst ↔ n ∈ ms.map Prod.fst ∨ n = name := by
  induction ms with
  | nil => simp [putMember]
  | cons m ms ih =>
    obtain ⟨n', v'⟩ := m
    rw [putMember]
    split_ifs with hn
    · subst hn
      simp only [List.map_cons, List.mem_cons]
      tauto
    · simp only [List.map_cons, List.mem_cons, ih]
      tauto

/-- A name that is given a value again is not listed again. -/
theorem nodup_putMember {name : List Symbol} {v : Json} {ms : List (List Symbol × Json)}
    (h : (ms.map Prod.fst).Nodup) : ((putMember name v ms).map Prod.fst).Nodup := by
  induction ms with
  | nil => simp [putMember]
  | cons m ms ih =>
    obtain ⟨n, w⟩ := m
    rw [List.map_cons, List.nodup_cons] at h
    rw [putMember]
    split_ifs with hn
    · rw [List.map_cons, List.nodup_cons]
      exact h
    · rw [List.map_cons, List.nodup_cons, mem_map_fst_putMember]
      exact ⟨not_or.2 ⟨h.1, hn⟩, ih h.2⟩

theorem putMember_of_notMem {name : List Symbol} {v : Json} {ms : List (List Symbol × Json)}
    (h : name ∉ ms.map Prod.fst) : putMember name v ms = ms ++ [(name, v)] := by
  induction ms with
  | nil => rfl
  | cons m ms ih =>
    obtain ⟨n, w⟩ := m
    rw [List.map_cons, List.mem_cons, not_or] at h
    rw [putMember, if_neg (Ne.symm h.1), ih h.2, List.cons_append]

theorem map_fst_putMember_of_mem {name : List Symbol} {v : Json} {ms : List (List Symbol × Json)}
    (h : name ∈ ms.map Prod.fst) : (putMember name v ms).map Prod.fst = ms.map Prod.fst := by
  induction ms with
  | nil => cases h
  | cons m ms ih =>
    obtain ⟨n, w⟩ := m
    rw [putMember]
    split_ifs with hn
    · rfl
    · rw [List.map_cons, List.map_cons, ih ((List.mem_cons.1 h).resolve_left (Ne.symm hn))]

/-- If no name appears twice, the members are kept as they are. -/
theorem memberValues_of_nodup (ms : List (Literal × Form)) (done : List (List Symbol × Json))
    (h : ((done ++ memberPairs ms).map Prod.fst).Nodup) :
    memberValues done ms = done ++ memberPairs ms := by
  induction ms generalizing done with
  | nil => rw [memberValues, memberPairs, List.map_nil, List.append_nil]
  | cons m ms ih =>
    obtain ⟨name, f⟩ := m
    have hpairs : memberPairs ((name, f) :: ms) = (name.value, f.value) :: memberPairs ms := rfl
    have hname : name.value ∉ done.map Prod.fst := by
      rw [hpairs, List.map_append, List.map_cons, List.nodup_append] at h
      exact fun hmem => h.2.2 _ hmem _ List.mem_cons_self rfl
    rw [memberValues, putMember_of_notMem hname, ih _ (by simpa [hpairs] using h), hpairs,
      List.append_assoc, List.singleton_append]

theorem length_memberValues_le (ms : List (Literal × Form)) (done : List (List Symbol × Json)) :
    (memberValues done ms).length ≤ done.length + ms.length := by
  induction ms generalizing done with
  | nil => exact Nat.le_refl _
  | cons m ms ih =>
    obtain ⟨name, f⟩ := m
    have hrest := ih (putMember name.value f.value done)
    have hput : (putMember name.value f.value done).length ≤ done.length + 1 := by
      by_cases hname : name.value ∈ done.map Prod.fst
      · have hlength := congrArg List.length (map_fst_putMember_of_mem (v := f.value) hname)
        simp only [List.length_map] at hlength
        omega
      · rw [putMember_of_notMem hname, List.length_append, List.length_singleton]
    rw [memberValues, List.length_cons]
    omega

/-- If a name appears twice, members are lost. -/
theorem nodup_of_length_memberValues
    (ms : List (Literal × Form)) (done : List (List Symbol × Json)) (hdone :
      (done.map Prod.fst).Nodup) (h : (memberValues done ms).length = done.length + ms.length) :
    ((done ++ memberPairs ms).map Prod.fst).Nodup := by
  induction ms generalizing done with
  | nil => simpa [memberPairs] using hdone
  | cons m ms ih =>
    obtain ⟨name, f⟩ := m
    rw [memberValues, List.length_cons] at h
    by_cases hname : name.value ∈ done.map Prod.fst
    · have hle := length_memberValues_le ms (putMember name.value f.value done)
      have hlength := congrArg List.length (map_fst_putMember_of_mem (v := f.value) hname)
      simp only [List.length_map] at hlength
      omega
    · have hput : ((putMember name.value f.value done).map Prod.fst).Nodup := nodup_putMember hdone
      rw [putMember_of_notMem hname] at h hput
      have hrest := ih _ hput (by rw [h, List.length_append, List.length_singleton]; omega)
      rwa [List.append_assoc, List.singleton_append] at hrest

/-! ## White space -/

/-- White space only. -/
def IsSpaces (s : List Char) : Prop :=
  ∀ c ∈ s, isSpace c = true

theorem isSpaces_nil : IsSpaces [] :=
  List.forall_mem_nil _

theorem IsSpaces.append {s t : List Char} (hs : IsSpaces s) (ht : IsSpaces t) :
    IsSpaces (s ++ t) :=
  List.forall_mem_append.2 ⟨hs, ht⟩

theorem skipSpace_append {gap : List Char} (hgap : IsSpaces gap) (s : List Char) :
    skipSpace (gap ++ s) = skipSpace s :=
  List.dropWhile_append_of_pos hgap

theorem skipSpace_of_head {s : List Char} (h : ∀ c ∈ s.head?, isSpace c = false) :
    skipSpace s = s := by
  cases s with
  | nil => rfl
  | cons c s => simp [skipSpace, h c rfl]

theorem exists_skipSpace_eq (s : List Char) : ∃ gap, IsSpaces gap ∧ s = gap ++ skipSpace s :=
  ⟨s.takeWhile isSpace, fun _ hc =>
    List.mem_takeWhile_imp hc, (List.takeWhile_append_dropWhile).symm⟩

/-- White space of JSON is blank. -/
theorem isBlank_of_isSpace {c : Char} (h : isSpace c = true) : isBlank c = true := by
  simp only [isSpace, Bool.or_eq_true, beq_iff_eq] at h
  rcases h with ((rfl | rfl) | rfl) | rfl <;> decide

theorem isSpace_mark (m : Mark) : isSpace m.char = false := by
  cases m <;> decide

theorem isSpace_of_inScalar {c : Char} (h : inScalar c = true) : isSpace c = false := by
  by_contra hspace
  have hblank := isBlank_of_isSpace (c := c) (by simpa using hspace)
  rw [(ne_of_inScalar h).1] at hblank
  cases hblank

/-- A token starts with a character that is no white space. -/
theorem Token.exists_text_eq (t : Token) : ∃ c r, t.text = c :: r ∧ isSpace c = false := by
  cases t with
  | mark m => exact ⟨m.char, [], rfl, isSpace_mark m⟩
  | string l => exact ⟨'"', l.body ++ ['"'], rfl, by decide⟩
  | scalar x =>
    obtain ⟨hne, hall⟩ := x.isScalar.inScalar
    obtain ⟨c, r, hx⟩ := List.exists_cons_of_ne_nil hne
    have hc := hall c (hx ▸ List.mem_cons_self)
    exact ⟨c, r, hx, isSpace_of_inScalar hc⟩

theorem skipSpace_text (t : Token) (s : List Char) : skipSpace (t.text ++ s) = t.text ++ s := by
  obtain ⟨c, r, hr, hc⟩ := t.exists_text_eq
  refine skipSpace_of_head ?_
  rw [hr]
  rintro d hd
  obtain rfl : c = d := by simpa using hd
  exact hc

/-! ## Ends of numbers -/

theorem endsNumeral_cons {c : Char}
    (h : c ∈ [' ', '\t', '\n', '\r', '[', ']', '\x7b', '\x7d', ',', ':']) (s : List Char) :
    EndsNumeral (c :: s) := by
  simp only [EndsNumeral, NoDigit, List.head?_cons, Option.mem_some_iff, forall_eq', ne_eq,
    Option.some.injEq]
  simp only [List.mem_cons, List.not_mem_nil, or_false] at h
  rcases h with rfl | rfl | rfl | rfl | rfl | rfl | rfl | rfl | rfl | rfl <;> decide

theorem endsNumeral_mark (m : Mark) (s : List Char) : EndsNumeral (m.char :: s) :=
  endsNumeral_cons (by cases m <;> decide) s

theorem IsSpaces.endsNumeral_cons {c : Char} {gap : List Char} (hgap : IsSpaces (c :: gap))
    (s : List Char) : EndsNumeral (c :: s) := by
  have hc := hgap c List.mem_cons_self
  simp only [isSpace, Bool.or_eq_true, beq_iff_eq] at hc
  exact Json.endsNumeral_cons (by rcases hc with ((rfl | rfl) | rfl) | rfl <;> decide) _

theorem IsSpaces.endsNumeral {gap s : List Char} (hgap : IsSpaces gap) (hs : EndsNumeral s) :
    EndsNumeral (gap ++ s) := by
  cases gap with
  | nil => exact hs
  | cons c gap => exact hgap.endsNumeral_cons _

theorem Form.endsAt_of_endsNumeral (f : Form) {r : List Char} (hr : EndsNumeral r) :
    f.EndsAt r := by
  cases f with
  | scalar x => exact readScalar_append x.isScalar hr
  | text | list | object => trivial

/-! ## Words with white space around them -/

/-- A text is a row of words with white space around them. -/
inductive Spread : List (List Char) → List Char → Prop where
  | nil {gap : List Char} (hgap : IsSpaces gap) : Spread [] gap
  | cons {gap w s : List Char} {ws : List (List Char)} (hgap : IsSpaces gap) (h : Spread ws s) :
      Spread (w :: ws) (gap ++ (w ++ s))

namespace Spread

variable {ws us : List (List Char)} {s x y : List Char}

theorem gap {gap : List Char} (hgap : IsSpaces gap) (h : Spread ws s) : Spread ws (gap ++ s) := by
  cases h with
  | nil hs => exact .nil (hgap.append hs)
  | cons hs h =>
    rw [← List.append_assoc]
    exact .cons (hgap.append hs) h

theorem word (w : List Char) (h : Spread ws s) : Spread (w :: ws) (w ++ s) :=
  show Spread (w :: ws) ([] ++ (w ++ s)) from .cons isSpaces_nil h

theorem append (hx : Spread ws x) (hy : Spread us y) : Spread (ws ++ us) (x ++ y) := by
  induction hx with
  | nil hgap => exact hy.gap hgap
  | cons hgap _ ih =>
    rw [List.cons_append, List.append_assoc, List.append_assoc]
    exact .cons hgap ih

theorem append_gap {gap : List Char} (h : Spread ws s) (hgap : IsSpaces gap) :
    Spread ws (s ++ gap) := by
  have happend := h.append (.nil hgap)
  rwa [List.append_nil] at happend

end Spread

/-! ## Layouts -/

/-- A text is a row of tokens with white space around them. -/
inductive Layout : List Token → List Char → Prop where
  | nil {gap : List Char} (hgap : IsSpaces gap) : Layout [] gap
  | cons {gap s : List Char} {t : Token} {ts : List Token} (hgap : IsSpaces gap)
      (h : Layout ts s) :
      Layout (t :: ts) (gap ++ (t.text ++ s))

theorem layout_iff_spread {ts : List Token} {s : List Char} : Layout ts s ↔
    Spread (ts.map Token.text) s := by
  constructor
  · intro h
    induction h with
    | nil hgap => exact .nil hgap
    | cons hgap _ ih => exact .cons hgap ih
  · intro h
    generalize hws : ts.map Token.text = ws at h
    induction h generalizing ts with
    | nil hgap =>
      obtain rfl := List.map_eq_nil_iff.1 hws
      exact .nil hgap
    | cons hgap _ ih =>
      obtain ⟨t, ts, rfl, rfl, hrest⟩ := List.map_eq_cons_iff.1 hws
      exact .cons hgap (ih hrest)

namespace Layout

variable {ts us : List Token} {s x y : List Char}

theorem gap {gap : List Char} (hgap : IsSpaces gap) (h : Layout ts s) : Layout ts (gap ++ s) :=
  layout_iff_spread.2 (.gap hgap (layout_iff_spread.1 h))

/-- A token in front of a row. -/
theorem token (t : Token) (h : Layout ts s) : Layout (t :: ts) (t.text ++ s) :=
  layout_iff_spread.2 (.word t.text (layout_iff_spread.1 h))

theorem single (t : Token) : Layout [t] t.text := by
  have h : Layout [t] (t.text ++ []) := token t (.nil isSpaces_nil)
  rwa [List.append_nil] at h

theorem append (hx : Layout ts x) (hy : Layout us y) : Layout (ts ++ us) (x ++ y) := by
  rw [layout_iff_spread, List.map_append]
  exact (layout_iff_spread.1 hx).append (layout_iff_spread.1 hy)

theorem exists_append (h : Layout (ts ++ us) s) :
    ∃ x y, s = x ++ y ∧ Layout ts x ∧ Layout us y := by
  induction ts generalizing s with
  | nil => exact ⟨[], s, rfl, .nil isSpaces_nil, h⟩
  | cons t ts ih =>
    cases h with
    | cons hgap h =>
      obtain ⟨x, y, rfl, hx, hy⟩ := ih h
      exact ⟨_, y, by simp only [List.append_assoc], .cons hgap hx, hy⟩

/-- Behind the white space in front stands the first token. -/
theorem exists_cons {t : Token} (h : Layout (t :: ts) s) :
    ∃ y, Layout ts y ∧ ∀ r, skipSpace (s ++ r) = t.text ++ (y ++ r) := by
  cases h with
  | cons hgap h =>
    refine ⟨_, h, fun r => ?_⟩
    rw [List.append_assoc, skipSpace_append hgap, List.append_assoc, skipSpace_text]

theorem skipSpace_nil (h : Layout [] s) (r : List Char) : skipSpace (s ++ r) = skipSpace r := by
  cases h with
  | nil hgap => exact skipSpace_append hgap r

/-- There are no more tokens than characters. -/
theorem length_le (h : Layout ts s) : ts.length ≤ s.length := by
  induction h with
  | nil => exact Nat.zero_le _
  | @cons gap s t ts _ _ ih =>
    obtain ⟨c, r, hr, -⟩ := t.exists_text_eq
    simp only [List.length_cons, List.length_append, hr]
    omega

/-- A row that starts with a mark ends a number in front of it. -/
theorem endsNumeral_of_mark {m : Mark} (h : Layout (.mark m :: ts) s) (r : List Char) :
    EndsNumeral (s ++ r) := by
  cases h with
  | cons hgap _ =>
    rw [List.append_assoc]
    exact hgap.endsNumeral (endsNumeral_mark m _)

end Layout

theorem earlierItems_cons (f : Form) (fs : List Form) :
    earlierItems (f :: fs) = f.tokens ++ (.mark .comma :: earlierItems fs) := by
  simp [earlierItems]

theorem earlierMembers_cons (name : Literal) (f : Form) (ms : List (Literal × Form)) :
    earlierMembers ((name, f) :: ms) =
      .string name :: .mark .colon :: (f.tokens ++ (.mark .comma :: earlierMembers ms)) := by
  simp [earlierMembers]

end Reindent.Json
