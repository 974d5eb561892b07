import Mathlib
import Reindent.Proofs.Json.Documents

/-!
# Trees are read

What the reader does in each of its steps, and from that: a layout of a syntax tree is read as the
value of the tree (`Form.readValue_of_starts`), if the tree takes no more levels than there are.
-/

namespace Reindent.Json

open Text

/-- A text starts with a layout of a row of tokens, and `rest` follows. -/
def Starts (ts : List Token) (s rest : List Char) : Prop :=
  ∃ x, s = x ++ rest ∧ Layout ts x

namespace Starts

variable {ts us : List Token} {s q r : List Char}

theorem nil (s : List Char) : Starts [] s s :=
  ⟨[], rfl, .nil isSpaces_nil⟩

theorem trans (h : Starts ts s q) (h' : Starts us q r) : Starts (ts ++ us) s r := by
  obtain ⟨x, rfl, hx⟩ := h
  obtain ⟨y, rfl, hy⟩ := h'
  exact ⟨x ++ y, by rw [List.append_assoc], hx.append hy⟩

theorem token (t : Token) (h : Starts ts s r) : Starts (t :: ts) (t.text ++ s) r := by
  obtain ⟨x, rfl, hx⟩ := h
  exact ⟨t.text ++ x, by rw [List.append_assoc], hx.token t⟩

theorem mark (m : Mark) (h : Starts ts s r) : Starts (.mark m :: ts) (m.char :: s) r :=
  h.token (.mark m)

theorem of_skipSpace (h : Starts ts (skipSpace s) r) : Starts ts s r := by
  obtain ⟨gap, hgap, hs⟩ := exists_skipSpace_eq s
  obtain ⟨x, hx, hlayout⟩ := h
  exact ⟨gap ++ x, by rw [List.append_assoc, ← hx, ← hs], hlayout.gap hgap⟩

/-- The next mark behind white space. -/
theorem of_skipSpace_eq {m : Mark} (h : skipSpace s = m.char :: r) : Starts [.mark m] s r := by
  refine of_skipSpace ?_
  rw [h]
  exact (nil r).mark m

theorem exists_cons {t : Token} (h : Starts (t :: ts) s r) :
    ∃ y, skipSpace s = t.text ++ y ∧ Starts ts y r := by
  obtain ⟨x, rfl, hx⟩ := h
  obtain ⟨y, hy, hskip⟩ := hx.exists_cons
  exact ⟨y ++ r, hskip r, y, rfl, hy⟩

theorem exists_append (h : Starts (ts ++ us) s r) : ∃ q, Starts ts s q ∧ Starts us q r := by
  obtain ⟨x, rfl, hx⟩ := h
  obtain ⟨y, z, rfl, hy, hz⟩ := hx.exists_append
  exact ⟨z ++ r, ⟨y, by rw [List.append_assoc], hy⟩, z, rfl, hz⟩

theorem skipSpace_eq (h : Starts [] s r) : skipSpace s = skipSpace r := by
  obtain ⟨x, rfl, hx⟩ := h
  exact hx.skipSpace_nil r

theorem endsAt {m : Mark} {f : Form} (h : Starts (.mark m :: ts) s r) : f.EndsAt s := by
  obtain ⟨x, rfl, hx⟩ := h
  exact f.endsAt_of_endsNumeral (hx.endsNumeral_of_mark r)

/-- White space ends a scalar too. -/
theorem endsAt_nil {f : Form} (h : Starts [] s r) (hr : f.EndsAt r) : f.EndsAt s := by
  obtain ⟨x, rfl, hx⟩ := h
  cases hx with
  | nil hgap =>
    cases x with
    | nil => exact hr
    | cons c gap => exact f.endsAt_of_endsNumeral (hgap.endsNumeral_cons _)

end Starts

/-! ## Steps of the reader -/

/-- What follows an item of a list: the end of the list or the next item. -/
def afterItem (fuel room : Nat) (done : List Json) (s : List Char) :
    Except Stop (Json × List Char) :=
  match s with
  | ']' :: rest => .ok (.list done.reverse, rest)
  | ',' :: r => readItems fuel room done (skipSpace r)
  | r => .error (.inner ⟨.expectingComma, r.length⟩ room)

/-- What follows a member of an object: the end of the object or the next member. -/
def afterMember (fuel room : Nat) (members : List (List Symbol × Json)) (s : List Char) :
    Except Stop (Json × List Char) :=
  match s with
  | '\x7d' :: rest => .ok (.object members, rest)
  | ',' :: r => readMembers fuel room members (skipSpace r)
  | r => .error (.inner ⟨.expectingComma, r.length⟩ room)

/-- What follows the name of a member: a colon and the value. -/
def afterName (fuel room : Nat) (members : List (List Symbol × Json)) (name : List Symbol)
    (s : List Char) : Except Stop (Json × List Char) :=
  match s with
  | ':' :: r =>
    match readValue fuel room (skipSpace r) with
    | .ok (value, r) => afterMember fuel room (putMember name value members) (skipSpace r)
    | .error e => .error e
  | r => .error (.inner ⟨.expectingColon, r.length⟩ room)

section

variable {fuel room : Nat} {done : List Json} {members : List (List Symbol × Json)}
  {name : List Symbol} {s : List Char}

theorem afterItem_of_head (hclose : s.head? ≠ some ']') (hcomma : s.head? ≠ some ',') :
    afterItem fuel room done s = .error (.inner ⟨.expectingComma, s.length⟩ room) := by
  unfold afterItem
  split
  · simp at hclose
  · simp at hcomma
  · rfl

theorem afterMember_of_head (hclose : s.head? ≠ some '\x7d') (hcomma : s.head? ≠ some ',') :
    afterMember fuel room members s = .error (.inner ⟨.expectingComma, s.length⟩ room) := by
  unfold afterMember
  split
  · simp at hclose
  · simp at hcomma
  · rfl

theorem afterName_colon (r : List Char) :
    afterName fuel room members name (':' :: r) =
      match readValue fuel room (skipSpace r) with
      | .ok (value, r) => afterMember fuel room (putMember name value members) (skipSpace r)
      | .error e => .error e :=
  rfl

theorem afterName_of_head (h : s.head? ≠ some ':') :
    afterName fuel room members name s = .error (.inner ⟨.expectingColon, s.length⟩ room) := by
  unfold afterName
  split
  · simp at h
  · rfl

theorem readItems_succ :
    readItems (fuel + 1) room done s =
      match readValue fuel room s with
      | .ok (value, r) => afterItem fuel room (value :: done) (skipSpace r)
      | .error e => .error e := by
  rw [readItems]
  cases readValue fuel room s with
  | error e => rfl
  | ok p => rfl

theorem readMembers_quote :
    readMembers (fuel + 1) room members ('"' :: s) =
      match readString (s.length + 1) s with
      | .ok (name, r) => afterName fuel room members name (skipSpace r)
      | .error e => .error (.inner e room) := by
  rw [readMembers]
  cases readString (s.length + 1) s with
  | error e => rfl
  | ok p =>
    obtain ⟨name, r⟩ := p
    simp only [Except.mapError, bind, Except.bind]
    split
    · rename_i r' hr
      rw [hr, afterName_colon]
      cases readValue fuel room (skipSpace r') with
      | error e => rfl
      | ok q => rfl
    · rename_i hcolon
      refine (afterName_of_head fun hhead => ?_).symm
      obtain ⟨r', hr'⟩ := List.head?_eq_some_iff.1 hhead
      exact hcolon r' hr'

theorem readMembers_of_head (h : s.head? ≠ some '"') :
    readMembers (fuel + 1) room members s =
      .error (.inner ⟨.expectingName, s.length⟩ room) := by
  rw [readMembers]
  rintro r rfl
  simp at h

theorem readValue_quote :
    readValue (fuel + 1) room ('"' :: s) =
      match readString (s.length + 1) s with
      | .ok (t, rest) => .ok (.text t, rest)
      | .error e => .error (.inner e room) := by
  rw [readValue]
  cases readString (s.length + 1) s with
  | error e => rfl
  | ok p => rfl

/-- A name or number is read if it takes no level, or one is left for it. -/
theorem readValue_scalar (h : ∀ c ∈ s.head?, c ∉ ['"', '[', '\x7b']) :
    readValue (fuel + 1) room s =
      if room = 0 && isNumberName s then .error .tooDeep else readScalar s := by
  rw [readValue]
  all_goals
    rintro r rfl
    simp at h

theorem readValue_openList_zero :
    readValue (fuel + 1) 0 ('[' :: s) = .error .tooDeep := by
  rw [readValue, if_pos rfl]

theorem readValue_openObject_zero :
    readValue (fuel + 1) 0 ('\x7b' :: s) = .error .tooDeep := by
  rw [readValue, if_pos rfl]

theorem readValue_openList_succ :
    readValue (fuel + 1) (room + 1) ('[' :: s) =
      match skipSpace s with
      | ']' :: rest => .ok (.list [], rest)
      | r => readItems fuel room [] r := by
  rw [readValue, if_neg (Nat.succ_ne_zero room)]
  rfl

theorem readValue_openObject_succ :
    readValue (fuel + 1) (room + 1) ('\x7b' :: s) =
      match skipSpace s with
      | '\x7d' :: rest => .ok (.object [], rest)
      | r => readMembers fuel room [] r := by
  rw [readValue, if_neg (Nat.succ_ne_zero room)]
  rfl

/-- The items of a list that is not empty. -/
theorem readValue_openList (h : (skipSpace s).head? ≠ some ']') :
    readValue (fuel + 1) (room + 1) ('[' :: s) = readItems fuel room [] (skipSpace s) := by
  rw [readValue_openList_succ]
  split
  · rename_i rest heq
    simp [heq] at h
  · rfl

/-- The members of an object that is not empty. -/
theorem readValue_openObject (h : (skipSpace s).head? ≠ some '\x7d') :
    readValue (fuel + 1) (room + 1) ('\x7b' :: s) = readMembers fuel room [] (skipSpace s) := by
  rw [readValue_openObject_succ]
  split
  · rename_i rest heq
    simp [heq] at h
  · rfl

end

/-! ## Trees are read -/

theorem Form.tokens_length_pos (f : Form) : 0 < f.tokens.length := by
  cases f with
  | scalar x => simp [tokens]
  | text l => simp [tokens]
  | list items => cases items <;> simp [tokens]
  | object members => cases members <;> simp [tokens]

theorem laterItems_eq (fs : List Form) : ∃ m ts, laterItems fs = .mark m :: ts := by
  cases fs with
  | nil => exact ⟨_, _, by rw [laterItems]⟩
  | cons f fs => exact ⟨_, _, by rw [laterItems]⟩

theorem laterMembers_eq (ms : List (Literal × Form)) :
    ∃ m ts, laterMembers ms = .mark m :: ts := by
  cases ms with
  | nil => exact ⟨_, _, by rw [laterMembers]⟩
  | cons m ms => exact ⟨_, _, by rw [laterMembers]⟩

/-- What is read of a text is known, and what is left is known up to white space. -/
def Gives (res : Except Stop (Json × List Char)) (v : Json) (r : List Char) : Prop :=
  ∃ rest, res = .ok (v, rest) ∧ skipSpace rest = skipSpace r

theorem Gives.readItems {fuel room : Nat} {done : List Json} {s q r : List Char} {v w : Json}
    (hvalue : Gives (readValue fuel room (skipSpace s)) v q)
    (hafter : Gives (afterItem fuel room (v :: done) (skipSpace q)) w r) :
    Gives (readItems (fuel + 1) room done (skipSpace s)) w r := by
  obtain ⟨rest, hread, hskip⟩ := hvalue
  rw [readItems_succ, hread]
  simpa only [hskip] using hafter

/-- The text of a string, from its opening quote on. -/
theorem Starts.exists_quote {l : Literal} {ts : List Token} {s r : List Char}
    (h : Starts (.string l :: ts) s r) :
    ∃ y, skipSpace s = '"' :: (l.body ++ '"' :: y) ∧ Starts ts y r := by
  obtain ⟨y, hy, hrest⟩ := h.exists_cons
  refine ⟨y, ?_, hrest⟩
  rw [hy, Token.text, Literal.text, List.cons_append, List.append_assoc, List.singleton_append]

/-- The name of a member is read. -/
theorem readMembers_of_starts_name (name : Literal) (fuel room : Nat)
    (members : List (List Symbol × Json)) {ts : List Token} {s r : List Char}
    (h : Starts (.string name :: ts) s r) :
    ∃ y, Starts ts y r ∧ readMembers (fuel + 1) room members (skipSpace s) =
      afterName fuel room members name.value (skipSpace y) := by
  obtain ⟨y, hy, hrest⟩ := h.exists_quote
  refine ⟨y, hrest, ?_⟩
  rw [hy, readMembers_quote, readString_append name.spells]

/-- The name of a member and the colon are read, and then the value. -/
theorem readMembers_of_starts (name : Literal) (fuel room : Nat)
    (members : List (List Symbol × Json)) {ts : List Token} {s r : List Char}
    (h : Starts (.string name :: .mark .colon :: ts) s r) :
    ∃ y, Starts ts y r ∧ readMembers (fuel + 1) room members (skipSpace s) =
      match readValue fuel room (skipSpace y) with
      | .ok (value, r) => afterMember fuel room (putMember name.value value members) (skipSpace r)
      | .error e => .error e := by
  obtain ⟨x, hcolon, hread⟩ := readMembers_of_starts_name name fuel room members h
  obtain ⟨y, hy, hrest⟩ := hcolon.exists_cons
  refine ⟨y, hrest, ?_⟩
  rw [hread, hy]
  rfl

theorem Gives.readMembers {name : Literal} {fuel room : Nat}
    {members : List (List Symbol × Json)} {ts : List Token} {s q r r' : List Char} {v w : Json}
    (h : Starts (.string name :: .mark .colon :: ts) s r')
    (hvalue : ∀ y, Starts ts y r' → Gives (readValue fuel room (skipSpace y)) v q)
    (hafter : Gives (afterMember fuel room (putMember name.value v members) (skipSpace q)) w r) :
    Gives (readMembers (fuel + 1) room members (skipSpace s)) w r := by
  obtain ⟨y, hy, hmember⟩ := readMembers_of_starts name fuel room members h
  obtain ⟨rest, hread, hskip⟩ := hvalue y hy
  rw [hmember, hread]
  simpa only [hskip] using hafter

/-- A list that starts with a mark has at least one token. -/
theorem laterItems_length_pos (fs : List Form) : 0 < (laterItems fs).length := by
  obtain ⟨m, ts, h⟩ := laterItems_eq fs
  simp [h]

theorem laterMembers_length_pos (ms : List (Literal × Form)) : 0 < (laterMembers ms).length := by
  obtain ⟨m, ts, h⟩ := laterMembers_eq ms
  simp [h]

/-- The characters of scalars start no string, list or object. -/
theorem not_opens_of_inScalar {c : Char} {s : List Char} (h : inScalar c = true) :
    ∀ d ∈ (c :: s).head?, d ∉ ['"', '[', '\x7b'] := by
  have hc := (ne_of_inScalar h).2
  rintro d hd
  obtain rfl : c = d := by simpa using hd
  simp only [List.mem_cons, not_or] at hc ⊢
  exact ⟨hc.1, hc.2.2.1, hc.2.2.2.2.1, List.not_mem_nil⟩

theorem Scalar.not_opens (x : Scalar) (r : List Char) :
    ∀ d ∈ (x.text ++ r).head?, d ∉ ['"', '[', '\x7b'] := by
  obtain ⟨hne, hall⟩ := x.isScalar.inScalar
  obtain ⟨c, t, ht⟩ := List.exists_cons_of_ne_nil hne
  rw [ht, List.cons_append]
  exact not_opens_of_inScalar (hall c (ht ▸ List.mem_cons_self))

theorem Scalar.readValue_append (x : Scalar) (fuel : Nat) {room : Nat} {r : List Char}
    (hr : (Form.scalar x).EndsAt r) (hroom : (Form.scalar x).levels ≤ room) :
    readValue (fuel + 1) room (x.text ++ r) = .ok (x.value, r) := by
  have hlevel : ¬ (room = 0 && isNumberName (x.text ++ r)) = true := by
    rw [x.isScalar.isNumberName_append]
    rw [Form.levels] at hroom
    intro h
    simp only [Bool.and_eq_true, decide_eq_true_eq] at h
    rw [if_pos h.2] at hroom
    omega
  rw [readValue_scalar (x.not_opens r), if_neg hlevel]
  exact hr

/-- The first token of a tree does not close a list. -/
theorem Form.head?_of_starts (f : Form) {ts : List Token} {s r : List Char}
    (h : Starts (f.tokens ++ ts) s r) : (skipSpace s).head? ≠ some ']' := by
  have hmark : ∀ {m us}, Starts (.mark m :: us) s r → m.char ≠ ']' →
      (skipSpace s).head? ≠ some ']' := by
    intro m us hm hne
    obtain ⟨y, hy, -⟩ := hm.exists_cons
    simpa [hy, Token.text] using hne
  cases f with
  | scalar x =>
    have hx : Starts (.scalar x :: ts) s r := h
    obtain ⟨y, hy, -⟩ := hx.exists_cons
    obtain ⟨hne, hall⟩ := x.isScalar.inScalar
    obtain ⟨c, t, ht⟩ := List.exists_cons_of_ne_nil hne
    have hc := (ne_of_inScalar (hall c (ht ▸ List.mem_cons_self))).2
    simp only [List.mem_cons, not_or] at hc
    rw [hy, Token.text, ht]
    simpa using hc.2.2.2.1
  | text l =>
    have hl : Starts (.string l :: ts) s r := h
    obtain ⟨y, hy, -⟩ := hl.exists_quote
    simp [hy]
  | list items => cases items <;> exact hmark h (by decide)
  | object members => cases members <;> exact hmark h (by decide)

/-- A string does not close an object. -/
theorem Starts.head?_of_string {l : Literal} {ts : List Token} {s r : List Char}
    (h : Starts (.string l :: ts) s r) : (skipSpace s).head? ≠ some '\x7d' := by
  obtain ⟨y, hy, -⟩ := h.exists_quote
  simp [hy]

theorem Starts.head?_of_earlierMembers {before : List (Literal × Form)} {l : Literal}
    {ts : List Token} {s r : List Char}
    (h : Starts (earlierMembers before ++ .string l :: ts) s r) :
    (skipSpace s).head? ≠ some '\x7d' := by
  cases before with
  | nil => exact h.head?_of_string
  | cons m ms =>
    rw [earlierMembers_cons, List.cons_append] at h
    exact h.head?_of_string

mutual

/-- The layout of a tree is read up to its end, if it takes no more levels than there are. -/
theorem Form.readValue_of_starts (f : Form) (fuel room : Nat) {s r : List Char}
    (h : Starts f.tokens s r) (hr : f.EndsAt r) (hfuel : f.tokens.length ≤ fuel)
    (hroom : f.levels ≤ room) :
    Gives (readValue fuel room (skipSpace s)) f.value r := by
  obtain ⟨fuel, rfl⟩ : ∃ n, fuel = n + 1 :=
    Nat.exists_eq_succ_of_ne_zero (by have := f.tokens_length_pos; omega)
  match f with
  | .scalar x =>
    rw [Form.tokens] at h
    obtain ⟨y, hy, hrest⟩ := h.exists_cons
    rw [hy]
    exact ⟨y, x.readValue_append fuel (hrest.endsAt_nil hr) hroom, hrest.skipSpace_eq⟩
  | .text l =>
    rw [Form.tokens] at h
    obtain ⟨y, hy, hrest⟩ := h.exists_quote
    refine ⟨y, ?_, hrest.skipSpace_eq⟩
    rw [hy, readValue_quote, readString_append l.spells, Form.value]
  | .list [] =>
    rw [Form.tokens] at h
    rw [Form.levels] at hroom
    obtain ⟨room, rfl⟩ := Nat.exists_eq_add_of_le' (Nat.le_of_add_left_le hroom)
    obtain ⟨y, hy, hclose⟩ := h.exists_cons
    obtain ⟨z, hz, hrest⟩ := hclose.exists_cons
    refine ⟨z, ?_, hrest.skipSpace_eq⟩
    have hlist : readValue (fuel + 1) (room + 1) ('[' :: y) = .ok (.list [], z) := by
      rw [readValue_openList_succ, hz]
      rfl
    rw [hy, Form.value, itemValues]
    exact hlist
  | .list (f :: fs) =>
    rw [Form.tokens] at h hfuel
    rw [Form.levels, Form.itemLevels] at hroom
    obtain ⟨room, rfl⟩ := Nat.exists_eq_add_of_le' (Nat.le_of_add_left_le hroom)
    obtain ⟨y, hy, hitems⟩ := h.exists_cons
    obtain ⟨q, hfirst, hlater⟩ := hitems.exists_append
    obtain ⟨m, ts, hm⟩ := laterItems_eq fs
    rw [List.length_cons, List.length_append] at hfuel
    have hpos := f.tokens_length_pos
    have hpos' := laterItems_length_pos fs
    obtain ⟨fuel, rfl⟩ : ∃ n, fuel = n + 1 := Nat.exists_eq_succ_of_ne_zero (by omega)
    have hvalue :=
      f.readValue_of_starts fuel room hfirst (hm ▸ hlater).endsAt (by omega) (by omega)
    have hafter := afterItem_of_starts fs fuel room [f.value] hlater (by omega) (by omega)
    have hlist : readValue (fuel + 1 + 1) (room + 1) ('[' :: y) =
        readItems (fuel + 1) room [] (skipSpace y) :=
      readValue_openList (f.head?_of_starts hitems)
    rw [hy, Form.value, itemValues]
    exact hlist ▸ hvalue.readItems hafter
  | .object [] =>
    rw [Form.tokens] at h
    rw [Form.levels] at hroom
    obtain ⟨room, rfl⟩ := Nat.exists_eq_add_of_le' (Nat.le_of_add_left_le hroom)
    obtain ⟨y, hy, hclose⟩ := h.exists_cons
    obtain ⟨z, hz, hrest⟩ := hclose.exists_cons
    refine ⟨z, ?_, hrest.skipSpace_eq⟩
    have hobject : readValue (fuel + 1) (room + 1) ('\x7b' :: y) = .ok (.object [], z) := by
      rw [readValue_openObject_succ, hz]
      rfl
    rw [hy, Form.value, memberValues]
    exact hobject
  | .object ((name, f) :: ms) =>
    rw [Form.tokens] at h hfuel
    rw [Form.levels, Form.memberLevels] at hroom
    obtain ⟨room, rfl⟩ := Nat.exists_eq_add_of_le' (Nat.le_of_add_left_le hroom)
    obtain ⟨y, hy, hmembers⟩ := h.exists_cons
    have hhead := hmembers.head?_of_string
    rw [← List.cons_append, ← List.cons_append] at hmembers
    obtain ⟨q, hfirst, hlater⟩ := hmembers.exists_append
    obtain ⟨m, ts, hm⟩ := laterMembers_eq ms
    simp only [List.length_cons, List.length_append] at hfuel
    have hpos := laterMembers_length_pos ms
    obtain ⟨fuel, rfl⟩ : ∃ n, fuel = n + 1 := Nat.exists_eq_succ_of_ne_zero (by omega)
    have hafter := afterMember_of_starts ms fuel room
      (putMember name.value f.value []) hlater (by omega) (by omega)
    have hread := Gives.readMembers hfirst (fun y hy =>
      f.readValue_of_starts fuel room hy (hm ▸ hlater).endsAt (by omega) (by omega)) hafter
    have hobject : readValue (fuel + 1 + 1) (room + 1) ('\x7b' :: y) =
        readMembers (fuel + 1) room [] (skipSpace y) :=
      readValue_openObject hhead
    rw [hy, Form.value, memberValues]
    exact hobject ▸ hread

theorem afterItem_of_starts (fs : List Form) (fuel room : Nat) (done : List Json)
    {s r : List Char} (h : Starts (laterItems fs) s r)
    (hfuel : (laterItems fs).length ≤ fuel + 1) (hroom : Form.itemLevels fs ≤ room) :
    Gives (afterItem fuel room done (skipSpace s)) (.list (done.reverse ++ itemValues fs)) r := by
  match fs with
  | [] =>
    rw [laterItems] at h
    obtain ⟨y, hy, hrest⟩ := h.exists_cons
    rw [hy, itemValues, List.append_nil]
    exact ⟨y, rfl, hrest.skipSpace_eq⟩
  | f :: fs =>
    rw [laterItems] at h hfuel
    rw [Form.itemLevels] at hroom
    obtain ⟨y, hy, hitems⟩ := h.exists_cons
    obtain ⟨q, hfirst, hlater⟩ := hitems.exists_append
    obtain ⟨m, ts, hm⟩ := laterItems_eq fs
    rw [List.length_cons, List.length_append] at hfuel
    have hpos := f.tokens_length_pos
    have hpos' := laterItems_length_pos fs
    obtain ⟨fuel, rfl⟩ : ∃ n, fuel = n + 1 := Nat.exists_eq_succ_of_ne_zero (by omega)
    have hvalue :=
      f.readValue_of_starts fuel room hfirst (hm ▸ hlater).endsAt (by omega) (by omega)
    have hafter :=
      afterItem_of_starts fs fuel room (f.value :: done) hlater (by omega) (by omega)
    rw [List.reverse_cons, List.append_assoc, List.singleton_append] at hafter
    rw [hy, itemValues]
    exact hvalue.readItems hafter

theorem afterMember_of_starts (ms : List (Literal × Form)) (fuel room : Nat)
    (members : List (List Symbol × Json)) {s r : List Char} (h : Starts (laterMembers ms) s r)
    (hfuel : (laterMembers ms).length ≤ fuel + 1) (hroom : Form.memberLevels ms ≤ room) :
    Gives (afterMember fuel room members (skipSpace s)) (.object (memberValues members ms)) r := by
  match ms with
  | [] =>
    rw [laterMembers] at h
    obtain ⟨y, hy, hrest⟩ := h.exists_cons
    rw [hy, memberValues]
    exact ⟨y, rfl, hrest.skipSpace_eq⟩
  | (name, f) :: ms =>
    rw [laterMembers] at h hfuel
    rw [Form.memberLevels] at hroom
    obtain ⟨y, hy, hmembers⟩ := h.exists_cons
    rw [← List.cons_append, ← List.cons_append] at hmembers
    obtain ⟨q, hfirst, hlater⟩ := hmembers.exists_append
    obtain ⟨m, ts, hm⟩ := laterMembers_eq ms
    simp only [List.length_cons, List.length_append] at hfuel
    have hpos := laterMembers_length_pos ms
    obtain ⟨fuel, rfl⟩ : ∃ n, fuel = n + 1 := Nat.exists_eq_succ_of_ne_zero (by omega)
    have hafter := afterMember_of_starts ms fuel room
      (putMember name.value f.value members) hlater (by omega) (by omega)
    rw [hy, memberValues]
    exact Gives.readMembers hfirst (fun y hy =>
      f.readValue_of_starts fuel room hy (hm ▸ hlater).endsAt (by omega) (by omega)) hafter

end

end Reindent.Json
