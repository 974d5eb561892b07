import Mathlib
import Reindent.Proofs.Json.Stops

/-!
# What is read has a tree

Whatever the reader takes is the layout of a syntax tree, and wherever it stops inside a value, the
text in front of that point is the start of a document (`readsRows`). The three parts of the reader
are followed at once, by induction on the steps they may take.
-/

namespace Reindent.Json

open Text

/-- What comes of reading a text that is to hold something: `Found v ts rest` says which rows of
tokens stand for the value `v` in front of `rest`, and `Before ts r stop` in front of which texts
the reading stops, and why. -/
inductive Reading (Found : Json → List Token → List Char → Prop)
    (Before : List Token → List Char → Stop → Prop) (s : List Char) :
    Except Stop (Json × List Char) → Prop where
  | found {v : Json} {ts : List Token} {rest : List Char} (hv : Found v ts rest)
      (hs : Starts ts s rest) : Reading Found Before s (.ok (v, rest))
  | stopped {ts : List Token} {r : List Char} {stop : Stop} (h : Before ts r stop)
      (hs : Starts ts s r) : Reading Found Before s (.error stop)
  | fault (f : Fault) : Reading Found Before s (.error (.fault f))

/-- The rows of tokens of a value. -/
def FormRow (room : Nat) (v : Json) (ts : List Token) (rest : List Char) : Prop :=
  ∃ f : Form, f.value = v ∧ f.tokens = ts ∧ f.levels ≤ room ∧ f.EndsAt rest

/-- The rows of tokens in front of a point at which the reading stops. -/
def BeforeRow (room : Nat) (ts : List Token) (r : List Char) (stop : Stop) : Prop :=
  ∃ u : Unfinished, u.tokens = ts ∧ u.levels ≤ room ∧ u.StopsWith (room - u.depth) r stop

/-- The rows of tokens of the items that follow `done` in a list, up to its end. -/
def ItemsRow (room : Nat) (done : List Json) (v : Json) (ts : List Token) (_ : List Char) : Prop :=
  ∃ f fs, v = .list (done.reverse ++ itemValues (f :: fs)) ∧ f.tokens ++ laterItems fs = ts ∧
    Form.itemLevels (f :: fs) ≤ room

/-- The rows of tokens in front of a point inside a list at which the reading stops. -/
inductive BeforeItemRow (room : Nat) : List Token → List Char → Stop → Prop where
  | inner (fs : List Form) (u : Unfinished) {r : List Char} {stop : Stop}
      (hfs : Form.itemLevels fs ≤ room) (hu : u.levels ≤ room)
      (h : u.StopsWith (room - u.depth) r stop) :
      BeforeItemRow room (earlierItems fs ++ u.tokens) r stop
  | behind (fs : List Form) (f : Form) {r : List Char} (e : Fault)
      (hfs : Form.itemLevels fs ≤ room) (hf : f.levels ≤ room)
      (h : (Unfinished.behindItem fs f).Broken r) :
      BeforeItemRow room (earlierItems fs ++ f.tokens) r (.inner e room)

/-- The rows of tokens of the members that follow `done` in an object, up to its end. -/
def MembersRow (room : Nat) (done : List (List Symbol × Json)) (v : Json) (ts : List Token)
    (_ : List Char) : Prop :=
  ∃ name f ms, v = .object (memberValues done ((name, f) :: ms)) ∧
    .string name :: .mark .colon :: (f.tokens ++ laterMembers ms) = ts ∧
    Form.memberLevels ((name, f) :: ms) ≤ room

/-- The rows of tokens in front of a point inside an object at which the reading stops. -/
inductive BeforeMemberRow (room : Nat) : List Token → List Char → Stop → Prop where
  | inner (ms : List (Literal × Form)) (name : Literal) (u : Unfinished) {r : List Char}
      {stop : Stop} (hms : Form.memberLevels ms ≤ room) (hu : u.levels ≤ room)
      (h : u.StopsWith (room - u.depth) r stop) :
      BeforeMemberRow room (earlierMembers ms ++ (.string name :: .mark .colon :: u.tokens)) r stop
  | atName (ms : List (Literal × Form)) {r : List Char} (e : Fault)
      (hms : Form.memberLevels ms ≤ room)
      (h : OpensNoString (skipSpace r) ∨ (skipSpace r).head? ≠ some '"') :
      BeforeMemberRow room (earlierMembers ms) r (.inner e room)
  | behindName (ms : List (Literal × Form)) (name : Literal) {r : List Char} (e : Fault)
      (hms : Form.memberLevels ms ≤ room) (h : (Unfinished.behindName ms name).Broken r) :
      BeforeMemberRow room (earlierMembers ms ++ [.string name]) r (.inner e room)
  | behind (ms : List (Literal × Form)) (name : Literal) (f : Form) {r : List Char} (e : Fault)
      (hms : Form.memberLevels ms ≤ room) (hf : f.levels ≤ room)
      (h : (Unfinished.behindMember ms name f).Broken r) :
      BeforeMemberRow room (earlierMembers ms ++ (.string name :: .mark .colon :: f.tokens)) r
        (.inner e room)

section

variable {room : Nat} {ts : List Token} {r s : List Char} {stop : Stop}

/-- Another item may stand in front. -/
theorem BeforeItemRow.cons (h : BeforeItemRow room ts r stop) {f : Form} (hf : f.levels ≤ room) :
    BeforeItemRow room (f.tokens ++ (.mark .comma :: ts)) r stop := by
  have hlevels : ∀ {fs}, Form.itemLevels fs ≤ room → Form.itemLevels (f :: fs) ≤ room := by
    intro fs hfs
    rw [Form.itemLevels]
    omega
  cases h with
  | inner fs u hfs hu h =>
    have := BeforeItemRow.inner (f :: fs) u (hlevels hfs) hu h
    rwa [earlierItems_cons, List.append_assoc] at this
  | behind fs g e hfs hg h =>
    have := BeforeItemRow.behind (f :: fs) g e (hlevels hfs) hg h
    rwa [earlierItems_cons, List.append_assoc] at this

/-- The list is open in front. -/
theorem BeforeItemRow.openList (h : BeforeItemRow room ts r stop) :
    BeforeRow (room + 1) (.mark .openList :: ts) r stop := by
  cases h with
  | inner fs u hfs hu h =>
    refine ⟨.item fs u, rfl, ?_, ?_⟩
    · rw [Unfinished.levels]
      omega
    · rw [Unfinished.depth, Nat.add_sub_add_right]
      cases stop <;> exact h
  | behind fs f e hfs hf h =>
    refine ⟨.behindItem fs f, rfl, ?_, h, rfl⟩
    rw [Unfinished.levels]
    omega

/-- Another member may stand in front. -/
theorem BeforeMemberRow.cons (h : BeforeMemberRow room ts r stop) (name : Literal) {f : Form}
    (hf : f.levels ≤ room) :
    BeforeMemberRow room (.string name :: .mark .colon :: (f.tokens ++ (.mark .comma :: ts))) r
      stop := by
  have hlevels : ∀ {ms}, Form.memberLevels ms ≤ room →
      Form.memberLevels ((name, f) :: ms) ≤ room := by
    intro ms hms
    rw [Form.memberLevels]
    omega
  cases h with
  | inner ms name' u hms hu h =>
    have := BeforeMemberRow.inner ((name, f) :: ms) name' u (hlevels hms) hu h
    simpa [earlierMembers_cons] using this
  | atName ms e hms h =>
    have := BeforeMemberRow.atName ((name, f) :: ms) e (hlevels hms) h
    simpa [earlierMembers_cons] using this
  | behindName ms name' e hms h =>
    have := BeforeMemberRow.behindName ((name, f) :: ms) name' e (hlevels hms) h
    simpa [earlierMembers_cons] using this
  | behind ms name' g e hms hg h =>
    have := BeforeMemberRow.behind ((name, f) :: ms) name' g e (hlevels hms) hg h
    simpa [earlierMembers_cons] using this

/-- The object is open in front, and not closed at once. -/
theorem BeforeMemberRow.openObject (h : BeforeMemberRow room ts r stop) (hs : Starts ts s r)
    (hopen : (skipSpace s).head? ≠ some '\x7d') :
    BeforeRow (room + 1) (.mark .openObject :: ts) r stop := by
  cases h with
  | inner ms name u hms hu h =>
    refine ⟨.member ms name u, rfl, ?_, ?_⟩
    · rw [Unfinished.levels]
      omega
    · rw [Unfinished.depth, Nat.add_sub_add_right]
      cases stop <;> exact h
  | atName ms e hms h =>
    refine ⟨.atName ms, rfl, by rw [Unfinished.levels]; omega, ?_, rfl⟩
    refine h.imp_right fun hquote => ⟨hquote, ?_⟩
    rintro rfl
    rwa [Starts.skipSpace_eq hs] at hopen
  | behindName ms name e hms h =>
    exact ⟨.behindName ms name, rfl, by rw [Unfinished.levels]; omega, h, rfl⟩
  | behind ms name f e hms hf h =>
    exact ⟨.behindMember ms name f, rfl, by rw [Unfinished.levels]; omega, h, rfl⟩

end

/-- The three parts of the reader with some number of steps. -/
structure ReadsRows (fuel : Nat) : Prop where
  value : ∀ room s, Reading (FormRow room) (BeforeRow room) s (readValue fuel room s)
  items : ∀ room done s,
    Reading (ItemsRow room done) (BeforeItemRow room) s (readItems fuel room done s)
  members : ∀ room done s, skipSpace s = s →
    Reading (MembersRow room done) (BeforeMemberRow room) s (readMembers fuel room done s)

/-- A longer text is read as what comes of the rest says. -/
theorem Reading.prepend {Found Found' : Json → List Token → List Char → Prop}
    {Before Before' : List Token → List Char → Stop → Prop} {s q : List Char} {us : List Token}
    {res : Except Stop (Json × List Char)} (h : Reading Found Before (skipSpace q) res)
    (hs : Starts us s q) (hfound : ∀ v ts rest, Found v ts rest → Found' v (us ++ ts) rest)
    (hbefore : ∀ ts r stop, Before ts r stop → Starts ts q r → Before' (us ++ ts) r stop) :
    Reading Found' Before' s res := by
  cases h with
  | found hv h => exact .found (hfound _ _ _ hv) (hs.trans h.of_skipSpace)
  | stopped h hr => exact .stopped (hbefore _ _ _ h hr.of_skipSpace) (hs.trans hr.of_skipSpace)
  | fault f => exact .fault f

theorem skipSpace_skipSpace (s : List Char) : skipSpace (skipSpace s) = skipSpace s :=
  List.dropWhile_idempotent isSpace s

theorem skipSpace_of_inScalar {c : Char} {s : List Char} (h : inScalar c = true) :
    skipSpace (c :: s) = c :: s :=
  skipSpace_of_head (by simp [isSpace_of_inScalar h])

theorem reading_scalar {room : Nat} {s : List Char}
    (hroom : ¬ (room = 0 && isNumberName s) = true) :
    Reading (FormRow room) (BeforeRow room) s (readScalar s) := by
  have hreading := scalarReading_readScalar s
  generalize hres : readScalar s = res at hreading
  cases hreading with
  | @found x rest v hs h =>
    refine .found ⟨.scalar ⟨_, _, h⟩, by rw [Form.value], rfl, ?_, ?_⟩ ?_
    · rw [Form.levels, ← h.isNumberName_append rest, ← hs]
      split_ifs with hname
      · rw [hname, Bool.and_true, decide_eq_true_eq] at hroom
        omega
      · exact Nat.zero_le _
    · rwa [hs] at hres
    · rw [Form.tokens, hs]
      exact (Starts.nil _).token (.scalar ⟨_, _, h⟩)
  | overlong n hs hn hrest =>
    have hoverlong : OverlongAt s n.whole.length := ⟨n, _, hs, hn, hrest, rfl⟩
    obtain ⟨c, t, hc, hscalar⟩ := hoverlong.exists_cons
    refine .stopped ⟨.here, rfl, Nat.zero_le _, rfl, ?_⟩ (.nil s)
    rwa [hc, skipSpace_of_inScalar hscalar, ← hc]
  | missing => exact .fault _

theorem ReadsRows.zero : ReadsRows 0 where
  value room s := by
    rw [readValue]
    exact .fault _
  items room done s := by
    rw [readItems]
    exact .fault _
  members room done s := by
    intro _
    rw [readMembers]
    exact .fault _

/-- A string at the start of a text, or a fault. -/
theorem exists_literal_of_readString {start : Nat} {s rest : List Char} {x : List Symbol}
    (h : readString start s = .ok (x, rest)) :
    ∃ l : Literal, l.value = x ∧ '"' :: s = l.text ++ rest := by
  obtain ⟨body, rfl, hbody⟩ := exists_spells_of_readString h
  exact ⟨⟨body, x, hbody⟩, rfl, by simp [Literal.text]⟩

theorem opensNoString_of_readString {start : Nat} {s : List Char} {e : Fault}
    (h : readString start s = .error e) : OpensNoString (skipSpace ('"' :: s)) := by
  rw [skipSpace_of_head (by simp; decide)]
  exact ⟨s, rfl, exists_error_readString_iff.1 ⟨e, h⟩⟩

/-- Without a level left, what takes one stops the reading. -/
theorem reading_tooDeep {s : List Char} (h : TakesLevel (skipSpace s)) :
    Reading (FormRow 0) (BeforeRow 0) s (.error .tooDeep) :=
  .stopped ⟨.here, rfl, Nat.zero_le _, rfl, rfl, h⟩ (.nil s)

theorem reading_quote (fuel room : Nat) (r : List Char) :
    Reading (FormRow room) (BeforeRow room) ('"' :: r) (readValue (fuel + 1) room ('"' :: r)) := by
  rw [readValue_quote]
  cases hread : readString (r.length + 1) r with
  | error e =>
    exact .stopped ⟨.here, rfl, Nat.zero_le _, opensNoString_of_readString hread, rfl⟩ (.nil _)
  | ok p =>
    obtain ⟨x, rest⟩ := p
    obtain ⟨l, rfl, hl⟩ := exists_literal_of_readString hread
    refine .found ⟨.text l, by rw [Form.value], by rw [Form.tokens],
      by rw [Form.levels]; exact Nat.zero_le _, trivial⟩ ?_
    rw [hl]
    exact (Starts.nil rest).token (.string l)

theorem ReadsRows.list_succ {fuel : Nat} (h : ReadsRows fuel) (room : Nat) (r : List Char) :
    Reading (FormRow room) (BeforeRow room) ('[' :: r) (readValue (fuel + 1) room ('[' :: r)) := by
  have hopen : Starts [.mark .openList] ('[' :: r) r := (Starts.nil r).mark .openList
  cases room with
  | zero =>
    rw [readValue_openList_zero]
    exact reading_tooDeep (.inl rfl)
  | succ room =>
    rw [readValue_openList_succ]
    split
    · rename_i rest hclose
      have hclosing : Starts [.mark .closeList] r rest := .of_skipSpace_eq hclose
      refine .found ⟨.list [], by rw [Form.value, itemValues], by rw [Form.tokens],
        by rw [Form.levels, Form.itemLevels]; omega, trivial⟩ ?_
      exact hopen.trans hclosing
    · refine (h.items room [] (skipSpace r)).prepend hopen ?_ fun _ _ _ h _ => h.openList
      rintro v ts rest ⟨f, fs, rfl, rfl, hlevels⟩
      exact ⟨.list (f :: fs), by rw [Form.value]; rfl, by rw [Form.tokens]; rfl,
        by rw [Form.levels]; omega, trivial⟩

theorem ReadsRows.object_succ {fuel : Nat} (h : ReadsRows fuel) (room : Nat) (r : List Char) :
    Reading (FormRow room) (BeforeRow room) ('\x7b' :: r)
      (readValue (fuel + 1) room ('\x7b' :: r)) := by
  have hopen : Starts [.mark .openObject] ('\x7b' :: r) r := (Starts.nil r).mark .openObject
  cases room with
  | zero =>
    rw [readValue_openObject_zero]
    exact reading_tooDeep (.inr (.inl rfl))
  | succ room =>
    rw [readValue_openObject_succ]
    split
    · rename_i rest hclose
      have hclosing : Starts [.mark .closeObject] r rest := .of_skipSpace_eq hclose
      refine .found ⟨.object [], by rw [Form.value, memberValues], by rw [Form.tokens],
        by rw [Form.levels, Form.memberLevels]; omega, trivial⟩ ?_
      exact hopen.trans hclosing
    · rename_i hnot
      have hhead : (skipSpace r).head? ≠ some '\x7d' := by
        intro hhead
        obtain ⟨t, ht⟩ := List.head?_eq_some_iff.1 hhead
        exact hnot t ht
      refine (h.members room [] (skipSpace r) (skipSpace_skipSpace r)).prepend hopen ?_
        fun _ _ _ h hs => h.openObject hs hhead
      rintro v ts rest ⟨name, f, ms, rfl, rfl, hlevels⟩
      exact ⟨.object ((name, f) :: ms), by rw [Form.value], by rw [Form.tokens]; rfl,
        by rw [Form.levels]; omega, trivial⟩

theorem ReadsRows.value_succ {fuel : Nat} (h : ReadsRows fuel) (room : Nat) (s : List Char) :
    Reading (FormRow room) (BeforeRow room) s (readValue (fuel + 1) room s) := by
  by_cases hscalar : ∀ c ∈ s.head?, c ∉ ['"', '[', '\x7b']
  · rw [readValue_scalar hscalar]
    split_ifs with hroom
    · obtain ⟨hzero, hname⟩ : room = 0 ∧ isNumberName s = true := by simpa using hroom
      obtain ⟨c, t, hc, hchar⟩ := exists_cons_of_isNumberName hname
      have hskip : skipSpace s = s := by rw [hc, skipSpace_of_inScalar hchar]
      rw [hzero]
      exact reading_tooDeep (.inr (.inr (hskip.symm ▸ hname)))
    · exact reading_scalar hroom
  · obtain ⟨c, r, rfl, hc⟩ : ∃ c r, s = c :: r ∧ (c = '"' ∨ c = '[' ∨ c = '\x7b') := by
      cases s with
      | nil => simp at hscalar
      | cons c r => exact ⟨c, r, rfl, by simpa [-not_or] using hscalar⟩
    rcases hc with rfl | rfl | rfl
    · exact reading_quote fuel room r
    · exact h.list_succ room r
    · exact h.object_succ room r

/-- An item is followed by the end of the list or by more items. -/
theorem ReadsRows.afterItem {fuel : Nat} (h : ReadsRows fuel) {room : Nat} {f : Form}
    (hf : f.levels ≤ room) (done : List Json) {s r : List Char} (hend : f.EndsAt r)
    (hs : Starts f.tokens s r) :
    Reading (ItemsRow room done) (BeforeItemRow room) s
      (Json.afterItem fuel room (f.value :: done) (skipSpace r)) := by
  by_cases hclose : (skipSpace r).head? = some ']'
  · obtain ⟨rest, hrest⟩ := List.head?_eq_some_iff.1 hclose
    rw [hrest]
    refine .found ⟨f, [], by rw [itemValues, itemValues, List.reverse_cons], rfl, ?_⟩ ?_
    · rw [Form.itemLevels, Form.itemLevels]
      omega
    rw [laterItems]
    exact hs.trans (.of_skipSpace_eq hrest)
  by_cases hcomma : (skipSpace r).head? = some ','
  · obtain ⟨q, hq⟩ := List.head?_eq_some_iff.1 hcomma
    have hnext : Starts (f.tokens ++ [.mark .comma]) s q := hs.trans (.of_skipSpace_eq hq)
    rw [hq]
    refine (h.items room (f.value :: done) (skipSpace q)).prepend hnext ?_ ?_
    · rintro v ts rest ⟨g, fs, rfl, rfl, hlevels⟩
      refine ⟨f, g :: fs, ?_, by rw [laterItems, List.append_assoc]; rfl, ?_⟩
      · rw [itemValues, itemValues, itemValues, List.reverse_cons, List.append_assoc]
        rfl
      · rw [Form.itemLevels]
        omega
    · intro ts r stop hbefore _
      rw [List.append_assoc]
      exact hbefore.cons hf
  · rw [afterItem_of_head hclose hcomma]
    exact .stopped (.behind [] f _ (Nat.zero_le _) hf ⟨hend, hclose, hcomma⟩) hs

theorem ReadsRows.items_succ {fuel : Nat} (h : ReadsRows fuel) (room : Nat) (done : List Json)
    (s : List Char) :
    Reading (ItemsRow room done) (BeforeItemRow room) s (readItems (fuel + 1) room done s) := by
  have hvalue := h.value room s
  rw [readItems_succ]
  generalize readValue fuel room s = res at hvalue
  cases hvalue with
  | found hv hs =>
    obtain ⟨f, rfl, rfl, hf, hend⟩ := hv
    exact h.afterItem hf done hend hs
  | stopped h hs =>
    obtain ⟨u, rfl, hu, hstop⟩ := h
    exact .stopped (.inner [] u (Nat.zero_le _) hu hstop) hs
  | fault f => exact .fault f

/-- A member is followed by the end of the object or by more members. -/
theorem ReadsRows.afterMember {fuel : Nat} (h : ReadsRows fuel) {room : Nat} (name : Literal)
    {f : Form} (hf : f.levels ≤ room) (done : List (List Symbol × Json)) {s r : List Char}
    (hend : f.EndsAt r) (hs : Starts (.string name :: .mark .colon :: f.tokens) s r) :
    Reading (MembersRow room done) (BeforeMemberRow room) s
      (Json.afterMember fuel room (putMember name.value f.value done) (skipSpace r)) := by
  by_cases hclose : (skipSpace r).head? = some '\x7d'
  · obtain ⟨rest, hrest⟩ := List.head?_eq_some_iff.1 hclose
    rw [hrest]
    refine .found ⟨name, f, [], by rw [memberValues, memberValues], rfl, ?_⟩ ?_
    · rw [Form.memberLevels, Form.memberLevels]
      omega
    rw [laterMembers]
    have hclosing : Starts [.mark .closeObject] r rest := .of_skipSpace_eq hrest
    exact hs.trans hclosing
  by_cases hcomma : (skipSpace r).head? = some ','
  · obtain ⟨q, hq⟩ := List.head?_eq_some_iff.1 hcomma
    have hnext : Starts (.string name :: .mark .colon :: (f.tokens ++ [.mark .comma])) s q := by
      have hmark : Starts [.mark .comma] r q := .of_skipSpace_eq hq
      exact hs.trans hmark
    rw [hq]
    have hmembers := h.members room (putMember name.value f.value done) (skipSpace q)
      (skipSpace_skipSpace q)
    refine hmembers.prepend hnext ?_ ?_
    · rintro v ts rest ⟨name', g, ms, rfl, rfl, hlevels⟩
      refine ⟨name, f, (name', g) :: ms, by rw [memberValues, memberValues, memberValues], ?_, ?_⟩
      · rw [laterMembers, List.cons_append, List.cons_append, List.append_assoc]
        rfl
      · rw [Form.memberLevels]
        omega
    · intro ts r stop hbefore _
      rw [List.cons_append, List.cons_append, List.append_assoc]
      exact hbefore.cons name hf
  · rw [afterMember_of_head hclose hcomma]
    exact .stopped (.behind [] name f _ (Nat.zero_le _) hf ⟨hend, hclose, hcomma⟩) hs

theorem ReadsRows.members_succ {fuel : Nat} (h : ReadsRows fuel) (room : Nat)
    (done : List (List Symbol × Json)) (s : List Char) (hskip : skipSpace s = s) :
    Reading (MembersRow room done) (BeforeMemberRow room) s
      (readMembers (fuel + 1) room done s) := by
  by_cases hquote : s.head? = some '"'
  · obtain ⟨r, rfl⟩ := List.head?_eq_some_iff.1 hquote
    rw [readMembers_quote]
    cases hread : readString (r.length + 1) r with
    | error e =>
      exact .stopped (.atName [] e (Nat.zero_le _) (.inl (opensNoString_of_readString hread)))
        (.nil _)
    | ok p =>
      obtain ⟨x, rest⟩ := p
      obtain ⟨name, rfl, hname⟩ := exists_literal_of_readString hread
      have hstring : Starts [.string name] ('"' :: r) rest := by
        rw [hname]
        exact (Starts.nil rest).token (.string name)
      simp only
      by_cases hcolon : (skipSpace rest).head? = some ':'
      · obtain ⟨q, hq⟩ := List.head?_eq_some_iff.1 hcolon
        have hs : Starts [.string name, .mark .colon] ('"' :: r) q :=
          hstring.trans (.of_skipSpace_eq hq)
        have hvalue := h.value room (skipSpace q)
        rw [hq, afterName_colon]
        generalize readValue fuel room (skipSpace q) = res at hvalue
        cases hvalue with
        | found hv hrest =>
          obtain ⟨f, rfl, rfl, hf, hend⟩ := hv
          exact h.afterMember name hf done hend (hs.trans hrest.of_skipSpace)
        | stopped h hrest =>
          obtain ⟨u, rfl, hu, hstop⟩ := h
          exact .stopped (.inner [] name u (Nat.zero_le _) hu hstop) (hs.trans hrest.of_skipSpace)
        | fault f => exact .fault f
      · rw [afterName_of_head hcolon]
        exact .stopped (.behindName [] name _ (Nat.zero_le _) hcolon) hstring
  · rw [readMembers_of_head hquote]
    exact .stopped (.atName [] _ (Nat.zero_le _) (.inr (by rwa [hskip]))) (.nil s)

theorem readsRows (fuel : Nat) : ReadsRows fuel := by
  induction fuel with
  | zero => exact .zero
  | succ fuel ih => exact ⟨ih.value_succ, ih.items_succ, ih.members_succ⟩

end Reindent.Json
