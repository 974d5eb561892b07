import Mathlib
import Reindent.Proofs.Json.Acceptance

/-!
# Where the reader stops

The reader stops behind the start of a document where the value that is to follow makes it stop
(`Unfinished.ends_of_atValue`): an integer that is too long, or a value that takes a level when
none is left. It also stops where the document is broken (`Unfinished.ends_of_broken`), and counts
the levels that are left there.
-/

namespace Reindent.Json

open Text

/-- An integer that is too long stands at the start of `s`, and so many digits are counted. -/
def OverlongAt (s : List Char) (digits : Nat) : Prop :=
  ∃ (n : Numeral) (rest : List Char), s = n.text ++ rest ∧ n.isOverlong = true ∧ EndsInteger rest ∧
    n.whole.length = digits

/-- A value that takes a level stands at the start of a text: a list, an object or a number that is
written as a name. -/
def TakesLevel (s : List Char) : Prop :=
  s.head? = some '[' ∨ s.head? = some '\x7b' ∨ isNumberName s = true

/-- The reading of a document that has come to some point, where so many levels and the text `r`
are left, stops there. -/
def Unfinished.StopsWith (u : Unfinished) (left : Nat) (r : List Char) : Stop → Prop
  | .overlong digits => u.atValue = true ∧ OverlongAt (skipSpace r) digits
  | .tooDeep => u.atValue = true ∧ left = 0 ∧ TakesLevel (skipSpace r)
  | .inner _ room => u.Broken r ∧ room = left
  | .fault _ => False

theorem Numeral.exists_text_eq (n : Numeral) : ∃ c r, n.text = c :: r ∧ inScalar c = true := by
  obtain ⟨d, ds, -, hn⟩ := n.exists_unsigned_eq
  obtain ⟨c, r, h⟩ := List.exists_cons_of_ne_nil (show n.text ≠ [] by simp [text, hn])
  exact ⟨c, r, h, n.inScalar_text c (h ▸ List.mem_cons_self)⟩

theorem OverlongAt.exists_cons {s : List Char} {digits : Nat} (h : OverlongAt s digits) :
    ∃ c r, s = c :: r ∧ inScalar c = true := by
  obtain ⟨n, rest, rfl, -, -, -⟩ := h
  obtain ⟨c, r, hn, hc⟩ := n.exists_text_eq
  exact ⟨c, r ++ rest, by rw [hn, List.cons_append], hc⟩

theorem OverlongAt.readValue_eq {s : List Char} {digits : Nat} (h : OverlongAt s digits)
    (fuel room : Nat) : readValue (fuel + 1) room s = .error (.overlong digits) := by
  have hopens : ∀ c ∈ s.head?, c ∉ ['"', '[', '\x7b'] := by
    obtain ⟨c, t, rfl, hc⟩ := h.exists_cons
    exact not_opens_of_inScalar hc
  obtain ⟨n, rest, rfl, hn, hrest, rfl⟩ := h
  have hinteger : n.isInteger = true := (Bool.and_eq_true_iff.1 hn).1
  rw [readValue_scalar hopens, n.isNumberName_append, Bool.and_false, if_neg (by simp),
    n.readScalar_append (n.readUnsigned_integer hinteger hrest), Numeral.result, if_pos hn]

theorem exists_cons_of_isNumberName {s : List Char} (h : isNumberName s = true) :
    ∃ c t, s = c :: t ∧ inScalar c = true := by
  have hnames : ∀ name ∈ numberNames, ∃ c t, name = c :: t ∧ inScalar c = true := by
    simp only [numberNames, List.forall_mem_cons]
    exact ⟨⟨_, _, rfl, by decide⟩, ⟨_, _, rfl, by decide⟩, ⟨_, _, rfl, by decide⟩,
      List.forall_mem_nil _⟩
  obtain ⟨name, hname, hbegins⟩ := List.any_eq_true.1 h
  obtain ⟨c, t, rfl, hc⟩ := hnames name hname
  obtain ⟨rest, rfl⟩ := List.isPrefixOf_iff_prefix.1 hbegins
  exact ⟨c, t ++ rest, rfl, hc⟩

theorem TakesLevel.readValue_eq {s : List Char} (h : TakesLevel s) (fuel : Nat) :
    readValue (fuel + 1) 0 s = .error .tooDeep := by
  rcases h with h | h | h
  · obtain ⟨t, rfl⟩ := List.head?_eq_some_iff.1 h
    exact readValue_openList_zero
  · obtain ⟨t, rfl⟩ := List.head?_eq_some_iff.1 h
    exact readValue_openObject_zero
  · obtain ⟨c, t, rfl, hc⟩ := exists_cons_of_isNumberName h
    rw [readValue_scalar (not_opens_of_inScalar hc), h]
    rfl

theorem OpensNoString.exists_eq {s : List Char} (h : OpensNoString s) :
    ∃ t e, s = '"' :: t ∧ readString (t.length + 1) t = .error e := by
  obtain ⟨t, rfl, ht⟩ := h
  obtain ⟨e, he⟩ := exists_error_readString_iff.2 ht
  exact ⟨t, e, rfl, he⟩

/-- Whether something is wrong outside all values. -/
def Stop.isFault : Stop → Bool
  | .fault _ => true
  | _ => false

/-- What is read ends with a stop of some kind. -/
def Ends (P : Stop → Prop) (res : Except Stop (Json × List Char)) : Prop :=
  ∃ stop, res = .error stop ∧ P stop

section

variable {P : Stop → Prop} {ts : List Token} {r : List Char} {room : Nat}

/-- If the reading of the items that are to follow stops, so does that of a list with others in
front of them. -/
theorem ends_readItems (bound : Nat) {before : List Form} (hbefore : Form.itemLevels before ≤ room)
    (hinner : ∀ fuel done s, bound ≤ fuel → Starts ts s r →
      Ends P (readItems fuel room done (skipSpace s)))
    (fuel : Nat) (done : List Json) {s : List Char} (h : Starts (earlierItems before ++ ts) s r)
    (hfuel : (earlierItems before).length + bound ≤ fuel) :
    Ends P (readItems fuel room done (skipSpace s)) := by
  induction before generalizing s fuel done with
  | nil => exact hinner fuel done s (by simpa [earlierItems] using hfuel) h
  | cons f fs ih =>
    rw [Form.itemLevels] at hbefore
    rw [earlierItems_cons, List.append_assoc, List.cons_append] at h
    rw [earlierItems_cons, List.length_append, List.length_cons] at hfuel
    obtain ⟨q, hfirst, hlater⟩ := h.exists_append
    obtain ⟨y, hy, hrest⟩ := hlater.exists_cons
    obtain ⟨fuel, rfl⟩ : ∃ n, fuel = n + 1 := Nat.exists_eq_succ_of_ne_zero (by omega)
    obtain ⟨rest, hread, hskip⟩ :=
      f.readValue_of_starts fuel room hfirst hlater.endsAt (by omega) (by omega)
    have hpos := f.tokens_length_pos
    have hnext := ih (by omega) fuel (f.value :: done) hrest (by omega)
    rw [readItems_succ, hread]
    simp only [hskip, hy]
    exact hnext

theorem ends_readMembers (bound : Nat) {before : List (Literal × Form)}
    (hbefore : Form.memberLevels before ≤ room)
    (hinner : ∀ fuel members s, bound ≤ fuel → Starts ts s r →
      Ends P (readMembers fuel room members (skipSpace s)))
    (fuel : Nat) (members : List (List Symbol × Json)) {s : List Char}
    (h : Starts (earlierMembers before ++ ts) s r)
    (hfuel : (earlierMembers before).length + bound ≤ fuel) :
    Ends P (readMembers fuel room members (skipSpace s)) := by
  induction before generalizing s fuel members with
  | nil => exact hinner fuel members s (by simpa [earlierMembers] using hfuel) h
  | cons m ms ih =>
    obtain ⟨name, f⟩ := m
    rw [Form.memberLevels] at hbefore
    rw [earlierMembers_cons, List.cons_append, List.cons_append, List.append_assoc,
      List.cons_append] at h
    simp only [earlierMembers_cons, List.length_append, List.length_cons] at hfuel
    obtain ⟨fuel, rfl⟩ : ∃ n, fuel = n + 1 := Nat.exists_eq_succ_of_ne_zero (by omega)
    obtain ⟨y, hy, hmember⟩ := readMembers_of_starts name fuel room members h
    obtain ⟨q, hfirst, hlater⟩ := hy.exists_append
    obtain ⟨z, hz, hrest⟩ := hlater.exists_cons
    obtain ⟨rest, hread, hskip⟩ :=
      f.readValue_of_starts fuel room hfirst hlater.endsAt (by omega) (by omega)
    have hnext := ih (by omega) fuel (putMember name.value f.value members) hrest (by omega)
    rw [hmember, hread]
    simp only [hskip, hz]
    exact hnext

/-- A bracket that closes stands where a value must stand. -/
theorem readItems_closeList (fuel : Nat) (done : List Json) (s : List Char) :
    ∃ f, readItems fuel room done (']' :: s) = .error (.fault f) := by
  rcases fuel with _ | _ | fuel
  · exact ⟨_, by rw [readItems]⟩
  · exact ⟨_, by rw [readItems_succ, readValue]⟩
  · refine ⟨⟨.expectingValue, (']' :: s).length⟩, ?_⟩
    have hvalue : readValue (fuel + 1) room (']' :: s) =
        .error (.fault ⟨.expectingValue, (']' :: s).length⟩) := by
      have hname : isNumberName (']' :: s) = false := rfl
      rw [readValue_scalar (by simp), hname, Bool.and_false, if_neg (by simp)]
      rfl
    rw [readItems_succ, hvalue]

/-- A list stops where its items do. -/
theorem ends_list (bound : Nat) {before : List Form} (hP : ∀ stop, P stop → stop.isFault = false)
    (hbefore : Form.itemLevels before ≤ room)
    (hinner : ∀ fuel done s, bound ≤ fuel → Starts ts s r →
      Ends P (readItems fuel room done (skipSpace s)))
    (fuel : Nat) {s : List Char} (h : Starts (.mark .openList :: (earlierItems before ++ ts)) s r)
    (hfuel : (earlierItems before).length + bound + 1 ≤ fuel) :
    Ends P (readValue fuel (room + 1) (skipSpace s)) := by
  obtain ⟨fuel, rfl⟩ : ∃ n, fuel = n + 1 := Nat.exists_eq_succ_of_ne_zero (by omega)
  obtain ⟨y, hy, hrest⟩ := h.exists_cons
  obtain ⟨stop, hstop, hkind⟩ := ends_readItems bound hbefore hinner fuel [] hrest (by omega)
  have hopen : (skipSpace y).head? ≠ some ']' := by
    intro hhead
    obtain ⟨t, ht⟩ := List.head?_eq_some_iff.1 hhead
    obtain ⟨f, hf⟩ := readItems_closeList fuel [] t
    rw [ht, hf] at hstop
    cases hstop
    cases hP _ hkind
  refine ⟨stop, ?_, hkind⟩
  rw [hy, ← hstop]
  exact readValue_openList hopen

/-- An object stops where its members do. -/
theorem ends_object (bound : Nat)
    {before : List (Literal × Form)} (hbefore : Form.memberLevels before ≤ room)
    (hinner : ∀ fuel members s, bound ≤ fuel → Starts ts s r →
      Ends P (readMembers fuel room members (skipSpace s)))
    (hopen : ∀ s, Starts (earlierMembers before ++ ts) s r →
      (skipSpace s).head? ≠ some '\x7d')
    (fuel : Nat) {s : List Char}
    (h : Starts (.mark .openObject :: (earlierMembers before ++ ts)) s r)
    (hfuel : (earlierMembers before).length + bound + 1 ≤ fuel) :
    Ends P (readValue fuel (room + 1) (skipSpace s)) := by
  obtain ⟨fuel, rfl⟩ : ∃ n, fuel = n + 1 := Nat.exists_eq_succ_of_ne_zero (by omega)
  obtain ⟨y, hy, hrest⟩ := h.exists_cons
  obtain ⟨stop, hstop, hkind⟩ := ends_readMembers bound hbefore hinner fuel [] hrest (by omega)
  refine ⟨stop, ?_, hkind⟩
  rw [hy, ← hstop]
  exact readValue_openObject (hopen y hrest)

/-- A list stops where one of its items does. -/
theorem ends_item (bound : Nat) {before : List Form} (hP : ∀ stop, P stop → stop.isFault = false)
    (hbefore : Form.itemLevels before ≤ room)
    (hinner : ∀ fuel s, bound ≤ fuel → Starts ts s r →
      Ends P (readValue fuel room (skipSpace s)))
    (fuel : Nat) {s : List Char} (h : Starts (.mark .openList :: (earlierItems before ++ ts)) s r)
    (hfuel : (earlierItems before).length + bound + 2 ≤ fuel) :
    Ends P (readValue fuel (room + 1) (skipSpace s)) := by
  have hitems : ∀ fuel done s, bound + 1 ≤ fuel → Starts ts s r →
      Ends P (readItems fuel room done (skipSpace s)) := by
    intro fuel done s hfuel hs
    obtain ⟨fuel, rfl⟩ : ∃ n, fuel = n + 1 := Nat.exists_eq_succ_of_ne_zero (by omega)
    obtain ⟨stop, hstop, hkind⟩ := hinner fuel s (by omega) hs
    exact ⟨stop, by rw [readItems_succ, hstop], hkind⟩
  exact ends_list (bound + 1) hP hbefore hitems fuel h (by omega)

/-- An object stops where the value of one of its members does. -/
theorem ends_member (bound : Nat) {before : List (Literal × Form)} {name : Literal}
    (hbefore : Form.memberLevels before ≤ room)
    (hinner : ∀ fuel s, bound ≤ fuel → Starts ts s r →
      Ends P (readValue fuel room (skipSpace s)))
    (fuel : Nat) {s : List Char}
    (h : Starts (.mark .openObject :: (earlierMembers before ++
      (.string name :: .mark .colon :: ts))) s r)
    (hfuel : (earlierMembers before).length + bound + 2 ≤ fuel) :
    Ends P (readValue fuel (room + 1) (skipSpace s)) := by
  have hmembers : ∀ fuel members s, bound + 1 ≤ fuel →
      Starts (.string name :: .mark .colon :: ts) s r →
      Ends P (readMembers fuel room members (skipSpace s)) := by
    intro fuel members s hfuel hs
    obtain ⟨fuel, rfl⟩ : ∃ n, fuel = n + 1 := Nat.exists_eq_succ_of_ne_zero (by omega)
    obtain ⟨y, hy, hread⟩ := readMembers_of_starts name fuel room members hs
    obtain ⟨stop, hstop, hkind⟩ := hinner fuel y (by omega) hy
    exact ⟨stop, by rw [hread, hstop], hkind⟩
  exact ends_object (bound + 1) hbefore hmembers (fun _ => Starts.head?_of_earlierMembers) fuel h
    (by omega)

end

/-- The reading of a document stops where the value that is to follow makes it stop. -/
theorem Unfinished.ends_of_atValue (u : Unfinished) {P : Stop → Prop}
    (hP : ∀ stop, P stop → stop.isFault = false) {room : Nat} {r : List Char}
    (hu : u.atValue = true) (hroom : u.levels ≤ room)
    (hvalue : ∀ fuel, Ends P (readValue (fuel + 1) (room - u.depth) (skipSpace r))) (fuel : Nat)
    (s : List Char) (hfuel : 2 * u.tokens.length + 1 ≤ fuel) (h : Starts u.tokens s r) :
    Ends P (readValue fuel room (skipSpace s)) := by
  induction u generalizing s fuel room with
  | here =>
    obtain ⟨fuel, rfl⟩ : ∃ n, fuel = n + 1 := Nat.exists_eq_succ_of_ne_zero (by omega)
    rw [h.skipSpace_eq]
    exact hvalue fuel
  | item before inner ih =>
    rw [levels] at hroom
    obtain ⟨room, rfl⟩ := Nat.exists_eq_add_of_le' (Nat.le_of_add_left_le hroom)
    rw [depth, Nat.add_sub_add_right] at hvalue
    rw [tokens, List.length_cons, List.length_append] at hfuel
    exact ends_item _ hP (by omega) (ih hu (by omega) hvalue) fuel h (by omega)
  | member before name inner ih =>
    rw [levels] at hroom
    obtain ⟨room, rfl⟩ := Nat.exists_eq_add_of_le' (Nat.le_of_add_left_le hroom)
    rw [depth, Nat.add_sub_add_right] at hvalue
    simp only [tokens, List.length_cons, List.length_append] at hfuel
    exact ends_member _ (by omega) (ih hu (by omega) hvalue) fuel h (by omega)
  | behindItem | atName | behindName | behindMember => cases hu

/-- It stops inside a value with so many levels left. -/
def IsInner (room : Nat) (stop : Stop) : Prop := ∃ f, stop = .inner f room

theorem IsInner.isFault_eq {room : Nat} (stop : Stop) (h : IsInner room stop) :
    stop.isFault = false := by
  obtain ⟨f, rfl⟩ := h
  rfl

section

variable {room : Nat} {s r : List Char}

theorem ends_behindItem {f : Form} (hend : f.EndsAt r) (hclose : (skipSpace r).head? ≠ some ']')
    (hcomma : (skipSpace r).head? ≠ some ',') (hroom : f.levels ≤ room) (fuel : Nat)
    (done : List Json) (hfuel : f.tokens.length + 1 ≤ fuel) (hs : Starts f.tokens s r) :
    Ends (IsInner room) (readItems fuel room done (skipSpace s)) := by
  obtain ⟨fuel, rfl⟩ : ∃ n, fuel = n + 1 := Nat.exists_eq_succ_of_ne_zero (by omega)
  obtain ⟨rest, hread, hskip⟩ := f.readValue_of_starts fuel room hs hend (by omega) hroom
  rw [readItems_succ, hread]
  simp only [hskip]
  exact ⟨_, afterItem_of_head hclose hcomma, _, rfl⟩

theorem ends_atName (h : OpensNoString (skipSpace r) ∨ (skipSpace r).head? ≠ some '"') (fuel : Nat)
    (members : List (List Symbol × Json)) (hfuel : 1 ≤ fuel) (hs : Starts [] s r) :
    Ends (IsInner room) (readMembers fuel room members (skipSpace s)) := by
  obtain ⟨fuel, rfl⟩ : ∃ n, fuel = n + 1 := Nat.exists_eq_succ_of_ne_zero (by omega)
  rw [hs.skipSpace_eq]
  rcases h with hstring | hquote
  · obtain ⟨t, e, ht, he⟩ := hstring.exists_eq
    rw [ht, readMembers_quote, he]
    exact ⟨_, rfl, e, rfl⟩
  · exact ⟨_, readMembers_of_head hquote, _, rfl⟩

theorem ends_behindName {name : Literal} (hcolon : (skipSpace r).head? ≠ some ':') (fuel : Nat)
    (members : List (List Symbol × Json)) (hfuel : 1 ≤ fuel) (hs : Starts [.string name] s r) :
    Ends (IsInner room) (readMembers fuel room members (skipSpace s)) := by
  obtain ⟨fuel, rfl⟩ : ∃ n, fuel = n + 1 := Nat.exists_eq_succ_of_ne_zero (by omega)
  obtain ⟨y, hy, hread⟩ := readMembers_of_starts_name name fuel room members hs
  rw [hread, hy.skipSpace_eq]
  exact ⟨_, afterName_of_head hcolon, _, rfl⟩

theorem ends_behindMember {name : Literal} {f : Form} (hend : f.EndsAt r)
    (hclose : (skipSpace r).head? ≠ some '\x7d') (hcomma : (skipSpace r).head? ≠ some ',')
    (hroom : f.levels ≤ room) (fuel : Nat) (members : List (List Symbol × Json))
    (hfuel : f.tokens.length + 1 ≤ fuel)
    (hs : Starts (.string name :: .mark .colon :: f.tokens) s r) :
    Ends (IsInner room) (readMembers fuel room members (skipSpace s)) := by
  obtain ⟨fuel, rfl⟩ : ∃ n, fuel = n + 1 := Nat.exists_eq_succ_of_ne_zero (by omega)
  obtain ⟨y, hy, hmember⟩ := readMembers_of_starts name fuel room members hs
  obtain ⟨rest, hread, hskip⟩ := f.readValue_of_starts fuel room hy hend (by omega) hroom
  rw [hmember, hread]
  simp only [hskip]
  exact ⟨_, afterMember_of_head hclose hcomma, _, rfl⟩

end

/-- The reading of a document stops where it is broken. -/
theorem Unfinished.ends_of_broken (u : Unfinished) {room : Nat} {r : List Char}
    (hbroken : u.Broken r) (hroom : u.levels ≤ room) (fuel : Nat) (s : List Char)
    (hfuel : 2 * u.tokens.length + 1 ≤ fuel) (h : Starts u.tokens s r) :
    Ends (IsInner (room - u.depth)) (readValue fuel room (skipSpace s)) := by
  induction u generalizing s fuel room with
  | here =>
    obtain ⟨fuel, rfl⟩ : ∃ n, fuel = n + 1 := Nat.exists_eq_succ_of_ne_zero (by omega)
    obtain ⟨t, e, ht, he⟩ := OpensNoString.exists_eq hbroken
    rw [h.skipSpace_eq, ht, readValue_quote, he]
    exact ⟨_, rfl, e, rfl⟩
  | item before inner ih =>
    rw [levels] at hroom
    obtain ⟨room, rfl⟩ := Nat.exists_eq_add_of_le' (Nat.le_of_add_left_le hroom)
    rw [depth, Nat.add_sub_add_right]
    rw [tokens, List.length_cons, List.length_append] at hfuel
    exact ends_item _ IsInner.isFault_eq (by omega) (ih hbroken (by omega)) fuel h (by omega)
  | member before name inner ih =>
    rw [levels] at hroom
    obtain ⟨room, rfl⟩ := Nat.exists_eq_add_of_le' (Nat.le_of_add_left_le hroom)
    rw [depth, Nat.add_sub_add_right]
    simp only [tokens, List.length_cons, List.length_append] at hfuel
    exact ends_member _ (by omega) (ih hbroken (by omega)) fuel h (by omega)
  | behindItem before f =>
    obtain ⟨hend, hclose, hcomma⟩ := hbroken
    rw [levels] at hroom
    obtain ⟨room, rfl⟩ := Nat.exists_eq_add_of_le' (Nat.le_of_add_left_le hroom)
    change Ends (IsInner room) _
    rw [tokens, List.length_cons, List.length_append] at hfuel
    exact ends_list (f.tokens.length + 1) IsInner.isFault_eq (by omega)
      (fun fuel done _ => ends_behindItem hend hclose hcomma (by omega) fuel done) fuel h
      (by omega)
  | atName before =>
    rw [levels] at hroom
    obtain ⟨room, rfl⟩ := Nat.exists_eq_add_of_le' (Nat.le_of_add_left_le hroom)
    change Ends (IsInner room) _
    rw [tokens, ← List.append_nil (earlierMembers before)] at h
    rw [tokens, List.length_cons] at hfuel
    refine ends_object 1 (by omega)
      (fun fuel members _ => ends_atName (hbroken.imp_right And.left) fuel members) ?_ fuel h
      (by omega)
    intro s hs
    cases before with
    | nil =>
      rw [Starts.skipSpace_eq hs]
      rcases hbroken with ⟨t, ht, -⟩ | ⟨-, hempty⟩
      · simp [ht]
      · exact hempty rfl
    | cons m ms =>
      rw [earlierMembers_cons] at hs
      exact hs.head?_of_string
  | behindName before name =>
    rw [levels] at hroom
    obtain ⟨room, rfl⟩ := Nat.exists_eq_add_of_le' (Nat.le_of_add_left_le hroom)
    change Ends (IsInner room) _
    simp only [tokens, List.length_cons, List.length_append] at hfuel
    exact ends_object 1 (by omega) (fun fuel members _ => ends_behindName hbroken fuel members)
      (fun _ => Starts.head?_of_earlierMembers) fuel h (by omega)
  | behindMember before name f =>
    obtain ⟨hend, hclose, hcomma⟩ := hbroken
    rw [levels] at hroom
    obtain ⟨room, rfl⟩ := Nat.exists_eq_add_of_le' (Nat.le_of_add_left_le hroom)
    change Ends (IsInner room) _
    simp only [tokens, List.length_cons, List.length_append] at hfuel
    exact ends_object (f.tokens.length + 1) (by omega)
      (fun fuel members _ => ends_behindMember hend hclose hcomma (by omega) fuel members)
      (fun _ => Starts.head?_of_earlierMembers) fuel h (by omega)

end Reindent.Json
