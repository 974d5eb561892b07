import Mathlib
import Reindent.Proofs.Json.Soundness

/-!
# Reading documents

The reader accepts exactly the layouts of syntax trees that take no more levels than there are, and
gives their values (`read_eq_ok_iff`). It stops at an integer that is too long exactly where such
an integer stands at the start of a value (`read_eq_overlong_iff`), and it runs out of levels
exactly where a value or the report of a fault takes more than are left (`read_eq_tooDeep_iff`).
-/

namespace Reindent.Json

open Text

theorem Starts.length_le {ts : List Token} {s r : List Char} (h : Starts ts s r) :
    ts.length ≤ s.length := by
  obtain ⟨x, rfl, hx⟩ := h
  rw [List.length_append]
  exact hx.length_le.trans (Nat.le_add_right _ _)

theorem layout_iff_starts {ts : List Token} {s : List Char} :
    Layout ts s ↔ ∃ r, Starts ts s r ∧ skipSpace r = [] := by
  constructor
  · intro h
    exact ⟨[], ⟨s, (List.append_nil s).symm, h⟩, rfl⟩
  · rintro ⟨r, ⟨x, rfl, hx⟩, hr⟩
    obtain ⟨gap, hgap, hgap'⟩ := exists_skipSpace_eq r
    rw [hgap', hr, List.append_nil, ← List.append_nil ts]
    exact hx.append (.nil hgap)

/-- A text that starts with a byte order mark holds no value. -/
theorem readValue_byteOrderMark {s : List Char} (h : s.head? = some (Char.ofNat 0xFEFF))
    (fuel room : Nat) : ∃ f, readValue (fuel + 1) room (skipSpace s) = .error (.fault f) := by
  obtain ⟨t, rfl⟩ := List.head?_eq_some_iff.1 h
  have hname : isNumberName (Char.ofNat 0xFEFF :: t) = false := rfl
  refine ⟨⟨.expectingValue, t.length + 1⟩, ?_⟩
  rw [skipSpace_of_head (by simp; decide), readValue_scalar (by simp), hname,
    Bool.and_false, if_neg (by simp)]
  rfl

theorem readDocument_of_head {room : Nat} {s : List Char}
    (h : s.head? ≠ some (Char.ofNat 0xFEFF)) :
    readDocument room s =
      match readValue (2 * s.length + 1) room (skipSpace s) with
      | .error e => .error e
      | .ok (value, rest) =>
        if skipSpace rest = [] then .ok value
        else .error (.fault ⟨.extraData, (skipSpace rest).length⟩) := by
  rw [readDocument, if_neg h]
  cases readValue (2 * s.length + 1) room (skipSpace s) with
  | error e => rfl
  | ok p =>
    obtain ⟨value, rest⟩ := p
    cases hskip : skipSpace rest with
    | nil => simp [bind, Except.bind, hskip, pure, Except.pure]
    | cons c t => simp [bind, Except.bind, hskip]

/-- A document is a value with white space behind it. -/
theorem readDocument_eq_ok_iff_readValue {room : Nat} {s : List Char} {v : Json} :
    readDocument room s = .ok v ↔
      ∃ rest, readValue (2 * s.length + 1) room (skipSpace s) = .ok (v, rest) ∧
        skipSpace rest = [] := by
  by_cases hhead : s.head? = some (Char.ofNat 0xFEFF)
  · obtain ⟨f, hf⟩ := readValue_byteOrderMark hhead (2 * s.length) room
    simp [readDocument, hhead, hf]
  · rw [readDocument_of_head hhead]
    cases readValue (2 * s.length + 1) room (skipSpace s) with
    | error e => simp
    | ok found =>
      obtain ⟨value, rest⟩ := found
      by_cases hrest : skipSpace rest = []
      · simp [hrest]
      · simp only [hrest, if_false, Except.ok.injEq, Prod.mk.injEq, reduceCtorEq, false_iff]
        rintro ⟨_, ⟨-, rfl⟩, h⟩
        exact hrest h

/-- Where the value stops the reading, so does the document, unless something is just wrong. -/
theorem readDocument_eq_error_iff {room : Nat} {s : List Char} {stop : Stop}
    (hstop : stop.isFault = false) :
    readDocument room s = .error stop ↔
      readValue (2 * s.length + 1) room (skipSpace s) = .error stop := by
  have hfault : ∀ f, Stop.fault f ≠ stop := by
    rintro f rfl
    cases hstop
  by_cases hhead : s.head? = some (Char.ofNat 0xFEFF)
  · obtain ⟨f, hf⟩ := readValue_byteOrderMark hhead (2 * s.length) room
    simp [readDocument, hhead, hf, hfault]
  · rw [readDocument_of_head hhead]
    cases readValue (2 * s.length + 1) room (skipSpace s) with
    | error e => simp
    | ok found =>
      obtain ⟨value, rest⟩ := found
      by_cases hrest : skipSpace rest = []
      · simp [hrest]
      · simp [hrest, hfault]

/-- The documents are the layouts of syntax trees that take no more levels than there are. -/
theorem readDocument_eq_ok_iff {room : Nat} {s : List Char} {v : Json} :
    readDocument room s = .ok v ↔
      ∃ f : Form, Layout f.tokens s ∧ f.value = v ∧ f.levels ≤ room := by
  rw [readDocument_eq_ok_iff_readValue]
  constructor
  · rintro ⟨rest, hread, hrest⟩
    have hvalue := (readsRows (2 * s.length + 1)).value room (skipSpace s)
    rw [hread] at hvalue
    cases hvalue with
    | found hv hs =>
      obtain ⟨f, rfl, rfl, hf, -⟩ := hv
      exact ⟨f, layout_iff_starts.2 ⟨_, hs.of_skipSpace, hrest⟩, rfl, hf⟩
  · rintro ⟨f, hs, rfl, hf⟩
    have hstarts : Starts f.tokens s [] := ⟨s, (List.append_nil s).symm, hs⟩
    have hfuel := hs.length_le
    exact f.readValue_of_starts (2 * s.length + 1) room hstarts
      (f.endsAt_of_endsNumeral ⟨nofun, nofun, nofun, nofun⟩) (by omega) hf

/-- The reading of a text stops at some point of an unfinished document. -/
def StopsAt (room : Nat) (s : List Char) (stop : Stop) : Prop :=
  ∃ (u : Unfinished) (r : List Char),
    Starts u.tokens s r ∧ u.levels ≤ room ∧ u.StopsWith (room - u.depth) r stop

theorem stopsAt_of_readDocument {room : Nat} {s : List Char} {stop : Stop}
    (hstop : stop.isFault = false) (h : readDocument room s = .error stop) :
    StopsAt room s stop := by
  rw [readDocument_eq_error_iff hstop] at h
  have hvalue := (readsRows (2 * s.length + 1)).value room (skipSpace s)
  rw [h] at hvalue
  cases hvalue with
  | stopped h hs =>
    obtain ⟨u, rfl, hu, hkind⟩ := h
    exact ⟨u, _, hs.of_skipSpace, hu, hkind⟩
  | fault f => cases hstop

/-- A document that has been read up to some point stops there, with the same levels left. -/
theorem StopsAt.exists_readDocument {room : Nat} {s : List Char} {stop : Stop}
    (h : StopsAt room s stop) :
    ∃ stop', readDocument room s = .error stop' ∧
      (stop' = stop ∨ ∃ f f' left, stop = .inner f left ∧ stop' = .inner f' left) := by
  obtain ⟨u, r, hs, hu, hkind⟩ := h
  have hfuel := hs.length_le
  cases stop with
  | fault => exact hkind.elim
  | overlong digits =>
    obtain ⟨stop', hread, rfl⟩ := u.ends_of_atValue (P := (· = .overlong digits))
      (by rintro _ rfl; rfl) hkind.1 hu
      (fun fuel => ⟨_, hkind.2.readValue_eq fuel _, rfl⟩) (2 * s.length + 1) s (by omega) hs
    exact ⟨_, (readDocument_eq_error_iff rfl).2 hread, .inl rfl⟩
  | tooDeep =>
    obtain ⟨hvalue, hleft, htakes⟩ := hkind
    obtain ⟨stop', hread, rfl⟩ := u.ends_of_atValue (P := (· = .tooDeep))
      (by rintro _ rfl; rfl) hvalue hu
      (fun fuel => ⟨_, by rw [hleft]; exact htakes.readValue_eq fuel, rfl⟩)
      (2 * s.length + 1) s (by omega) hs
    exact ⟨_, (readDocument_eq_error_iff rfl).2 hread, .inl rfl⟩
  | inner f left =>
    obtain ⟨hbroken, rfl⟩ := hkind
    obtain ⟨stop', hread, f', rfl⟩ :=
      u.ends_of_broken hbroken hu (2 * s.length + 1) s (by omega) hs
    exact ⟨_, (readDocument_eq_error_iff rfl).2 hread, .inr ⟨f, f', _, rfl, rfl⟩⟩

/-- The first thing wrong with a text is an integer with so many digits, at the start of a value;
what stands in front of it takes no more levels than there are. -/
def FirstOverlong (room : Nat) (s : List Char) (digits : Nat) : Prop :=
  ∃ (u : Unfinished) (r : List Char), Starts u.tokens s r ∧ u.levels ≤ room ∧ u.atValue = true ∧
    OverlongAt (skipSpace r) digits

/-- The levels do not suffice for a text. It is a document up to some point, and there is a value
that takes a level when all are taken, or something wrong whose report takes more than are left. -/
def OutOfLevels (room : Nat) (s : List Char) : Prop :=
  ∃ (u : Unfinished) (r : List Char), Starts u.tokens s r ∧ u.levels ≤ room ∧
    (u.atValue = true ∧ u.depth = room ∧ TakesLevel (skipSpace r) ∨
      u.Broken r ∧ room < u.depth + reportLevels)

theorem Unfinished.depth_le_levels (u : Unfinished) : u.depth ≤ u.levels := by
  induction u with
  | here => exact Nat.zero_le _
  | item | member =>
    rw [depth, levels]
    omega
  | behindItem | atName | behindName | behindMember =>
    rw [levels]
    exact Nat.le_add_left 1 _

/-- A text has the value `v` exactly if it is the layout of a syntax tree with that value that
takes no more levels than there are. -/
theorem read_eq_ok_iff {room : Nat} {s : List Char} {v : Json} :
    read room s = .ok v ↔ ∃ f : Form, Layout f.tokens s ∧ f.value = v ∧ f.levels ≤ room := by
  rw [← readDocument_eq_ok_iff, read]
  cases readDocument room s <;> simp [Except.mapError]

theorem Stop.error_eq_overlong_iff {s : List Char} {stop : Stop} {digits : Nat} :
    stop.error s = .overlong digits ↔ stop = .overlong digits := by
  cases stop with
  | inner f room =>
    rw [Stop.error]
    split <;> simp [ReadError.at]
  | fault | overlong | tooDeep => simp [Stop.error, ReadError.at]

theorem Stop.error_eq_tooDeep_iff {s : List Char} {stop : Stop} :
    stop.error s = .tooDeep ↔
      stop = .tooDeep ∨ ∃ f left, stop = .inner f left ∧ left < reportLevels := by
  cases stop with
  | inner f room =>
    rw [Stop.error]
    split <;> simp_all [ReadError.at]
  | fault | overlong | tooDeep => simp [Stop.error, ReadError.at]

theorem read_eq_error_iff {room : Nat} {s : List Char} {e : ReadError} :
    read room s = .error e ↔ ∃ stop, readDocument room s = .error stop ∧ stop.error s = e := by
  rw [read]
  cases readDocument room s <;> simp [Except.mapError]

/-- A text is refused for an overlong integer exactly if such an integer is the first thing wrong
with it. -/
theorem read_eq_overlong_iff {room : Nat} {s : List Char} {digits : Nat} :
    read room s = .error (.overlong digits) ↔ FirstOverlong room s digits := by
  simp only [read_eq_error_iff, Stop.error_eq_overlong_iff, exists_eq_right]
  constructor
  · exact stopsAt_of_readDocument rfl
  · intro h
    have hstops : StopsAt room s (.overlong digits) := h
    obtain ⟨stop, hread, rfl | ⟨f, f', left, hinner, -⟩⟩ := hstops.exists_readDocument
    · exact hread
    · cases hinner

/-- The levels run out on a text exactly if they do not suffice for it. -/
theorem read_eq_tooDeep_iff {room : Nat} {s : List Char} :
    read room s = .error .tooDeep ↔ OutOfLevels room s := by
  simp only [read_eq_error_iff, Stop.error_eq_tooDeep_iff]
  constructor
  · rintro ⟨stop, hread, rfl | ⟨f, left, rfl, hleft⟩⟩
    · obtain ⟨u, r, hs, hu, hvalue, hzero, htakes⟩ := stopsAt_of_readDocument rfl hread
      have hdepth := u.depth_le_levels
      exact ⟨u, r, hs, hu, .inl ⟨hvalue, by omega, htakes⟩⟩
    · obtain ⟨u, r, hs, hu, hbroken, rfl⟩ := stopsAt_of_readDocument rfl hread
      exact ⟨u, r, hs, hu, .inr ⟨hbroken, by omega⟩⟩
  · rintro ⟨u, r, hs, hu, ⟨hvalue, hdepth, htakes⟩ | ⟨hbroken, hleft⟩⟩
    · have hstops : StopsAt room s .tooDeep := ⟨u, r, hs, hu, hvalue, by omega, htakes⟩
      obtain ⟨stop, hread, rfl | ⟨f, f', left, hinner, -⟩⟩ := hstops.exists_readDocument
      · exact ⟨_, hread, .inl rfl⟩
      · cases hinner
    · have hdepth := u.depth_le_levels
      have hstops : StopsAt room s (.inner ⟨.expectingValue, 0⟩ (room - u.depth)) :=
        ⟨u, r, hs, hu, hbroken, rfl⟩
      obtain ⟨stop, hread, rfl | ⟨f, f', left, hinner, rfl⟩⟩ := hstops.exists_readDocument
      · exact ⟨_, hread, .inr ⟨_, _, rfl, by omega⟩⟩
      · cases hinner
        exact ⟨_, hread, .inr ⟨_, _, rfl, by omega⟩⟩

/-! ## Documents that are too deep -/

theorem laterItems_append (fs : List Form) (g : Form) (gs : List Form) :
    laterItems (fs ++ g :: gs) =
      .mark .comma :: (earlierItems fs ++ (g.tokens ++ laterItems gs)) := by
  induction fs with
  | nil => rw [List.nil_append, laterItems, earlierItems, List.flatMap_nil, List.nil_append]
  | cons f fs ih =>
    rw [List.cons_append, laterItems, ih, earlierItems_cons, List.append_assoc, List.cons_append]

theorem tokens_list_append (fs : List Form) (g : Form) (gs : List Form) :
    (Form.list (fs ++ g :: gs)).tokens =
      (.mark .openList :: earlierItems fs) ++ (g.tokens ++ laterItems gs) := by
  cases fs with
  | nil => rw [List.nil_append, Form.tokens, earlierItems, List.flatMap_nil]; rfl
  | cons f fs =>
    rw [List.cons_append, Form.tokens, laterItems_append, earlierItems_cons]
    simp

theorem laterMembers_append (ms : List (Literal × Form)) (name : Literal) (g : Form)
    (ns : List (Literal × Form)) :
    laterMembers (ms ++ (name, g) :: ns) =
      .mark .comma :: (earlierMembers ms ++
        (.string name :: .mark .colon :: (g.tokens ++ laterMembers ns))) := by
  induction ms with
  | nil => rw [List.nil_append, laterMembers, earlierMembers, List.flatMap_nil, List.nil_append]
  | cons m ms ih =>
    obtain ⟨name', f⟩ := m
    rw [List.cons_append, laterMembers, ih, earlierMembers_cons]
    simp

theorem tokens_object_append (ms : List (Literal × Form)) (name : Literal) (g : Form)
    (ns : List (Literal × Form)) :
    (Form.object (ms ++ (name, g) :: ns)).tokens =
      (.mark .openObject :: (earlierMembers ms ++ [.string name, .mark .colon])) ++
        (g.tokens ++ laterMembers ns) := by
  cases ms with
  | nil => rw [List.nil_append, Form.tokens, earlierMembers, List.flatMap_nil]; rfl
  | cons m ms =>
    obtain ⟨name', f⟩ := m
    rw [List.cons_append, Form.tokens, laterMembers_append, earlierMembers_cons]
    simp

/-- The first of some items that takes too many levels. -/
theorem exists_of_lt_itemLevels {room : Nat} {fs : List Form} (h : room < Form.itemLevels fs) :
    ∃ before g behind, fs = before ++ g :: behind ∧ Form.itemLevels before ≤ room ∧
      room < g.levels := by
  induction fs with
  | nil => simp [Form.itemLevels] at h
  | cons f fs ih =>
    by_cases hf : room < f.levels
    · exact ⟨[], f, fs, rfl, Nat.zero_le _, hf⟩
    · obtain ⟨before, g, behind, rfl, hbefore, hg⟩ := ih (by rw [Form.itemLevels] at h; omega)
      exact ⟨f :: before, g, behind, rfl, by rw [Form.itemLevels]; omega, hg⟩

theorem exists_of_lt_memberLevels {room : Nat} {ms : List (Literal × Form)}
    (h : room < Form.memberLevels ms) :
    ∃ before name g behind, ms = before ++ (name, g) :: behind ∧
      Form.memberLevels before ≤ room ∧ room < g.levels := by
  induction ms with
  | nil => simp [Form.memberLevels] at h
  | cons m ms ih =>
    obtain ⟨name, f⟩ := m
    by_cases hf : room < f.levels
    · exact ⟨[], name, f, ms, rfl, Nat.zero_le _, hf⟩
    · obtain ⟨before, name', g, behind, rfl, hbefore, hg⟩ :=
        ih (by rw [Form.memberLevels] at h; omega)
      exact ⟨(name, f) :: before, name', g, behind, rfl, by rw [Form.memberLevels]; omega, hg⟩

/-- A tree that takes a level starts with what takes it. -/
theorem Form.takesLevel {f : Form} (h : 0 < f.levels) {s r : List Char}
    (hs : Starts f.tokens s r) : TakesLevel (skipSpace s) := by
  cases f with
  | scalar x =>
    obtain ⟨y, hy, -⟩ := hs.exists_cons
    have hname : isNumberName x.text = true := by
      by_contra hname
      rw [levels, if_neg hname] at h
      omega
    rw [hy]
    exact .inr (.inr (x.isScalar.isNumberName_append y ▸ hname))
  | text l => simp [levels] at h
  | list items =>
    have hopen : (skipSpace s).head? = some '[' := by
      cases items <;>
      · obtain ⟨y, hy, -⟩ := hs.exists_cons
        rw [hy]
        rfl
    exact .inl hopen
  | object members =>
    have hopen : (skipSpace s).head? = some '\x7b' := by
      cases members <;>
      · obtain ⟨y, hy, -⟩ := hs.exists_cons
        rw [hy]
        rfl
    exact .inr (.inl hopen)

/-- A tree that takes more levels than there are has a point at which they are all taken. -/
theorem Form.exists_deep {f : Form} {room : Nat} (h : room < f.levels) {s q : List Char}
    (hs : Starts f.tokens s q) :
    ∃ (u : Unfinished) (r : List Char), Starts u.tokens s r ∧ u.levels ≤ room ∧
      u.atValue = true ∧ u.depth = room ∧ TakesLevel (skipSpace r) := by
  induction room generalizing f s q with
  | zero => exact ⟨.here, s, .nil s, Nat.le_refl 0, rfl, rfl, f.takesLevel h hs⟩
  | succ room ih =>
    cases f with
    | scalar x =>
      rw [levels] at h
      split_ifs at h <;> omega
    | text l => simp [levels] at h
    | list items =>
      rw [levels] at h
      obtain ⟨before, g, behind, rfl, hbefore, hg⟩ :=
        exists_of_lt_itemLevels (Nat.lt_of_succ_lt_succ h)
      rw [tokens_list_append] at hs
      obtain ⟨q₁, hopen, hrest⟩ := hs.exists_append
      obtain ⟨q₂, hinner, -⟩ := hrest.exists_append
      obtain ⟨u, r, hu, hlevels, hvalue, hdepth, htakes⟩ := ih hg hinner
      refine ⟨.item before u, r, hopen.trans hu, ?_, hvalue, ?_, htakes⟩
      · rw [Unfinished.levels]
        omega
      · rw [Unfinished.depth, hdepth]
    | object members =>
      rw [levels] at h
      obtain ⟨before, name, g, behind, rfl, hbefore, hg⟩ :=
        exists_of_lt_memberLevels (Nat.lt_of_succ_lt_succ h)
      rw [tokens_object_append] at hs
      obtain ⟨q₁, hopen, hrest⟩ := hs.exists_append
      obtain ⟨q₂, hinner, -⟩ := hrest.exists_append
      obtain ⟨u, r, hu, hlevels, hvalue, hdepth, htakes⟩ := ih hg hinner
      refine ⟨.member before name u, r, ?_, ?_, hvalue, ?_, htakes⟩
      · simpa [Unfinished.tokens] using hopen.trans hu
      · rw [Unfinished.levels]
        omega
      · rw [Unfinished.depth, hdepth]

/-- A document is read if it takes no more levels than there are, and otherwise they run out. -/
theorem read_of_layout {f : Form} {s : List Char} (h : Layout f.tokens s) (room : Nat) :
    read room s = if f.levels ≤ room then .ok f.value else .error .tooDeep := by
  split_ifs with hroom
  · exact read_eq_ok_iff.2 ⟨f, h, rfl, hroom⟩
  · obtain ⟨u, r, hs, hu, hvalue, hdepth, htakes⟩ :=
      f.exists_deep (not_le.1 hroom) ⟨s, (List.append_nil s).symm, h⟩
    exact read_eq_tooDeep_iff.2 ⟨u, r, hs, hu, .inl ⟨hvalue, hdepth, htakes⟩⟩

/-- A document that is read has the value of its tree, and levels enough. -/
theorem of_read_eq_ok {f : Form} {s : List Char} {room : Nat} {v : Json} (h : Layout f.tokens s)
    (hread : read room s = .ok v) : f.value = v ∧ f.levels ≤ room := by
  rw [read_of_layout h] at hread
  split_ifs at hread with hroom
  exact ⟨Except.ok.inj hread, hroom⟩

end Reindent.Json
