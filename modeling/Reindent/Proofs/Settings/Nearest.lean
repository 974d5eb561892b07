import Mathlib
import Reindent.Proofs.Settings.Search

/-!
# The nearest file decides

The candidates of a search stand in a row, from the starting directory up to the root. Those in
front of the first one that holds its table are passed over, and that one gives its settings, or
the error of its table, whatever stands above it. There is one way in which this fails: a candidate
whose path cannot even be looked at, such as one that is too long, is not passed over like a file
that cannot be opened, but ends the search.
-/

set_option maxRecDepth 2000

namespace Reindent.Settings

open Text Files

variable {limits : Limits}

/-! ## The way up -/

/-- A directory, the directory of that, and so on to the root. -/
inductive Ascent : Path → List Path → Prop where
  | root {p : Path} (h : p.parent = p) : Ascent p [p]
  | up {p : Path} {above : List Path} (h : p.parent ≠ p) (hup : Ascent p.parent above) :
      Ascent p (p :: above)

theorem parent_eq_self_iff {p : Path} : p.parent = p ↔ p.parts = [] := by
  constructor
  · intro h
    have hparts : p.parts.dropLast = p.parts := congrArg Path.parts h
    by_contra hne
    have hlength := congrArg List.length hparts
    rw [List.length_dropLast] at hlength
    have := List.length_pos_iff.2 hne
    omega
  · obtain ⟨root, parts⟩ := p
    rintro rfl
    rfl

theorem parents_of_parts_eq_nil {p : Path} (h : p.parts = []) : p.parents = [] := by
  rw [Path.parents, h]
  rfl

theorem parents_eq_cons {p : Path} (h : p.parts ≠ []) :
    p.parents = p.parent :: p.parent.parents := by
  have hlength := List.length_pos_iff.2 h
  obtain ⟨n, hn⟩ : ∃ n, p.parts.length = n + 1 := ⟨p.parts.length - 1, by omega⟩
  have hdrop : p.parts.dropLast = p.parts.take n := by
    rw [List.dropLast_eq_take, hn, Nat.add_sub_cancel]
  rw [Path.parents, Path.parents, Path.parent, hn, List.range_succ, List.reverse_append,
    List.reverse_singleton, List.singleton_append, List.map_cons, hdrop, List.length_take, hn,
    Nat.min_eq_left (Nat.le_succ n)]
  congr 1
  refine List.map_congr_left fun i hi => ?_
  have hi' : i < n := by simpa using hi
  rw [List.take_take, Nat.min_eq_left hi'.le]

theorem Ascent.eq_cons_parents {p : Path} {ds : List Path} (h : Ascent p ds) :
    ds = p :: p.parents := by
  induction h with
  | root h => rw [parents_of_parts_eq_nil (parent_eq_self_iff.1 h)]
  | up h _ ih => rw [ih, parents_eq_cons fun hparts => h (parent_eq_self_iff.2 hparts)]

/-- The candidates in some directories, one directory after the other. -/
def candidatesIn (ds : List Path) : List (Path × Candidate) :=
  ds.flatMap fun d => candidates.map fun c => (d, c)

theorem searchOrder_of_ascent {p : Path} {ds : List Path} (h : Ascent p ds) :
    searchOrder p = candidatesIn ds := by
  rw [h.eq_cons_parents]
  rfl

/-! ## Settings by name -/

theorem Field.ofName?_eq_some_iff {name : List Char} {field : Field} :
    Field.ofName? name = some field ↔ name = field.name.toList := by
  constructor
  · intro h
    have hname := List.find?_some h
    exact (by simpa using hname : field.name.toList = name).symm
  · rintro rfl
    cases field <;> decide

theorem Field.eq_of_toList_name {f g : Field} (h : f.name.toList = g.name.toList) : f = g := by
  have hf := Field.ofName?_eq_some_iff.2 h
  rw [Field.ofName?_eq_some_iff.2 rfl] at hf
  exact Option.some.inj hf

theorem get_set (s : Settings) (field f : Field) (v : Value) :
    (s.set field v).get f = if f = field then v else s.get f := by
  cases field <;> cases f <;> rfl

/-- Settings from a value for each name. -/
def ofFields (value : Field → Value) : Settings :=
  ⟨value .indentChars, value .indentSpaces, value .maxDepth, value .depthOverflow,
    value .preserveComments, value .maxFileSize⟩

/-- What is given to a setting: the last value under its name. -/
def lastNamed (values : List (List Char × Value)) (field : Field) : Option Value :=
  ((values.filter fun v => v.1 = field.name.toList).getLast?).map Prod.snd

/-- Whether all names are names of settings. -/
def namesSettings (values : List (List Char × Value)) : Bool :=
  values.all fun v => (Field.ofName? v.1).isSome

theorem lastNamed_cons (name : List Char) (value : Value)
    (values : List (List Char × Value)) (field : Field) :
    lastNamed ((name, value) :: values) field =
      if name = field.name.toList then some ((lastNamed values field).getD value)
      else lastNamed values field := by
  unfold lastNamed
  split
  · rename_i hname
    rw [List.filter_cons_of_pos (by simpa using hname), List.getLast?_cons, Option.map_some]
    cases (values.filter fun v => v.1 = field.name.toList).getLast? <;> rfl
  · rename_i hname
    rw [List.filter_cons_of_neg (by simpa using hname)]

/-- Values are set by their names, a later one over an earlier one, if all names are names of
settings. -/
theorem setNamed_of_namesSettings
    {values : List (List Char × Value)} (h : namesSettings values = true) (s : Settings) :
    setNamed values s = .ok (ofFields fun field =>
      (lastNamed values field).getD (s.get field)) := by
  induction values generalizing s with
  | nil => rfl
  | cons head values ih =>
    obtain ⟨name, value⟩ := head
    rw [namesSettings, List.all_cons, Bool.and_eq_true] at h
    obtain ⟨field, hfield⟩ := Option.isSome_iff_exists.1 h.1
    have hname : name = field.name.toList := Field.ofName?_eq_some_iff.1 hfield
    have hlast : ∀ f, (lastNamed values f).getD ((s.set field value).get f) =
        (lastNamed ((name, value) :: values) f).getD (s.get f) := by
      intro f
      rw [lastNamed_cons, get_set, hname]
      by_cases hf : f = field
      · rw [if_pos hf, if_pos (hf ▸ rfl), Option.getD_some]
      · rw [if_neg hf, if_neg fun heq => hf (Field.eq_of_toList_name heq).symm]
    rw [setNamed, hfield]
    simp only [ih h.2, hlast]

theorem setNamed_of_not_namesSettings
    {values : List (List Char × Value)} (h : namesSettings values = false) (s : Settings) :
    ∃ e, setNamed values s = .error e := by
  induction values generalizing s with
  | nil => cases h
  | cons head values ih =>
    obtain ⟨name, value⟩ := head
    rw [setNamed]
    cases hfield : Field.ofName? name with
    | some field =>
      rw [namesSettings, List.all_cons, hfield, Option.isSome_some, Bool.true_and] at h
      exact ih h _
    | none =>
      simp only
      split
      · exact ⟨_, rfl⟩
      · exact ⟨_, rfl⟩

/-! ## Tables of settings -/

/-- The entries of a table under the names of settings. -/
def renamed (entries : List (List Char × Value)) : List (List Char × Value) :=
  entries.map fun e => (settingName e.1, e.2)

/-- The settings that the entries of a table stand for. What is not given has its default. -/
def described (entries : List (List Char × Value)) : Settings :=
  ofFields fun field => (lastNamed (renamed entries) field).getD (get {} field)

/-- What a table of settings in a file comes to: its settings in normalised form, or an error. -/
def verdict (limits : Limits) (table : List (List Char)) (file : Path) :
    Value → Except SearchError Settings
  | .table entries =>
    if namesSettings (renamed entries) then ((described entries).normalize limits).mapError
      .invalid
    else .error (.badTable table file)
  | _ => .error (.badTable table file)

theorem verdict_eq (limits : Limits) (table : List (List Char)) (file : Path) (value : Value) :
    verdict limits table file value = (ofTable table file value).bind fun s =>
    (s.normalize limits).mapError .invalid := by
  cases value with
  | table entries =>
    rw [verdict, ofTable]
    change _ = ((setNamed (renamed entries) {}).mapError _).bind _
    split
    · rename_i h
      rw [setNamed_of_namesSettings h]
      rfl
    · rename_i h
      obtain ⟨e, he⟩ := setNamed_of_not_namesSettings (by simpa using h) {}
      rw [he]
      rfl
  | _ => rfl

/-- An empty table gives all settings their defaults. -/
theorem verdict_nil (limits : Limits) (table : List (List Char)) (file : Path) :
    verdict limits table file (.table []) = .ok {} := by
  have hlower : lowerCase (Overflow.name .clamp) = Overflow.name .clamp := by decide
  have hnormalize : ({} : Settings).normalize limits = .ok {} := by
    change Except.ok ({ depthOverflow := .text (lowerCase (Overflow.name .clamp)) } : Settings) = _
    rw [hlower]
  change (({} : Settings).normalize limits).mapError SearchError.invalid = _
  rw [hnormalize]
  rfl

theorem verdict_ne_access (limits : Limits) (table : List (List Char)) (file : Path)
    (value : Value) (e : AccessError) :
    verdict limits table file value ≠ .error (.access e) := by
  intro h
  rw [verdict.eq_def] at h
  split at h
  · split at h
    · rename_i entries _
      cases hnormalize : (described entries).normalize limits with
      | ok s =>
        rw [hnormalize] at h
        cases h
      | error i =>
        rw [hnormalize] at h
        cases h
    · cases h
  · cases h

/-! ## Candidates -/

/-- What reading a candidate gives: an error, its octets, or nothing if it is there but cannot be
opened. -/
def reading (store : Store) (x : Path × Candidate) : Except AccessError (Option (List UInt8)) :=
  (store.lookUp true (x.1.child x.2.file).render).map fun found =>
    match found.2 with
    | .file f => if (store.readError? f).isSome then none else some f.octets
    | _ => none

/-- The error of a candidate whose path cannot be looked at for another reason than that nothing is
there. -/
def accessError? (store : Store) (x : Path × Candidate) : Option AccessError :=
  match reading store x with
  | .error e => if e.isAbsence then none else some e
  | .ok _ => none

/-- Candidates that do not decide. -/
inductive Skipped (limits : Limits) (store : Store) (x : Path × Candidate) : Prop where
  /-- Nothing is there, or the path cannot be looked at. -/
  | missing {e : AccessError} (h : store.lookUp true (x.1.child x.2.file).render = .error e)
  /-- A directory cannot be opened. -/
  | directory {place : Place} {p : Permissions}
      (h : store.lookUp true (x.1.child x.2.file).render = .ok (place, .directory p))
  /-- The file may not be read. -/
  | unreadable {place : Place} {f : File}
      (h : store.lookUp true (x.1.child x.2.file).render = .ok (place, .file f))
      (hf : store.readError? f ≠ none)
  | malformed {place : Place} {f : File} {text : List Char} (h : Opens store x.1 x.2 place f)
      (hdecode : decodeUtf8 f.octets = .ok text)
      (hread : Toml.read limits.tomlCalls text = .error .malformed)
  | tableless {place : Place} {f : File} {text : List Char} {entries : Toml.Entries}
      (h : Opens store x.1 x.2 place f)
      (hdecode : decodeUtf8 f.octets = .ok text)
      (hread : Toml.read limits.tomlCalls text = .ok entries)
      (hnone : firstTable? x.2.tables (.table entries) = none)

/-- A candidate that holds a document with one of its tables. -/
inductive Holds (limits : Limits) (store : Store) (x : Path × Candidate)
    (table : List (List Char)) (value : Value) : Prop where
  | mk {place : Place} {f : File} {text : List Char} {entries : Toml.Entries}
      (h : Opens store x.1 x.2 place f)
      (hdecode : decodeUtf8 f.octets = .ok text)
      (hread : Toml.read limits.tomlCalls text = .ok entries)
      (hfirst : firstTable? x.2.tables (.table entries) = some (table, value))

section

variable {store : Store} {x : Path × Candidate} {table : List (List Char)} {value : Value}

theorem reading_of_opens {place : Place} {f : File} (h : Opens store x.1 x.2 place f) :
    reading store x = .ok (some f.octets) := by
  rw [reading, h.1]
  simp [Except.map, h.2]

/-- A candidate counts by what reading it gives. -/
theorem ofCandidate_eq (limits : Limits) (store : Store) (x : Path × Candidate) :
    ofCandidate limits store x.1 x.2 =
    match reading store x with
    | .error e => if e.isAbsence then .ok none else .error (.access e)
    | .ok none => .ok none
    | .ok (some octets) => ofOctets limits x.2.tables (x.1.child x.2.file) octets := by
  rw [reading, ofCandidate]
  cases store.lookUp true (x.1.child x.2.file).render with
  | error e => rfl
  | ok found =>
    obtain ⟨place, node⟩ := found
    cases node with
    | file f => cases hf : store.readError? f <;> simp [Except.map, hf]
    | _ => rfl

theorem ofCandidate_of_accessError {e : AccessError} (h : accessError? store x = some e) :
    ofCandidate limits store x.1 x.2 = .error (.access e) := by
  rw [accessError?] at h
  rw [ofCandidate_eq]
  cases hreading : reading store x with
  | error e' =>
    simp only [hreading] at h ⊢
    split_ifs at h with habsence
    rw [if_neg habsence, Option.some.inj h]
  | ok found => simp only [hreading, reduceCtorEq] at h

/-- A candidate that does not decide is passed over, unless its path cannot be looked at. -/
theorem Skipped.ofCandidate_eq (h : Skipped limits store x) (hnone : accessError? store x = none) :
    ofCandidate limits store x.1 x.2 = .ok none := by
  cases h with
  | @missing e h =>
    have habsence : e.isAbsence = true := by
      by_contra hnot
      simp [accessError?, reading, h, Except.map, hnot] at hnone
    simp [ofCandidate, h, habsence]
  | directory h => simp [ofCandidate, h]
  | unreadable h hf => simp [ofCandidate, h, Option.isSome_iff_ne_none.2 hf]
  | malformed h hdecode hread =>
    rw [ofCandidate_of_opens h, ofOctets, hdecode]
    simp only [Except.mapError, bind, Except.bind, hread]
    rfl
  | tableless h hdecode hread hfirst =>
    rw [ofCandidate_of_opens h, ofOctets, hdecode]
    simp only [Except.mapError, bind, Except.bind, hread, hfirst]
    rfl

theorem Holds.ofCandidate_eq (h : Holds limits store x table value) :
    ofCandidate limits store x.1 x.2 = (ofTable table (x.1.child x.2.file) value).map some := by
  obtain ⟨hopens, hdecode, hread, hfirst⟩ := h
  rw [ofCandidate_of_opens hopens, ofOctets, hdecode]
  simp only [Except.mapError, bind, Except.bind, hread, hfirst]

theorem Holds.accessError?_eq_none (h : Holds limits store x table value) :
    accessError? store x = none := by
  obtain ⟨hopens, -, -, -⟩ := h
  rw [accessError?, reading_of_opens hopens]

end

/-! ## Searches -/

section

variable {store store' : Store} {before order rest : List (Path × Candidate)}

theorem firstOf_append_of_ne (h : firstOf limits store before ≠ .ok none)
    (rest : List (Path × Candidate)) :
    firstOf limits store (before ++ rest) = firstOf limits store before := by
  obtain ⟨front, d, c, back, rfl, hfront, hc⟩ := (firstOf_eq_iff h).1 rfl
  exact (firstOf_eq_iff h).2 ⟨front, d, c, back ++ rest, by simp, hfront, hc⟩

/-- Candidates that do not decide give nothing, or the first error of a path that cannot be looked
at. -/
theorem firstOf_of_skipped (h : ∀ x ∈ before, Skipped limits store x) :
    firstOf limits store before =
    match before.findSome? (accessError? store) with
    | some e => .error (.access e)
    | none => .ok none := by
  induction before with
  | nil => rfl
  | cons x before ih =>
    rw [List.forall_mem_cons] at h
    obtain ⟨d, c⟩ := x
    cases haccess : accessError? store (d, c) with
    | some e =>
      rw [List.findSome?_cons_of_isSome (by rw [haccess]; rfl), haccess,
        firstOf_cons_of_ne (ofCandidate_of_accessError haccess) (by simp)]
    | none =>
      rw [List.findSome?_cons_of_isNone (by rw [haccess]; rfl),
        firstOf_cons_of_none (h.1.ofCandidate_eq haccess), ih h.2]

/-- A search sees no more of a tree than what reading its candidates gives. -/
theorem firstOf_congr (h : ∀ x ∈ order, reading store' x = reading store x) :
    firstOf limits store' order = firstOf limits store order := by
  induction order with
  | nil => rfl
  | cons x order ih =>
    rw [List.forall_mem_cons] at h
    obtain ⟨d, c⟩ := x
    have hhead : ofCandidate limits store' d c = ofCandidate limits store d c := by
      have heq := ofCandidate_eq limits store' (d, c)
      rw [h.1, ← ofCandidate_eq limits store (d, c)] at heq
      exact heq
    rw [firstOf, firstOf, hhead, ih h.2]

end

/-- What decides a search, and how. The candidates `upTo` end with the one that holds its table,
those before it do not decide, and `above` are the others. If none holds its table, `upTo` are
all. -/
inductive Decision (limits : Limits) (store : Store) :
    List (Path × Candidate) → List (Path × Candidate) → Except SearchError Settings → Prop where
  | found {before above : List (Path × Candidate)} {x : Path × Candidate}
      {table : List (List Char)} {value : Value}
      (hbefore : ∀ y ∈ before, Skipped limits store y) (hx : Holds limits store x table value) :
      Decision limits store (before ++ [x]) above (verdict limits table (x.1.child x.2.file) value)
  | defaults {upTo : List (Path × Candidate)} (h : ∀ y ∈ upTo, Skipped limits store y) :
      Decision limits store upTo [] (.ok {})

/-- What a search makes of what it has found. -/
def conclude (limits : Limits) : Except SearchError (Option Settings) → Except SearchError Settings
  | .error e => .error e
  | .ok none => .ok {}
  | .ok (some s) => (s.normalize limits).mapError .invalid

section

variable {store : Store} {start directory : Path} {ds : List Path}
  {upTo above : List (Path × Candidate)}
  {result : Except SearchError Settings}

theorem search_eq_conclude (hresolve : store.resolve false start = .ok directory)
    (hds : Ascent directory ds) :
    search limits store start = conclude limits (firstOf limits store (candidatesIn ds)) := by
  rw [search_of_resolve_ok hresolve, searchOrder_of_ascent hds]
  rfl

theorem conclude_map_some (limits : Limits) (table : List (List Char)) (file : Path)
    (value : Value) :
    conclude limits ((ofTable table file value).map some) = verdict limits table file value := by
  rw [verdict_eq]
  cases ofTable table file value <;> rfl

theorem firstOf_singleton (limits : Limits) (store : Store) (x : Path × Candidate) :
    firstOf limits store [x] = ofCandidate limits store x.1 x.2 := by
  obtain ⟨d, c⟩ := x
  by_cases h : ofCandidate limits store d c = .ok none
  · rw [firstOf_cons_of_none h, h, firstOf]
  · rw [firstOf_cons_of_ne rfl h]

namespace Decision

/-- The candidates up to the one that decides come to its verdict, unless one of them cannot be
looked at. -/
theorem conclude_firstOf (h : Decision limits store upTo above result) :
    conclude limits (firstOf limits store upTo) =
    match upTo.findSome? (accessError? store) with
    | some e => .error (.access e)
    | none => result := by
  cases h with
  | defaults h =>
    rw [firstOf_of_skipped h]
    cases upTo.findSome? (accessError? store) <;> rfl
  | @found before _ x table value hbefore hx =>
    have hskipped := firstOf_of_skipped hbefore
    rw [List.findSome?_append, List.findSome?_singleton, hx.accessError?_eq_none, Option.or_none]
    cases haccess : before.findSome? (accessError? store) with
    | some e =>
      rw [haccess] at hskipped
      rw [firstOf_append_of_ne (by simp [hskipped]), hskipped, conclude]
    | none =>
      rw [haccess] at hskipped
      rw [firstOf_append hskipped, firstOf_singleton, hx.ofCandidate_eq, conclude_map_some]

/-- A candidate that holds its table settles the search. -/
theorem settles (h : Decision limits store upTo above result) :
    above = [] ∨ firstOf limits store upTo ≠ .ok none := by
  cases h with
  | defaults h => exact .inl rfl
  | @found before _ x table value hbefore hx =>
    refine .inr fun hnone => ?_
    have hx' : ofCandidate limits store x.1 x.2 ≠ .ok none := by
      rw [hx.ofCandidate_eq]
      cases ofTable table (x.1.child x.2.file) value <;> simp [Except.map]
    by_cases hfirst : firstOf limits store before = .ok none
    · rw [firstOf_append hfirst, firstOf_singleton] at hnone
      exact hx' hnone
    · rw [firstOf_append_of_ne hfirst] at hnone
      exact hfirst hnone

/-- What stands above makes no difference. -/
theorem firstOf_append_eq (h : Decision limits store upTo above result) {store' : Store}
    (hsame : firstOf limits store' upTo = firstOf limits store upTo) :
    firstOf limits store' (upTo ++ above) = firstOf limits store upTo := by
  rcases h.settles with rfl | hne
  · rw [List.append_nil, hsame]
  · rw [← hsame] at hne
    rw [firstOf_append_of_ne hne, hsame]

theorem result_ne_access (h : Decision limits store upTo above result) (e : AccessError) :
    result ≠ .error (.access e) := by
  cases h with
  | defaults _ => simp
  | found _ _ => exact verdict_ne_access _ _ _ _ e

end Decision

/-- The nearest candidate that holds its table decides a search, and the defaults are the result if
there is none. This is so exactly if each path up to it can be looked at, and the first that cannot
ends the search. An empty table stands for the defaults. Whatever decides, a tree in which the
candidates up to there read the same gives the same result. -/
theorem search_nearest (hresolve : store.resolve false start = .ok directory)
    (hds : Ascent directory ds) (horder : candidatesIn ds = upTo ++ above)
    (h : Decision limits store upTo above result) :
    (search limits store start = result ↔ ∀ x ∈ upTo, accessError? store x = none) ∧
    (∀ e, upTo.findSome? (accessError? store) = some e →
      search limits store start = .error (.access e)) ∧
    (∀ table file, verdict limits table file (.table []) = .ok {}) ∧
    ∀ store' start', store'.resolve false start' = .ok directory →
      (∀ x ∈ upTo, reading store' x = reading store x) →
      search limits store' start' = search limits store start := by
  have hsearch : search limits store start = conclude limits (firstOf limits store upTo) := by
    rw [search_eq_conclude hresolve hds, horder, h.firstOf_append_eq rfl]
  refine ⟨?_, fun e he => ?_, verdict_nil limits, fun store' start' hresolve' hreading => ?_⟩
  · rw [hsearch, h.conclude_firstOf, ← List.findSome?_eq_none_iff]
    cases upTo.findSome? (accessError? store) with
    | none => simp
    | some e => simpa using (h.result_ne_access e).symm
  · rw [hsearch, h.conclude_firstOf, he]
  · rw [search_eq_conclude hresolve' hds, horder, h.firstOf_append_eq (firstOf_congr hreading),
      hsearch]

end

/-! ## Two trees -/

/-- The text of a file with settings. -/
def settingsText : List Char := "[tool.pretty-markup]\nmax-depth=7".toList

/-- A file with settings. -/
def settingsFile : File := projectFile (encodeUtf8 settingsText) 1

/-- The settings in the file. -/
def sevenLevels : Value := .table [("max-depth".toList, .int 7)]

/-- In either of its places, the file holds the settings. -/
theorem holds_settingsFile {store : Store} {d : Path} {c : Candidate} {place : Place}
    (hc : c ∈ candidates) (h : Opens store d c place settingsFile) :
    Holds limits store (d, c) toolTable sevenLevels := by
  have hdecode : decodeUtf8 settingsFile.octets = .ok settingsText := by cbv
  have hread : Toml.read limits.tomlCalls settingsText =
      .ok [("tool".toList, .table [(tableKey, sevenLevels)])] := by cbv
  refine .mk h hdecode hread ?_
  rw [candidates, List.mem_cons, List.mem_singleton] at hc
  rcases hc with rfl | rfl <;> rfl

/-- A project file that is no document beside a file with settings, and above them a project file
that is no text. -/
def shieldedProject : Store where
  nodes := [
    ([['w']], .directory openToAll),
    ([['w'], "pyproject.toml".toList], .file (projectFile [0x5b] 2)),
    ([['w'], ".pretty-markup.toml".toList], .file settingsFile),
    (["pyproject.toml".toList], .file (projectFile [0xff] 3))]
  workDir := [['w']]

/-- The file with settings decides alone: the file above it may be no text, or missing. -/
theorem search_nearest_shielded :
    let limits : Limits := ⟨0, 0, 0, 0⟩
    let file : Path := ⟨['/'], [['w'], ".pretty-markup.toml".toList]⟩
    search limits shieldedProject ⟨[], []⟩ = verdict limits toolTable file sevenLevels ∧
      search limits (shieldedProject.unlink ["pyproject.toml".toList]) ⟨[], []⟩ =
        search limits shieldedProject ⟨[], []⟩ := by
  intro limits file
  let project : Path × Candidate := (⟨['/'], [['w']]⟩, ⟨"pyproject.toml".toList, [toolTable]⟩)
  let settings : Path × Candidate :=
    (⟨['/'], [['w']]⟩, ⟨".pretty-markup.toml".toList, [[tableKey], toolTable]⟩)
  have hresolve : shieldedProject.resolve false ⟨[], []⟩ = .ok ⟨['/'], [['w']]⟩ := by cbv
  have hds : Ascent ⟨['/'], [['w']]⟩ [⟨['/'], [['w']]⟩, ⟨['/'], []⟩] := .up (by decide) (.root rfl)
  have hproject : Opens shieldedProject project.1 project.2 [['w'], "pyproject.toml".toList]
      (projectFile [0x5b] 2) :=
    ⟨by cbv, by cbv⟩
  have hdecode : decodeUtf8 [0x5b] = .ok ['['] := by cbv
  have hbad : Toml.read limits.tomlCalls ['['] = .error .malformed := by cbv
  have hsettings : Opens shieldedProject settings.1 settings.2 [['w'],
      ".pretty-markup.toml".toList] settingsFile :=
    ⟨by cbv, by cbv⟩
  have hdecision : Decision limits shieldedProject ([project] ++ [settings])
    (candidates.map fun c => (⟨['/'], []⟩, c))
      (verdict limits toolTable file sevenLevels) :=
    .found (List.forall_mem_singleton.2 (.malformed hproject hdecode hbad))
      (holds_settingsFile (List.mem_cons_of_mem _ List.mem_cons_self) hsettings)
  obtain ⟨hresult, -, -, hsame⟩ := search_nearest hresolve hds rfl hdecision
  refine ⟨hresult.2 ?_, hsame _ _ (by cbv) ?_⟩
  · exact List.forall_mem_cons.2 ⟨by cbv, List.forall_mem_singleton.2 (by cbv)⟩
  · exact List.forall_mem_cons.2 ⟨by cbv, List.forall_mem_singleton.2 (by cbv)⟩

/-- A project file with settings at the root. -/
def rootProject : Store where
  nodes := [(["pyproject.toml".toList], .file settingsFile)]

/-- From a directory whose name is too long, the project file above it is not reached, although no
other file decides. -/
theorem search_stops_at_long_name :
    let limits : Limits := ⟨0, 0, 0, 0⟩
    let directory : Path := ⟨['/'], [List.replicate 256 'a']⟩
    let project : Path × Candidate := (⟨['/'], []⟩, ⟨"pyproject.toml".toList, [toolTable]⟩)
    rootProject.resolve false directory = .ok directory ∧
    Ascent directory [directory, ⟨['/'], []⟩] ∧
      candidatesIn [directory, ⟨['/'], []⟩] = candidates.map (fun c => (directory, c)) ++
        project :: (candidates.drop 1).map (fun c => (⟨['/'], []⟩, c)) ∧
      (∀ x ∈ candidates.map (fun c => (directory, c)), Skipped limits rootProject x) ∧
      Holds limits rootProject project toolTable sevenLevels ∧
      search limits rootProject directory ≠
        verdict limits toolTable ⟨['/'], ["pyproject.toml".toList]⟩ sevenLevels := by
  intro limits directory project
  have hlong : ∀ c ∈ candidates, rootProject.lookUp true (directory.child c.file).render =
      .error (.system .nameTooLong (directory.child c.file).render) :=
    List.forall_mem_cons.2 ⟨by cbv, List.forall_mem_singleton.2 (by cbv)⟩
  have hopens : Opens rootProject project.1 project.2 ["pyproject.toml".toList] settingsFile :=
    ⟨by cbv, by cbv⟩
  have hsearch : search limits rootProject directory =
      .error (.access (.system .nameTooLong
        (directory.child "pyproject.toml".toList).render)) := by
    cbv
  refine ⟨by cbv, .up (by decide) (.root rfl), rfl,
    List.forall_mem_map.2 fun c hc => .missing (hlong c hc),
    holds_settingsFile List.mem_cons_self hopens, ?_⟩
  rw [hsearch]
  exact (verdict_ne_access _ _ _ _ _).symm

end Reindent.Settings
