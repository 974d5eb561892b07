import Mathlib
import Reindent.Proofs.Files.Store
import Reindent.Settings.Search

/-!
# Files without settings

A search for settings passes over a file that holds no document, as if the file was not there,
unless the octets are not UTF-8, an integer is too long or the values are nested too deeply: such a
file ends the search with an error that is not declared for it. Apart from these, only numbers of
spaces that the memory does not hold and paths that cannot be used end it in such a way.
-/

namespace Reindent.Settings

open Text Files

/-! ## Documents -/

/-- Octets that hold a document which can be read. -/
def IsDocument (limits : Limits) (octets : List UInt8) : Prop :=
  ∃ text entries, decodeUtf8 octets = .ok text ∧ Toml.read limits.tomlCalls text = .ok entries

/-- The error with which octets end a search that reads them, if they hold no document and are not
passed over. -/
def fault? (limits : Limits) (octets : List UInt8) : Option SearchError :=
  match decodeUtf8 octets with
  | .error fault => some (.undecodable fault)
  | .ok text =>
    match Toml.read limits.tomlCalls text with
    | .error (.overlong digits) => some (.overlongInteger digits)
    | .error .tooDeep => some .tooDeep
    | _ => none

variable {limits : Limits}

section

variable {octets : List UInt8} {tables : List (List (List Char))} {file : Path} {e : SearchError}

/-- Settings in octets: from their document, if they hold one. -/
theorem ofOctets_cases (limits : Limits) (octets : List UInt8)
    (tables : List (List (List Char))) (file : Path) :
    (∃ e, fault? limits octets = some e ∧ ofOctets limits tables file octets = .error e) ∨
    (¬ IsDocument limits octets ∧ fault? limits octets = none ∧
      ofOctets limits tables file octets = .ok none) ∨
    ∃ text entries, decodeUtf8 octets = .ok text ∧
      Toml.read limits.tomlCalls text = .ok entries ∧
      fault? limits octets = none ∧ ofOctets limits tables file octets =
        match firstTable? tables (.table entries) with
        | none => .ok none
        | some (table, value) => (ofTable table file value).map some := by
  rw [fault?, ofOctets]
  cases hdecode : decodeUtf8 octets with
  | error fault => exact .inl ⟨_, rfl, rfl⟩
  | ok text =>
    simp only [Except.mapError, bind, Except.bind]
    cases hread : Toml.read limits.tomlCalls text with
    | ok entries => exact .inr (.inr ⟨text, entries, rfl, hread, rfl, rfl⟩)
    | error error =>
      cases error with
      | overlong digits => exact .inl ⟨_, rfl, rfl⟩
      | tooDeep => exact .inl ⟨_, rfl, rfl⟩
      | malformed =>
        refine .inr (.inl ⟨?_, rfl, rfl⟩)
        rintro ⟨text', entries, hdecode', hread'⟩
        rw [hdecode] at hdecode'
        cases hdecode'
        rw [hread] at hread'
        cases hread'

theorem ofOctets_of_fault (h : fault? limits octets = some e)
    (tables : List (List (List Char))) (file : Path) :
    ofOctets limits tables file octets = .error e := by
  obtain ⟨e', hfault, hoctets⟩ | ⟨-, hfault, -⟩ | ⟨-, -, -, -, hfault, -⟩ :=
    ofOctets_cases limits octets tables file
  · rw [h] at hfault
    cases hfault
    exact hoctets
  all_goals
    rw [h] at hfault
    cases hfault

/-- Octets without a document are passed over, unless they have a fault. -/
theorem ofOctets_of_not_isDocument (h : ¬ IsDocument limits octets)
    (hfault : fault? limits octets = none) (tables : List (List (List Char))) (file : Path) :
    ofOctets limits tables file octets = .ok none := by
  obtain ⟨e, hfault', -⟩ | ⟨-, -, hoctets⟩ | ⟨text, entries, hdecode, hread, -⟩ :=
    ofOctets_cases limits octets tables file
  · rw [hfault] at hfault'
    cases hfault'
  · exact hoctets
  · exact absurd ⟨text, entries, hdecode, hread⟩ h

/-- A document fails only for a table that is no table of settings. -/
theorem ofOctets_eq_error (h : ofOctets limits tables file octets = .error e) :
    fault? limits octets = some e ∨ ∃ table, e = .badTable table file := by
  obtain ⟨e', hfault, hoctets⟩ | ⟨-, -, hoctets⟩ | ⟨text, entries, -, -, -, hoctets⟩ :=
    ofOctets_cases limits octets tables file
  · rw [h] at hoctets
    cases hoctets
    exact .inl hfault
  · rw [h] at hoctets
    cases hoctets
  · right
    rw [hoctets] at h
    split at h
    · cases h
    · rename_i table value _
      refine ⟨table, ?_⟩
      cases value with
      | table values =>
        rw [ofTable] at h
        cases hnamed : ofNamed (values.map fun v => (settingName v.1, v.2)) with
        | ok s =>
          rw [hnamed] at h
          cases h
        | error _ =>
          rw [hnamed] at h
          cases h
          rfl
      | _ =>
        cases h
        rfl

end

/-! ## Candidates -/

section

variable {store : Store} {d : Path} {c : Candidate}
  {rest before after order : List (Path × Candidate)}

theorem firstOf_cons_of_none (h : ofCandidate limits store d c = .ok none) :
    firstOf limits store ((d, c) :: rest) = firstOf limits store rest := by
  rw [firstOf, h]
  rfl

theorem firstOf_cons_of_ne {result : Except SearchError (Option Settings)}
    (h : ofCandidate limits store d c = result) (hne : result ≠ .ok none) :
    firstOf limits store ((d, c) :: rest) = result := by
  rw [firstOf, h]
  cases result with
  | error e => rfl
  | ok found =>
    cases found with
    | none => exact absurd rfl hne
    | some s => rfl

theorem firstOf_append (h : firstOf limits store before = .ok none)
    (rest : List (Path × Candidate)) :
    firstOf limits store (before ++ rest) = firstOf limits store rest := by
  induction before with
  | nil => rfl
  | cons head before ih =>
    obtain ⟨d, c⟩ := head
    by_cases hhead : ofCandidate limits store d c = .ok none
    · rw [firstOf_cons_of_none hhead] at h
      rw [List.cons_append, firstOf_cons_of_none hhead, ih h]
    · rw [firstOf_cons_of_ne rfl hhead] at h
      exact absurd h hhead

/-- The first candidate that is not passed over decides. -/
theorem firstOf_eq_iff {result : Except SearchError (Option Settings)} (hne : result ≠ .ok none) :
    firstOf limits store order = result ↔ ∃ before d c after, order = before ++ (d, c) :: after ∧
      firstOf limits store before = .ok none ∧ ofCandidate limits store d c = result := by
  constructor
  · intro h
    induction order with
    | nil => exact absurd h.symm hne
    | cons head rest ih =>
      obtain ⟨d, c⟩ := head
      by_cases hhead : ofCandidate limits store d c = .ok none
      · rw [firstOf_cons_of_none hhead] at h
        obtain ⟨before, d', c', after, rfl, hbefore, hresult⟩ := ih h
        exact ⟨(d, c) :: before, d', c', after, rfl, by rw [firstOf_cons_of_none hhead, hbefore],
          hresult⟩
      · rw [firstOf_cons_of_ne rfl hhead] at h
        exact ⟨[], d, c, rest, rfl, rfl, h⟩
  · rintro ⟨before, d, c, after, rfl, hbefore, hresult⟩
    rw [firstOf_append hbefore, firstOf_cons_of_ne hresult hne]

/-- A candidate leads to the file at a place, which may be read. -/
def Opens (store : Store) (d : Path) (c : Candidate) (place : Place) (f : File) : Prop :=
  store.lookUp true (d.child c.file).render = .ok (place, .file f) ∧ store.readError? f = none

theorem ofCandidate_of_opens {place : Place} {f : File} (h : Opens store d c place f) :
    ofCandidate limits store d c = ofOctets limits c.tables (d.child c.file) f.octets := by
  simp [ofCandidate, h.1, h.2]

/-- Without the file at a place, the candidates that lead to it are passed over; nothing else
changes for them. -/
theorem ofCandidate_unlink {place : Place} {f : File}
    (hfile : store.node? place = some (.file f)) (d : Path) (c : Candidate) :
    ofCandidate limits (store.unlink place) d c = ofCandidate limits store d c ∨
      (Opens store d c place f ∧ ofCandidate limits (store.unlink place) d c = .ok none) := by
  obtain h | ⟨h, h' | h'⟩ := Store.lookUp_unlink hfile true (d.child c.file).render
  · left
    rw [ofCandidate, ofCandidate, h]
    rfl
  · by_cases hread : store.readError? f = none
    · exact .inr ⟨⟨h', hread⟩, by simp [ofCandidate, h, AccessError.isAbsence]⟩
    · left
      simp [ofCandidate, h, h', Option.isSome_iff_ne_none.2 hread, AccessError.isAbsence]
  · left
    simp [ofCandidate, h, h', AccessError.isAbsence]

/-- A search that reads a file only to pass over it does as well without it. -/
theorem firstOf_unlink {place : Place} {f : File} (hfile : store.node? place = some (.file f))
    (hpass : ∀ before d c after, order = before ++ (d, c) :: after →
      firstOf limits store before = .ok none →
      Opens store d c place f → ofCandidate limits store d c = .ok none) :
    firstOf limits (store.unlink place) order = firstOf limits store order := by
  induction order with
  | nil => rfl
  | cons head rest ih =>
    obtain ⟨d, c⟩ := head
    have hhead : ofCandidate limits (store.unlink place) d c = ofCandidate limits store d c := by
      obtain h | ⟨hopens, h⟩ := ofCandidate_unlink hfile d c
      · exact h
      · rw [h, hpass [] d c rest rfl rfl hopens]
    by_cases hnone : ofCandidate limits store d c = .ok none
    · rw [firstOf_cons_of_none hnone, firstOf_cons_of_none (hhead.trans hnone)]
      refine ih fun before d' c' after horder hbefore => ?_
      exact hpass ((d, c) :: before) d' c' after (by rw [horder]; rfl)
        (by rw [firstOf_cons_of_none hnone, hbefore])
    · rw [firstOf_cons_of_ne hhead hnone, firstOf_cons_of_ne rfl hnone]

end

/-! ## Numbers of spaces -/

/-- Numbers of spaces that the memory does not hold, each with the way in which they fail. -/
inductive TooMany (limits : Limits) : Int → Invalid → Prop where
  | tooWide {n : Int} (h : wordBound ≤ n) : TooMany limits n .tooWide
  | outOfMemory {n : Int} (hpos : 0 < n) (h : limits.memory ≤ n) (hn : n < wordBound) :
      TooMany limits n .outOfMemory

/-- Errors that are declared for settings. -/
def Invalid.IsDeclared (i : Invalid) : Prop := i ≠ .tooWide ∧ i ≠ .outOfMemory

theorem normalize_of_int {s : Settings} {n : Int} (h : s.indentSpaces = .int n) :
    s.normalize limits =
      if n ≤ 0 then .error (.notPositive .indentSpaces)
      else if wordBound ≤ n then .error .tooWide
      else if limits.memory ≤ n then .error .outOfMemory
      else
        .ok { s with
          indentChars := .text (List.replicate n.toNat ' ')
          depthOverflow := s.depthOverflow.lower } := by
  rw [normalize, h, spaces, integer, get, h]
  simp only [bind, Except.bind]
  split_ifs <;> rfl

theorem normalize_undeclared_iff {s : Settings} {i : Invalid} :
    (s.normalize limits = .error i ∧ ¬ i.IsDeclared) ↔
      ∃ n, s.indentSpaces = .int n ∧ TooMany limits n i := by
  constructor
  · rintro ⟨h, hi⟩
    cases hspaces : s.indentSpaces with
    | null =>
      rw [normalize, hspaces] at h
      cases h
    | int n =>
      rw [normalize_of_int hspaces] at h
      refine ⟨n, rfl, ?_⟩
      split_ifs at h with hpositive hwide hmemory
      · cases h
        exact absurd (by simp [Invalid.IsDeclared]) hi
      · cases h
        exact .tooWide hwide
      · cases h
        exact .outOfMemory (not_le.1 hpositive) hmemory (not_le.1 hwide)
    | _ =>
      rw [normalize, hspaces, spaces, integer, get, hspaces] at h
      cases h
      exact absurd (by simp [Invalid.IsDeclared]) hi
  · rintro ⟨n, hn, hmany⟩
    have hbound : 0 < wordBound := by decide
    rw [normalize_of_int hn]
    cases hmany with
    | tooWide h =>
      rw [if_neg (by omega), if_pos h]
      simp [Invalid.IsDeclared]
    | outOfMemory hpos h hn =>
      rw [if_neg (by omega), if_neg (by omega), if_pos h]
      simp [Invalid.IsDeclared]

/-! ## Searches -/

/-- A search from a path comes to a candidate: all before it are passed over. -/
def Reaches (limits : Limits) (store : Store) (start d : Path) (c : Candidate) : Prop :=
  ∃ directory before after, store.resolve false start = .ok directory ∧
    searchOrder directory = before ++ (d, c) :: after ∧ firstOf limits store before = .ok none

/-- A search from a path comes to read the file at a place. -/
def Reads (limits : Limits) (store : Store) (start : Path) (place : Place) (f : File) : Prop :=
  ∃ d c, Reaches limits store start d c ∧ Opens store d c place f

section

variable {store : Store} {start d : Path} {c : Candidate} {e : SearchError} {s : Settings}

theorem search_of_resolve_error {r : ResolveError} (h : store.resolve false start = .error r) :
    search limits store start = .error (.ofResolve r) := by
  rw [search, h]
  rfl

theorem search_of_resolve_ok {directory : Path} (h : store.resolve false start = .ok directory) :
    search limits store start =
      match firstOf limits store (searchOrder directory) with
      | .error e => .error e
      | .ok none => .ok {}
      | .ok (some s) => (s.normalize limits).mapError .invalid := by
  rw [search, h]
  simp only [Except.mapError, bind, Except.bind]
  cases firstOf limits store (searchOrder directory) with
  | error e => rfl
  | ok found => cases found <;> rfl

theorem search_of_reaches_error (h : Reaches limits store start d c)
    (hc : ofCandidate limits store d c = .error e) :
    search limits store start = .error e := by
  obtain ⟨directory, before, after, hresolve, horder, hbefore⟩ := h
  have hfirst : firstOf limits store (searchOrder directory) = .error e :=
    (firstOf_eq_iff (by simp)).2 ⟨before, d, c, after, horder, hbefore, hc⟩
  rw [search_of_resolve_ok hresolve, hfirst]

theorem search_of_reaches_some (h : Reaches limits store start d c)
    (hc : ofCandidate limits store d c = .ok (some s)) :
    search limits store start = (s.normalize limits).mapError .invalid := by
  obtain ⟨directory, before, after, hresolve, horder, hbefore⟩ := h
  have hfirst : firstOf limits store (searchOrder directory) = .ok (some s) :=
    (firstOf_eq_iff (by simp)).2 ⟨before, d, c, after, horder, hbefore, hc⟩
  rw [search_of_resolve_ok hresolve, hfirst]

/-- How a search fails: at its starting path, at a candidate, or for the settings that it found. -/
theorem search_eq_error (h : search limits store start = .error e) :
    (∃ r, store.resolve false start = .error r ∧ e = .ofResolve r) ∨
    (∃ d c, Reaches limits store start d c ∧ ofCandidate limits store d c = .error e) ∨
    ∃ d c s i, Reaches limits store start d c ∧ ofCandidate limits store d c = .ok (some s) ∧
    s.normalize limits = .error i ∧ e = .invalid i := by
  cases hresolve : store.resolve false start with
  | error r =>
    rw [search_of_resolve_error hresolve] at h
    cases h
    exact .inl ⟨r, rfl, rfl⟩
  | ok directory =>
    rw [search_of_resolve_ok hresolve] at h
    cases hfirst : firstOf limits store (searchOrder directory) with
    | error e' =>
      obtain ⟨before, d, c, after, horder, hbefore, hc⟩ := (firstOf_eq_iff (by simp)).1 hfirst
      rw [hfirst] at h
      cases h
      exact .inr (.inl ⟨d, c, ⟨directory, before, after, hresolve, horder, hbefore⟩, hc⟩)
    | ok found =>
      cases found with
      | none =>
        rw [hfirst] at h
        cases h
      | some s =>
        obtain ⟨before, d, c, after, horder, hbefore, hc⟩ := (firstOf_eq_iff (by simp)).1 hfirst
        rw [hfirst] at h
        cases hnormalize : s.normalize limits with
        | ok s' =>
          simp only [hnormalize] at h
          cases h
        | error i =>
          simp only [hnormalize] at h
          cases h
          exact .inr (.inr ⟨d, c, s, i, ⟨directory, before, after, hresolve, horder, hbefore⟩, hc,
            hnormalize, rfl⟩)

end

/-- The errors that are declared for a search: those of a table of settings that was found. -/
def SearchError.IsDeclared : SearchError → Prop
  | .badTable _ _ => True
  | .invalid i => i.IsDeclared
  | _ => False

/-- The other errors of a search, each with its reason. -/
inductive Undeclared (limits : Limits) (store : Store) (start : Path) : SearchError → Prop where
  | unresolved {r : ResolveError} (h : store.resolve false start = .error r) :
      Undeclared limits store start (.ofResolve r)
  | inaccessible {d : Path} {c : Candidate} {a : AccessError} (h : Reaches limits store start d c)
    (hlook : store.lookUp true (d.child c.file).render = .error a) (ha : a.isAbsence = false) :
    Undeclared limits store start (.access a)
  | faulty {d : Path} {c : Candidate} {place : Place} {f : File} {e : SearchError}
      (h : Reaches limits store start d c)
    (hopens : Opens store d c place f) (hfault : fault? limits f.octets = some e) :
    Undeclared limits store start e
  | tooMany {d : Path} {c : Candidate} {place : Place} {f : File} {s : Settings} {n : Int}
      {i : Invalid}
    (h : Reaches limits store start d c) (hopens : Opens store d c place f)
    (hs : ofOctets limits c.tables (d.child c.file) f.octets = .ok (some s))
    (hn : s.indentSpaces = .int n)
    (hmany : TooMany limits n i) : Undeclared limits store start (.invalid i)

section

variable {store : Store} {start : Path} {e : SearchError}

theorem exists_of_ofCandidate_error {d : Path} {c : Candidate}
    (h : ofCandidate limits store d c = .error e) :
    (∃ a, store.lookUp true (d.child c.file).render = .error a ∧ a.isAbsence = false ∧
      e = .access a) ∨
    ∃ place f, Opens store d c place f ∧
    ofOctets limits c.tables (d.child c.file) f.octets = .error e := by
  simp only [ofCandidate] at h
  split at h
  · rename_i a hlook
    split at h
    · cases h
    · rename_i ha
      cases h
      exact .inl ⟨a, hlook, by simpa using ha, rfl⟩
  · rename_i place f hlook
    split at h
    · cases h
    · rename_i hread
      exact .inr ⟨place, f, ⟨hlook, by simpa using hread⟩, h⟩
  · cases h

theorem exists_of_ofCandidate_some {d : Path} {c : Candidate} {s : Settings}
    (h : ofCandidate limits store d c = .ok (some s)) :
    ∃ place f, Opens store d c place f ∧
    ofOctets limits c.tables (d.child c.file) f.octets = .ok (some s) := by
  simp only [ofCandidate] at h
  split at h
  · split at h <;> cases h
  · rename_i place f hlook
    split at h
    · cases h
    · rename_i hread
      exact ⟨place, f, ⟨hlook, by simpa using hread⟩, h⟩
  · cases h

theorem not_isDeclared_of_fault {octets : List UInt8} (h : fault? limits octets = some e) :
    ¬ e.IsDeclared := by
  rw [fault?] at h
  split at h
  · cases h
    exact not_false
  · split at h
    · cases h
      exact not_false
    · cases h
      exact not_false
    · cases h

/-- A search fails with an error that is not declared for these reasons alone. -/
theorem undeclared_iff : (search limits store start = .error e ∧ ¬ e.IsDeclared) ↔
    Undeclared limits store start e := by
  constructor
  · rintro ⟨h, hdeclared⟩
    obtain ⟨r, hresolve, rfl⟩ | ⟨d, c, hreach, hc⟩ | ⟨d, c, s, i, hreach, hc, hnormalize, rfl⟩ :=
      search_eq_error h
    · exact .unresolved hresolve
    · obtain ⟨a, hlook, ha, rfl⟩ | ⟨place, f, hopens, hoctets⟩ := exists_of_ofCandidate_error hc
      · exact .inaccessible hreach hlook ha
      · obtain hfault | ⟨table, rfl⟩ := ofOctets_eq_error hoctets
        · exact .faulty hreach hopens hfault
        · exact absurd trivial hdeclared
    · obtain ⟨place, f, hopens, hoctets⟩ := exists_of_ofCandidate_some hc
      obtain ⟨n, hn, hmany⟩ := normalize_undeclared_iff.1 ⟨hnormalize, hdeclared⟩
      exact .tooMany hreach hopens hoctets hn hmany
  · intro h
    cases h with
    | @unresolved r h =>
      rw [search_of_resolve_error h]
      cases r <;> exact ⟨rfl, not_false⟩
    | inaccessible h hlook ha =>
      refine ⟨search_of_reaches_error h ?_, not_false⟩
      simp [ofCandidate, hlook, ha]
    | faulty h hopens hfault =>
      refine ⟨search_of_reaches_error h ?_, not_isDeclared_of_fault hfault⟩
      rw [ofCandidate_of_opens hopens, ofOctets_of_fault hfault]
    | tooMany h hopens hs hn hmany =>
      obtain ⟨hnormalize, hdeclared⟩ := normalize_undeclared_iff.2 ⟨_, hn, hmany⟩
      refine ⟨?_, hdeclared⟩
      rw [search_of_reaches_some h ((ofCandidate_of_opens hopens).trans hs), hnormalize]
      rfl

/-- A search does as well without a file that it does not read, or reads only to pass over it. -/
theorem search_unlink {place : Place} {f : File} (hdistinct : store.Distinct)
    (hfile : store.node? place = some (.file f)) (hraw : ¬ IsDocument limits f.octets)
    (hpass : fault? limits f.octets = none ∨ ¬ Reads limits store start place f) :
    search limits (store.unlink place) start = search limits store start := by
  have hresolve := Store.resolve_unlink hdistinct hfile start
  cases hstart : store.resolve false start with
  | error r => rw [search_of_resolve_error hstart, search_of_resolve_error (hresolve.trans hstart)]
  | ok directory =>
    rw [search_of_resolve_ok hstart, search_of_resolve_ok (hresolve.trans hstart),
      firstOf_unlink hfile]
    intro before d c after horder hbefore hopens
    obtain hfault | hnever := hpass
    · rw [ofCandidate_of_opens hopens, ofOctets_of_not_isDocument hraw hfault]
    · exact absurd ⟨d, c, ⟨directory, before, after, hstart, horder, hbefore⟩, hopens⟩ hnever

/-- A file without a document is passed over as if it was not there, unless a search comes to read
it and it has a fault: then that ends the search. -/
theorem search_of_not_isDocument (hdistinct : store.Distinct) (start : Path) :
    (∀ place f, store.node? place = some (.file f) → ¬ IsDocument limits f.octets →
      (fault? limits f.octets = none ∨ ¬ Reads limits store start place f →
        search limits (store.unlink place) start = search limits store start) ∧
      ∀ e, fault? limits f.octets = some e → Reads limits store start place f →
        search limits store start = .error e ∧ ¬ e.IsDeclared) ∧
    ∀ e, (search limits store start = .error e ∧ ¬ e.IsDeclared) ↔
      Undeclared limits store start e := by
  refine ⟨fun place f hfile hraw => ⟨search_unlink hdistinct hfile hraw, ?_⟩,
    fun e => undeclared_iff⟩
  rintro e hfault ⟨d, c, hreach, hopens⟩
  exact undeclared_iff.2 (.faulty hreach hopens hfault)

end

/-- A project file. -/
def projectFile (octets : List UInt8) (inode : Nat) : File :=
  { mode := 0o644, octets, inode, mtime := 0 }

/-- A directory with a project file below one with another, and the working directory in it. -/
def nestedProjects (inner outer : List UInt8) : Store where
  nodes := [
    ([['w']], .directory openToAll),
    ([['w'], "pyproject.toml".toList], .file (projectFile inner 1)),
    (["pyproject.toml".toList], .file (projectFile outer 2))]
  workDir := [['w']]

/-- Where a list in a list is already too deep, a bracket that opens a table is passed over, but
such a list and the octet 255 are not. -/
theorem search_of_not_isDocument_nested :
    let limits : Limits := ⟨0, 0, 0, 3⟩
    let deep : List UInt8 := [0x61, 0x3d, 0x5b, 0x5b]
    (nestedProjects [0x5b] [0xff]).Distinct ∧ ¬ IsDocument limits [0x5b] ∧
      search limits ((nestedProjects [0x5b] [0xff]).unlink [['w'], "pyproject.toml".toList])
        ⟨[], []⟩ = search limits (nestedProjects [0x5b] [0xff]) ⟨[], []⟩ ∧
      search limits (nestedProjects [0x5b] [0xff]) ⟨[], []⟩ =
        .error (.undecodable ⟨.invalidStart, 0xff, 0, 1⟩) ∧
      search limits (nestedProjects [0x5b] deep) ⟨[], []⟩ = .error .tooDeep := by
  intro limits deep
  have hdistinct : ∀ outer, (nestedProjects [0x5b] outer).Distinct := by
    intro outer
    simp only [Store.Distinct, nestedProjects, List.map]
    decide
  have hinner : ¬ IsDocument limits [0x5b] := by
    rintro ⟨text, entries, hdecode, hread⟩
    have htext : decodeUtf8 [0x5b] = .ok ['['] := by cbv
    rw [htext] at hdecode
    cases hdecode
    have hbad : Toml.read limits.tomlCalls ['['] = .error .malformed := by cbv
    rw [hbad] at hread
    cases hread
  have hfault : fault? limits [0xff] = some (.undecodable ⟨.invalidStart, 0xff, 0, 1⟩) := by cbv
  have hdeep : fault? limits deep = some .tooDeep := by cbv
  -- The two candidates of the inner directory are passed over.
  have hreads : ∀ outer, Reads limits (nestedProjects [0x5b] outer) ⟨[], []⟩
      ["pyproject.toml".toList] (projectFile outer 2) := by
    intro outer
    refine ⟨⟨['/'], []⟩, ⟨"pyproject.toml".toList, [toolTable]⟩, ⟨⟨['/'], [['w']]⟩,
      (searchOrder ⟨['/'], [['w']]⟩).take 2, (searchOrder ⟨['/'], [['w']]⟩).drop 3, ?_, rfl, ?_⟩,
      ?_, ?_⟩
    all_goals cbv
  have hends : ∀ outer e, fault? limits outer = some e →
      search limits (nestedProjects [0x5b] outer) ⟨[], []⟩ = .error e := by
    intro outer e he
    obtain ⟨h, -⟩ := search_of_not_isDocument (hdistinct outer) ⟨[], []⟩
    have houter : ¬ IsDocument limits outer := by
      rintro ⟨text, entries, hdecode, hread⟩
      simp [fault?, hdecode, hread] at he
    exact ((h _ (projectFile outer 2) rfl houter).2 e he (hreads outer)).1
  obtain ⟨h, -⟩ := search_of_not_isDocument (hdistinct [0xff]) ⟨[], []⟩
  exact ⟨hdistinct _, hinner, (h _ (projectFile [0x5b] 1) rfl hinner).1 (.inl (by cbv)),
    hends _ _ hfault, hends _ _ hdeep⟩

/-- A project file that is no text ends a search which would give the defaults without it. -/
theorem search_stops_at_undecodable :
    let limits : Limits := ⟨0, 0, 0, 0⟩
    search limits (nestedProjects [0xff] []) ⟨[], []⟩ =
        .error (.undecodable ⟨.invalidStart, 0xff, 0, 1⟩) ∧
      search limits ((nestedProjects [0xff] []).unlink [['w'], "pyproject.toml".toList])
        ⟨[], []⟩ = .ok {} := by
  constructor <;> cbv

end Reindent.Settings
