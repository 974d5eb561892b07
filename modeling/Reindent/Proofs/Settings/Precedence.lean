import Mathlib
import Reindent.Proofs.Settings.Nearest
import Reindent.Proofs.Settings.Validity

/-!
# Overrides, files and defaults

Settings are built from three sources: an override comes before the file that a search has found,
and the file before the default. Two settings describe the indentation, a unit and a number of
spaces, and normalising writes the second into the first, once when the file is read and once more
when the overrides are in. A unit that overrides therefore takes the number of spaces away, and the
winner is the same as if nothing had been normalised in between.
-/

set_option maxRecDepth 2000

namespace Reindent.Settings

open Text Files

/-! ## Sources -/

/-- What a search takes settings from: the entries of the table that it comes to, and none if there
is no table. -/
inductive Found (limits : Limits) (store : Store) (start : Path) :
    List (List Char × Value) → Prop where
  | table {d : Path} {c : Candidate} {table : List (List Char)}
      {entries : List (List Char × Value)}
      (h : Reaches limits store start d c)
      (hx : Holds limits store (d, c) table (.table entries)) :
      Found limits store start entries
  | nothing {directory : Path} (h : store.resolve false start = .ok directory)
      (hnone : firstOf limits store (searchOrder directory) = .ok none) :
      Found limits store start []

/-- The overrides that are not null. -/
def effective (overrides : List (List Char × Value)) : List (List Char × Value) :=
  overrides.filter fun v => v.2.isGiven

/-- The override of a setting, if there is one. -/
def given (overrides : List (List Char × Value)) (field : Field) : Option Value :=
  lastNamed (effective overrides) field

/-- The value that the entries of a table have for a setting, if there is one. -/
def filed (entries : List (List Char × Value)) (field : Field) : Option Value :=
  (lastNamed (renamed entries) field).filter Value.isGiven

/-- The value of a setting: its override, else its value in the table, else its default. -/
def chosen (entries overrides : List (List Char × Value)) (field : Field) : Value :=
  ((given overrides field).or (filed entries field)).getD (get {} field)

/-- The unit of indentation: the spaces of the override, else its unit, else the spaces of the
table, else its unit, else two spaces. -/
inductive ChosenUnit (entries overrides : List (List Char × Value)) : Value → Prop where
  | overrideSpaces {n : Int} (h : given overrides .indentSpaces = some (.int n)) :
      ChosenUnit entries overrides (.text (List.replicate n.toNat ' '))
  | overrideChars {v : Value} (hspaces : given overrides .indentSpaces = none)
      (h : given overrides .indentChars = some v) : ChosenUnit entries overrides v
  | tableSpaces {n : Int} (hspaces : given overrides .indentSpaces = none)
      (hchars : given overrides .indentChars = none)
      (h : filed entries .indentSpaces = some (.int n)) :
      ChosenUnit entries overrides (.text (List.replicate n.toNat ' '))
  | tableChars {v : Value} (hspaces : given overrides .indentSpaces = none)
      (hchars : given overrides .indentChars = none) (hnone : filed entries .indentSpaces = none)
      (h : filed entries .indentChars = some v) : ChosenUnit entries overrides v
  | twoSpaces (hspaces : given overrides .indentSpaces = none)
      (hchars : given overrides .indentChars = none)
      (hnone : filed entries .indentSpaces = none) (h : filed entries .indentChars = none) :
      ChosenUnit entries overrides (.text [' ', ' '])

section

variable {limits : Limits} {store : Store} {start : Path}
  {entries overrides : List (List Char × Value)} {field : Field} {v : Value}
  {s s' : Settings}

theorem isGiven_of_given (h : given overrides field = some v) : v ≠ .null := by
  obtain ⟨x, hx, rfl⟩ := Option.map_eq_some_iff.1 h
  have hgiven := (List.mem_filter.1 (List.mem_filter.1 (List.mem_of_getLast? hx)).1).2
  intro hnull
  rw [hnull] at hgiven
  cases hgiven

theorem any_name_eq_isSome (values : List (List Char × Value)) (field : Field) :
    (values.any fun v => v.1 == field.name.toList) = (lastNamed values field).isSome := by
  induction values with
  | nil => rfl
  | cons head values ih =>
    obtain ⟨name, value⟩ := head
    rw [List.any_cons, lastNamed_cons, ih]
    by_cases h : name = field.name.toList <;> simp [h]

/-! ## Searching -/

/-- The table that is found decides the search. -/
theorem Found.search_eq (h : Found limits store start entries) :
    ∃ table file, search limits store start = verdict limits table file (.table entries) := by
  cases h with
  | nothing h hnone =>
    refine ⟨toolTable, ⟨[], []⟩, ?_⟩
    rw [search_of_resolve_ok h, hnone, verdict_nil]
  | @table d c table _ h hx =>
    refine ⟨table, d.child c.file, ?_⟩
    have hcandidate := hx.ofCandidate_eq
    rw [verdict_eq]
    cases htable : ofTable table (d.child c.file) (.table entries) with
    | error e =>
      rw [htable] at hcandidate
      exact search_of_reaches_error h hcandidate
    | ok s =>
      rw [htable] at hcandidate
      exact search_of_reaches_some h hcandidate

theorem Found.search_eq_ok_iff (h : Found limits store start entries) :
    search limits store start = .ok s ↔
    namesSettings (renamed entries) = true ∧ (described entries).normalize limits = .ok s := by
  obtain ⟨table, file, hsearch⟩ := h.search_eq
  rw [hsearch, verdict]
  cases namesSettings (renamed entries) with
  | false => simp
  | true => cases (described entries).normalize limits <;> simp [Except.mapError]

/-- A search that succeeds has found a table, or that there is none. -/
theorem exists_found_of_search (h : search limits store start = .ok s) :
    ∃ entries, Found limits store start entries := by
  cases hresolve : store.resolve false start with
  | error r =>
    rw [search_of_resolve_error hresolve] at h
    cases h
  | ok directory =>
    cases hfirst : firstOf limits store (searchOrder directory) with
    | error e =>
      rw [search_of_resolve_ok hresolve, hfirst] at h
      cases h
    | ok result =>
      cases result with
      | none => exact ⟨[], .nothing hresolve hfirst⟩
      | some s' =>
        obtain ⟨before, d, c, after, horder, hbefore, hc⟩ := (firstOf_eq_iff (by simp)).1 hfirst
        obtain ⟨place, f, hopens, hoctets⟩ := exists_of_ofCandidate_some hc
        obtain ⟨e, -, he⟩ | ⟨-, -, he⟩ | ⟨text, toml, hdecode, hread, -, he⟩ :=
          ofOctets_cases limits f.octets c.tables (d.child c.file)
        · rw [hoctets] at he
          cases he
        · rw [hoctets] at he
          cases he
        · cases htable : firstTable? c.tables (.table toml) with
          | none =>
            rw [hoctets, htable] at he
            cases he
          | some found =>
            obtain ⟨table, value⟩ := found
            rw [hoctets, htable] at he
            cases value with
            | table entries =>
              exact ⟨entries, .table ⟨directory, before, after, hresolve, horder, hbefore⟩
                (.mk hopens hdecode hread htable)⟩
            | _ => cases he

/-! ## Overriding -/

/-- Settings with overrides in them. A unit of indentation takes the number of spaces away. -/
def merged (s : Settings) (overrides : List (List Char × Value)) : Settings :=
  ofFields fun field => (given overrides field).getD
    (if field = .indentSpaces ∧ (given overrides .indentChars).isSome then .null else s.get field)

theorem get_ofFields (value : Field → Value) (field : Field) :
    (ofFields value).get field = value field := by
  cases field <;> rfl

theorem override_eq_ok_iff : s.override overrides = .ok s' ↔
    (overrides.any fun v => v.1 == ['c', 'o', 'n', 'f', 'i', 'g']) = false ∧
      namesSettings (effective overrides) = true ∧ s' = s.merged overrides := by
  rw [override]
  cases overrides.any fun v => v.1 == ['c', 'o', 'n', 'f', 'i', 'g'] with
  | true => simp
  | false =>
    simp only [Bool.false_eq_true, if_false, true_and, any_name_eq_isSome]
    change setNamed (effective overrides)
      (if (given overrides .indentChars).isSome && !(given overrides .indentSpaces).isSome then
        { s with indentSpaces := .null } else s) = _ ↔ _
    generalize hbase :
      (if (given overrides .indentChars).isSome && !(given overrides .indentSpaces).isSome then
      { s with indentSpaces := .null } else s) = base
    cases hnames : namesSettings (effective overrides) with
    | false =>
      obtain ⟨e, he⟩ := setNamed_of_not_namesSettings hnames base
      simp [he]
    | true =>
      have hmerged : (ofFields fun field => (given overrides field).getD (base.get field)) =
          s.merged overrides := by
        refine congrArg ofFields (funext fun field => ?_)
        cases hfield : given overrides field with
        | some v => rfl
        | none =>
          subst hbase
          rw [Option.getD_none, Option.getD_none]
          cases field with
          | indentSpaces => cases (given overrides .indentChars).isSome <;> simp [hfield, get]
          | _ => split <;> rfl
      rw [setNamed_of_namesSettings hnames]
      exact ⟨fun h => ⟨rfl, (Except.ok.inj h).symm.trans hmerged⟩,
        fun h => congrArg Except.ok (hmerged.trans h.2.symm)⟩

/-! ## Building -/

/-- Settings are built exactly if all names can be set and the search gives settings that, with the
overrides in them, ask for something. -/
theorem build_eq_ok_iff : build limits store start overrides = .ok s ↔
    (overrides.any fun v => v.1 == startName) = false ∧
    ∃ found, search limits store start = .ok found ∧
      (overrides.any fun v => v.1 == ['c', 'o', 'n', 'f', 'i', 'g']) = false ∧
      namesSettings (effective overrides) = true ∧
      ∃ c, (found.merged overrides).Asks limits c ∧ s = (found.merged overrides).normalForm c := by
  rw [build]
  cases overrides.any fun v => v.1 == startName with
  | true => simp [throw, throwThe, MonadExceptOf.throw, bind, Except.bind]
  | false =>
    simp only [Bool.false_eq_true, if_false, true_and]
    constructor
    · intro h
      obtain ⟨-, -, h⟩ := exists_of_bind_eq_ok h
      obtain ⟨found, hsearch, h⟩ := exists_of_bind_eq_ok h
      obtain ⟨base, hbase, h⟩ := exists_of_bind_eq_ok h
      obtain ⟨hconfig, hnames, rfl⟩ := override_eq_ok_iff.1 (eq_ok_of_mapError hbase)
      obtain ⟨s', hs', h⟩ := exists_of_bind_eq_ok h
      obtain ⟨c, hc, h⟩ := exists_of_bind_eq_ok h
      have hnormalize := eq_ok_of_mapError hs'
      have hasks :=
        (asks_normalize_iff hnormalize).1 (check_eq_ok_iff.1 (eq_ok_of_mapError hc))
      refine ⟨found, hsearch, hconfig, hnames, c, hasks, ?_⟩
      rw [← Except.ok.inj h]
      exact Except.ok.inj (hnormalize.symm.trans hasks.normalize_eq)
    · rintro ⟨found, hsearch, hconfig, hnames, c, hasks, rfl⟩
      have hoverride : found.override overrides = .ok (found.merged overrides) :=
        override_eq_ok_iff.2 ⟨hconfig, hnames, rfl⟩
      have hcheck := check_eq_ok_iff.2 ((asks_normalize_iff hasks.normalize_eq).2 hasks)
      simp only [hsearch, hoverride, hasks.normalize_eq, hcheck, Except.mapError, bind,
        Except.bind]
      rfl

/-! ## The winner of each setting -/

theorem get_described (entries : List (List Char × Value)) (field : Field) :
    (described entries).get field = (lastNamed (renamed entries) field).getD (get {} field) :=
  get_ofFields _ field

theorem get_described_of_ne_null (h : (described entries).get field ≠ .null) :
    (described entries).get field = (filed entries field).getD (get {} field) := by
  rw [get_described] at h ⊢
  rw [filed]
  cases hnamed : lastNamed (renamed entries) field with
  | none => rfl
  | some v =>
    rw [hnamed] at h
    have hgiven : v.isGiven = true := by
      cases v with
      | null => exact absurd rfl h
      | _ => rfl
    rw [Option.filter_some, if_pos hgiven]

/-- A value that is not the default stands in the table. -/
theorem filed_of_get_described (h : (described entries).get field ≠ .null)
    (hdefault : get {} field = .null) :
    filed entries field = some ((described entries).get field) := by
  have hget := get_described_of_ne_null h
  cases hfiled : filed entries field with
  | none =>
    rw [hfiled, Option.getD_none, hdefault] at hget
    exact absurd hget h
  | some v => rw [hget, hfiled, Option.getD_some]

theorem filed_eq_none_of_get_described (h : (described entries).get field = .null) :
    filed entries field = none := by
  rw [get_described] at h
  rw [filed]
  cases hnamed : lastNamed (renamed entries) field with
  | none => rfl
  | some v =>
    rw [hnamed, Option.getD_some] at h
    rw [h]
    rfl

/-- A setting that is not normalised has the value that is chosen for it. -/
theorem getD_given_eq_chosen (h : (given overrides field).getD ((described entries).get field) ≠
    .null) :
    (given overrides field).getD ((described entries).get field) =
      chosen entries overrides field := by
  rw [chosen]
  cases hgiven : given overrides field with
  | some v => rfl
  | none =>
    rw [hgiven, Option.getD_none] at h
    rw [Option.getD_none, Option.none_or, get_described_of_ne_null h]

theorem lower_eq_text {v : Value} {t : List Char} (h : v.lower = .text t) : v ≠ .null := by
  rintro rfl
  cases h

section

variable {chars : Value} {c : Checked} (hchars : Indented limits (described entries) chars)

/-- The settings of a table, normalised and with overrides, ask for the policy that is chosen. -/
theorem lower_merged_eq_chosen {found : Settings}
    (hfound : found.depthOverflow = (described entries).depthOverflow.lower)
    (h : (found.merged overrides).depthOverflow.lower = .text c.overflow.name) :
    (chosen entries overrides .depthOverflow).lower = .text c.overflow.name := by
  have hmerged : (found.merged overrides).depthOverflow =
      (given overrides .depthOverflow).getD (described entries).depthOverflow.lower := by
    rw [← hfound]
    rfl
  rw [hmerged] at h
  have hraw : ((given overrides .depthOverflow).getD
      ((described entries).get .depthOverflow)).lower = .text c.overflow.name := by
    cases hgiven : given overrides .depthOverflow with
    | some v => rwa [hgiven] at h
    | none =>
      rw [hgiven] at h
      exact (lower_lower_eq_iff _).1 h
  rwa [getD_given_eq_chosen (lower_eq_text hraw)] at hraw

include hchars

/-- The settings of a table, normalised and with overrides, ask for the unit that is chosen. -/
theorem chosenUnit_of_indented {found : Settings}
    (hspaces : found.indentSpaces = (described entries).indentSpaces)
    (hunit : found.indentChars = chars)
    (h : Indented limits (found.merged overrides) (.text c.unit)) :
    ChosenUnit entries overrides (.text c.unit) := by
  have hmergedSpaces : (found.merged overrides).indentSpaces = (given overrides .indentSpaces).getD
      (if (given overrides .indentChars).isSome then .null
        else (described entries).get .indentSpaces) := by
    rw [merged, ofFields, ← show found.get .indentSpaces =
      (described entries).get .indentSpaces from hspaces]
    simp
  have hmergedChars : (found.merged overrides).indentChars =
      (given overrides .indentChars).getD chars := by
    rw [← hunit]
    rfl
  rw [indented_iff, hmergedSpaces, hmergedChars] at h
  cases hgivenSpaces : given overrides .indentSpaces with
  | some v =>
    rw [hgivenSpaces, Option.getD_some] at h
    rcases h with ⟨hnull, -⟩ | ⟨n, rfl, -, -, -, htext⟩
    · exact absurd hnull (isGiven_of_given hgivenSpaces)
    · rw [htext]
      exact .overrideSpaces hgivenSpaces
  | none =>
    rw [hgivenSpaces, Option.getD_none] at h
    cases hgivenChars : given overrides .indentChars with
    | some v =>
      rw [hgivenChars] at h
      simp only [Option.isSome_some, if_true, Option.getD_some, true_and, reduceCtorEq, false_and,
        exists_false, or_false] at h
      rw [h]
      exact .overrideChars hgivenSpaces hgivenChars
    | none =>
      rw [hgivenChars] at h
      simp only [Option.isSome_none, Bool.false_eq_true, if_false, Option.getD_none] at h
      -- Without overrides the number of spaces in the table counts, both times with the same
      -- result.
      cases hchars with
      | @spaces n hn _ _ _ =>
        have hget : (described entries).get .indentSpaces = .int n := hn
        have hfiled : filed entries .indentSpaces = _ :=
          filed_of_get_described (by simp [hget]) rfl
        rw [hget] at h hfiled
        rcases h with ⟨hnull, -⟩ | ⟨m, hm, -, -, -, htext⟩
        · cases hnull
        · obtain rfl := Value.int.inj hm
          rw [htext]
          exact .tableSpaces hgivenSpaces hgivenChars hfiled
      | own hnull =>
        have hget : (described entries).get .indentSpaces = .null := hnull
        rw [hget] at h
        have htext : Value.text c.unit = (described entries).get .indentChars := by
          simpa [get] using h
        have hnone := filed_eq_none_of_get_described hget
        have hfiled : (described entries).get .indentChars = _ :=
          get_described_of_ne_null (by simp [← htext])
        rw [htext, hfiled]
        cases hsome : filed entries .indentChars with
        | none => exact .twoSpaces hgivenSpaces hgivenChars hnone hsome
        | some v => exact .tableChars hgivenSpaces hgivenChars hnone hsome

end

/-- Settings that can be built come from the table that the search finds, or from none. Each of
them is its override, else the value in the table, else the default, with the policy in lower case
and the unit of indentation chosen among four. They pass the checks and are normalised already. -/
theorem build_precedence (h : build limits store start overrides = .ok s) :
    (∃ entries, Found limits store start entries) ∧ ∀ entries, Found limits store start entries →
      ChosenUnit entries overrides s.indentChars ∧
      (∀ field ∈ [Field.maxDepth, .preserveComments, .maxFileSize],
        s.get field = chosen entries overrides field) ∧
      s.depthOverflow = (chosen entries overrides .depthOverflow).lower ∧
      (∃ c, s.check limits = .ok c) ∧ s.normalize limits = .ok s := by
  obtain ⟨-, found, hsearch, -, -, c, hasks, rfl⟩ := build_eq_ok_iff.1 h
  refine ⟨exists_found_of_search hsearch, fun entries hfound => ?_⟩
  obtain ⟨-, hnormalize⟩ := hfound.search_eq_ok_iff.1 hsearch
  obtain ⟨chars, hchars, hfields⟩ := normalize_eq_ok_iff.1 hnormalize
  have hagain := (asks_normalize_iff hasks.normalize_eq).2 hasks
  have hplain : ∀ field ∈ [Field.maxDepth, .preserveComments, .maxFileSize],
      ((found.merged overrides).normalForm c).get field =
        (given overrides field).getD ((described entries).get field) ∧
      ((found.merged overrides).normalForm c).get field ≠ .null := by
    subst hfields
    simp only [List.forall_mem_cons, List.not_mem_nil, false_implies, implies_true, and_true]
    refine ⟨⟨rfl, ?_⟩, ⟨rfl, ?_⟩, ⟨rfl, ?_⟩⟩
    · simp [get, hagain.maxDepth]
    · simp [get, hagain.preserveComments]
    · simp [get, hagain.maxFileSize]
  refine ⟨?_, fun field hfield => ?_, ?_, ⟨c, check_eq_ok_iff.2 hagain⟩, hagain.normalize_eq⟩
  · exact chosenUnit_of_indented hchars (by rw [hfields]) (by rw [hfields]) hasks.indented
  · obtain ⟨heq, hne⟩ := hplain field hfield
    rw [heq] at hne ⊢
    exact getD_given_eq_chosen hne
  · exact (lower_merged_eq_chosen (by rw [hfields]) hasks.depthOverflow).symm

end

/-! ## A project with spaces -/

/-- The text of a project file that asks for four spaces. -/
def spacesText : List Char := "[tool.pretty-markup]\nindent-spaces=4\nmax-depth=7".toList

/-- The settings in the file. -/
def spacesEntries : List (List Char × Value) :=
  [("indent-spaces".toList, .int 4), ("max-depth".toList, .int 7)]

/-- The file at the root. -/
def spacesProject : Store where
  nodes := [(["pyproject.toml".toList], .file (projectFile (encodeUtf8 spacesText) 1))]

/-- A unit and a policy in capitals, and nothing on comments. -/
def tabOverrides : List (List Char × Value) :=
  [("indent_chars".toList, .text ['\t']), ("depth_overflow".toList, .text "ERROR".toList),
    ("preserve_comments".toList, .null)]

theorem found_spacesEntries (limits : Limits) :
    Found limits spacesProject ⟨[], []⟩ spacesEntries := by
  let project : Candidate := ⟨"pyproject.toml".toList, [toolTable]⟩
  have hresolve : spacesProject.resolve false ⟨[], []⟩ = .ok ⟨['/'], []⟩ := by cbv
  have hopens : Opens spacesProject ⟨['/'], []⟩ project ["pyproject.toml".toList]
      (projectFile (encodeUtf8 spacesText) 1) := ⟨by cbv, by cbv⟩
  have hdecode : decodeUtf8 (encodeUtf8 spacesText) = .ok spacesText := by cbv
  have hread : Toml.read limits.tomlCalls spacesText =
      .ok [("tool".toList, .table [(tableKey, .table spacesEntries)])] := by cbv
  exact .table ⟨_, [], _, hresolve, rfl, rfl⟩ (.mk hopens hdecode hread rfl)

/-- The tab that overrides comes before the four spaces of the file, the file's depth before the
default, and the default stands for the override that is null. -/
theorem build_precedence_tab :
    let limits : Limits := ⟨5, 0, 0, 0⟩
    let s : Settings :=
      { indentChars := .text ['\t'], maxDepth := .int 7, depthOverflow := .text "error".toList }
    build limits spacesProject ⟨[], []⟩ tabOverrides = .ok s ∧
    Found limits spacesProject ⟨[], []⟩ spacesEntries ∧
      filed spacesEntries .indentSpaces = some (.int 4) ∧
      ChosenUnit spacesEntries tabOverrides (.text ['\t']) ∧
      chosen spacesEntries tabOverrides .maxDepth = .int 7 ∧
      chosen spacesEntries tabOverrides .preserveComments = get {} .preserveComments ∧
      (chosen spacesEntries tabOverrides .depthOverflow).lower = .text "error".toList ∧
      s.normalize limits = .ok s := by
  intro limits s
  have hfound := found_spacesEntries limits
  have hsearch := hfound.search_eq_ok_iff.2
    ⟨by decide, normalize_eq_ok_iff.2 ⟨_, .spaces rfl (by decide) (by decide) (by decide), rfl⟩⟩
  have hupper : (Value.text "ERROR".toList).lower = .text (Overflow.name .error) :=
    congrArg Value.text (by decide)
  have hbuild : build limits spacesProject ⟨[], []⟩ tabOverrides = .ok s :=
    build_eq_ok_iff.2 ⟨by decide, _, hsearch, by decide, by decide,
      ⟨['\t'], 7, .error, false, 10485760⟩,
      ⟨.own rfl, by decide, rfl, by decide, by decide, rfl, by decide, hupper, rfl⟩, rfl⟩
  obtain ⟨-, hwinner⟩ := build_precedence hbuild
  obtain ⟨hunit, hplain, hpolicy, -, hnormal⟩ := hwinner spacesEntries hfound
  exact ⟨hbuild, hfound, rfl, hunit, (hplain .maxDepth (by decide)).symm,
    (hplain .preserveComments (by decide)).symm, hpolicy.symm, hnormal⟩

end Reindent.Settings
