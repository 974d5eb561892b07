import Mathlib
import Reindent.Proofs.Json.Reading
import Reindent.Proofs.Marker
import Reindent.Proofs.Settings.Validity
import Reindent.Proofs.Text.Cuts

/-!
# What formatting can come to

`Declared` lists the answers that formatting may give: a text, or one of the errors that are
declared for it, each with the reason for which alone it may be given. Every answer is one of them
unless JSON is laid out that holds an overlong integer or is nested too deeply: that fails in ways
of its own (`Undeclared`). A walk fails for the depth of a line only (`exceeds_of_walk_eq_error`),
and splitting for want of a mark only (`Marker.pick?_eq_none`).
-/

namespace Reindent

open Text

/-! ## Reasons -/

/-- An error that reports a line deeper than a table which refuses such lines. -/
def RefusesDepth (table : IndentTable) (error : FormatError) : Prop :=
  ∃ depth, error = .depthExceeded ⟨depth, table.maxDepth⟩ ∧ table.overflow = .error ∧
    table.maxDepth < depth

/-- A walk fails only at a line that is deeper than its table, and only if the table refuses such
lines. -/
theorem exceeds_of_walk_eq_error {State Kind Fragment : Type} {table : IndentTable}
    {move : State → Fragment → Move State Kind} {state : State} {fragments : List Fragment}
    {e : DepthExceeded}
    (h : (walk table move state fragments).2 = .error e) :
    RefusesDepth table (.depthExceeded e) := by
  induction fragments generalizing state with
  | nil => cases h
  | cons f fs ih =>
    rw [walk] at h
    cases hemit : (move state f).emit table with
    | error e' =>
      rw [hemit] at h
      obtain rfl : e' = e := Except.error.inj h
      rw [Move.emit, emit.eq_def] at hemit
      split at hemit
      · cases hemit
      · rename_i depth _
        rw [IndentTable.shift_eq] at hemit
        split_ifs at hemit with hdeep
        · rw [← Except.error.inj hemit]
          exact ⟨depth, rfl, hdeep.1, hdeep.2.2⟩
        · cases hemit
    | ok pieces =>
      rw [hemit] at h
      simp only at h
      cases hrest : (walk table move (move state f).next fs).2 with
      | ok text =>
        rw [hrest] at h
        cases h
      | error e' =>
        rw [hrest] at h
        exact ih (Except.error.inj h ▸ hrest)

theorem refusesDepth_of_walk {State Kind Fragment : Type} {table : IndentTable}
    {move : State → Fragment → Move State Kind} {state : State} {fragments : List Fragment}
    {finish : List Char → List Char} {error : FormatError}
    (h : ((walk table move state fragments).2.map finish).mapError FormatError.depthExceeded =
      .error error) :
    RefusesDepth table error := by
  cases hwalk : (walk table move state fragments).2 with
  | ok text =>
    rw [hwalk] at h
    cases h
  | error e =>
    rw [hwalk] at h
    exact Except.error.inj h ▸ exceeds_of_walk_eq_error hwalk

theorem Xml.refusesDepth_of_pretty {table : IndentTable} {text : List Char} {error : FormatError}
    (h : Xml.pretty table text = .error error) : RefusesDepth table error :=
  refusesDepth_of_walk h

theorem Xml.exists_pretty_of_clamp {table : IndentTable} (h : table.overflow = .clamp)
    (text : List Char) :
    ∃ out, Xml.pretty table text = .ok out := by
  cases hpretty : Xml.pretty table text with
  | ok out => exact ⟨out, rfl⟩
  | error error =>
    obtain ⟨_, -, hoverflow, -⟩ := Xml.refusesDepth_of_pretty hpretty
    rw [h] at hoverflow
    cases hoverflow

/-- All marks are taken by a text. -/
def TakesAllMarks (text : List Char) : Prop :=
  ∀ m ∈ Marker.preferred :: Marker.fallbacks, m ∈ text

theorem Css.pretty_eq_error {table : IndentTable} {text : List Char} {error : FormatError}
    (h : Css.pretty table text = .error error) :
    RefusesDepth table error ∨ (error = .noMarkLeft ∧ TakesAllMarks text) := by
  rw [Css.pretty, Css.split] at h
  cases hmark : Marker.pick? text with
  | none =>
    rw [hmark] at h
    exact .inr ⟨(Except.error.inj h).symm, Marker.pick?_eq_none hmark⟩
  | some mark =>
    rw [hmark] at h
    exact .inl (refusesDepth_of_walk h)

/-- Splitting a statement fails only for want of a mark in one of its spans. -/
theorem Sql.fragmentsOf_eq_error {tab : List Char} {lit : Bool}
    {spans : List (List Char)} {error : FormatError}
    (h : Sql.fragmentsOf tab lit spans = .error error) :
    error = .noMarkLeft ∧ ∃ span ∈ spans, TakesAllMarks (span ++ tab) := by
  induction spans generalizing lit with
  | nil => cases lit <;> cases h
  | cons span rest ih =>
    have hrest : ∀ {lit}, Sql.fragmentsOf tab lit rest = .error error →
        error = .noMarkLeft ∧ ∃ s ∈ span :: rest, TakesAllMarks (s ++ tab) := by
      intro lit hlit
      obtain ⟨herror, s, hs, htaken⟩ := ih hlit
      exact ⟨herror, s, List.mem_cons_of_mem span hs, htaken⟩
    cases lit with
    | true =>
      rw [Sql.fragmentsOf] at h
      cases hmore : Sql.fragmentsOf tab false rest with
      | error e =>
        rw [hmore] at h
        exact hrest (Except.error.inj h ▸ hmore)
      | ok more =>
        rw [hmore] at h
        cases h
    | false =>
      rw [Sql.fragmentsOf, Sql.splitClauses] at h
      cases hmark : Marker.pick? (span ++ tab) with
      | none =>
        rw [hmark] at h
        exact ⟨(Except.error.inj h).symm, span, List.mem_cons_self, Marker.pick?_eq_none hmark⟩
      | some mark =>
        rw [hmark] at h
        cases hmore : Sql.fragmentsOf tab true rest with
        | error e =>
          simp only [hmore] at h
          exact hrest (Except.error.inj h ▸ hmore)
        | ok more =>
          simp only [hmore] at h
          cases h

/-- What a span holds beside spaces is in the text. -/
theorem Sql.mem_of_mem_quoteSpans {text span : List Char} {c : Char}
    (hspan : span ∈ Sql.quoteSpans text) (hc : c ∈ span) (hblank : isBlank c = false) :
    c ∈ text := by
  refine mem_of_mem_collapse ?_ hblank
  rw [← flatten_cutBefore Sql.startsQuote (collapse text)]
  exact List.mem_flatten.2 ⟨span, hspan, hc⟩

theorem Sql.pretty_eq_error {table : IndentTable} {text : List Char} {error : FormatError}
    (h : Sql.pretty table text = .error error) :
    RefusesDepth table error ∨ (error = .noMarkLeft ∧ TakesAllMarks (text ++ table.unit)) := by
  rw [Sql.pretty] at h
  cases hsplit : Sql.split table.unit text with
  | ok fragments =>
    rw [hsplit] at h
    exact .inl (refusesDepth_of_walk h)
  | error e =>
    rw [hsplit] at h
    obtain rfl : e = error := Except.error.inj h
    obtain ⟨herror, span, hspan, htaken⟩ := fragmentsOf_eq_error hsplit
    refine .inr ⟨herror, fun m hm => ?_⟩
    have hcandidate : Marker.IsCandidate m := Marker.mem_candidates_iff.1 hm
    rcases List.mem_append.1 (htaken m hm) with hm | hm
    · exact List.mem_append_left _ (mem_of_mem_quoteSpans hspan hm hcandidate.isBlank_eq_false)
    · exact List.mem_append_right _ hm

/-! ## Languages and settings -/

theorem Language.ofName?_eq_some_iff {name : List Char} {l : Language} :
    Language.ofName? name = some l ↔ name = l.name := by
  constructor
  · intro h
    have := List.find?_some h
    exact (by simpa using this : l.name = name).symm
  · rintro rfl
    cases l <;> decide

theorem Language.ofName?_eq_none_iff {name : List Char} :
    Language.ofName? name = none ↔ ∀ l : Language, name ≠ l.name := by
  rw [Option.eq_none_iff_forall_ne_some]
  exact forall_congr' fun l => not_congr Language.ofName?_eq_some_iff

namespace Engine

/-- Settings that name the policy `clamp` in whatever case make an engine whose table clamps. -/
theorem overflow_of_create {limits : Limits} {s : Settings} {e : Engine}
    (h : create limits s = .ok e)
    (hs : s.depthOverflow.lower = .text (Overflow.name .clamp)) : e.table.overflow = .clamp := by
  obtain ⟨c, hasks, rfl⟩ := create_eq_ok_iff.1 h
  have hname : Settings.Value.text c.overflow.name = .text (Overflow.name .clamp) :=
    hasks.depthOverflow.symm.trans hs
  exact Overflow.name_injective (Settings.Value.text.inj hname)

theorem limits_of_create {limits : Limits} {s : Settings} {e : Engine}
    (h : create limits s = .ok e) : e.limits = limits := by
  obtain ⟨c, -, rfl⟩ := create_eq_ok_iff.1 h
  rfl

/-! ## Answers -/

/-- The answers that formatting may give: a text, or an error that is declared for the language,
with its reason. -/
inductive Declared (e : Engine) (language text : List Char) (minified : Bool) :
    Except Failure (List Symbol) → Prop where
  | text (out : List Symbol) : Declared e language text minified (.ok out)
  | unsupportedLanguage (h : ∀ l : Language, lowerCase language ≠ l.name) :
      Declared e language text minified
      (.error (.format (.unsupportedLanguage (lowerCase language))))
  | depthExceeded {error : FormatError} (hm : minified = false)
      (hl : ∃ l ∈ [Language.xml, .css, .sql], lowerCase language = l.name)
      (h : RefusesDepth e.table error) :
      Declared e language text minified (.error (.format error))
  | noMarkLeft (hm : minified = false)
      (hl : ∃ l ∈ [Language.css, .sql], lowerCase language = l.name)
      (h : TakesAllMarks (text ++ e.table.unit)) :
      Declared e language text minified (.error (.format .noMarkLeft))
  | invalidJson (cause : Json.Cause) (line column offset : Nat) (hm : minified = false)
      (hl : lowerCase language = Language.name .json) :
      Declared e language text minified (.error (.format (.invalidJson cause line column offset)))

/-- The failures of laying out JSON that are not declared, each with its reason: an integer that is
too long, with nothing wrong in front of it, and values nested too deeply to be read or, once they
are read, to be written. -/
inductive Undeclared (limits : Limits) (text : List Char) : Failure → Prop where
  | overlong {digits : Nat} (h : Json.FirstOverlong limits.jsonReading text digits) :
      Undeclared limits text (.overlongInteger digits)
  | unread (h : Json.OutOfLevels limits.jsonReading text) : Undeclared limits text .tooDeep
  | unwritten {value : Json} (h : Json.read limits.jsonReading text = .ok value)
      (hlevels : limits.jsonWriting < value.levels) : Undeclared limits text .tooDeep

variable {e : Engine} {language text : List Char} {minified : Bool}

theorem format_of_ofName? {l : Language} (hl : lowerCase language = l.name) :
    e.format language text minified =
    if minified then .ok (symbols (e.minify l text none)) else e.pretty l text := by
  rw [format, Language.ofName?_eq_some_iff.2 hl]

/-- An error of laying out is declared if its reason is. -/
theorem Declared.of_pretty {l : Language} (hl : lowerCase language = l.name) (hjson : l ≠ .json)
    {res : Except FormatError (List Char)}
    (h : ∀ error, res = .error error → RefusesDepth e.table error ∨
      (l ∈ [Language.css, .sql] ∧ error = .noMarkLeft ∧ TakesAllMarks (text ++ e.table.unit))) :
    Declared e language text false ((res.map symbols).mapError .format) := by
  cases res with
  | ok out => exact .text _
  | error error =>
    rcases h error rfl with hdepth | ⟨hl', rfl, htaken⟩
    · exact .depthExceeded rfl ⟨l, by cases l <;> simp_all, hl⟩ hdepth
    · exact .noMarkLeft rfl ⟨l, hl', hl⟩ htaken

theorem declared_pretty {l : Language} (hl : lowerCase language = l.name) (hjson : l ≠ .json) :
    Declared e language text false (e.pretty l text) := by
  cases l with
  | xml => exact .of_pretty hl hjson fun error h => .inl (Xml.refusesDepth_of_pretty h)
  | json => exact absurd rfl hjson
  | css =>
    refine .of_pretty hl hjson fun error h => ?_
    rcases Css.pretty_eq_error h with hdepth | ⟨herror, htaken⟩
    · exact .inl hdepth
    · exact .inr ⟨by simp, herror, fun m hm => List.mem_append_left _ (htaken m hm)⟩
  | sql =>
    refine .of_pretty hl hjson fun error h => ?_
    rcases Sql.pretty_eq_error h with hdepth | ⟨herror, htaken⟩
    · exact .inl hdepth
    · exact .inr ⟨by simp, herror, htaken⟩

/-- A document of JSON is laid out, refused as malformed, or fails in a way that is not
declared. -/
theorem declared_pretty_json (hl : lowerCase language = Language.name .json) :
    Declared e language text false (e.pretty .json text) ∨
      ∃ failure, Undeclared e.limits text failure := by
  rw [pretty, Json.prettyText]
  cases hread : Json.read e.limits.jsonReading text with
  | ok value =>
    simp only [Json.writeWithin]
    split
    · rename_i hlevels
      exact .inr ⟨_, .unwritten hread hlevels⟩
    · exact .inl (.text _)
  | error error =>
    cases error with
    | malformed cause line column offset =>
      exact .inl (.invalidJson cause line column offset rfl hl)
    | overlong digits => exact .inr ⟨_, .overlong (Json.read_eq_overlong_iff.1 hread)⟩
    | tooDeep => exact .inr ⟨_, .unread (Json.read_eq_tooDeep_iff.1 hread)⟩

theorem format_of_undeclared {failure : Failure} (hl : lowerCase language = Language.name .json)
    (h : Undeclared e.limits text failure) : e.format language text false = .error failure := by
  rw [format_of_ofName? hl, if_neg Bool.false_ne_true, pretty, Json.prettyText]
  cases h with
  | overlong h =>
    rw [Json.read_eq_overlong_iff.2 h]
    rfl
  | unread h =>
    rw [Json.read_eq_tooDeep_iff.2 h]
    rfl
  | unwritten h hlevels =>
    simp only [h, Json.writeWithin, if_pos hlevels]
    rfl

theorem Declared.not_undeclared {failure : Failure}
    (h : Declared e language text minified (.error failure)) (limits : Limits) :
    ¬ Undeclared limits text failure := by
  intro hundeclared
  cases hundeclared <;> cases h

/-- Formatting gives a text or a declared error, unless JSON is laid out that has an overlong
integer where a value starts, with nothing wrong in front of it, or is nested too deeply: then it
fails with that. With a table that clamps, XML is always laid out, and all languages are always
minified. -/
theorem declared_format_iff {limits : Limits} {s : Settings} (h : create limits s = .ok e)
    (language text : List Char) (minified : Bool) :
    (Declared e language text minified (e.format language text minified) ↔
      ¬ (minified = false ∧ lowerCase language = Language.name .json ∧
        ∃ failure, Undeclared limits text failure)) ∧
    (∀ failure, minified = false → lowerCase language = Language.name .json →
      Undeclared limits text failure → e.format language text minified = .error failure) ∧
    ∀ l : Language, lowerCase language = l.name →
      (minified = true ∨ (l = .xml ∧ s.depthOverflow.lower = .text (Overflow.name .clamp))) →
      ∃ out, e.format language text minified = .ok out := by
  obtain rfl := limits_of_create h
  refine ⟨⟨?_, ?_⟩, ?_, ?_⟩
  · rintro hdeclared ⟨rfl, hl, failure, hundeclared⟩
    rw [format_of_undeclared hl hundeclared] at hdeclared
    exact hdeclared.not_undeclared e.limits hundeclared
  · intro hnot
    by_cases hl : ∃ l : Language, lowerCase language = l.name
    · obtain ⟨l, hl⟩ := hl
      rw [format_of_ofName? hl]
      cases minified with
      | true => exact .text _
      | false =>
        rw [if_neg Bool.false_ne_true]
        by_cases hjson : l = .json
        · subst hjson
          rcases declared_pretty_json hl with hdeclared | hundeclared
          · exact hdeclared
          · exact absurd ⟨rfl, hl, hundeclared⟩ hnot
        · exact declared_pretty hl hjson
    · rw [not_exists] at hl
      rw [format, Language.ofName?_eq_none_iff.2 hl]
      exact .unsupportedLanguage hl
  · rintro failure rfl hl hundeclared
    exact format_of_undeclared hl hundeclared
  · rintro l hl (rfl | ⟨rfl, hs⟩)
    · exact ⟨_, by rw [format_of_ofName? hl, if_pos rfl]⟩
    · rw [format_of_ofName? hl]
      split
      · exact ⟨_, rfl⟩
      · obtain ⟨out, hout⟩ := Xml.exists_pretty_of_clamp (overflow_of_create h hs) text
        exact ⟨symbols out, by rw [pretty, hout]; rfl⟩

/-- An engine of the default settings lays out a tag that is never closed, and refuses an
unfinished object with an error that is declared, if there are levels enough to report it; with one
level less it fails. -/
theorem declared_format_default :
    let json : List Char := ['J', 's', 'o', 'n']
    (∃ e, create ⟨0, 4, 0, 0⟩ {} = .ok e ∧
      (∃ out, e.format ['X', 'M', 'L'] ['<', 'a', '>'] false = .ok out) ∧
      Declared e json ['\x7b'] false (e.format json ['\x7b'] false)) ∧
    ∃ e, create ⟨0, 3, 0, 0⟩ {} = .ok e ∧ e.format json ['\x7b'] false = .error .tooDeep := by
  intro json
  obtain ⟨e, he⟩ : ∃ e, create ⟨0, 4, 0, 0⟩ {} = .ok e := ⟨_, rfl⟩
  obtain ⟨e', he'⟩ : ∃ e, create ⟨0, 3, 0, 0⟩ {} = .ok e := ⟨_, rfl⟩
  obtain ⟨hiff, -, -⟩ := declared_format_iff he json ['\x7b'] false
  obtain ⟨-, -, hxml⟩ := declared_format_iff he ['X', 'M', 'L'] ['<', 'a', '>'] false
  obtain ⟨-, hfails, -⟩ := declared_format_iff he' json ['\x7b'] false
  refine ⟨⟨e, he, hxml .xml (by decide) (.inr ⟨rfl, ?_⟩), hiff.2 ?_⟩, e', he',
    hfails _ rfl (by decide) (.unread ?_)⟩
  · exact congrArg Settings.Value.text (by decide)
  · rintro ⟨-, -, failure, hundeclared⟩
    have hmalformed : Json.read 4 ['\x7b'] = .error (.malformed .expectingName 1 2 1) := rfl
    cases hundeclared with
    | overlong h => cases hmalformed.symm.trans (Json.read_eq_overlong_iff.2 h)
    | unread h => cases hmalformed.symm.trans (Json.read_eq_tooDeep_iff.2 h)
    | unwritten h => cases hmalformed.symm.trans h
  · exact Json.read_eq_tooDeep_iff.1 rfl

theorem firstOverlong_replicate {k : Nat} (hk : maxDigits < k) (room : Nat) :
    Json.FirstOverlong room (List.replicate k '1') k := by
  obtain ⟨k, rfl⟩ : ∃ n, k = n + 1 := Nat.exists_eq_succ_of_ne_zero (by omega)
  have hdigits : Json.IsDigits (List.replicate (k + 1) '1') := by
    intro d hd
    rw [List.eq_of_mem_replicate hd]
    decide
  let n : Json.Numeral :=
    ⟨false, List.replicate (k + 1) '1', [], none,
      .inr ⟨'1', _, List.replicate_succ, by decide, hdigits⟩, Json.isDigits_nil⟩
  refine ⟨.here, _, .nil _, Nat.zero_le room, rfl, n, [], ?_, ?_,
    ⟨Json.noDigit_nil, rfl, rfl⟩, List.length_replicate⟩
  · rw [Json.skipSpace_of_head (by simp [List.replicate_succ]; decide)]
    simp [n, Json.Numeral.text, Json.Numeral.unsigned, Json.fractionText, Json.exponentText]
  · simpa [n, Json.Numeral.isOverlong, Json.Numeral.isInteger] using hk

/-- An integer of 4301 digits ends the layout of a document in a failure that is not declared. -/
theorem format_overlong_not_declared :
    let json : List Char := ['j', 's', 'o', 'n']
    ∃ e, create ⟨0, 1000, 1000, 0⟩ {} = .ok e ∧
      e.format json (List.replicate 4301 '1') false = .error (.overlongInteger 4301) ∧
      ¬ Declared e json (List.replicate 4301 '1') false
        (e.format json (List.replicate 4301 '1') false) := by
  intro json
  obtain ⟨e, he⟩ : ∃ e, create ⟨0, 1000, 1000, 0⟩ {} = .ok e := ⟨_, rfl⟩
  have hjson : lowerCase json = Language.name .json := by decide
  have hundeclared : Undeclared e.limits (List.replicate 4301 '1') (.overlongInteger 4301) :=
    .overlong (firstOverlong_replicate (by decide) _)
  refine ⟨e, he, format_of_undeclared hjson hundeclared, fun h => ?_⟩
  rw [format_of_undeclared hjson hundeclared] at h
  exact h.not_undeclared _ hundeclared

end Engine

end Reindent
