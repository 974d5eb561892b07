import Mathlib
import Reindent.Engine
import Reindent.Proofs.Indent
import Reindent.Proofs.Outcomes
import Reindent.Proofs.Settings.Search
import Reindent.Proofs.Text.LowerCase

/-!
# Valid settings

An engine is made from settings that are normalised, checked in their normalised form, which
normalises them again, and handed to an indent table, which has checks of its own. What all of this
accepts is said once, by the values that settings stand for (`Asks`): normalising does not change
these values, and the table accepts whatever has passed the checks before it.
-/

namespace Reindent

open Text

/-! ## Names of policies -/

theorem Overflow.name_injective : Function.Injective name := by
  intro p q h
  exact Option.some.inj ((ofName?_eq_some_iff.2 rfl).symm.trans (ofName?_eq_some_iff.2 h))

theorem Overflow.isLower_name (p : Overflow) : ∀ c ∈ p.name, c.isLower = true := by
  cases p <;> exact List.all_eq_true.1 (by decide)

namespace Settings

variable {limits : Limits} {s s' : Settings} {c : Checked}

/-! ## Single values -/

theorem integer_eq_ok_iff {field : Field} {n : Int} : s.integer field = .ok n ↔
    s.get field = .int n := by
  rw [integer]
  cases s.get field <;> simp

theorem unit_eq_ok_iff {u : List Char} : s.unit = .ok u ↔ s.indentChars = .text u ∧ u ≠ [] := by
  rw [unit]
  split
  · rename_i d t h
    rw [h]
    simp only [Except.ok.injEq, Value.text.injEq]
    refine ⟨?_, fun hu => hu.1⟩
    rintro rfl
    exact ⟨rfl, List.cons_ne_nil d t⟩
  · rename_i hnot
    refine ⟨fun h => by simp at h, ?_⟩
    rintro ⟨hu, hne⟩
    obtain ⟨d, t, rfl⟩ := List.exists_cons_of_ne_nil hne
    exact absurd hu (hnot d t)

theorem policy_eq_ok_iff {p : Overflow} : s.policy = .ok p ↔ s.depthOverflow = .text p.name := by
  rw [policy]
  cases s.depthOverflow with
  | text name =>
    rw [Value.text.injEq, ← Overflow.ofName?_eq_some_iff]
    cases hname : Overflow.ofName? name <;> simp [hname]
  | _ => simp

theorem keepsComments_eq_ok_iff {b : Bool} : s.keepsComments = .ok b ↔
    s.preserveComments = .bool b := by
  rw [keepsComments]
  cases s.preserveComments <;> simp

/-! ## Normalising -/

/-- The unit of indentation of normalised settings: as many spaces as the settings say, and their
own value if they do not say how many. -/
@[mk_iff]
inductive Indented (limits : Limits) (s : Settings) : Value → Prop where
  | own (h : s.indentSpaces = .null) : Indented limits s s.indentChars
  | spaces {n : Int} (h : s.indentSpaces = .int n) (hpos : 0 < n) (hword : n < wordBound)
      (hfits : n < limits.memory) : Indented limits s (.text (List.replicate n.toNat ' '))

theorem normalize_eq_ok_iff : s.normalize limits = .ok s' ↔ ∃ chars, Indented limits s chars ∧
    s' = { s with indentChars := chars, depthOverflow := s.depthOverflow.lower } := by
  constructor
  · intro h
    cases hspaces : s.indentSpaces with
    | null =>
      rw [normalize, hspaces] at h
      exact ⟨_, .own hspaces, (Except.ok.inj h).symm⟩
    | int n =>
      rw [normalize_of_int hspaces] at h
      split_ifs at h with hpositive hwide hmemory
      exact ⟨_, .spaces hspaces (not_le.1 hpositive) (not_le.1 hwide) (not_le.1 hmemory),
        by rw [← Except.ok.inj h, hspaces]⟩
    | _ =>
      rw [normalize, hspaces, spaces, integer, get, hspaces] at h
      cases h
  · rintro ⟨chars, hchars, rfl⟩
    cases hchars with
    | own h =>
      rw [normalize, h]
      rfl
    | spaces h hpos hword hfits =>
      rw [normalize_of_int h, if_neg (not_le.2 hpos), if_neg (not_le.2 hword),
        if_neg (not_le.2 hfits)]

/-! ## Checking -/

/-- Settings whose values have the right types and ranges, and what they stand for. -/
structure Asks (limits : Limits) (s : Settings) (c : Checked) : Prop where
  indented : Indented limits s (.text c.unit)
  unit_ne_nil : c.unit ≠ []
  maxDepth : s.maxDepth = .int c.maxDepth
  maxDepth_pos : 0 < c.maxDepth
  maxDepth_le : c.maxDepth ≤ IndentTable.depthLimit
  maxFileSize : s.maxFileSize = .int c.maxFileSize
  maxFileSize_pos : 0 < c.maxFileSize
  depthOverflow : s.depthOverflow.lower = .text c.overflow.name
  preserveComments : s.preserveComments = .bool c.preserveComments

theorem asks_of_check (h : s.check limits = .ok c) : Asks limits s c := by
  rw [check] at h
  obtain ⟨s', hs', h⟩ := exists_of_bind_eq_ok h
  obtain ⟨chars, hchars, rfl⟩ := normalize_eq_ok_iff.1 hs'
  obtain ⟨maxDepth, hdepth, h⟩ := exists_of_bind_eq_ok h
  obtain ⟨maxFileSize, hsize, h⟩ := exists_of_bind_eq_ok h
  extract_lets rest at h
  have hrest : rest () = .ok c := by
    split at h
    · exact h
    · obtain ⟨_, -, h⟩ := exists_of_bind_eq_ok h
      exact h
  obtain ⟨unit, hunit, h⟩ := exists_of_bind_eq_ok hrest
  obtain ⟨overflow, hoverflow, h⟩ := exists_of_bind_eq_ok h
  obtain ⟨preserve, hpreserve, h⟩ := exists_of_bind_eq_ok h
  rw [unit_eq_ok_iff] at hunit
  dsimp only at h
  -- The three ranges that are checked last.
  split at h
  · cases h
  · split at h
    · cases h
    · split at h
      · cases h
      · rename_i hpos hpos' hle
        obtain rfl := Except.ok.inj h
        exact {
          indented := hunit.1 ▸ hchars
          unit_ne_nil := hunit.2
          maxDepth := integer_eq_ok_iff.1 hdepth
          maxDepth_pos := not_le.1 hpos
          maxDepth_le := not_lt.1 hle
          maxFileSize := integer_eq_ok_iff.1 hsize
          maxFileSize_pos := not_le.1 hpos'
          depthOverflow := policy_eq_ok_iff.1 hoverflow
          preserveComments := keepsComments_eq_ok_iff.1 hpreserve }

theorem Indented.indentSpaces {v : Value} (h : Indented limits s v) :
    s.indentSpaces = .null ∨ ∃ n, s.indentSpaces = .int n := by
  cases h with
  | own h => exact .inl h
  | spaces h => exact .inr ⟨_, h⟩

theorem Asks.check_eq (h : Asks limits s c) : s.check limits = .ok c := by
  obtain ⟨s', hs'⟩ : ∃ s' : Settings,
      s' = { s with indentChars := .text c.unit, depthOverflow := s.depthOverflow.lower } :=
      ⟨_, rfl⟩
  have hnormalize : s.normalize limits = .ok s' := normalize_eq_ok_iff.2 ⟨_, h.indented, hs'⟩
  have hspaces : s'.indentSpaces = .null ∨ ∃ n, s'.indentSpaces = .int n :=
    hs' ▸ h.indented.indentSpaces
  have hdepth : s'.integer .maxDepth = .ok c.maxDepth := integer_eq_ok_iff.2 (hs' ▸ h.maxDepth)
  have hsize : s'.integer .maxFileSize = .ok c.maxFileSize :=
    integer_eq_ok_iff.2 (hs' ▸ h.maxFileSize)
  have hunit : s'.unit = .ok c.unit := unit_eq_ok_iff.2 ⟨by rw [hs'], h.unit_ne_nil⟩
  have hoverflow : s'.policy = .ok c.overflow := policy_eq_ok_iff.2 (hs' ▸ h.depthOverflow)
  have hpreserve : s'.keepsComments = .ok c.preserveComments :=
    keepsComments_eq_ok_iff.2 (hs' ▸ h.preserveComments)
  rw [check, hnormalize]
  simp only [bind, Except.bind, hdepth, hsize, hunit, hoverflow, hpreserve,
    not_le.2 h.maxDepth_pos, not_le.2 h.maxFileSize_pos, not_lt.2 h.maxDepth_le, if_false]
  rcases hspaces with hnull | ⟨n, hn⟩
  · simp only [hnull]
    rfl
  · have hinteger : s'.integer .indentSpaces = .ok n := integer_eq_ok_iff.2 hn
    simp only [hn, hinteger]
    rfl

/-- The checks accept what has the right types and ranges. -/
theorem check_eq_ok_iff : s.check limits = .ok c ↔ Asks limits s c :=
  ⟨asks_of_check, Asks.check_eq⟩

/-! ## Normalising twice -/

theorem lower_lower_eq_iff {v : Value} (p : Overflow) : v.lower.lower = .text p.name ↔
    v.lower = .text p.name := by
  cases v with
  | text t =>
    simp only [Value.lower, Value.text.injEq]
    exact lowerCase_lowerCase_eq_iff p.isLower_name t
  | _ => rfl

/-- Normalised settings ask for the same as before. -/
theorem asks_normalize_iff (h : s.normalize limits = .ok s') :
    Asks limits s' c ↔ Asks limits s c := by
  obtain ⟨chars, hchars, rfl⟩ := normalize_eq_ok_iff.1 h
  have hindented : ∀ v, Indented limits
      { s with indentChars := chars, depthOverflow := s.depthOverflow.lower } v ↔
      Indented limits s v := by
    intro v
    simp only [indented_iff] at hchars ⊢
    rcases hchars with ⟨hnull, rfl⟩ | ⟨n, hn, hpos, hword, hfits, rfl⟩
    · simp [hnull]
    · simp [hn]
  constructor
  · intro h
    exact { h with
      indented := (hindented _).1 h.indented
      depthOverflow := (lower_lower_eq_iff _).1 h.depthOverflow }
  · intro h
    exact { h with
      indented := (hindented _).2 h.indented
      depthOverflow := (lower_lower_eq_iff _).2 h.depthOverflow }

/-- Settings that ask for something, in normalised form. -/
def normalForm (s : Settings) (c : Checked) : Settings :=
  { s with indentChars := .text c.unit, depthOverflow := .text c.overflow.name }

theorem Asks.normalize_eq (h : Asks limits s c) : s.normalize limits = .ok (s.normalForm c) :=
  normalize_eq_ok_iff.2 ⟨_, h.indented, by rw [normalForm, h.depthOverflow]⟩

/-! ## Validity -/

/-- Settings that an engine can be made from: a number of spaces that is positive and fits into a
machine word, or none and a text that is not empty; a deepest level from 1 to 1000; a positive
size; the name of a policy in whatever case; and a yes or no on comments. -/
structure Valid (s : Settings) : Prop where
  indent : (∃ n, s.indentSpaces = .int n ∧ 0 < n ∧ n < wordBound) ∨
    (s.indentSpaces = .null ∧ ∃ t, s.indentChars = .text t ∧ t ≠ [])
  maxDepth : ∃ n, s.maxDepth = .int n ∧ 1 ≤ n ∧ n ≤ 1000
  maxFileSize : ∃ n, s.maxFileSize = .int n ∧ 0 < n
  depthOverflow : ∃ t, s.depthOverflow = .text t ∧
    (lowerCase t = Overflow.name .clamp ∨ lowerCase t = Overflow.name .error)
  preserveComments : ∃ b, s.preserveComments = .bool b

/-- The memory holds as many spaces as settings ask for, if they fit into a machine word at all. -/
def FitsMemory (limits : Limits) (s : Settings) : Prop :=
  ∀ n, s.indentSpaces = .int n → n < wordBound → n < limits.memory

theorem exists_indented_iff : (∃ u, Indented limits s (.text u) ∧ u ≠ []) ↔
    ((∃ n, s.indentSpaces = .int n ∧ 0 < n ∧ n < wordBound) ∨
      (s.indentSpaces = .null ∧ ∃ t, s.indentChars = .text t ∧ t ≠ [])) ∧
      s.FitsMemory limits := by
  simp only [indented_iff, FitsMemory]
  constructor
  · rintro ⟨u, ⟨hnull, hu⟩ | ⟨n, hn, hpos, hword, hfits, hu⟩, hne⟩
    · exact ⟨.inr ⟨hnull, u, hu.symm, hne⟩, by simp [hnull]⟩
    · exact ⟨.inl ⟨n, hn, hpos, hword⟩, by simpa [hn] using fun _ => hfits⟩
  · rintro ⟨⟨n, hn, hpos, hword⟩ | ⟨hnull, t, ht, hne⟩, hfits⟩
    · refine ⟨List.replicate n.toNat ' ', .inr ⟨n, hn, hpos, hword, hfits n hn hword, rfl⟩, ?_⟩
      rw [Ne, List.replicate_eq_nil_iff]
      omega
    · exact ⟨t, .inl ⟨hnull, ht.symm⟩, hne⟩

theorem exists_lower_iff {v : Value} : (∃ p : Overflow, v.lower = .text p.name) ↔
    ∃ t, v = .text t ∧ (lowerCase t = Overflow.name .clamp ∨
      lowerCase t = Overflow.name .error) := by
  cases v with
  | text t =>
    simp only [Value.lower, Value.text.injEq, exists_eq_left']
    constructor
    · rintro ⟨_ | _, h⟩
      · exact .inl h
      · exact .inr h
    · rintro (h | h)
      · exact ⟨.clamp, h⟩
      · exact ⟨.error, h⟩
  | _ => simp [Value.lower]

/-- Settings ask for something exactly if they are valid and the memory holds their indentation. -/
theorem exists_asks_iff : (∃ c, Asks limits s c) ↔ Valid s ∧ s.FitsMemory limits := by
  have hlimit : IndentTable.depthLimit = 1000 := rfl
  constructor
  · rintro ⟨c, h⟩
    obtain ⟨hindent, hfits⟩ := exists_indented_iff.1 ⟨_, h.indented, h.unit_ne_nil⟩
    exact ⟨{
      indent := hindent
      maxDepth := ⟨_, h.maxDepth, h.maxDepth_pos, hlimit ▸ h.maxDepth_le⟩
      maxFileSize := ⟨_, h.maxFileSize, h.maxFileSize_pos⟩
      depthOverflow := exists_lower_iff.1 ⟨_, h.depthOverflow⟩
      preserveComments := ⟨_, h.preserveComments⟩ }, hfits⟩
  · rintro ⟨h, hfits⟩
    obtain ⟨u, hindented, hne⟩ := exists_indented_iff.2 ⟨h.indent, hfits⟩
    obtain ⟨n, hn, hpos, hle⟩ := h.maxDepth
    obtain ⟨size, hsize, hsize_pos⟩ := h.maxFileSize
    obtain ⟨p, hp⟩ := exists_lower_iff.2 h.depthOverflow
    obtain ⟨b, hb⟩ := h.preserveComments
    exact ⟨⟨u, n, p, b, size⟩, hindented, hne, hn, hpos, hlimit ▸ hle, hsize, hsize_pos, hp, hb⟩

end Settings

namespace Engine

variable {limits : Limits} {s : Settings} {e : Engine}

/-- The engine of settings that ask for something. -/
def ofAsked (limits : Limits) (s : Settings) (c : Settings.Checked) : Engine :=
  ⟨limits, s.normalForm c, .of c.unit c.maxDepth c.overflow, c.preserveComments⟩

/-- The table has nothing to object to what was checked before it. -/
theorem build_of_asks {c : Settings.Checked} (h : s.Asks limits c) :
    IndentTable.build c.unit c.maxDepth c.overflow.name = .ok (.of c.unit c.maxDepth c.overflow) :=
  IndentTable.build_eq_ok c.unit h.maxDepth_le c.overflow

theorem create_eq_ok_iff : create limits s = .ok e ↔
    ∃ c, s.Asks limits c ∧ e = ofAsked limits s c := by
  constructor
  · intro h
    obtain ⟨s', hs', h⟩ := exists_of_bind_eq_ok h
    obtain ⟨c, hc, h⟩ := exists_of_bind_eq_ok h
    obtain ⟨table, htable, h⟩ := exists_of_bind_eq_ok h
    have hnormalize := eq_ok_of_mapError hs'
    have hasks :=
      (Settings.asks_normalize_iff hnormalize).1
        (Settings.check_eq_ok_iff.1 (eq_ok_of_mapError hc))
    have hform : s' = s.normalForm c := Except.ok.inj (hnormalize.symm.trans hasks.normalize_eq)
    have hof := (eq_ok_of_mapError htable).symm.trans (build_of_asks hasks)
    refine ⟨c, hasks, ?_⟩
    rw [← Except.ok.inj h, ofAsked, hform, Except.ok.inj hof]
  · rintro ⟨c, hasks, rfl⟩
    have hnormalize := hasks.normalize_eq
    have hcheck := Settings.check_eq_ok_iff.2 ((Settings.asks_normalize_iff hnormalize).2 hasks)
    rw [create, hnormalize]
    simp only [Except.mapError, bind, Except.bind, hcheck, build_of_asks hasks]
    rfl

/-- An engine that cannot be made fails for its settings, not for its table. -/
theorem create_ne_table_error (limits : Limits) (s : Settings) (error : IndentTable.BuildError) :
    create limits s ≠ .error (.table error) := by
  intro h
  cases hnormalize : s.normalize limits with
  | error i =>
    rw [create, hnormalize] at h
    cases h
  | ok s' =>
    cases hcheck : s'.check limits with
    | error i =>
      rw [create, hnormalize] at h
      simp only [Except.mapError, bind, Except.bind, hcheck] at h
      cases h
    | ok c =>
      have hasks := (Settings.asks_normalize_iff hnormalize).1 (Settings.check_eq_ok_iff.1 hcheck)
      rw [create_eq_ok_iff.2 ⟨c, hasks, rfl⟩] at h
      cases h

/-- If the memory holds the indentation, an engine can be made exactly from valid settings. Its
table is never what it fails for. It has the settings with the unit and the policy written out,
and the table for these: with one entry more than the deepest level, with as many spaces as the
settings ask for, or with their own unit if they ask for none. The settings of the engine make the
same engine again. -/
theorem create_iff_valid (limits : Limits) (s : Settings) :
    (s.FitsMemory limits → ((∃ e, create limits s = .ok e) ↔ s.Valid)) ∧
    (∀ error, create limits s ≠ .error (.table error)) ∧
    ∀ e, create limits s = .ok e →
      e.settings = { s with
        indentChars := .text e.table.unit
        depthOverflow := .text e.table.overflow.name } ∧
      s.depthOverflow.lower = .text e.table.overflow.name ∧
      s.maxDepth = .int e.table.maxDepth ∧
      IndentTable.build e.table.unit e.table.maxDepth e.table.overflow.name = .ok e.table ∧
      (e.table.entries.length : Int) = e.table.maxDepth + 1 ∧
      (∀ n, s.indentSpaces = .int n → e.table.unit = List.replicate n.toNat ' ') ∧
      (s.indentSpaces = .null → s.indentChars = .text e.table.unit) ∧
      create limits e.settings = .ok e := by
  refine ⟨fun hfits => ?_, create_ne_table_error limits s, fun e he => ?_⟩
  · constructor
    · rintro ⟨e, he⟩
      obtain ⟨c, hasks, -⟩ := create_eq_ok_iff.1 he
      exact (Settings.exists_asks_iff.1 ⟨c, hasks⟩).1
    · intro hvalid
      obtain ⟨c, hasks⟩ := Settings.exists_asks_iff.2 ⟨hvalid, hfits⟩
      exact ⟨_, create_eq_ok_iff.2 ⟨c, hasks, rfl⟩⟩
  · obtain ⟨c, hasks, rfl⟩ := create_eq_ok_iff.1 he
    have hlength : ((IndentTable.of c.unit c.maxDepth c.overflow).entries.length : Int) =
        c.maxDepth + 1 := by
      have hpos := hasks.maxDepth_pos
      rw [IndentTable.length_entries, IndentTable.of]
      push_cast
      omega
    have hunit := hasks.indented
    rw [Settings.indented_iff] at hunit
    refine ⟨rfl, hasks.depthOverflow, hasks.maxDepth, build_of_asks hasks, hlength,
      fun n hn => ?_, fun hnull => ?_, ?_⟩
    · rcases hunit with ⟨hnull, -⟩ | ⟨m, hm, -, -, -, hchars⟩
      · rw [hn] at hnull
        cases hnull
      · rw [hn] at hm
        cases hm
        exact Settings.Value.text.inj hchars
    · rcases hunit with ⟨-, hchars⟩ | ⟨m, hm, -⟩
      · exact hchars.symm
      · rw [hnull] at hm
        cases hm
    · -- The settings of the engine are in normal form, so they ask for the same and keep it.
      have hasks' := (Settings.asks_normalize_iff hasks.normalize_eq).2 hasks
      exact create_eq_ok_iff.2 ⟨c, hasks', rfl⟩

/-- Three spaces, seven levels and a policy in capitals, where the memory holds three spaces. -/
theorem create_iff_valid_capitals :
    let limits : Limits := ⟨4, 0, 0, 0⟩
    let s : Settings :=
      { indentSpaces := .int 3, maxDepth := .int 7, depthOverflow := .text "ERROR".toList }
    s.Valid ∧ s.FitsMemory limits ∧ ∃ e, create limits s = .ok e ∧
      e.table.unit = [' ', ' ', ' '] ∧ e.table.entries.length = 8 ∧
      create limits e.settings = .ok e := by
  intro limits s
  have hvalid : s.Valid := {
    indent := .inl ⟨3, rfl, by decide, by decide⟩
    maxDepth := ⟨7, rfl, by decide, by decide⟩
    maxFileSize := ⟨_, rfl, by decide⟩
    depthOverflow := ⟨_, rfl, .inr (by decide)⟩
    preserveComments := ⟨_, rfl⟩ }
  have hfits : s.FitsMemory limits := by
    rintro n hn -
    obtain rfl := Settings.Value.int.inj hn
    decide
  obtain ⟨hiff, -, hmade⟩ := create_iff_valid limits s
  obtain ⟨e, he⟩ := (hiff hfits).2 hvalid
  obtain ⟨-, -, hdepth, -, hlength, hunit, -, hagain⟩ := hmade e he
  obtain hseven : 7 = e.table.maxDepth := Settings.Value.int.inj hdepth
  exact ⟨hvalid, hfits, e, he, hunit 3 rfl, by omega, hagain⟩

end Engine

end Reindent
