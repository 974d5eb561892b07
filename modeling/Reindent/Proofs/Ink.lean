import Mathlib
import Reindent.Proofs.Css.Comments
import Reindent.Proofs.Sql.Written
import Reindent.Proofs.Xml.Fragments
import Reindent.Xml.Walk

/-!
# Laying out XML and CSS moves blanks only

Both walkers write every fragment as it is, behind a line start or right away, so with a blank unit
of indentation the characters that are not blank are those of the fragments. The fragments are the
text itself: for XML it is cut without loss after blanks between tags are dropped, for CSS the
marks that are put in disappear when it is split at them.
-/

namespace Reindent

open Text

/-! ## Walks -/

section

variable {State Kind : Type} {table : IndentTable}

/-- A line start adds nothing to the text of a move but blanks. -/
theorem Move.deleteBlanks_line (hunit : ∀ c ∈ table.unit, isBlank c = true) (m : Move State Kind) :
    deleteBlanks (m.line table) = deleteBlanks m.text := by
  rw [Move.line, deleteBlanks_append]
  cases m.lineDepth? with
  | none => rfl
  | some depth =>
    rw [Option.map_some, Option.getD_some,
      deleteBlanks_eq_nil fun c hc =>
      IndentTable.isBlank_of_mem_lineStart hunit hc, List.nil_append]

/-- A walker that writes its fragments as they are writes their characters, and apart from these
only blanks. -/
theorem deleteBlanks_written_flatten (hunit : ∀ c ∈ table.unit, isBlank c = true)
    {move : State → List Char → Move State Kind} (htext : ∀ state f, (move state f).text = f)
    (state : State)
    (fs : List (List Char)) : deleteBlanks (written table move state fs) =
      deleteBlanks fs.flatten := by
  induction fs generalizing state with
  | nil => rfl
  | cons f fs ih =>
    rw [written_cons, deleteBlanks_append, Move.deleteBlanks_line hunit, htext, ih,
      List.flatten_cons, deleteBlanks_append]

end

/-! ## XML -/

namespace Xml

theorem deleteBlanks_dropWhile_isBlank (s : List Char) :
    deleteBlanks (s.dropWhile isBlank) = deleteBlanks s := by
  conv_rhs => rw [← List.takeWhile_append_dropWhile (p := isBlank) (l := s)]
  rw [deleteBlanks_append, deleteBlanks_eq_nil fun c hc =>
    List.mem_takeWhile_imp hc, List.nil_append]

theorem deleteBlanks_consTight (c : Char) (s : List Char) :
    deleteBlanks (consTight c s) = deleteBlanks [c] ++ deleteBlanks s := by
  unfold consTight
  split
  · rename_i hc
    subst hc
    split
    · rename_i r hr
      rw [← deleteBlanks_dropWhile_isBlank s, hr, ← deleteBlanks_append]
      rfl
    · exact deleteBlanks_append ['>'] s
  · exact deleteBlanks_append [c] s

/-- Between tags only blanks are dropped. -/
theorem deleteBlanks_closeGaps (s : List Char) : deleteBlanks (closeGaps s) = deleteBlanks s := by
  induction s with
  | nil => rfl
  | cons c s ih =>
    rw [closeGaps_cons, deleteBlanks_consTight, ih, ← deleteBlanks_append, List.singleton_append]

theorem deleteBlanks_dropNewline (s : List Char) :
    deleteBlanks (dropNewline s) = deleteBlanks s := by
  unfold dropNewline
  split
  · rw [deleteBlanks_newline]
  · rfl

theorem pretty_of_clamp {table : IndentTable} (hclamp : table.overflow = .clamp)
    (text : List Char) :
    pretty table text = .ok (dropNewline (written table move {} (split text))) := by
  unfold pretty render
  simp only [walkThrough_of_clamp hclamp]
  rfl

end Xml

/-! ## CSS -/

namespace Css

open Sql (ink)

variable {mark : Char}

/-- What is written in place of a pattern is what the pattern takes, with blanks and marks put in
or left out. -/
inductive Respaces (mark : Char) : Pattern → List Char → Prop where
  | nil : Respaces mark [] []
  | char (c : Char) {p : Pattern} {t : List Char} (h : Respaces mark p t) :
      Respaces mark (.char c :: p) (c :: t)
  | blanks {p : Pattern} {t : List Char} (h : Respaces mark p t) : Respaces mark (.blanks :: p) t
  | blanks1 {p : Pattern} {t : List Char} (h : Respaces mark p t) : Respaces mark (.blanks1 :: p) t
  | dropMark {p : Pattern} {t : List Char} (h : Respaces mark p t) :
      Respaces mark (.char mark :: p) t
  | putMark {p : Pattern} {t : List Char} (h : Respaces mark p t) : Respaces mark p (mark :: t)
  | putSpace {p : Pattern} {t : List Char} (h : Respaces mark p t) : Respaces mark p (' ' :: t)

theorem ink_gap {c : Char} (hc : isBlank c = true ∨ c = mark) (s : List Char) :
    ink mark (c :: s) = ink mark s := by
  rw [Sql.ink_cons, Sql.ink_eq_nil (by simpa using hc), List.nil_append]

theorem ink_run {run : List Char} (hrun : ∀ c ∈ run, isBlank c = true) (s : List Char) :
    ink mark (run ++ s) = ink mark s := by
  rw [Sql.ink_append, Sql.ink_eq_nil fun c hc => Or.inl (hrun c hc), List.nil_append]

theorem Respaces.ink_eq {p : Pattern} {t : List Char} (h : Respaces mark p t) {m s : List Char}
    (hm : Takes p m s) : ink mark t = ink mark m := by
  induction h generalizing m with
  | nil =>
    rw [takes_nil_iff] at hm
    rw [hm]
  | char c _ ih =>
    obtain ⟨m, rfl, hrest⟩ := takes_char_iff.1 hm
    rw [Sql.ink_cons, ih hrest, ← Sql.ink_cons]
  | blanks _ ih =>
    obtain ⟨run, m, rfl, hrun, hrest⟩ := takes_blanks_iff.1 hm
    rw [ink_run hrun, ih hrest]
  | blanks1 _ ih =>
    obtain ⟨c, run, m, rfl, hrun, hrest⟩ := takes_blanks1_iff.1 hm
    rw [← List.cons_append, ink_run hrun, ih hrest]
  | dropMark _ ih =>
    obtain ⟨m, rfl, hrest⟩ := takes_char_iff.1 hm
    rw [ink_gap (Or.inr rfl), ih hrest]
  | putMark _ ih => rw [ink_gap (Or.inr rfl), ih hm]
  | putSpace _ ih => rw [ink_gap (Or.inl (by decide)), ih hm]

theorem respaces_splitRules : ∀ r ∈ splitRules mark, Respaces mark r.pattern r.replacement := by
  have hend : Respaces mark [] [] := .nil
  simp only [splitRules, List.forall_mem_cons]
  exact ⟨hend.putSpace.blanks1, hend.putMark.char _, (hend.putMark.char _).putMark,
    hend.putMark.char _, ((hend.char _).char _).putMark, (hend.putMark.char _).char _,
    hend.dropMark.blanks.char _, List.forall_mem_nil _⟩

theorem ink_apply {r : Substitution} (hr : Respaces mark r.pattern r.replacement) (s : List Char) :
    ink mark (r.apply s) = ink mark s := by
  refine r.rel_apply (R := fun s t => ink mark t = ink mark s) rfl ?_ ?_ s
  · intro c s t hst
    rw [Sql.ink_cons, hst, ← Sql.ink_cons]
  · intro m s t hm hst
    rw [Sql.ink_append, Sql.ink_append, hr.ink_eq hm, hst]

/-- The rules put marks and blanks in and leave some out, and keep everything else. -/
theorem ink_applyAll {rs : List Substitution}
    (hrs : ∀ r ∈ rs, Respaces mark r.pattern r.replacement) (s : List Char) :
    ink mark (Substitution.applyAll rs s) = ink mark s := by
  induction rs generalizing s with
  | nil => rfl
  | cons r rs ih =>
    rw [List.forall_mem_cons] at hrs
    calc ink mark (Substitution.applyAll (r :: rs) s)
      _ = ink mark (Substitution.applyAll rs (r.apply s)) := rfl
      _ = ink mark (r.apply s) := ih hrs.2 _
      _ = ink mark s := ink_apply hrs.1 s

/-- The fragments of a text without marks hold what the text holds apart from blanks. -/
theorem deleteBlanks_splitWith {text : List Char} (hfree : mark ∉ text) :
    deleteBlanks (splitWith mark text).flatten = deleteBlanks text := by
  have hflatten : ∀ ps : List (List Char), deleteBlanks ps.flatten = ps.flatMap deleteBlanks := by
    intro ps
    rw [deleteBlanks, List.filter_flatten, List.flatMap_def]
    rfl
  rw [splitWith, hflatten, Sql.flatMap_deleteBlanks_splitOn, ink_applyAll respaces_splitRules,
    Sql.ink_of_notMem hfree]

end Css

/-! ## Both layouts -/

/-- On a table that clamps and has a blank unit, every text is laid out as XML, and as CSS if it
leaves a mark; both times it is the same text apart from blanks. -/
theorem deleteBlanks_pretty (table : IndentTable) (hclamp : table.overflow = .clamp)
    (hunit : ∀ c ∈ table.unit, isBlank c = true) (text : List Char) :
    (∃ out, Xml.pretty table text = .ok out ∧ deleteBlanks out = deleteBlanks text) ∧
      ((Marker.pick? text).isSome = true →
        ∃ out, Css.pretty table text = .ok out ∧ deleteBlanks out = deleteBlanks text) := by
  constructor
  · refine ⟨_, Xml.pretty_of_clamp hclamp text, ?_⟩
    rw [Xml.deleteBlanks_dropNewline, deleteBlanks_written_flatten hunit fun _ _ => rfl, Xml.split,
      flatten_cutBefore, Xml.deleteBlanks_closeGaps]
  · intro hmark
    obtain ⟨mark, hpick⟩ := Option.isSome_iff_exists.1 hmark
    refine ⟨_, Css.pretty_of_clamp hclamp hpick, ?_⟩
    rw [deleteBlanks_dropWhile, deleteBlanks_written_flatten hunit fun _ _ => rfl,
      Css.deleteBlanks_splitWith (Marker.pick?_eq_some hpick).2]

/-- A text that is neither XML nor CSS, with brackets, braces and comments that do not match. -/
theorem deleteBlanks_pretty_broken :
    let text := "</a > <!-- \x7b b\t*/ <c xmlns= ;\x7d /*".toList
    IndentTable.default.overflow = .clamp ∧ (∀ c ∈ IndentTable.default.unit, isBlank c = true) ∧
      (Marker.pick? text).isSome = true ∧
      (∃ out, Xml.pretty .default text = .ok out ∧ deleteBlanks out = deleteBlanks text) ∧
      ∃ out, Css.pretty .default text = .ok out ∧ deleteBlanks out = deleteBlanks text := by
  intro text
  have hunit : ∀ c ∈ IndentTable.default.unit, isBlank c = true := List.all_eq_true.1 (by decide)
  have hmark : (Marker.pick? text).isSome = true := by decide
  have hpretty := deleteBlanks_pretty .default rfl hunit text
  exact ⟨rfl, hunit, hmark, hpretty.1, hpretty.2 hmark⟩

end Reindent
