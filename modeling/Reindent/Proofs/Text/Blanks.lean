import Mathlib
import Reindent.Text.Blank

/-!
# Blanks

Collapsing works on each run of blanks by itself: a character that is no blank parts a text into
two that are collapsed apart, and the only blank that is left is the space.
-/

namespace Reindent.Text

theorem isBlank_newline : isBlank '\n' = true := by
  decide

/-! ## Deleting blanks -/

theorem deleteBlanks_append (s t : List Char) :
    deleteBlanks (s ++ t) = deleteBlanks s ++ deleteBlanks t :=
  List.filter_append s t

theorem deleteBlanks_eq_nil {s : List Char} (h : ∀ c ∈ s, isBlank c = true) :
    deleteBlanks s = [] := by
  rw [deleteBlanks, List.filter_eq_nil_iff]
  intro c hc
  simp [h c hc]

theorem deleteBlanks_newline (s : List Char) : deleteBlanks ('\n' :: s) = deleteBlanks s :=
  List.filter_cons_of_neg (by simp [isBlank_newline])

/-- Leading line ends make no difference. -/
theorem deleteBlanks_dropWhile (s : List Char) :
    deleteBlanks (s.dropWhile (· == '\n')) = deleteBlanks s := by
  induction s with
  | nil => rfl
  | cons c s ih =>
    rw [List.dropWhile_cons]
    split
    · rename_i hc
      rw [ih, beq_iff_eq.1 hc, deleteBlanks_newline]
    · rfl

/-! ## Collapsing runs of blanks -/

@[simp] theorem collapse_nil : collapse [] = [] := by
  rw [collapse, List.foldr_nil]

theorem collapse_cons (c : Char) (s : List Char) :
    collapse (c :: s) = consCollapsed c (collapse s) := by
  rw [collapse, List.foldr_cons, collapse]

theorem consCollapsed_of_not_isBlank {c : Char} (h : isBlank c = false) (s : List Char) :
    consCollapsed c s = c :: s := by
  unfold consCollapsed
  rw [if_neg (by simp [h])]

/-- A blank is dropped in front of a space and becomes a space elsewhere. -/
theorem consCollapsed_of_isBlank {c : Char} (h : isBlank c = true) (s : List Char) :
    consCollapsed c s = if s.head? = some ' ' then s else ' ' :: s := by
  unfold consCollapsed
  rw [if_pos h]
  split
  · simp
  · rename_i hs
    rw [if_neg]
    intro hhead
    obtain ⟨t, rfl⟩ := List.head?_eq_some_iff.1 hhead
    exact hs t rfl

theorem isBlank_of_mem_collapse {c : Char} {s : List Char} (hc : c ∈ collapse s)
    (h : isBlank c = true) :
    c = ' ' := by
  induction s with
  | nil => simp at hc
  | cons d s ih =>
    rw [collapse_cons] at hc
    by_cases hd : isBlank d = true
    · rw [consCollapsed_of_isBlank hd] at hc
      split at hc
      · exact ih hc
      · rcases List.mem_cons.1 hc with rfl | hc
        · rfl
        · exact ih hc
    · rw [consCollapsed_of_not_isBlank (by simpa using hd)] at hc
      rcases List.mem_cons.1 hc with rfl | hc
      · exact absurd h hd
      · exact ih hc

/-- Collapsing brings in no character but the space. -/
theorem mem_of_mem_collapse {c : Char} {s : List Char} (hc : c ∈ collapse s)
    (h : isBlank c = false) : c ∈ s := by
  induction s with
  | nil => simp at hc
  | cons d s ih =>
    rw [collapse_cons] at hc
    by_cases hd : isBlank d = true
    · rw [consCollapsed_of_isBlank hd] at hc
      split at hc
      · exact List.mem_cons_of_mem d (ih hc)
      · rcases List.mem_cons.1 hc with rfl | hc
        · exact absurd h (by decide)
        · exact List.mem_cons_of_mem d (ih hc)
    · rw [consCollapsed_of_not_isBlank (by simpa using hd)] at hc
      rcases List.mem_cons.1 hc with rfl | hc
      · exact List.mem_cons_self
      · exact List.mem_cons_of_mem d (ih hc)

/-- The two sides of a character that is no blank are collapsed apart. -/
theorem collapse_append_cons {c : Char} (h : isBlank c = false) (s t : List Char) :
    collapse (s ++ c :: t) = collapse s ++ c :: collapse t := by
  induction s with
  | nil =>
    rw [List.nil_append, collapse_cons, consCollapsed_of_not_isBlank h, collapse_nil,
      List.nil_append]
  | cons d s ih =>
    rw [List.cons_append, collapse_cons, collapse_cons, ih]
    by_cases hd : isBlank d = true
    · have hhead : (collapse s ++ c :: collapse t).head? = some ' ' ↔
          (collapse s).head? = some ' ' := by
        cases hs : collapse s with
        | nil =>
          simp only [List.nil_append, List.head?_cons, List.head?_nil, Option.some.injEq]
          constructor
          · rintro rfl
            exact absurd h (by decide)
          · intro hnone
            cases hnone
        | cons e u => simp
      rw [consCollapsed_of_isBlank hd, consCollapsed_of_isBlank hd]
      simp only [hhead]
      split
      · rfl
      · rfl
    · have hd' : isBlank d = false := by simpa using hd
      rw [consCollapsed_of_not_isBlank hd', consCollapsed_of_not_isBlank hd', List.cons_append]

/-- What a text starts with decides what it starts with once collapsed. -/
theorem head?_collapse (s : List Char) :
    (collapse s).head? = s.head?.map fun c => if isBlank c then ' ' else c := by
  cases s with
  | nil => rfl
  | cons c s =>
    rw [collapse_cons, List.head?_cons, Option.map_some]
    by_cases hc : isBlank c = true
    · rw [consCollapsed_of_isBlank hc, if_pos hc]
      split
      · assumption
      · rfl
    · rw [consCollapsed_of_not_isBlank (by simpa using hc), if_neg hc, List.head?_cons]

theorem collapse_space_cons {s : List Char} (h : ∀ d ∈ s.head?, isBlank d = false) :
    collapse (' ' :: s) = ' ' :: collapse s := by
  rw [collapse_cons, consCollapsed_of_isBlank (by decide), if_neg]
  intro hhead
  rw [head?_collapse] at hhead
  obtain ⟨d, hd, hspace⟩ := Option.map_eq_some_iff.1 hhead
  rw [h d hd, if_neg Bool.false_ne_true] at hspace
  rw [hspace] at hd
  exact absurd (h ' ' hd) (by decide)

theorem collapse_append_congr {s t : List Char} (h : collapse s = collapse t) (f : List Char) :
    collapse (f ++ s) = collapse (f ++ t) := by
  induction f with
  | nil => exact h
  | cons c f ih => rw [List.cons_append, List.cons_append, collapse_cons, collapse_cons, ih]

/-- A run of blanks is as good as a space. -/
theorem collapse_run {run : List Char}
    (hne : run ≠ []) (hrun : ∀ c ∈ run, isBlank c = true) (s : List Char) :
    collapse (run ++ s) = collapse (' ' :: s) := by
  have hspace : isBlank ' ' = true := by decide
  induction run with
  | nil => exact absurd rfl hne
  | cons c run ih =>
    have hc := hrun c List.mem_cons_self
    rw [List.cons_append, collapse_cons, consCollapsed_of_isBlank hc]
    cases run with
    | nil => rw [List.nil_append, collapse_cons, consCollapsed_of_isBlank hspace]
    | cons d run =>
      rw [ih (by simp) fun x hx => hrun x (List.mem_cons_of_mem c hx), head?_collapse,
        List.head?_cons, Option.map_some, if_pos hspace, if_pos rfl]

theorem collapse_blank {c : Char} (hc : isBlank c = true) (s : List Char) :
    collapse (c :: s) = collapse (' ' :: s) :=
  collapse_run (List.cons_ne_nil c []) (List.forall_mem_singleton.2 hc) s

/-- One of two neighbouring blanks vanishes. -/
theorem collapse_blank_blank {c d : Char} (hc : isBlank c = true) (hd : isBlank d = true)
    (s : List Char) :
    collapse (c :: d :: s) = collapse (c :: s) ∧ collapse (c :: d :: s) = collapse (d :: s) := by
  have hboth : collapse (c :: d :: s) = collapse (' ' :: s) :=
    collapse_run (List.cons_ne_nil c [d])
      (List.forall_mem_cons.2 ⟨hc, List.forall_mem_singleton.2 hd⟩) s
  rw [hboth, collapse_blank hc, collapse_blank hd]
  exact ⟨rfl, rfl⟩

theorem collapse_collapse (s : List Char) : collapse (collapse s) = collapse s := by
  induction s with
  | nil => rfl
  | cons c s ih =>
    rw [collapse_cons]
    by_cases hc : isBlank c = true
    · rw [consCollapsed_of_isBlank hc]
      split
      · exact ih
      · rename_i hhead
        rw [collapse_cons, ih, consCollapsed_of_isBlank (by decide), if_neg hhead]
    · rw [consCollapsed_of_not_isBlank (by simpa using hc), collapse_cons, ih,
        consCollapsed_of_not_isBlank (by simpa using hc)]

theorem length_collapse_le (s : List Char) : (collapse s).length ≤ s.length := by
  induction s with
  | nil => exact Nat.le_refl _
  | cons c s ih =>
    rw [collapse_cons, List.length_cons]
    by_cases hc : isBlank c = true
    · rw [consCollapsed_of_isBlank hc]
      split
      · exact Nat.le_succ_of_le ih
      · exact Nat.succ_le_succ ih
    · rw [consCollapsed_of_not_isBlank (by simpa using hc)]
      exact Nat.succ_le_succ ih

/-- The end of a collapsed text is collapsed. -/
theorem collapse_of_cons {c : Char} {s : List Char} (h : collapse (c :: s) = c :: s) :
    collapse s = s := by
  have hlength := length_collapse_le s
  rw [collapse_cons] at h
  by_cases hc : isBlank c = true
  · rw [consCollapsed_of_isBlank hc] at h
    split at h
    · rw [h, List.length_cons] at hlength
      omega
    · exact (List.cons_eq_cons.1 h).2
  · rw [consCollapsed_of_not_isBlank (by simpa using hc)] at h
    exact (List.cons_eq_cons.1 h).2

/-- Blanks are collapsed already exactly if they are spaces and stand alone. -/
theorem collapse_eq_self_iff {s : List Char} :
    collapse s = s ↔ (∀ c ∈ s, isBlank c = true → c = ' ') ∧ ¬ [' ', ' '] <:+: s := by
  have hspace : isBlank ' ' = true := by decide
  constructor
  · intro hself
    refine ⟨fun c hc => isBlank_of_mem_collapse (hself.symm ▸ hc), ?_⟩
    rintro ⟨front, rest, rfl⟩
    -- The text from the two spaces on is collapsed too, which leaves only one of them.
    induction front with
    | nil =>
      have hrest : collapse (' ' :: rest) = ' ' :: rest := collapse_of_cons hself
      have hlength := congrArg List.length hself
      rw [List.nil_append, List.cons_append, collapse_cons, List.singleton_append, hrest,
        consCollapsed_of_isBlank hspace, List.head?_cons, if_pos rfl] at hlength
      simp at hlength
    | cons c front ih => exact ih (collapse_of_cons hself)
  · rintro ⟨hplain, hsingle⟩
    induction s with
    | nil => rfl
    | cons c s ih =>
      have hs : collapse s = s := ih (fun d hd => hplain d (List.mem_cons_of_mem c hd))
        fun hheld => hsingle (hheld.trans (List.suffix_cons c s).isInfix)
      rw [collapse_cons, hs]
      by_cases hc : isBlank c = true
      · obtain rfl := hplain c List.mem_cons_self hc
        rw [consCollapsed_of_isBlank hc, if_neg]
        intro hhead
        obtain ⟨t, rfl⟩ := List.head?_eq_some_iff.1 hhead
        exact hsingle (List.prefix_append [' ', ' '] t).isInfix
      · exact consCollapsed_of_not_isBlank (by simpa using hc) s

end Reindent.Text
