import Mathlib
import Reindent.Proofs.Css.Boundaries
import Reindent.Proofs.Ink

/-!
# Laying out CSS again

A laid-out style sheet has a blank at every break, so laying it out again puts line starts where
blanks are already and changes nothing but the blanks themselves. The layout depends on the
collapsed text only, and this one settles with the first run (`settled_settled`), so that from the
second run on the text is the same.
-/

namespace Reindent.Css

open Text

/-! ## Texts with blanks at the breaks -/

/-- Behind the character `previous`, there is a blank at every break of a text. -/
def Spaced : Option Char → List Char → Prop
  | _, [] => True
  | previous, c :: s =>
    (breaksBefore c s = true → ∀ d ∈ previous, isBlank d = true) ∧
      (breaksAfter previous c s = true → ∃ d ∈ s.head?, isBlank d = true) ∧ Spaced (some c) s

/-- The collapsed text with a blank at every break. -/
def settled (s : List Char) : List Char :=
  collapse (breakUp ' ' none s)

section

variable {c d : Char} {previous : Option Char} {s t : List Char}

theorem ne_of_isBlank (hc : isBlank c = true) (hd : isBlank d = false) : c ≠ d := by
  rintro rfl
  rw [hc] at hd
  cases hd

/-- There is no break at a blank. -/
theorem breaks_of_isBlank (hc : isBlank c = true) (previous : Option Char) (s : List Char) :
    breaksBefore c s = false ∧ breaksAfter previous c s = false := by
  have hne : ∀ d, isBlank d = false → (c == d) = false :=
    fun d hd => beq_eq_false_iff_ne.2 (ne_of_isBlank hc hd)
  simp [breaksBefore, breaksAfter, endsLine, hne '\x7b' (by decide), hne '\x7d' (by decide),
    hne ';' (by decide), hne '/' (by decide)]

theorem spaced_cons_of_isBlank (hc : isBlank c = true) : Spaced previous (c :: s) ↔
    Spaced (some c) s := by
  rw [Spaced, (breaks_of_isBlank hc previous s).1, (breaks_of_isBlank hc previous s).2]
  simp

/-- Behind a blank, blanks are found wherever they are found behind any other character. -/
theorem Spaced.behind_blank (h : Spaced previous s) (hd : isBlank d = true) :
    Spaced (some d) s := by
  cases s with
  | nil => trivial
  | cons c s =>
    obtain ⟨-, hafter, hrest⟩ := h
    refine ⟨fun _ => by simpa using hd, fun hbreak => hafter ?_, hrest⟩
    have hstar : d ≠ '*' := ne_of_isBlank hd (by decide)
    simp only [breaksAfter, Bool.or_eq_true, Bool.and_eq_true, beq_iff_eq, Option.some.injEq,
      hstar, false_and, or_false] at hbreak
    rw [breaksAfter, hbreak, Bool.true_or]

/-! ### Putting blanks in -/

theorem head?_breakUp_eq_star {gap : Char} (hgap : isBlank gap = true)
    (h : (breakUp gap previous s).head? = some '*') :
    s.head? = some '*' := by
  cases s with
  | nil => cases h
  | cons c s =>
    rw [breakUp] at h
    split at h
    · exact absurd (Option.some.inj h) (ne_of_isBlank hgap (by decide))
    · exact h

theorem spaced_breakUp {gap : Char} (hgap : isBlank gap = true) (previous : Option Char)
    (s : List Char) :
    Spaced previous (breakUp gap previous s) := by
  induction s generalizing previous with
  | nil => trivial
  | cons c s ih =>
    obtain ⟨tail, htail⟩ : ∃ tail, tail =
        (if breaksAfter previous c s then [gap] else []) ++ breakUp gap (some c) s := ⟨_, rfl⟩
    have hrest : Spaced (some c) tail := by
      rw [htail]
      split
      · exact (spaced_cons_of_isBlank hgap).2 ((ih (some c)).behind_blank hgap)
      · exact ih (some c)
    have hstar : tail.head? = some '*' → s.head? = some '*' := by
      intro hhead
      rw [htail] at hhead
      split at hhead
      · exact absurd (Option.some.inj hhead) (ne_of_isBlank hgap (by decide))
      · exact head?_breakUp_eq_star hgap hhead
    -- The character is behind a gap if there is a break in front of it, and else where it was.
    have hline : ∀ q : Option Char, (breaksBefore c s = true → ∀ d ∈ q, isBlank d = true) →
        (q = some '*' → previous = some '*') → Spaced q (c :: tail) := by
      intro q hblank hsame
      refine ⟨fun hbreak => hblank ?_, fun hbreak => ?_, hrest⟩
      · simp only [breaksBefore, Bool.or_eq_true, Bool.and_eq_true, beq_iff_eq] at hbreak ⊢
        exact hbreak.imp_right fun h => ⟨h.1, hstar h.2⟩
      · have hafter : breaksAfter previous c s = true := by
          simp only [breaksAfter, Bool.or_eq_true, Bool.and_eq_true, beq_iff_eq, bne_iff_ne]
            at hbreak ⊢
          refine hbreak.imp_right fun h => ⟨⟨hsame h.1.1, h.1.2⟩, fun hopen => ?_⟩
          have hbefore : breaksBefore c s = true := by simp [breaksBefore, h.1.2, hopen]
          exact absurd (hblank hbefore '*' h.1.1) (by decide)
        rw [htail, if_pos hafter]
        exact ⟨gap, rfl, hgap⟩
    rw [breakUp, ← htail]
    split
    · exact (spaced_cons_of_isBlank hgap).2 (hline (some gap) (fun _ => by simpa using hgap)
        fun h => absurd (Option.some.inj h) (ne_of_isBlank hgap (by decide)))
    · rename_i hnone
      refine hline previous (fun hbreak d hd => absurd ?_ hnone) fun h => h
      rw [Option.mem_def.1 hd, hbreak]
      rfl

/-! ### Collapsing -/

theorem head?_collapse_eq_iff (hd : isBlank d = false) : (collapse s).head? = some d ↔
    s.head? = some d := by
  rw [head?_collapse]
  cases s.head? with
  | none => simp
  | some c =>
    rw [Option.map_some]
    split
    · rename_i hc
      simp [ne_of_isBlank hc hd, ne_of_isBlank (c := ' ') (by decide) hd]
    · rfl

theorem Spaced.collapse (h : Spaced previous s) : Spaced previous (collapse s) := by
  induction s generalizing previous with
  | nil => exact h
  | cons c s ih =>
    have hstar : ((Text.collapse s).head? == some '*') = (s.head? == some '*') := by
      rw [Bool.eq_iff_iff, beq_iff_eq, beq_iff_eq]
      exact head?_collapse_eq_iff (by decide)
    rw [collapse_cons]
    by_cases hc : isBlank c = true
    · have hrest := ih ((spaced_cons_of_isBlank hc).1 h)
      rw [consCollapsed_of_isBlank hc]
      split
      · rename_i hhead
        obtain ⟨t, ht⟩ := List.head?_eq_some_iff.1 hhead
        rw [ht] at hrest ⊢
        exact (spaced_cons_of_isBlank (by decide)).2 ((spaced_cons_of_isBlank (by decide)).1 hrest)
      · exact (spaced_cons_of_isBlank (by decide)).2 (hrest.behind_blank (by decide))
    · obtain ⟨hbefore, hafter, hrest⟩ := h
      rw [consCollapsed_of_not_isBlank (by simpa using hc)]
      refine ⟨fun hbreak => hbefore ?_, fun hbreak => ?_, ih hrest⟩
      · rwa [breaksBefore, hstar] at hbreak
      · rw [breaksAfter, bne, hstar] at hbreak
        obtain ⟨d, hd, hblank⟩ := hafter hbreak
        rw [head?_collapse, Option.mem_def.1 hd]
        exact ⟨' ', by simp [hblank], by decide⟩

/-- Where blanks are at all breaks already, putting in more changes nothing. -/
theorem Spaced.collapse_breakUp
    (h : Spaced previous (c :: s)) (hcollapsed : Text.collapse (c :: s) = c :: s) :
    Text.collapse (c :: ((if breaksAfter previous c s then [' '] else []) ++
      breakUp ' ' (some c) s)) = c :: s := by
  induction s generalizing previous c with
  | nil =>
    rw [if_neg fun hbreak => by simpa using h.2.1 hbreak]
    exact hcollapsed
  | cons e s ih =>
    obtain ⟨-, hafter, hrest⟩ := h
    have htail := collapse_of_cons hcollapsed
    have hinner := (ih hrest htail).trans htail.symm
    have hline := (collapse_append_congr hinner [c]).trans hcollapsed
    have hspace : isBlank ' ' = true := by decide
    -- A gap that is put in stands next to a blank and vanishes.
    rw [breakUp, Option.isSome_some, Bool.true_and]
    split
    · rename_i hbreak
      obtain ⟨d, hd, hblank⟩ := hafter hbreak
      obtain rfl : e = d := Option.some.inj hd
      rw [(breaks_of_isBlank hblank none s).1]
      exact (collapse_append_congr (collapse_blank_blank hspace hblank _).2 [c]).trans hline
    · split
      · rename_i hbreak
        exact (collapse_blank_blank (hrest.1 hbreak c rfl) hspace _).1.trans hline
      · exact hline

theorem settled_settled (s : List Char) : settled (settled s) = settled s := by
  have hspaced : Spaced none (settled s) := (spaced_breakUp (by decide) none s).collapse
  have hcollapsed : Text.collapse (settled s) = settled s := collapse_collapse _
  cases hs : settled s with
  | nil => rfl
  | cons c t =>
    rw [hs] at hspaced hcollapsed
    exact hspaced.collapse_breakUp hcollapsed

end

/-! ## What is written -/

/-- A text with a space in place of each mark. -/
def unmark (mark : Char) (s : List Char) : List Char :=
  s.map fun c => if c = mark then ' ' else c

section

variable {mark : Char} {table : IndentTable} {text : List Char}

theorem unmark_cons (c : Char) (s : List Char) :
    unmark mark (c :: s) = (if c = mark then ' ' else c) :: unmark mark s := rfl

theorem unmark_append (s t : List Char) : unmark mark (s ++ t) = unmark mark s ++ unmark mark t :=
  List.map_append

theorem unmark_of_notMem {s : List Char} (h : mark ∉ s) : unmark mark s = s := by
  refine (List.map_congr_left fun c hc => ?_).trans (List.map_id s)
  have hne : c ≠ mark := fun heq => h (heq ▸ hc)
  rw [if_neg hne, id]

theorem unmark_breakUp {s : List Char} (hfree : mark ∉ s) (previous : Option Char) :
    unmark mark (breakUp mark previous s) = breakUp ' ' previous s := by
  have hgap : ∀ b : Bool, unmark mark (if b then [mark] else []) = if b then [' '] else [] := by
    intro b
    cases b <;> simp [unmark]
  induction s generalizing previous with
  | nil => rfl
  | cons c s ih =>
    rw [List.mem_cons, not_or] at hfree
    rw [breakUp, unmark_append, hgap, unmark_cons, if_neg (Ne.symm hfree.1), unmark_append, hgap,
      ih hfree.2, breakUp]

/-- Joining marks does not matter to the blanks that take their places. -/
theorem collapse_unmark_joinMarks (s : List Char) :
    collapse (unmark mark ((joinMarks mark).apply s)) = collapse (unmark mark s) := by
  refine (joinMarks mark).rel_apply
    (R := fun s t => collapse (unmark mark t) = collapse (unmark mark s)) rfl ?_ ?_ s
  · intro c s t h
    exact collapse_append_congr h [if c = mark then ' ' else c]
  · intro m s t htakes h
    rw [joinMarks, takes_char_iff] at htakes
    obtain ⟨m, rfl, hrest⟩ := htakes
    obtain ⟨run, m, rfl, hrun, hlast⟩ := takes_blanks_iff.1 hrest
    obtain ⟨m, rfl, hend⟩ := takes_char_iff.1 hlast
    obtain rfl := takes_nil_iff.1 hend
    have hblank : ∀ c ∈ unmark mark (mark :: (run ++ [mark])), isBlank c = true := by
      intro c hc
      obtain ⟨d, hd, rfl⟩ := List.mem_map.1 hc
      split
      · decide
      · rename_i hne
        simp only [List.mem_cons, List.mem_append, List.not_mem_nil, or_false, hne, false_or] at hd
        exact hrun d hd
    rw [unmark_append, unmark_append, collapse_run (by simp [unmark]) hblank, joinMarks,
      unmark_cons, if_pos rfl]
    exact collapse_append_congr h [' ']

/-- Line starts in place of marks are blanks in place of marks. -/
theorem collapse_written (hunit : ∀ c ∈ table.unit, isBlank c = true) {f : List Char}
    {fs : List (List Char)} (hfs : ∀ g ∈ f :: fs, mark ∉ g) (state : State) :
    collapse (f ++ written table move state fs) =
      collapse (unmark mark ([mark].intercalate (f :: fs))) := by
  induction fs generalizing f state with
  | nil =>
    have hf := hfs f List.mem_cons_self
    simp [unmark_of_notMem hf]
  | cons g fs ih =>
    have hf := hfs f List.mem_cons_self
    obtain ⟨depth, hline⟩ := exists_line_eq table state g
    have hrest := ih (fun x hx => hfs x (List.mem_cons_of_mem f hx)) (move state g).next
    have hjoin : [mark].intercalate (f :: g :: fs) =
        f ++ mark :: [mark].intercalate (g :: fs) := by simp
    rw [written_cons, hline, List.append_assoc, hjoin, unmark_append, unmark_of_notMem hf,
      unmark_cons, if_pos rfl]
    refine collapse_append_congr ?_ f
    have hstart : table.lineStart depth ≠ [] := List.cons_ne_nil _ _
    rw [collapse_run hstart fun c => table.isBlank_of_mem_lineStart hunit]
    exact collapse_append_congr hrest [' ']

/-- The first line is not indented. -/
theorem line_eq (table : IndentTable) (f : List Char) : (move {} f).line table = '\n' :: f := by
  obtain ⟨depth, hdepth, hline⟩ :
      ∃ depth, depth ≤ 0 ∧ (move {} f).line table = table.lineStart depth ++ f := by
    unfold move
    cases classify f
    · exact ⟨0, Int.le_refl 0, rfl⟩
    · exact ⟨-1, by decide, rfl⟩
    · exact ⟨0, Int.le_refl 0, rfl⟩
  rw [hline, table.lineStart_of_nonpos hdepth, List.singleton_append]

/-- The lines of a text that starts with neither a mark nor a line end. -/
theorem collapse_dropWhile_written (hunit : ∀ c ∈ table.unit, isBlank c = true) {c : Char}
    (hmark : c ≠ mark) (hnewline : c ≠ '\n') (s : List Char) :
    collapse ((written table move {} (splitOn mark (c :: s))).dropWhile (· == '\n')) =
      collapse (unmark mark (c :: s)) := by
  obtain ⟨f, fs, hsplit⟩ := List.exists_cons_of_ne_nil (splitOn_ne_nil mark s)
  have hcons : splitOn mark (c :: s) = (c :: f) :: fs := by
    rw [splitOn_cons, if_neg hmark, hsplit, consFirst]
  have hfs : ∀ g ∈ (c :: f) :: fs, mark ∉ g := fun g hg => notMem_of_mem_splitOn (hcons ▸ hg)
  have hjoin := intercalate_splitOn mark (c :: s)
  rw [hcons] at hjoin
  rw [hcons, written_cons, line_eq, List.cons_append, List.dropWhile_cons_of_pos (by decide),
    List.cons_append, List.dropWhile_cons_of_neg (by simpa using hnewline), ← List.cons_append,
    collapse_written hunit hfs, hjoin]

/-! ## Whole texts -/

theorem breakUp_start (gap c : Char) (s : List Char) : breakUp gap (some ' ') (c :: s) =
    (if breaksBefore c s then [gap] else []) ++ breakUp gap none (c :: s) := by
  simp [breakUp, breaksAfter]

theorem joinMarks_cons {c : Char} (hc : c ≠ mark) (s : List Char) :
    (joinMarks mark).apply (c :: s) = c :: (joinMarks mark).apply s := by
  refine Substitution.apply_cons_of_not_takes _ fun m rest hm _ htakes => ?_
  rw [joinMarks, takes_char_iff] at htakes
  obtain ⟨m, rfl, -⟩ := htakes
  exact hc (List.cons_eq_cons.1 hm).1

/-- A mark in front of another character stays. -/
theorem joinMarks_mark {c : Char} (hc : c ≠ mark) (hblank : isBlank c = false) (s : List Char) :
    (joinMarks mark).apply (mark :: c :: s) = mark :: (joinMarks mark).apply (c :: s) := by
  refine Substitution.apply_cons_of_not_takes _ fun m rest hm _ htakes => ?_
  rw [joinMarks, takes_char_iff] at htakes
  obtain ⟨m, rfl, hrest⟩ := htakes
  obtain ⟨run, m, rfl, hrun, hlast⟩ := takes_blanks_iff.1 hrest
  obtain ⟨m, rfl, -⟩ := takes_char_iff.1 hlast
  rw [List.cons_append, List.cons_eq_cons, List.append_assoc] at hm
  cases run with
  | nil => exact hc (List.cons_eq_cons.1 hm.2).1
  | cons d run =>
    exact ne_of_isBlank (hrun d List.mem_cons_self) hblank (List.cons_eq_cons.1 hm.2).1.symm

/-- What is laid out is the text with a blank at every break, blanks collapsed. -/
theorem collapse_laidOut (hm : Marker.IsCandidate mark) (hfree : mark ∉ text)
    (hunit : ∀ c ∈ table.unit, isBlank c = true) :
    collapse ((written table move {} (splitWith mark text)).dropWhile (· == '\n')) =
      settled (collapse text) := by
  have hfree' : mark ∉ collapse text := fun h => hfree (mem_of_mem_collapse h hm.isBlank_eq_false)
  rw [splitWith, applyAll_splitRules hm]
  cases htext : collapse text with
  | nil => rfl
  | cons c s =>
    have hmem : c ∈ collapse text := htext ▸ List.mem_cons_self
    have hmark : c ≠ mark := fun h => hfree' (h ▸ hmem)
    have hnewline : c ≠ '\n' := by
      rintro rfl
      exact absurd (isBlank_of_mem_collapse hmem isBlank_newline) (by decide)
    have hlines : collapse ((written table move {} (splitOn mark ((joinMarks mark).apply
        (breakUp mark none (c :: s))))).dropWhile (· == '\n')) = settled (c :: s) := by
      obtain ⟨rest, hrest⟩ : ∃ rest, breakUp mark none (c :: s) = c :: rest := ⟨_, rfl⟩
      rw [hrest, joinMarks_cons hmark, collapse_dropWhile_written hunit hmark hnewline,
        ← joinMarks_cons hmark, collapse_unmark_joinMarks, ← hrest,
        unmark_breakUp (htext ▸ hfree'), settled]
    rw [breakUp_start]
    split
    · -- The first fragment is empty, and its line start is dropped with the one behind it.
      rename_i hbreak
      have hblank : isBlank c = false := by
        by_contra h
        rw [(breaks_of_isBlank (by simpa using h) none s).1] at hbreak
        cases hbreak
      obtain ⟨rest, hrest⟩ : ∃ rest, breakUp mark none (c :: s) = c :: rest := ⟨_, rfl⟩
      rw [List.singleton_append, hrest, joinMarks_mark hmark hblank, ← hrest, splitOn_cons,
        if_pos rfl, written_cons, line_eq, List.cons_append,
        List.dropWhile_cons_of_pos (by decide), List.nil_append]
      exact hlines
    · exact hlines

/-- A layout has the marks of its text and is settled. -/
theorem exists_pretty_settled (hclamp : table.overflow = .clamp)
    (hunit : ∀ c ∈ table.unit, isBlank c = true) (hpick : Marker.pick? text = some mark) :
    ∃ out, pretty table text = .ok out ∧
      Marker.pick? out = some mark ∧ collapse out = settled (collapse text) := by
  obtain ⟨hm, hfree⟩ := Marker.pick?_eq_some hpick
  refine ⟨_, pretty_of_clamp hclamp hpick, ?_, collapse_laidOut hm hfree hunit⟩
  rw [← hpick]
  refine Marker.pick?_congr fun m hcandidate => ?_
  rw [← hcandidate.mem_deleteBlanks_iff, deleteBlanks_dropWhile,
    deleteBlanks_written_flatten hunit fun _ _ => rfl, deleteBlanks_splitWith hfree,
    hcandidate.mem_deleteBlanks_iff]

/-- The layout of a text depends on its mark and on the collapsed text. -/
theorem pretty_congr (hclamp : table.overflow = .clamp) {text' : List Char}
    (hpick : Marker.pick? text = some mark) (hpick' : Marker.pick? text' = some mark)
    (h : collapse text = collapse text') :
    pretty table text = pretty table text' := by
  obtain ⟨hm, -⟩ := Marker.pick?_eq_some hpick
  rw [pretty_of_clamp hclamp hpick, pretty_of_clamp hclamp hpick', splitWith, splitWith,
    applyAll_splitRules hm, applyAll_splitRules hm, h]

end

/-- On a table that clamps and has a blank unit, a text that leaves a mark is laid out, and so is
the result; laying it out a third time changes nothing. -/
theorem pretty_settles (table : IndentTable) (hclamp : table.overflow = .clamp)
    (hunit : ∀ c ∈ table.unit, isBlank c = true) (text : List Char)
    (hmark : (Marker.pick? text).isSome = true) :
    ∃ once twice, pretty table text = .ok once ∧ pretty table once = .ok twice ∧
    pretty table twice = .ok twice := by
  obtain ⟨mark, hpick⟩ := Option.isSome_iff_exists.1 hmark
  obtain ⟨once, honce, hpick₁, hsettled₁⟩ := exists_pretty_settled hclamp hunit hpick
  obtain ⟨twice, htwice, hpick₂, hsettled₂⟩ := exists_pretty_settled hclamp hunit hpick₁
  have hsame : collapse twice = collapse once := by
    rw [hsettled₂, hsettled₁, settled_settled]
  exact ⟨once, twice, honce, htwice, (pretty_congr hclamp hpick₂ hpick₁ hsame).trans htwice⟩

/-- A closing brace at the start, delimiters that share a slash or a star, and an empty block: the
first layout is not the last one. -/
theorem pretty_settles_broken :
    let text := "\x7d/*/a*/*\x7b\x7db;".toList
    let once := "\x7d\n/*/\na*\n/*\x7b\n\x7d\nb;\n".toList
    let twice := "\x7d\n/*/\n a* \n/*\x7b\n\x7d\n b;\n ".toList
    IndentTable.default.overflow = .clamp ∧ (∀ c ∈ IndentTable.default.unit, isBlank c = true) ∧
      (Marker.pick? text).isSome = true ∧ once ≠ twice ∧ pretty .default text = .ok once ∧
      pretty .default once = .ok twice ∧ pretty .default twice = .ok twice := by
  intro text once twice
  have hunit : ∀ c ∈ IndentTable.default.unit, isBlank c = true := List.all_eq_true.1 (by decide)
  have hmark : (Marker.pick? text).isSome = true := by decide
  have hfirst : pretty .default text = .ok once := by rfl
  have hsecond : pretty .default once = .ok twice := by rfl
  obtain ⟨once', twice', honce, htwice, hsettled⟩ := pretty_settles .default rfl hunit text hmark
  obtain rfl := Except.ok.inj (hfirst.symm.trans honce)
  obtain rfl := Except.ok.inj (hsecond.symm.trans htwice)
  exact ⟨rfl, hunit, hmark, by decide, hfirst, hsecond, hsettled⟩

end Reindent.Css
