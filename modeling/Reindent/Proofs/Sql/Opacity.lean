import Mathlib
import Reindent.Proofs.Sql.Written

/-!
# Literals are opaque

What stands inside a literal has no influence on anything around it: neither on the fragments
before and behind, nor on the depth, nor on whether the statement can be laid out at all. Each
stage is described by what it makes of the surroundings, into which the body of the literal is put
with its blanks collapsed.
-/

namespace Reindent.Sql

open Text

/-! ## Fragments -/

theorem length_cutBefore_startsQuote (s : List Char) :
    (cutBefore startsQuote s).length = s.count '\x27' + 1 := by
  induction s with
  | nil => rfl
  | cons c s ih =>
    obtain ⟨p, ps, hcut⟩ := List.exists_cons_of_ne_nil (cutBefore_ne_nil startsQuote s)
    rw [hcut, List.length_cons, Nat.add_right_cancel_iff] at ih
    rw [cutBefore, hcut, consFirst, List.count_cons]
    by_cases hc : c = '\x27'
    · simp [hc, startsQuote, ih]
    · simp [hc, startsQuote, ih]

theorem count_quote_collapse (s : List Char) : (collapse s).count '\x27' = s.count '\x27' := by
  induction s with
  | nil => rfl
  | cons c s ih =>
    rw [collapse_cons]
    by_cases hc : isBlank c = true
    · have hne : ∀ {d : Char}, isBlank d = true → d ≠ '\x27' := ne_quote_of_isBlank
      rw [consCollapsed_of_isBlank hc, List.count_cons_of_ne (hne hc), ← ih]
      split
      · rfl
      · exact List.count_cons_of_ne (hne (by decide))
    · rw [consCollapsed_of_not_isBlank (by simpa using hc), List.count_cons, List.count_cons, ih]

/-- The spans of a statement around a literal. -/
theorem quoteSpans_literal (pre post : List Char) {body : List Char} (hbody : '\x27' ∉ body) :
    quoteSpans (pre ++ '\x27' :: (body ++ '\x27' :: post)) =
      quoteSpans pre ++ ('\x27' :: collapse body) :: consFirst '\x27' (quoteSpans post) := by
  have hbody' : '\x27' ∉ collapse body := by
    rw [← List.count_eq_zero, count_quote_collapse, List.count_eq_zero]
    exact hbody
  rw [quoteSpans, collapse_append_cons isBlank_quote, collapse_append_cons isBlank_quote,
    cutBefore_append_quote, cutBefore_append_quote, cutBefore_of_notMem hbody']
  rfl

theorem fragmentsOf_append (tab : List Char) (lit : Bool) (spans more : List (List Char)) :
    fragmentsOf tab lit (spans ++ more) = (do
      let fs ← fragmentsOf tab lit spans
      let gs ← fragmentsOf tab (lit ^^ decide (Odd spans.length)) more
      pure (fs ++ gs)) := by
  induction spans generalizing lit with
  | nil =>
    have hlit : (lit ^^ decide (Odd ([] : List (List Char)).length)) = lit := by simp
    rw [List.nil_append, fragmentsOf, hlit]
    cases fragmentsOf tab lit more <;> rfl
  | cons span spans ih =>
    have hlit : (lit ^^ decide (Odd (span :: spans).length)) =
        (!lit ^^ decide (Odd spans.length)) := by
      rw [List.length_cons, decide_eq_decide.2 Nat.odd_add_one, decide_not]
      cases lit <;> simp
    rw [hlit]
    cases lit with
    | true =>
      rw [List.cons_append, fragmentsOf, fragmentsOf, Bool.not_true, ih]
      simp only [bind_assoc, pure_bind, List.cons_append]
    | false =>
      rw [List.cons_append, fragmentsOf, fragmentsOf, Bool.not_false, ih]
      simp only [bind_assoc, pure_bind, List.append_assoc]

/-- The fragments around a literal do not depend on it. -/
theorem split_literal (tab : List Char) {pre : List Char}
    (hpre : Even (pre.count '\x27')) (post : List Char) :
    ∃ r : Except FormatError (List Fragment × List Fragment), ∀ body, '\x27' ∉ body →
      split tab (pre ++ '\x27' :: (body ++ '\x27' :: post)) =
        r.map fun x => x.1 ++ ⟨'\x27' :: collapse body, true⟩ :: x.2 := by
  refine ⟨do
    let fs ← split tab pre
    let gs ← fragmentsOf tab false (consFirst '\x27' (quoteSpans post))
    pure (fs, gs), fun body hbody => ?_⟩
  have hodd : Odd (quoteSpans pre).length := by
    rw [quoteSpans, length_cutBefore_startsQuote, count_quote_collapse]
    exact hpre.add_one
  rw [split, quoteSpans_literal pre post hbody, fragmentsOf_append, decide_eq_true hodd,
    Bool.false_xor, fragmentsOf, split]
  cases fragmentsOf tab false (quoteSpans pre) with
  | error e => rfl
  | ok fs =>
    cases fragmentsOf tab false (consFirst '\x27' (quoteSpans post)) with
    | error e => rfl
    | ok gs => rfl

/-! ## Lines -/

theorem joinLines_append_cons {c : Char} (hc : c ≠ '\n') (s t : List Char) :
    joinLines (s ++ c :: t) = joinLines s ++ c :: joinLines t := by
  induction s with
  | nil =>
    rw [List.nil_append, joinLines_cons, consLine, if_neg (by simp [hc])]
    rfl
  | cons d s ih =>
    rw [List.cons_append, joinLines_cons, joinLines_cons, ih, consLine, consLine]
    cases hs : joinLines s with
    | nil => simp [hc]
    | cons e s' =>
      rw [List.cons_append, List.head?_cons, List.head?_cons]
      split
      · rfl
      · rfl

theorem joinLines_append_of_notMem {s : List Char} (hs : '\n' ∉ s) (t : List Char) :
    joinLines (s ++ t) = s ++ joinLines t := by
  induction s with
  | nil => rfl
  | cons c s ih =>
    rw [List.mem_cons, not_or] at hs
    rw [List.cons_append, joinLines_cons, ih hs.2, consLine, if_neg (by simp [Ne.symm hs.1])]
    rfl

theorem dropWhile_append_quote (s t : List Char) :
    (s ++ '\x27' :: t).dropWhile (· == '\n') = s.dropWhile (· == '\n') ++ '\x27' :: t := by
  induction s with
  | nil => rfl
  | cons c s ih =>
    rw [List.cons_append, List.dropWhile_cons, List.dropWhile_cons, ih]
    split
    · rfl
    · rfl

/-- A literal is written as it is, and the walk goes on as if its body were empty. -/
theorem walk_literal (table : IndentTable) (state : State) (body : List Char)
    (fs : List Fragment) :
    walk table (move table.unit) state (⟨'\x27' :: body, true⟩ :: fs) =
      ((walk table (move table.unit) (move table.unit state ⟨['\x27'], true⟩).next fs).1,
        (walk table (move table.unit) (move table.unit state ⟨['\x27'], true⟩).next fs).2.map
          ('\x27' :: body ++ ·)) := by
  have hkind : ∀ text, classify ⟨text, true⟩ = .literal :=
    fun text => (classify_eq_literal_iff _).2 (Or.inl rfl)
  have hnext : (move table.unit state ⟨'\x27' :: body, true⟩).next =
      (move table.unit state ⟨['\x27'], true⟩).next := by
    simp only [move, hkind, if_true]
  have hemit : (move table.unit state ⟨'\x27' :: body, true⟩).emit table =
      .ok ['\x27' :: body] := by
    have hline : (move table.unit state ⟨'\x27' :: body, true⟩).lineDepth? = none :=
      lineDepth?_of_literal (hkind _) _ _
    unfold Move.emit emit
    rw [hline]
    exact congrArg (fun t => Except.ok [t]) (writtenText_of_literal (hkind _) table.unit)
  rw [walk, hemit]
  simp only [hnext, List.flatten_cons, List.flatten_nil, List.append_nil]

/-- The text around a literal does not depend on its body. -/
theorem render_literal (table : IndentTable) (state : State) (fs gs : List Fragment) :
    ∃ r : Except DepthExceeded (List Char × List Char), ∀ body, '\n' ∉ body →
      (render table state (fs ++ ⟨'\x27' :: body, true⟩ :: gs)).2 =
        r.map fun x => x.1 ++ body ++ x.2 := by
  simp only [render, walkThrough, walk_append, walk_literal]
  cases walk table (move table.unit) state fs with
  | mk last before =>
    cases before with
    | error e => exact ⟨.error e, fun _ _ => rfl⟩
    | ok before =>
      dsimp only
      cases (walk table (move table.unit) (move table.unit last ⟨['\x27'], true⟩).next gs).2 with
      | error e => exact ⟨.error e, fun _ _ => rfl⟩
      | ok behind =>
        refine ⟨.ok (joinLines (before.dropWhile (· == '\n')) ++ ['\x27'], joinLines behind),
          fun body hbody => ?_⟩
        simp only [Except.map, Except.ok.injEq]
        rw [List.cons_append, dropWhile_append_quote, joinLines_append_cons (by decide),
          joinLines_append_of_notMem hbody]
        simp only [List.append_assoc, List.cons_append, List.nil_append]

/-- What is made of the surroundings of a literal. -/
theorem exists_surroundings (table : IndentTable) {pre : List Char}
    (hpre : Even (pre.count '\x27')) (post : List Char) : ∃ r :
    Except FormatError (List Char × List Char), ∀ body, '\x27' ∉ body →
      pretty table (pre ++ '\x27' :: (body ++ '\x27' :: post)) =
        r.map fun x => x.1 ++ collapse body ++ x.2 := by
  obtain ⟨r, hsplit⟩ := split_literal table.unit hpre post
  cases r with
  | error e =>
    refine ⟨.error e, fun body hbody => ?_⟩
    rw [pretty, hsplit body hbody]
    rfl
  | ok x =>
    obtain ⟨r, hrender⟩ := render_literal table {} x.1 x.2
    refine ⟨r.mapError .depthExceeded, fun body hbody => ?_⟩
    have hline : '\n' ∉ collapse body := fun hmem =>
      absurd (isBlank_of_mem_collapse hmem isBlank_newline) (by decide)
    rw [pretty, hsplit body hbody]
    change (render table {} (x.1 ++ ⟨'\x27' :: collapse body, true⟩ :: x.2)).2.mapError
      FormatError.depthExceeded = _
    rw [hrender (collapse body) hline]
    cases r <;> rfl

/-- Two statements that differ inside a literal only are laid out alike: both are refused for the
same reason, or the two results differ by the bodies of the literal, with their blanks collapsed,
in the same place. -/
theorem pretty_literal_opaque (table : IndentTable) (pre post body₁ body₂ : List Char)
    (hpre : Even (pre.count '\x27')) (h₁ : '\x27' ∉ body₁) (h₂ : '\x27' ∉ body₂) :
    (∃ e, pretty table (pre ++ '\x27' :: (body₁ ++ '\x27' :: post)) = .error e ∧
      pretty table (pre ++ '\x27' :: (body₂ ++ '\x27' :: post)) = .error e) ∨
    ∃ before behind,
      pretty table (pre ++ '\x27' :: (body₁ ++ '\x27' :: post)) =
        .ok (before ++ collapse body₁ ++ behind) ∧
      pretty table (pre ++ '\x27' :: (body₂ ++ '\x27' :: post)) =
        .ok (before ++ collapse body₂ ++ behind) := by
  obtain ⟨r, hr⟩ := exists_surroundings table hpre post
  rw [hr body₁ h₁, hr body₂ h₂]
  cases r with
  | error e => exact Or.inl ⟨e, rfl, rfl⟩
  | ok x => exact Or.inr ⟨x.1, x.2, rfl, rfl⟩

theorem pretty_literal_opaque_subquery :
    let table := IndentTable.of ['\t'] 1 .error
    let pre := "select a, 'b' from (select ".toList
    let post := " from t) and c".toList
    let body := "(select\n\nx from".toList
    (∃ e, pretty table (pre ++ '\x27' :: (body ++ '\x27' :: post)) = .error e ∧
      pretty table (pre ++ '\x27' :: ([] ++ '\x27' :: post)) = .error e) ∨
    ∃ before behind,
      pretty table (pre ++ '\x27' :: (body ++ '\x27' :: post)) =
        .ok (before ++ collapse body ++ behind) ∧
      pretty table (pre ++ '\x27' :: ([] ++ '\x27' :: post)) =
        .ok (before ++ collapse [] ++ behind) := by
  intro table pre post body
  exact pretty_literal_opaque table pre post body [] (by decide) (by decide) (by decide)

end Reindent.Sql
