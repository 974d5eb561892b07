import Mathlib
import Reindent.Proofs.Sql.Written

/-!
# The content of a statement

Laying out a statement moves blanks around and writes keywords in capitals. Apart from blanks,
every character is written once and in its place, and what stands inside a literal is written as it
is.
-/

namespace Reindent.Sql

open Text Marker

/-- What may be written for a character of a statement: the character itself inside a literal, and
outside also the capital of the same letter. -/
def Kept (x : Bool × Char) (d : Char) : Prop :=
  if x.1 then d = x.2 else Recased x.2 d

/-- The characters of a statement that are not blank, each with whether it is inside a literal. -/
def content (inside : Bool) (text : List Char) : List (Bool × Char) :=
  (quoteTags inside text).filter fun x => !isBlank x.2

theorem Kept.self (x : Bool × Char) : Kept x x.2 := by
  rw [Kept]
  split
  · rfl
  · exact Recased.refl _

theorem content_quote (inside : Bool) (s : List Char) :
    content inside ('\x27' :: s) = (inside, '\x27') :: content (!inside) s := by
  rw [content, quoteTags_quote, List.filter_cons_of_pos (by simp [isBlank_quote]), content]

theorem content_append {a : List Char} (ha : '\x27' ∉ a) (inside : Bool) (s : List Char) :
    content inside (a ++ s) = (deleteBlanks a).map (Prod.mk inside) ++ content inside s := by
  rw [content, quoteTags_append ha, List.filter_append, List.filter_map]
  rfl

theorem deleteBlanks_quote (s : List Char) :
    deleteBlanks ('\x27' :: s) = '\x27' :: deleteBlanks s :=
  List.filter_cons_of_pos (by simp [isBlank_quote])

theorem forall₂_kept_map {s t : List Char} (h : List.Forall₂ Recased s t) :
    List.Forall₂ Kept (s.map (Prod.mk false)) t := by
  rw [List.forall₂_map_left_iff]
  exact h.imp fun _ _ hcd => by simpa [Kept] using hcd

/-- The clauses of a span hold its characters, the letters of keywords as capitals. -/
theorem recased_clauses {tab span : List Char} {mark : Char} (htab : ∀ c ∈ tab, isBlank c = true)
    (hmark : pick? (span ++ tab) = some mark) :
    List.Forall₂ Recased (deleteBlanks span)
    (((splitClausesWith mark tab span).map (Fragment.mk · false)).flatMap
      fun f => deleteBlanks f.text) := by
  obtain ⟨hm, hfree⟩ := pick?_eq_some hmark
  rw [List.flatMap_map, splitClausesWith, flatMap_deleteBlanks_splitOn,
    ← ink_of_notMem fun hmem => hfree (List.mem_append_left tab hmem)]
  exact ink_applyRules hm htab span

/-- Behind the first span, the fragments hold the content of the spans. -/
theorem content_fragmentsOf {tab : List Char} (htab : ∀ c ∈ tab, isBlank c = true) {lit : Bool}
    {spans : List (List Char)} {fs : List Fragment} (h : fragmentsOf tab lit spans = .ok fs)
    (hspans : ∀ r ∈ spans, QuoteSpan r) :
    List.Forall₂ Kept (content (!lit) spans.flatten)
    (fs.flatMap fun f => deleteBlanks f.text) := by
  refine fragmentsOf_induct (P := fun lit spans fs => (∀ r ∈ spans, QuoteSpan r) →
    List.Forall₂ Kept (content (!lit) spans.flatten) (fs.flatMap fun f => deleteBlanks f.text))
    (fun _ _ => .nil) ?_ ?_ h hspans
  · intro span rest fs ih hspans
    obtain ⟨body, rfl, hbody⟩ := hspans span List.mem_cons_self
    rw [List.flatten_cons, List.cons_append, Bool.not_true, content_quote, Bool.not_false,
      content_append hbody, List.flatMap_cons, deleteBlanks_quote, List.cons_append]
    refine .cons (Kept.self _) (List.rel_append ?_
      (ih fun r hr => hspans r (List.mem_cons_of_mem _ hr)))
    rw [List.forall₂_map_left_iff]
    exact List.forall₂_same.2 fun c _ => Kept.self (true, c)
  · intro span rest fs mark hmark ih hspans
    obtain ⟨body, rfl, hbody⟩ := hspans span List.mem_cons_self
    have hclauses := recased_clauses htab hmark
    rw [deleteBlanks_quote] at hclauses
    obtain ⟨d, ds, hd, hds, heq⟩ := List.forall₂_cons_left_iff.1 hclauses
    rw [List.flatten_cons, List.cons_append, Bool.not_false, content_quote, Bool.not_true,
      content_append hbody, List.flatMap_append, heq, List.cons_append, hd.quote_iff.2 rfl]
    exact .cons (Kept.self _) (List.rel_append (forall₂_kept_map hds)
      (ih fun r hr => hspans r (List.mem_cons_of_mem _ hr)))

/-- The fragments of a statement hold its content. -/
theorem content_split {tab : List Char} (htab : ∀ c ∈ tab, isBlank c = true) {text : List Char}
    {fs : List Fragment} (h : fragmentsOf tab false (quoteSpans text) = .ok fs) :
    List.Forall₂ Kept (content false text) (fs.flatMap fun f => deleteBlanks f.text) := by
  obtain ⟨first, rest, hcut, hfirst, hrest, hjoin⟩ := cutBefore_startsQuote (collapse text)
  rw [quoteSpans, hcut] at h
  obtain ⟨mark, more, hmark, hmore, hfs⟩ := fragmentsOf_clauses h
  rw [hfs, List.flatMap_append, content, ← filter_quoteTags_collapse, ← hjoin]
  change List.Forall₂ Kept (content false (first ++ rest.flatten)) _
  rw [content_append hfirst]
  exact List.rel_append (forall₂_kept_map (recased_clauses htab hmark))
    (content_fragmentsOf htab hmore hrest)

/-- On a table that clamps and has a blank unit, every statement that leaves marks is laid out, and
apart from blanks its characters are kept: one by one, in order, as they are inside literals, and
at most as capitals outside. -/
theorem pretty_keeps_content (table : IndentTable) (hclamp : table.overflow = .clamp)
    (hunit : ∀ c ∈ table.unit, isBlank c = true) (text : List Char)
    (hmarks : MarksAvailable table.unit text) :
    ∃ out, pretty table text = .ok out ∧
    List.Forall₂ Kept (content false text) (deleteBlanks out) := by
  obtain ⟨fs, hfs, hpretty⟩ := pretty_of_clamp hclamp hmarks
  refine ⟨_, hpretty, ?_⟩
  rw [deleteBlanks_joinLines, deleteBlanks_dropWhile, deleteBlanks_written hunit]
  exact content_split hunit hfs

theorem pretty_keeps_content_literal :
    let text := "select 'from  x' from t where a in(select b from u)".toList
    MarksAvailable IndentTable.default.unit text ∧ ∃ out, pretty .default text = .ok out ∧
      List.Forall₂ Kept (content false text) (deleteBlanks out) := by
  intro text
  have hmarks : MarksAvailable IndentTable.default.unit text := by decide
  have hunit : ∀ c ∈ IndentTable.default.unit, isBlank c = true := List.all_eq_true.1 (by decide)
  exact ⟨hmarks, pretty_keeps_content .default rfl hunit text hmarks⟩

end Reindent.Sql
