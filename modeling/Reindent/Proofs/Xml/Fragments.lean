import Mathlib
import Reindent.Proofs.Text.Cuts
import Reindent.Xml.Kind
import Reindent.Xml.Split

/-!
# Tags as fragments

A plain fragment is one tag and the text behind it. A document that is put together from plain
fragments falls into these fragments again: no blanks between its tags are dropped, and it is cut
in front of its tags only.
-/

namespace Reindent.Xml

open Text

/-! ## Namespace attributes -/

/-- The characters of the starts of namespace attributes. -/
def namespaceChars : List Char := ['x', 'm', 'l', 'n', 's', ':', '=']

theorem declaresNamespace_eq_false_iff {s : List Char} : declaresNamespace s = false ↔
    ¬ ['x', 'm', 'l', 'n', 's', ':'] <:+: s ∧ ¬ ['x', 'm', 'l', 'n', 's', '='] <:+: s := by
  rw [declaresNamespace, Bool.or_eq_false_iff, occurs_eq_false_iff, occurs_eq_false_iff]

theorem notMem_of_namespaceChars {c : Char} (hc : c ∉ namespaceChars) :
    c ∉ ['x', 'm', 'l', 'n', 's', ':'] ∧ c ∉ ['x', 'm', 'l', 'n', 's', '='] := by
  simp only [namespaceChars, List.mem_cons, not_or] at hc ⊢
  tauto

/-- No namespace attribute goes across a character that none of them holds. -/
theorem declaresNamespace_append_cons {s t : List Char} {c : Char} (hc : c ∉ namespaceChars) :
    declaresNamespace (s ++ c :: t) = false ↔
    declaresNamespace s = false ∧ declaresNamespace t = false := by
  obtain ⟨hcolon, hequals⟩ := notMem_of_namespaceChars hc
  simp only [declaresNamespace_eq_false_iff, infix_append_cons hcolon, infix_append_cons hequals]
  tauto

/-! ## Plain fragments -/

/-- A text without brackets and namespace attributes. -/
def NoMarkup (s : List Char) : Prop :=
  '<' ∉ s ∧ '>' ∉ s ∧ declaresNamespace s = false

/-- A text is empty or has a character that is not blank. -/
def Visible (s : List Char) : Prop :=
  s = [] ∨ ∃ c ∈ s, isBlank c = false

/-- A fragment of one tag and the text behind it. -/
def PlainFragment (f : List Char) : Prop :=
  ∃ tag text, f = '<' :: (tag ++ '>' :: text) ∧ NoMarkup tag ∧ NoMarkup text ∧ Visible text

theorem flatten_plain {fs : List (List Char)} (h : ∀ f ∈ fs, PlainFragment f) :
    fs.flatten = [] ∨ ∃ s, fs.flatten = '<' :: s := by
  cases fs with
  | nil => exact Or.inl rfl
  | cons f fs =>
    obtain ⟨tag, text, rfl, -⟩ := h f List.mem_cons_self
    exact Or.inr ⟨_, rfl⟩

/-! ### Blanks between tags -/

theorem closeGaps_cons (c : Char) (s : List Char) :
    closeGaps (c :: s) = consTight c (closeGaps s) := rfl

theorem closeGaps_append {s : List Char} (hs : '>' ∉ s) (t : List Char) :
    closeGaps (s ++ t) = s ++ closeGaps t := by
  induction s with
  | nil => rfl
  | cons c s ih =>
    rw [List.mem_cons, not_or] at hs
    rw [List.cons_append, closeGaps_cons, ih hs.2, consTight, if_neg (Ne.symm hs.1),
      List.cons_append]

/-- Nothing is dropped behind a tag unless blanks and then a tag follow it. -/
theorem consTight_eq {s : List Char} (h : ∀ r, s.dropWhile isBlank = '<' :: r → s = '<' :: r) :
    consTight '>' s = '>' :: s := by
  unfold consTight
  rw [if_pos rfl]
  split
  · rename_i r hr
    rw [h r hr]
  · rfl

theorem dropWhile_visible {text rest : List Char} (hlt : '<' ∉ text) (hvisible : Visible text)
    {r : List Char} (h : (text ++ rest).dropWhile isBlank = '<' :: r) : text = [] := by
  rcases hvisible with rfl | ⟨c, hc, hblank⟩
  · rfl
  · exfalso
    have hne : text.dropWhile isBlank ≠ [] := by
      rw [Ne, List.dropWhile_eq_nil_iff]
      intro hall
      rw [hall c hc] at hblank
      cases hblank
    obtain ⟨d, ds, hd⟩ := List.exists_cons_of_ne_nil hne
    rw [List.dropWhile_append, hd, List.isEmpty_cons, if_neg Bool.false_ne_true,
      List.cons_append] at h
    have hmem : d ∈ text := (List.dropWhile_suffix isBlank).subset (hd ▸ List.mem_cons_self)
    exact hlt ((List.cons_eq_cons.1 h).1 ▸ hmem)

/-- Blanks between two tags are dropped. -/
theorem closeGaps_gap {gap : List Char} (hgap : ∀ c ∈ gap, isBlank c = true) (rest : List Char) :
    closeGaps ('>' :: (gap ++ '<' :: rest)) = '>' :: closeGaps ('<' :: rest) := by
  have hgt : '>' ∉ gap := fun h => absurd (hgap _ h) (by decide)
  have hdrop : (gap ++ '<' :: closeGaps rest).dropWhile isBlank = '<' :: closeGaps rest := by
    rw [List.dropWhile_append_of_pos hgap, List.dropWhile_cons, if_neg (by decide)]
  have hopen : closeGaps ('<' :: rest) = '<' :: closeGaps rest :=
    closeGaps_append (s := ['<']) (by decide) rest
  rw [closeGaps_cons, closeGaps_append hgt, hopen]
  unfold consTight
  rw [if_pos rfl, hdrop]
  rfl

/-- A text between tags that is empty or not blank stays. -/
theorem closeGaps_text {text rest : List Char} (hlt : '<' ∉ text) (hgt : '>' ∉ text)
    (hvisible : Visible text) (hrest : ∀ r, (closeGaps rest).dropWhile isBlank = '<' :: r →
      closeGaps rest = '<' :: r) :
    closeGaps ('>' :: (text ++ rest)) = '>' :: (text ++ closeGaps rest) := by
  rw [closeGaps_cons, closeGaps_append hgt, consTight_eq]
  intro r hr
  obtain rfl : text = [] := dropWhile_visible hlt hvisible hr
  exact hrest r hr

theorem closeGaps_flatten {fs : List (List Char)} (h : ∀ f ∈ fs, PlainFragment f) :
    closeGaps fs.flatten = fs.flatten := by
  induction fs with
  | nil => rfl
  | cons f fs ih =>
    have hrest : ∀ g ∈ fs, PlainFragment g := fun g hg => h g (List.mem_cons_of_mem _ hg)
    obtain ⟨tag, text, rfl, htag, htext, hvisible⟩ := h f List.mem_cons_self
    have hopen : '>' ∉ '<' :: tag := by simpa using htag.2.1
    have hjoin : (('<' :: (tag ++ '>' :: text)) :: fs).flatten =
        '<' :: tag ++ '>' :: (text ++ fs.flatten) := by simp
    rw [hjoin, closeGaps_append hopen, closeGaps_text htext.1 htext.2.1 hvisible, ih hrest]
    intro r hr
    rw [ih hrest] at hr ⊢
    rcases flatten_plain hrest with hnil | ⟨s, hs⟩
    · rw [hnil] at hr
      cases hr
    · rw [hs, List.dropWhile_cons, if_neg (by decide)] at hr
      rw [hs, hr]

/-! ### Cuts -/

/-- The fragments of a text that starts with a tag. -/
def pieces (s : List Char) : List (List Char) :=
  (cutBefore startsFragment s).tail

theorem startsFragment_iff {s : List Char} : startsFragment s = true ↔
    ['<'] <+: s ∨ ['x', 'm', 'l', 'n', 's', ':'] <+: s ∨ ['x', 'm', 'l', 'n', 's', '='] <+: s := by
  simp only [startsFragment, Bool.or_eq_true, List.isPrefixOf_iff_prefix, or_assoc]

/-- No boundary goes across the start of a tag. -/
theorem startsFragment_append {r t : List Char} (hne : r ≠ []) (ht : t = [] ∨ ∃ s, t = '<' :: s) :
    startsFragment (r ++ t) = startsFragment r := by
  have hstart : ∀ part : List Char, '<' ∉ part → (part <+: r ++ t ↔ part <+: r) := by
    intro part hpart
    refine ⟨fun h => ?_, fun h => h.trans (List.prefix_append r t)⟩
    rcases ht with rfl | ⟨s, rfl⟩
    · rwa [List.append_nil] at h
    · exact prefix_of_prefix_append_cons h hpart
  have hopen : ['<'] <+: r ++ t ↔ ['<'] <+: r := by
    obtain ⟨c, r, rfl⟩ := List.exists_cons_of_ne_nil hne
    simp [List.cons_prefix_cons]
  rw [Bool.eq_iff_iff, startsFragment_iff, startsFragment_iff, hopen, hstart _ (by decide),
    hstart _ (by decide)]

/-- A text without brackets and namespace attributes has no boundary. -/
theorem startsFragment_eq_false {r : List Char} (hopen : '<' ∉ r)
    (hns : declaresNamespace r = false) :
    startsFragment r = false := by
  obtain ⟨hcolon, hequals⟩ := declaresNamespace_eq_false_iff.1 hns
  rw [← Bool.not_eq_true, startsFragment_iff]
  rintro (h | h | h)
  · exact hopen (h.subset List.mem_cons_self)
  · exact hcolon h.isInfix
  · exact hequals h.isInfix

theorem declaresNamespace_of_suffix {r s : List Char} (h : r <:+ s)
    (hs : declaresNamespace s = false) :
    declaresNamespace r = false := by
  rw [declaresNamespace_eq_false_iff] at hs ⊢
  exact ⟨fun hr => hs.1 (hr.trans h.isInfix), fun hr => hs.2 (hr.trans h.isInfix)⟩

theorem cutBefore_open (s : List Char) :
    cutBefore startsFragment ('<' :: s) = [] :: consFirst '<' (cutBefore startsFragment s) := by
  rw [cutBefore, if_pos (by simp [startsFragment])]

theorem flatten_pieces (s : List Char) : (pieces ('<' :: s)).flatten = '<' :: s := by
  rw [pieces, cutBefore_open, List.tail_cons, flatten_consFirst, flatten_cutBefore]

/-- No boundary goes across a character that none of them holds. -/
theorem startsFragment_of_append_cons {r t : List Char} {c : Char} (hopen : c ≠ '<')
    (hc : c ∉ namespaceChars) (h : startsFragment (r ++ c :: t) = true) :
    startsFragment r = true := by
  obtain ⟨hcolon, hequals⟩ := notMem_of_namespaceChars hc
  rw [startsFragment_iff] at h ⊢
  rcases h with h | h | h
  · exact Or.inl (prefix_of_prefix_append_cons h (by simpa using hopen))
  · exact Or.inr (Or.inl (prefix_of_prefix_append_cons h hcolon))
  · exact Or.inr (Or.inr (prefix_of_prefix_append_cons h hequals))

theorem startsFragment_append_cons {c : Char} (hopen : c ≠ '<') (hc : c ∉ namespaceChars)
    (r t : List Char) :
    startsFragment (r ++ c :: t) = startsFragment r := by
  rw [Bool.eq_iff_iff]
  refine ⟨startsFragment_of_append_cons hopen hc, fun h => ?_⟩
  have hleft := List.prefix_append r (c :: t)
  rw [startsFragment_iff] at h ⊢
  exact h.imp (·.trans hleft) (·.imp (·.trans hleft) (·.trans hleft))

/-- A text without markup and one more character go to the first piece of what follows them. -/
theorem cutBefore_unmarked {s t p : List Char} {c : Char} {ps : List (List Char)} (hopen : '<' ∉ s)
    (hns : declaresNamespace s = false) (hlt : c ≠ '<') (hc : c ∉ namespaceChars)
    (ht : cutBefore startsFragment t = p :: ps) :
    cutBefore startsFragment (s ++ c :: t) = (s ++ c :: p) :: ps := by
  have hcut : cutBefore startsFragment (c :: t) = (c :: p) :: ps := by
    refine cutBefore_append (s := [c]) (fun r hne hr => ?_) ht
    obtain rfl : r = [c] :=
      (List.suffix_cons_iff.1 hr).resolve_right fun h => hne (List.suffix_nil.1 h)
    exact Bool.eq_false_iff.2 fun h =>
      absurd (startsFragment_of_append_cons (r := []) hlt hc h) (by decide)
  refine cutBefore_append (fun r _ hr => Bool.eq_false_iff.2 fun h => ?_) hcut
  have hplain :=
    startsFragment_eq_false (fun hmem => hopen (hr.subset hmem))
      (declaresNamespace_of_suffix hr hns)
  rw [startsFragment_of_append_cons hlt hc h] at hplain
  cases hplain

/-- A namespace attribute starts a fragment. -/
theorem exists_startsFragment {s : List Char} (h : declaresNamespace s = true) :
    ∃ r, r ≠ [] ∧ r <:+ s ∧ ∀ t, startsFragment (r ++ t) = true := by
  have hstart : ∀ part : List Char, part ≠ [] → (∀ t, startsFragment (part ++ t) = true) →
      part <:+: s → ∃ r, r ≠ [] ∧ r <:+ s ∧ ∀ t, startsFragment (r ++ t) = true := by
    rintro part hne hpart ⟨u, v, rfl⟩
    refine ⟨part ++ v, by simp [hne], ⟨u, by simp⟩, fun t => ?_⟩
    rw [List.append_assoc]
    exact hpart (v ++ t)
  rw [declaresNamespace, Bool.or_eq_true, occurs_iff, occurs_iff] at h
  rcases h with h | h
  · exact hstart _ (by simp) (fun t =>
      startsFragment_iff.2 (Or.inr (Or.inl (List.prefix_append _ t)))) h
  · exact hstart _ (by simp) (fun t =>
      startsFragment_iff.2 (Or.inr (Or.inr (List.prefix_append _ t)))) h

/-- Texts that start with a tag are cut apart from each other. -/
theorem cutBefore_flatten {fs : List (List Char)} (h : ∀ f ∈ fs, ∃ s, f = '<' :: s) :
    cutBefore startsFragment fs.flatten = [] :: fs.flatMap pieces := by
  induction fs with
  | nil => rfl
  | cons f fs ih =>
    have hrest := ih fun g hg => h g (List.mem_cons_of_mem _ hg)
    obtain ⟨s, hs⟩ := h f List.mem_cons_self
    have hfollow : fs.flatten = [] ∨ ∃ u, fs.flatten = '<' :: u := by
      cases fs with
      | nil => exact Or.inl rfl
      | cons g gs =>
        obtain ⟨u, rfl⟩ := h g (by simp)
        exact Or.inr ⟨_, rfl⟩
    have hboundary : fs.flatten = [] ∨ startsFragment fs.flatten = true := by
      refine hfollow.imp_right ?_
      rintro ⟨u, hu⟩
      rw [hu]
      exact startsFragment_iff.2 (Or.inl (List.prefix_append ['<'] u))
    have hfirst : cutBefore startsFragment f = [] :: pieces f := by
      rw [pieces, hs, cutBefore_open, List.tail_cons]
    rw [List.flatten_cons, cutBefore_append_boundary
      (fun r hr _ => startsFragment_append hr hfollow) hboundary, hrest, hfirst, List.tail_cons,
      List.flatMap_cons, List.cons_append]

theorem pieces_of_plain {f : List Char} (h : PlainFragment f) : pieces f = [f] := by
  obtain ⟨tag, text, rfl, htag, htext, -⟩ := h
  have hopen : '<' ∉ tag ++ '>' :: text := by
    simpa using ⟨htag.1, htext.1⟩
  have hns : declaresNamespace (tag ++ '>' :: text) = false :=
    (declaresNamespace_append_cons (by decide)).2 ⟨htag.2.2, htext.2.2⟩
  have hbody : cutBefore startsFragment (tag ++ '>' :: text ++ []) =
      [tag ++ '>' :: text ++ []] := by
    refine cutBefore_append (fun r _ hr => ?_) rfl
    rw [List.append_nil]
    exact startsFragment_eq_false (fun hmem => hopen (hr.subset hmem))
      (declaresNamespace_of_suffix hr hns)
  rw [List.append_nil] at hbody
  rw [pieces, cutBefore_open, hbody]
  rfl

/-- A document of plain fragments falls into these fragments. -/
theorem split_flatten {fs : List (List Char)} (h : ∀ f ∈ fs, PlainFragment f) :
    split fs.flatten = [] :: fs := by
  have hopen : ∀ f ∈ fs, ∃ s, f = '<' :: s := by
    intro f hf
    obtain ⟨tag, text, rfl, -⟩ := h f hf
    exact ⟨_, rfl⟩
  have hpieces : fs.flatMap pieces = fs := by
    rw [List.flatMap_congr fun f hf => pieces_of_plain (h f hf), List.flatMap_singleton']
  rw [split, closeGaps_flatten h, cutBefore_flatten hopen, hpieces]

end Reindent.Xml
