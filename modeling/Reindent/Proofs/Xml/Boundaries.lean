import Mathlib
import Reindent.Proofs.Xml.Gaps
import Reindent.Proofs.Xml.Tags

/-!
# Boundaries of fragments

A text is cut in front of every occurrence of certain parts, by looking at what follows each
position. If no part can begin inside another one, the cuts go through none of them: every piece
but the first starts with a whole part, no piece holds one behind its first character, and there is
no other way to take the text apart like that. The boundaries of XML fragments are such parts, so a
fragment has at most one of them, and none holds a start tag and an end tag.
-/

namespace Reindent

namespace Text

/-! ## Cuts in front of parts -/

/-- Pieces that are cut in front of every occurrence of some parts and nowhere else: the first one
holds no part, and every other one starts with a part and holds none behind its first character. -/
def CutAt (parts : List (List Char)) : List (List Char) → Prop
  | [] => False
  | first :: rest => (∀ b ∈ parts, ¬ b <:+: first) ∧
      ∀ f ∈ rest, (∃ b ∈ parts, b <+: f) ∧ ∀ b ∈ parts, ¬ b <:+: f.tail

/-- Parts of which none is empty and none can begin inside another one or inside itself. -/
structure Apart (parts : List (List Char)) : Prop where
  nil_notMem : [] ∉ parts
  head_notMem_tail : ∀ {c : Char} {a b : List Char}, c :: a ∈ parts → b ∈ parts → c ∉ b.tail

section

variable {parts : List (List Char)} {starts : List Char → Bool} {b r : List Char}
  {fs : List (List Char)}

theorem Apart.exists_cons (h : Apart parts) (hb : b ∈ parts) : ∃ c s, b = c :: s :=
  List.exists_cons_of_ne_nil fun hnil => h.nil_notMem (hnil ▸ hb)

/-- A part that begins in a text ends in it if pieces follow that start with a part. -/
theorem Apart.prefix_of_prefix_append (h : Apart parts) (hb : b ∈ parts) (hr : r ≠ [])
    (hfs : ∀ f ∈ fs, ∃ a ∈ parts, a <+: f) (hbegins : b <+: r ++ fs.flatten) : b <+: r := by
  cases fs with
  | nil => simpa using hbegins
  | cons f fs =>
    obtain ⟨a, ha, t, rfl⟩ := hfs f List.mem_cons_self
    obtain ⟨x, a, rfl⟩ := h.exists_cons ha
    obtain ⟨y, b, rfl⟩ := h.exists_cons hb
    obtain ⟨z, r, rfl⟩ := List.exists_cons_of_ne_nil hr
    rw [List.cons_append, List.cons_prefix_cons] at hbegins
    have hrest : b <+: r ++ x :: (a ++ t ++ fs.flatten) := by simpa using hbegins.2
    exact List.cons_prefix_cons.2 ⟨hbegins.1,
      prefix_of_prefix_append_cons hrest (h.head_notMem_tail ha hb)⟩

theorem Apart.not_infix_nil (h : Apart parts) : ∀ b ∈ parts, ¬ b <:+: [] := by
  intro b hb hheld
  exact h.nil_notMem (List.infix_nil.1 hheld ▸ hb)

variable (hstarts : ∀ s, starts s = true ↔ ∃ b ∈ parts, b <+: s)
include hstarts

/-- The pieces of a text are cut at the parts. -/
theorem Apart.cutAt_cutBefore (h : Apart parts) (s : List Char) :
    CutAt parts (cutBefore starts s) := by
  induction s with
  | nil => exact ⟨h.not_infix_nil, List.forall_mem_nil _⟩
  | cons c s ih =>
    obtain ⟨p, ps, hcut⟩ := List.exists_cons_of_ne_nil (cutBefore_ne_nil starts s)
    have hflat := flatten_cutBefore starts s
    rw [hcut, List.flatten_cons] at hflat
    rw [hcut] at ih
    obtain ⟨hfirst, hlater⟩ := ih
    rw [cutBefore, hcut]
    by_cases hc : starts (c :: s) = true
    · rw [if_pos hc]
      refine ⟨h.not_infix_nil, List.forall_mem_cons.2 ⟨⟨?_, hfirst⟩, hlater⟩⟩
      obtain ⟨b, hb, hbegins⟩ := (hstarts _).1 hc
      rw [← hflat, ← List.cons_append] at hbegins
      exact ⟨b, hb, h.prefix_of_prefix_append hb (List.cons_ne_nil c p)
        (fun f hf => (hlater f hf).1) hbegins⟩
    · rw [if_neg hc]
      refine ⟨fun b hb hheld => ?_, hlater⟩
      rcases List.infix_cons_iff.1 hheld with hbegins | hinner
      · refine hc ((hstarts _).2 ⟨b, hb, hbegins.trans ?_⟩)
        exact List.cons_prefix_cons.2 ⟨rfl, prefix_of_cutBefore hcut⟩
      · exact hfirst b hb hinner

/-- A text that holds no part stays whole in front of pieces that start with a part. -/
theorem Apart.cutBefore_append_flatten (h : Apart parts) (hr : ∀ b ∈ parts, ¬ b <:+: r)
    (hfs : ∀ f ∈ fs, ∃ a ∈ parts, a <+: f) (hcut : cutBefore starts fs.flatten = [] :: fs) :
    cutBefore starts (r ++ fs.flatten) = r :: fs := by
  have hplain : ∀ u, u ≠ [] → u <:+ r → starts (u ++ fs.flatten) = false := by
    intro u hne hu
    rw [← Bool.not_eq_true, hstarts]
    rintro ⟨b, hb, hbegins⟩
    exact hr b hb ((h.prefix_of_prefix_append hb hne hfs hbegins).isInfix.trans hu.isInfix)
  rw [cutBefore_append hplain hcut, List.append_nil]

/-- Pieces that are cut at the parts are the pieces of the text that they make up. -/
theorem Apart.cutBefore_flatten_of_cutAt (h : Apart parts) (hfs : CutAt parts fs) :
    cutBefore starts fs.flatten = fs := by
  cases fs with
  | nil => exact hfs.elim
  | cons first rest =>
    obtain ⟨hfirst, hlater⟩ := hfs
    refine h.cutBefore_append_flatten hstarts hfirst (fun f hf => (hlater f hf).1) ?_
    clear hfirst
    induction rest with
    | nil => rfl
    | cons f rest ih =>
      obtain ⟨⟨⟨b, hb, t, hf⟩, htail⟩, hrest⟩ := List.forall_mem_cons.1 hlater
      obtain ⟨c, b, rfl⟩ := h.exists_cons hb
      subst hf
      have hstart : starts (c :: (b ++ t ++ rest.flatten)) = true :=
        (hstarts _).2 ⟨c :: b, hb, t ++ rest.flatten, by simp⟩
      have hcut := h.cutBefore_append_flatten hstarts htail (fun f hf => (hrest f hf).1) (ih hrest)
      rw [List.cons_append, List.tail_cons] at hcut
      rw [List.flatten_cons, List.cons_append, List.cons_append, cutBefore, if_pos hstart, hcut]
      rfl

end

end Text

namespace Xml

open Text

/-! ## Fragments -/

/-- What a fragment starts with: a tag or a namespace attribute. -/
def boundaries : List (List Char) :=
  [['<'], ['x', 'm', 'l', 'n', 's', ':'], ['x', 'm', 'l', 'n', 's', '=']]

theorem startsFragment_iff_boundary (s : List Char) : startsFragment s = true ↔
    ∃ b ∈ boundaries, b <+: s := by
  rw [startsFragment_iff]
  simp [boundaries]

/-- The first characters of the boundaries are `<` and `x`, which stand at no other place in
them. -/
theorem apart_boundaries : Apart boundaries where
  nil_notMem := by decide
  head_notMem_tail {c a b} ha hb := by
    have hc : c = '<' ∨ c = 'x' := by
      simp only [boundaries, List.mem_cons, List.cons.injEq, List.not_mem_nil, or_false] at ha
      tauto
    simp only [boundaries, List.mem_cons, List.not_mem_nil, or_false] at hb
    rcases hc with rfl | rfl <;> rcases hb with rfl | rfl | rfl <;> decide

/-- A fragment with no `<` behind its first character does not hold both a start tag and an end
tag. -/
theorem classify_ne_inlineElement {f : List Char} (h : '<' ∉ f.tail)
    (previous : Option (List Char)) :
    classify previous f ≠ .inlineElement := by
  have htags : (hasStartTag f && occurs ['<', '/'] f) = false := by
    cases f with
    | nil => rfl
    | cons c s =>
      rw [List.tail_cons] at h
      by_cases hc : c = '<'
      · rw [hc, hasStartTag_open h, occurs_open h]
        cases s with
        | nil => rfl
        | cons d s =>
          by_cases hd : d = '/'
          · rw [hd, startsWord, isWord_eq_false_of_punctuation (by decide), Bool.false_and]
          · simp [hd]
      · have hlt : '<' ∉ c :: s := List.not_mem_cons_of_ne_of_not_mem (Ne.symm hc) h
        rw [hasStartTag_eq_false hlt, Bool.false_and]
  simp only [classify, htags, Bool.false_eq_true, if_false]
  split_ifs <;> decide

theorem lt_notMem_tail_of_cutAt
    {fs : List (List Char)} (h : CutAt boundaries fs) {f : List Char} (hf : f ∈ fs) :
    '<' ∉ f.tail := by
  have hlt : ['<'] ∈ boundaries := List.mem_cons_self
  cases fs with
  | nil => exact h.elim
  | cons first rest =>
    rcases List.mem_cons.1 hf with rfl | hf
    · exact fun hmem => h.1 _ hlt ((List.singleton_infix_iff _ _).2 (List.mem_of_mem_tail hmem))
    · exact fun hmem => (h.2 f hf).2 _ hlt ((List.singleton_infix_iff _ _).2 hmem)

/-- The fragments of a text, put together, are the text with its gaps between tags closed. The
first one holds no boundary, every other one starts with a boundary and holds none behind its first
character, and no other fragments are like that. None of them holds a start tag and an end tag,
whatever stands before it. -/
theorem split_cutAt_boundaries (text : List Char) :
    (split text).flatten = betweenTags.apply text ∧ CutAt boundaries (split text) ∧
      (∀ fs, fs.flatten = betweenTags.apply text → CutAt boundaries fs → fs = split text) ∧
      ∀ f ∈ split text, ∀ previous, classify previous f ≠ .inlineElement := by
  have hcut : CutAt boundaries (split text) :=
    apart_boundaries.cutAt_cutBefore startsFragment_iff_boundary _
  refine ⟨?_, hcut, fun fs hflat hfs => ?_, fun f hf previous => ?_⟩
  · rw [split, flatten_cutBefore, closeGaps_eq_apply]
  · rw [split, closeGaps_eq_apply, ← hflat]
    exact (apart_boundaries.cutBefore_flatten_of_cutAt startsFragment_iff_boundary hfs).symm
  · exact classify_ne_inlineElement (lt_notMem_tail_of_cutAt hcut hf) previous

/-- A text in which a namespace attribute stands right behind a `<`. Its fragments are the only
ones of their kind, and the bare `<` is no element. -/
theorem split_cutAt_adjacent :
    let text := ['p', '<', 'a', '>', ' ', '\n', '<', 'x', 'm', 'l', 'n', 's', ':', 'b', '/', '>']
    let fs := [['p'], ['<', 'a', '>'], ['<'], ['x', 'm', 'l', 'n', 's', ':', 'b', '/', '>']]
    fs.flatten = betweenTags.apply text ∧ CutAt boundaries fs ∧ fs = split text ∧
    ['<'] ∈ split text ∧ classify (some ['<', 'a', '>']) ['<'] ≠ .inlineElement := by
  intro text fs
  obtain ⟨-, -, hunique, hkinds⟩ := split_cutAt_boundaries text
  have hflat : fs.flatten = betweenTags.apply text := by decide
  have hcut : CutAt boundaries fs := by
    unfold CutAt
    decide
  have hsplit : fs = split text := hunique fs hflat hcut
  have hmem : ['<'] ∈ split text := hsplit ▸ by decide
  exact ⟨hflat, hcut, hsplit, hmem, hkinds _ hmem _⟩

end Xml

end Reindent
