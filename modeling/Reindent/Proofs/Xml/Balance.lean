import Mathlib
import Reindent.Proofs.Xml.Elements
import Reindent.Proofs.Xml.Layout

/-!
# Balance

A walk over a document comes back to the depth at which an element started, for every element of
the document, unless an empty tag declares a namespace. Such a tag is cut in front of the
declaration: its first fragment does not hold its end and counts as a start tag, and nothing takes
the depth back. All other tags count as what they are, wherever they are cut.
-/

namespace Reindent.Xml

open Text

/-! ## Fragments of a segment -/

/-- What a tag adds to the depth. -/
def Tag.shift : Tag → Int
  | .start _ _ => 1
  | .empty _ attrs => if declaresNamespace (attributesText attrs) then 1 else 0
  | .stop _ => -1

theorem endsComment_of_infix {s t : List Char} (h : s <:+: t) (ht : endsComment t = false) :
    endsComment s = false := by
  rw [endsComment, Bool.or_eq_false_iff, occurs_eq_false_iff, occurs_eq_false_iff] at ht ⊢
  exact ⟨fun hs => ht.1 (hs.trans h), fun hs => ht.2 (hs.trans h)⟩

theorem Tag.not_suffix_inner (tag : Tag) {x : Char} (hword : isWord x = false)
    (hx : x ∉ ['/', ':', '.', '"', '\x27']) : ¬ [x] <:+ '<' :: tag.inner := by
  rw [List.mem_cons, not_or] at hx
  cases tag with
  | start name attrs => exact name.not_suffix_tag (attributesText_shape attrs) hword hx.2
  | empty name attrs =>
    rw [Tag.inner, ← List.cons_append, suffix_concat_iff]
    exact hx.1
  | stop name =>
    have hname := hx.2
    simp only [List.mem_cons, not_or] at hname
    exact name.not_suffix_text hword ⟨hname.1, hname.2.1⟩ ['<', '/']

section

variable (s : Segment)

theorem Segment.endsComment_write : endsComment s.write = false := by
  rw [s.write_eq]
  exact endsComment_eq_false s.tag.inner_noBracket.2 s.data.noBracket.2
    (s.tag.not_suffix_inner (isWord_eq_false_of_punctuation (by decide)) (by decide))
    (s.tag.not_suffix_inner (isWord_eq_false_of_punctuation (by decide)) (by decide))

/-- The first fragment of a segment starts its tag, and the others start none. -/
theorem Segment.exists_pieces : ∃ first later, pieces s.write = ('<' :: first) :: later ∧
    cutBefore startsFragment (s.tag.inner ++ '>' :: s.data.text) = first :: later ∧
    '<' ∉ first ∧ (∀ g ∈ later, '<' ∉ g) ∧ ∀ g ∈ ('<' :: first) :: later,
    endsComment g = false := by
  obtain ⟨first, later, hcut⟩ := List.exists_cons_of_ne_nil
    (cutBefore_ne_nil startsFragment (s.tag.inner ++ '>' :: s.data.text))
  have hpieces : pieces s.write = ('<' :: first) :: later := by
    rw [s.write_eq, pieces, cutBefore_open, hcut]
    rfl
  have hlt : ∀ g ∈ first :: later, '<' ∉ g := by
    intro g hg hmem
    have hflat := flatten_cutBefore startsFragment (s.tag.inner ++ '>' :: s.data.text)
    rw [hcut] at hflat
    exact s.lt_notMem_tail (hflat ▸ List.mem_flatten_of_mem hg hmem)
  have hend : ∀ g ∈ pieces s.write, endsComment g = false := by
    intro g hg
    have hpart := List.infix_of_mem_flatten hg
    rw [s.write_eq, flatten_pieces, ← s.write_eq] at hpart
    exact endsComment_of_infix hpart s.endsComment_write
  exact ⟨first, later, hpieces, hcut, hlt first List.mem_cons_self,
    fun g hg => hlt g (List.mem_cons_of_mem _ hg), hpieces ▸ hend⟩

end

/-! ## The first fragment of a tag -/

section

variable (name : Name) (attrs : List Attribute)

/-- No name is cut. -/
theorem Name.exists_cut {c : Char} (hc : c = '/' ∨ c = '>') (rest : List Char) : ∃ p ps,
    cutBefore startsFragment (name.text ++ (attributesText attrs ++ c :: rest)) =
      (name.text ++ p) :: ps := by
  have hcut : ∀ d t, d = ' ' ∨ d = '/' ∨ d = '>' →
      ∃ p ps, cutBefore startsFragment (name.text ++ d :: t) = (name.text ++ p) :: ps := by
    intro d t hd
    obtain ⟨p, ps, ht⟩ := List.exists_cons_of_ne_nil (cutBefore_ne_nil startsFragment t)
    refine ⟨d :: p, ps, cutBefore_unmarked name.noMarkup_text.1 name.noNamespace ?_ ?_ ht⟩
    · rcases hd with rfl | rfl | rfl <;> decide
    · rcases hd with rfl | rfl | rfl <;> decide
  rcases attributesText_shape attrs with hnil | ⟨inner, quote, htext, -⟩
  · rw [hnil]
    exact hcut c rest (Or.inr hc)
  · rw [htext]
    exact hcut ' ' _ (Or.inl rfl)

/-- An empty tag that declares no namespace is not cut. -/
theorem exists_cut_whole (hns : declaresNamespace (attributesText attrs) = false)
    (rest : List Char) : ∃ p ps,
    cutBefore startsFragment ((Tag.empty name attrs).inner ++ '>' :: rest) =
      ((Tag.empty name attrs).inner ++ '>' :: p) :: ps := by
  obtain ⟨hlt, hgt⟩ := attributesText_noBracket attrs
  have htag :=
    noMarkup_tagText name ⟨attributesText attrs, attributesText_shape attrs, hlt, hgt, hns⟩
  have hinner : NoMarkup (Tag.empty name attrs).inner :=
    htag.append_cons noMarkup_nil (by decide) (by decide)
  obtain ⟨p, ps, hrest⟩ := List.exists_cons_of_ne_nil (cutBefore_ne_nil startsFragment rest)
  exact ⟨p, ps, cutBefore_unmarked hinner.1 hinner.2.2 (by decide) (by decide) hrest⟩

/-- The first fragment of an empty tag that declares a namespace does not hold the end of the
tag. -/
theorem exists_cut_declaration
    (hns : declaresNamespace (attributesText attrs) = true) (rest : List Char) :
    ∃ p ps, cutBefore startsFragment (name.text ++ (attributesText attrs ++ rest)) = p :: ps ∧
    '>' ∉ p := by
  rcases attributesText_shape attrs with hnil | ⟨inner, quote, htext, -⟩
  · rw [hnil] at hns
    cases hns
  · have hinner : declaresNamespace (inner ++ [quote]) = true := by
      by_contra hno
      have hnone : declaresNamespace (' ' :: (inner ++ [quote])) = false :=
        (declaresNamespace_append_cons (s := []) (by decide)).2 ⟨rfl, Bool.eq_false_iff.2 hno⟩
      rw [htext, hnone] at hns
      cases hns
    obtain ⟨r, hne, hr, hstarts⟩ := exists_startsFragment hinner
    obtain ⟨p, ps, hcut, hprefix⟩ := cutBefore_eq_cons_of_boundary hne hr (hstarts rest)
    have hgt := (attributesText_noBracket attrs).2
    rw [htext] at hgt ⊢
    refine ⟨name.text ++ ' ' :: p, ps, ?_, ?_⟩
    · exact cutBefore_unmarked name.noMarkup_text.1 name.noNamespace (by decide) (by decide) hcut
    · rw [List.mem_append, not_or]
      exact ⟨name.noMarkup_text.2.1,
        fun hmem => hgt ((List.cons_prefix_cons.2 ⟨rfl, hprefix⟩).subset hmem)⟩

section

variable (previous : Option (List Char)) (data : CharData) {first : List Char}
  {later : List (List Char)}

theorem classify_start
    (hcut : cutBefore startsFragment ((Tag.start name attrs).inner ++ '>' :: data.text) =
      first :: later)
    (hlt : '<' ∉ first) (hend : endsComment ('<' :: first) = false) :
    classify previous ('<' :: first) = .openTag := by
  have hprefix := prefix_of_cutBefore hcut
  obtain ⟨p, ps, hname⟩ := name.exists_cut attrs (Or.inr rfl) data.text
  rw [Tag.inner, List.append_assoc, hname] at hcut
  obtain ⟨rfl, -⟩ := List.cons_eq_cons.1 hcut
  have hopen : ¬ occurs ['/', '>'] ('<' :: (name.text ++ p)) = true := by
    intro h
    have hclose :=
      occurs_iff.2 ((occurs_iff.1 h).trans (List.cons_prefix_cons.2 ⟨rfl, hprefix⟩).isInfix)
    exact name.not_suffix_tag (attributesText_shape attrs)
      (isWord_eq_false_of_punctuation (by decide)) (by decide)
      ((occurs_close (Tag.start name attrs).inner_noBracket.2 data.noBracket.2 ['/']).1 hclose)
  rw [classify_open previous (name.startsWord_text p) hlt hend, if_neg hopen]

/-- An empty tag counts as a start tag if it is cut. -/
theorem classify_empty
    (hcut : cutBefore startsFragment ((Tag.empty name attrs).inner ++ '>' :: data.text) =
      first :: later)
    (hlt : '<' ∉ first) (hend : endsComment ('<' :: first) = false) :
    classify previous ('<' :: first) =
      if declaresNamespace (attributesText attrs) then .openTag else .selfClosingTag := by
  have hinner : (Tag.empty name attrs).inner ++ '>' :: data.text =
      name.text ++ (attributesText attrs ++ '/' :: '>' :: data.text) := by
    simp [Tag.inner]
  have hword : startsWord first = true := by
    obtain ⟨p, ps, hname⟩ := name.exists_cut attrs (Or.inl rfl) ('>' :: data.text)
    rw [hinner, hname] at hcut
    exact (List.cons_eq_cons.1 hcut).1 ▸ name.startsWord_text p
  rw [classify_open previous hword hlt hend]
  by_cases hns : declaresNamespace (attributesText attrs) = true
  · obtain ⟨p, ps, hdeclaration, hgt⟩ :=
      exists_cut_declaration name attrs hns ('/' :: '>' :: data.text)
    rw [hinner, hdeclaration] at hcut
    obtain ⟨rfl, -⟩ := List.cons_eq_cons.1 hcut
    have hopen : ¬ occurs ['/', '>'] ('<' :: p) = true := by
      intro h
      have hmem := (occurs_iff.1 h).subset (List.mem_cons_of_mem _ List.mem_cons_self)
      exact hgt (by simpa using hmem)
    rw [if_neg hopen, if_pos hns]
  · obtain ⟨p, ps, hwhole⟩ := exists_cut_whole name attrs (Bool.eq_false_iff.2 hns) data.text
    rw [hwhole] at hcut
    obtain ⟨rfl, -⟩ := List.cons_eq_cons.1 hcut
    have hclose : occurs ['/', '>'] ('<' :: ((Tag.empty name attrs).inner ++ '>' :: p)) = true :=
      occurs_iff.2 ⟨'<' :: (name.text ++ attributesText attrs), p, by simp [Tag.inner]⟩
    rw [if_pos hclose, if_neg hns]

theorem classify_stop
    (hcut : cutBefore startsFragment ((Tag.stop name).inner ++ '>' :: data.text) = first :: later)
    (hlt : '<' ∉ first) (hend : endsComment ('<' :: first) = false) :
    classify previous ('<' :: first) = .pairedTag ∨
    classify previous ('<' :: first) = .closeTag := by
  obtain ⟨p, ps, hrest⟩ := List.exists_cons_of_ne_nil
    (cutBefore_ne_nil startsFragment (name.text ++ '>' :: data.text))
  have hslash : cutBefore startsFragment ('/' :: (name.text ++ '>' :: data.text)) =
      ('/' :: p) :: ps :=
    cutBefore_unmarked (s := []) (by simp) rfl (by decide) (by decide) hrest
  rw [Tag.inner, List.cons_append, hslash] at hcut
  obtain ⟨rfl, -⟩ := List.cons_eq_cons.1 hcut
  rw [classify_close previous (fun h => hlt (List.mem_cons_of_mem _ h)) hend]
  split
  · exact Or.inl rfl
  · exact Or.inr rfl

end

end

/-! ## Walks over segments -/

section

variable (depth : Int) (previous : Option (List Char))

/-- The first fragment of a segment moves the depth as its tag says. -/
theorem Segment.next_first (s : Segment) {first : List Char} {later : List (List Char)}
    (hcut : cutBefore startsFragment (s.tag.inner ++ '>' :: s.data.text) = first :: later)
    (hlt : '<' ∉ first)
    (hend : endsComment ('<' :: first) = false) :
    (move ⟨depth, false, previous⟩ ('<' :: first)).next =
      ⟨depth + s.tag.shift, false, some ('<' :: first)⟩ := by
  obtain ⟨tag, data⟩ := s
  cases tag with
  | start name attrs =>
    exact (move_openTag .default depth (classify_start name attrs previous data hcut hlt hend)).2
  | empty name attrs =>
    have hkind := classify_empty name attrs previous data hcut hlt hend
    rw [Tag.shift]
    by_cases hns : declaresNamespace (attributesText attrs) = true
    · rw [if_pos hns] at hkind ⊢
      exact (move_openTag .default depth hkind).2
    · rw [if_neg hns] at hkind ⊢
      rw [Int.add_zero]
      exact (move_single .default depth (Or.inl hkind)).2
  | stop name =>
    rcases classify_stop name previous data hcut hlt hend with hkind | hkind
    · exact (move_pairedTag .default depth hkind).2
    · exact (move_closeTag .default depth hkind).2

/-- A fragment that starts no tag leaves the depth. -/
theorem next_inner {g : List Char} (hlt : '<' ∉ g) (hend : endsComment g = false) :
    (move ⟨depth, false, previous⟩ g).next = ⟨depth, false, some g⟩ := by
  have hnext : (move ⟨depth, false, previous⟩ g).next = ⟨depth + 0 + 0, false, some g⟩ := by
    rcases classify_inner previous hlt hend with h | h | h
    · exact (move_plain .default depth h).2
    · exact (move_plain .default depth h).2
    · exact (move_plain .default depth h).2
  rwa [Int.add_zero, Int.add_zero] at hnext

theorem stateAfter_inner {gs : List (List Char)} (h : ∀ g ∈ gs, '<' ∉ g ∧ endsComment g = false) :
    ∃ last, stateAfter move ⟨depth, false, previous⟩ gs = ⟨depth, false, last⟩ := by
  induction gs generalizing previous with
  | nil => exact ⟨previous, rfl⟩
  | cons g gs ih =>
    obtain ⟨hlt, hend⟩ := h g List.mem_cons_self
    rw [stateAfter_cons, next_inner depth previous hlt hend]
    exact ih (some g) fun g' hg => h g' (List.mem_cons_of_mem _ hg)

/-- From its first fragment on, a segment keeps the depth. -/
theorem Segment.stateAfter_own (s : Segment) {own : List (List Char)} (hne : own ≠ [])
    (hown : own <+: s.fragments) :
    ∃ last, stateAfter move ⟨depth, false, previous⟩ own = ⟨depth + s.tag.shift, false, last⟩ := by
  obtain ⟨first, later, hpieces, hcut, hlt, hlater, hend⟩ := s.tight.exists_pieces
  rw [Segment.fragments, hpieces] at hown
  obtain ⟨g, gs, rfl⟩ := List.exists_cons_of_ne_nil hne
  obtain ⟨rfl, hgs⟩ := List.cons_prefix_cons.1 hown
  rw [stateAfter_cons, s.tight.next_first depth previous hcut hlt (hend _ List.mem_cons_self),
    s.tag_tight]
  exact stateAfter_inner _ _ fun g hg =>
    ⟨hlater g (hgs.subset hg), hend g (List.mem_cons_of_mem _ (hgs.subset hg))⟩

theorem Segment.fragments_ne_nil (s : Segment) : s.fragments ≠ [] := by
  obtain ⟨first, later, hpieces, -⟩ := s.tight.exists_pieces
  rw [Segment.fragments, hpieces]
  exact List.cons_ne_nil _ _

end

/-- What a segment adds to the depth. -/
def Segment.shift (s : Segment) : Int :=
  s.tag.shift

theorem stateAfter_segments (segs : List Segment) (depth : Int)
    (previous : Option (List Char)) : ∃ last,
    stateAfter move ⟨depth, false, previous⟩ (segs.flatMap Segment.fragments) =
      ⟨depth + (segs.map Segment.shift).sum, false, last⟩ := by
  induction segs generalizing depth previous with
  | nil => exact ⟨previous, by simp⟩
  | cons s segs ih =>
    obtain ⟨last, hfirst⟩ := s.stateAfter_own depth previous s.fragments_ne_nil List.prefix_rfl
    rw [List.flatMap_cons, stateAfter_append, hfirst, List.map_cons, List.sum_cons,
      ← Int.add_assoc]
    exact ih _ last

/-- Whether an element is an empty tag that declares a namespace. -/
def Element.isCut : Element → Bool
  | .empty _ attrs => declaresNamespace (attributesText attrs)
  | .full _ _ _ => false

mutual

/-- If no empty tag declares a namespace, an element adds nothing to the depth. -/
theorem Element.sum_shift_segments :
    ∀ (e : Element) (after : CharData), (∀ part ∈ e.parts, part.2.isCut = false) →
    ((e.segments after).map Segment.shift).sum = 0
  | .empty name attrs, after, h => by
    have hns : declaresNamespace (attributesText attrs) = false :=
      h ([], .empty name attrs) (by simp [Element.parts])
    simp [Element.segments, Element.front, Element.lastTag, Segment.shift, Tag.shift, hns]
  | .full name attrs body, after, h => by
    have hbody : ∀ part ∈ body.parts, part.2.isCut = false := fun part hpart =>
      h ((Tag.start name attrs).write ++ part.1, part.2)
        (List.mem_cons_of_mem _ (List.mem_map.2 ⟨part, hpart, rfl⟩))
    simp [Element.segments, Element.front, Element.lastTag, Segment.shift, Tag.shift,
      body.sum_shift_segments hbody]

theorem Body.sum_shift_segments : ∀ body :
    Body, (∀ part ∈ body.parts, part.2.isCut = false) → (body.segments.map Segment.shift).sum = 0
  | .nil, _ => rfl
  | .text data rest, h => rest.sum_shift_segments fun part hpart =>
    h (data.text ++ part.1, part.2) (List.mem_map.2 ⟨part, hpart, rfl⟩)
  | .element e rest, h => by
    have helement : ∀ part ∈ e.parts, part.2.isCut = false :=
      fun part hpart => h part (List.mem_append_left _ hpart)
    have hrest : ∀ part ∈ rest.parts, part.2.isCut = false := fun part hpart =>
      h (e.write ++ part.1, part.2) (List.mem_append_right _ (List.mem_map.2 ⟨part, hpart, rfl⟩))
    rw [Body.segments_element, List.map_append, List.sum_append,
      e.sum_shift_segments rest.lead helement, rest.sum_shift_segments hrest, Int.add_zero]

end

/-! ## The fragments of an element -/

/-- `own` are the fragments of an element `text` with `ahead` in front of it, and `before` the
fragments in front of them: `own` goes from the fragment that starts with the first bracket of the
element to the one that holds its last. -/
structure Covers (ahead text : List Char) (before own : List (List Char)) : Prop where
  head : ∃ f, own.head? = some ('<' :: f)
  last : ∃ f, own.getLast? = some f ∧ '>' ∈ f
  count_before : before.flatten.count '<' = ahead.count '<'
  count_own : (before ++ own).flatten.count '>' = (ahead ++ text).count '>'

theorem count_flatten_lt (fs : List (List Char)) {gs : List (List Char)} {c : Char} {f : List Char}
    (hf : f ∈ gs) (hc : c ∈ f) : fs.flatten.count c < (fs ++ gs).flatten.count c := by
  have hpos : 0 < gs.flatten.count c := List.count_pos_iff.2 (List.mem_flatten_of_mem hf hc)
  rw [List.flatten_append, List.count_append]
  omega

section

variable {ahead text : List Char} {before own : List (List Char)}

theorem Covers.start_unique (h : Covers ahead text before own)
    {own' more after rest : List (List Char)} (h' : Covers ahead text (before ++ more) own')
    (heq : own ++ after = more ++ rest) : more = [] := by
  cases more with
  | nil => rfl
  | cons g gs =>
    obtain ⟨f, hf⟩ := h.head
    have hhead := congrArg List.head? heq
    rw [List.head?_append, hf, List.cons_append, List.head?_cons, Option.some_or, Option.some_inj]
      at hhead
    have hlt :=
      count_flatten_lt before (List.mem_cons_self (a := g) (l := gs)) (hhead ▸ List.mem_cons_self)
    rw [h.count_before, h'.count_before] at hlt
    exact absurd hlt (Nat.lt_irrefl _)

theorem Covers.stop_unique (h : Covers ahead text before own) {more : List (List Char)}
    (h' : Covers ahead text before (own ++ more)) : more = [] := by
  by_contra hne
  obtain ⟨f, hf, hmem⟩ := h'.last
  rw [List.getLast?_append_of_ne_nil _ hne] at hf
  have hlt := count_flatten_lt (before ++ own) (List.mem_of_getLast? hf) hmem
  rw [List.append_assoc, h'.count_own, h.count_own] at hlt
  exact absurd hlt (Nat.lt_irrefl _)

/-- An element has its fragments in one way only. -/
theorem Covers.unique (h : Covers ahead text before own)
    {before' own' after after' : List (List Char)} (h' : Covers ahead text before' own')
    (heq : before ++ own ++ after = before' ++ own' ++ after') :
    before = before' ∧ own = own' := by
  rw [List.append_assoc, List.append_assoc] at heq
  have hbefore : before = before' := by
    rcases List.append_eq_append_iff.1 heq with ⟨more, rfl, hmore⟩ | ⟨more, rfl, hmore⟩
    · rw [h.start_unique h' hmore, List.append_nil]
    · rw [h'.start_unique h hmore, List.append_nil]
  subst hbefore
  refine ⟨rfl, ?_⟩
  rcases List.append_eq_append_iff.1
    (List.append_cancel_left heq) with ⟨more, rfl, -⟩ | ⟨more, rfl, -⟩
  · rw [h.stop_unique h', List.append_nil]
  · rw [h'.stop_unique h, List.append_nil]

end

theorem count_fragments (segs : List Segment) {c : Char} (hc : c = '<' ∨ c = '>') :
    (segs.flatMap Segment.fragments).flatten.count c = segs.length := by
  induction segs with
  | nil => rfl
  | cons s segs ih =>
    rw [List.flatMap_cons, List.flatten_append, List.count_append, s.flatten_fragments,
      s.tight.count_write hc, ih, List.length_cons, Nat.add_comm]

/-- The fragments of a segment up to the one that ends its tag. -/
theorem Segment.exists_stop (s : Segment) :
    ∃ init f rest, s.fragments = init ++ f :: rest ∧ '>' ∈ f ∧
    (init ++ [f]).flatten.count '>' = 1 := by
  have hone : s.fragments.flatten.count '>' = 1 := by
    rw [s.flatten_fragments]
    exact s.tight.count_write (Or.inr rfl)
  obtain ⟨f, hf, hmem⟩ :=
    List.mem_flatten.1 (List.count_pos_iff.1 (Nat.lt_of_lt_of_eq Nat.one_pos hone.symm))
  obtain ⟨init, rest, hfragments⟩ := List.append_of_mem hf
  refine ⟨init, f, rest, hfragments, hmem, ?_⟩
  have hpos : 0 < f.count '>' := List.count_pos_iff.2 hmem
  simp only [hfragments, List.flatten_append, List.flatten_cons, List.flatten_nil,
    List.count_append, List.append_nil] at hone ⊢
  omega

theorem Element.exists_head (x : Element) (data : CharData) :
    ∃ f, ((x.segments data).flatMap Segment.fragments).head? = some ('<' :: f) := by
  obtain ⟨s, segs, hsegments⟩ :=
    List.exists_cons_of_ne_nil (l := x.segments data) (by simp [Element.segments])
  obtain ⟨first, later, hpieces, -⟩ := s.tight.exists_pieces
  exact ⟨first, by rw [hsegments, List.flatMap_cons, Segment.fragments, hpieces]; rfl⟩

section

variable (segs : List Segment) (x : Element) {data : CharData}
  {init tail : List (List Char)} {f : List Char}
  (hstop : (⟨x.lastTag, data⟩ : Segment).fragments = init ++ f :: tail)

include hstop

/-- An element behind some segments has the fragments of its segments, those of the last one up to
the end of the tag. -/
theorem Element.covers_segments (hmem : '>' ∈ f) (hcount : (init ++ [f]).flatten.count '>' = 1) :
    Covers (segs.flatMap Segment.write) x.write ([] :: segs.flatMap Segment.fragments)
      (x.front.flatMap Segment.fragments ++ (init ++ [f])) where
  head := by
    obtain ⟨first, hfirst⟩ := x.exists_head data
    have hsegments : (x.segments data).flatMap Segment.fragments =
        x.front.flatMap Segment.fragments ++ (init ++ [f]) ++ tail := by
      simp [Element.segments, hstop]
    rw [hsegments, List.head?_append_of_ne_nil _ (by simp)] at hfirst
    exact ⟨first, hfirst⟩
  last := ⟨f, by simp, hmem⟩
  count_before := by
    rw [List.flatten_cons, List.nil_append, count_fragments segs (Or.inl rfl),
      count_flatMap_write segs (Or.inl rfl)]
  count_own := by
    rw [List.cons_append, List.flatten_cons, List.nil_append, List.flatten_append,
      List.flatten_append, List.count_append, List.count_append, count_fragments segs (Or.inr rfl),
      count_fragments x.front (Or.inr rfl), hcount, List.count_append,
      count_flatMap_write segs (Or.inr rfl), x.write_eq, List.count_append,
      count_flatMap_write x.front (Or.inr rfl), x.lastTag.count_write (Or.inr rfl)]

theorem Element.depth_segments : (stateAfter move {} ([] :: segs.flatMap Segment.fragments ++
    (x.front.flatMap Segment.fragments ++ (init ++ [f])))).depth =
      (stateAfter move {} ([] :: segs.flatMap Segment.fragments)).depth +
        ((x.segments .none).map Segment.shift).sum := by
  obtain ⟨last, hbefore⟩ := stateAfter_segments segs 0 (some [])
  obtain ⟨last', hfront⟩ := stateAfter_segments x.front (0 + (segs.map Segment.shift).sum) last
  obtain ⟨last'', htag⟩ :=
    (⟨x.lastTag, data⟩ : Segment).stateAfter_own
      (0 + (segs.map Segment.shift).sum + (x.front.map Segment.shift).sum) last'
    (List.concat_ne_nil f init) ⟨tail, by simp [hstop]⟩
  have hstart : stateAfter move {} ([] :: segs.flatMap Segment.fragments) =
      ⟨0 + (segs.map Segment.shift).sum, false, last⟩ := hbefore
  rw [stateAfter_append, hstart, stateAfter_append, hfront, htag]
  simp [Element.segments, Segment.shift, Int.add_assoc]

end

/-- The fragments of an element of a document, and what they add to the depth. -/
theorem Element.exists_covers {ahead : List Char} {x : Element} (doc : Element)
    (hx : (ahead, x) ∈ doc.parts) :
    ∃ before own after, split doc.write = before ++ own ++ after ∧
    Covers ahead x.write before own ∧
      (stateAfter move {} (before ++ own)).depth =
        (stateAfter move {} before).depth + ((x.segments .none).map Segment.shift).sum := by
  obtain ⟨segs, data, rest, hsegments, rfl⟩ := Element.segments_of_mem_parts doc hx .none
  obtain ⟨init, f, tail, hstop, hmem, hcount⟩ := (⟨x.lastTag, data⟩ : Segment).exists_stop
  refine ⟨_, _, tail ++ rest.flatMap Segment.fragments, ?_,
    x.covers_segments segs hstop hmem hcount, x.depth_segments segs hstop⟩
  rw [doc.split_write, hsegments]
  simp [Element.segments, hstop]

/-! ## Balance -/

/-- A walk over a document comes back to its depth at the end of every element, and to depth zero
at the end. -/
structure Balanced (table : IndentTable) (doc : Element) : Prop where
  returns : ∀ ahead e, (ahead, e) ∈ doc.parts →
    ∃ before own after, split doc.write = before ++ own ++ after ∧
    Covers ahead e.write before own ∧
    (render table {} (before ++ own)).1.depth = (render table {} before).1.depth
  depth : (render table {} (split doc.write)).1.depth = 0
  inComment : (render table {} (split doc.write)).1.inComment = false

/-- On a table that clamps, a document is balanced exactly if none of its empty tags declares a
namespace. -/
theorem balanced_iff (table : IndentTable) (hclamp : table.overflow = .clamp) (doc : Element) :
    Balanced table doc ↔ ∀ part ∈ doc.parts, part.2.isCut = false := by
  have hrender : ∀ fs, (render table {} fs).1 = stateAfter move {} fs := fun fs => by
    rw [render, walkThrough_of_clamp hclamp]
  constructor
  · rintro hbalanced ⟨ahead, e⟩ hmem
    obtain ⟨before, own, after, hsplit, hcovers, hdepth⟩ := hbalanced.returns ahead e hmem
    obtain ⟨before', own', after', hsplit', hcovers', hdepth'⟩ := Element.exists_covers doc hmem
    obtain ⟨rfl, rfl⟩ := hcovers.unique hcovers' (hsplit.symm.trans hsplit')
    rw [hrender, hrender, hdepth'] at hdepth
    cases e with
    | full name attrs body => rfl
    | empty name attrs =>
      -- The empty tag is the only segment of the element.
      have hshift : (Tag.empty name attrs).shift = 0 := by
        simpa [Element.segments, Element.front, Element.lastTag, Segment.shift] using hdepth
      by_contra hcut
      have hns : declaresNamespace (attributesText attrs) = true := by
        simpa [Element.isCut] using hcut
      rw [Tag.shift, if_pos hns] at hshift
      cases hshift
  · intro hwhole
    obtain ⟨last, hstate⟩ := stateAfter_segments (doc.segments .none) 0 (some [])
    rw [doc.sum_shift_segments .none hwhole, Int.add_zero] at hstate
    have hlast : stateAfter move {} (split doc.write) = ⟨0, false, last⟩ := by
      rw [doc.split_write]
      exact hstate
    refine ⟨fun ahead e hmem => ?_, ?_, ?_⟩
    · obtain ⟨before, own, after, hsplit, hcovers, hdepth⟩ := Element.exists_covers doc hmem
      have hinner : ∀ part ∈ e.parts, part.2.isCut = false := fun part hpart =>
        hwhole (ahead ++ part.1, part.2) (Element.mem_parts_trans doc hmem hpart)
      rw [e.sum_shift_segments .none hinner, Int.add_zero] at hdepth
      refine ⟨before, own, after, hsplit, hcovers, ?_⟩
      rw [hrender, hrender, hdepth]
    · rw [hrender, hlast]
    · rw [hrender, hlast]

/-- A document with namespaces on its start tags, an empty tag without one, and blanks and texts
between its tags. -/
def namespaceDocument : Element :=
  let a : Name := .ofWord 'a' [] (by decide)
  let b : Name := .ofWord 'b' ['1'] (by decide)
  let xmlns : Attribute := ⟨⟨"xmlns".toList, by decide⟩, ⟨"u/".toList, by decide⟩⟩
  let xmlnsP : Attribute := ⟨⟨"xmlns:p".toList, by decide⟩, ⟨"]".toList, by decide⟩⟩
  let key : Attribute := ⟨⟨"k".toList, by decide⟩, ⟨"--".toList, by decide⟩⟩
  .full a [xmlns, key, xmlnsP] (.text ⟨" ".toList, by decide⟩ (.element (.empty a [key])
    (.text ⟨"t xmlns=".toList, by decide⟩
      (.element (.full b [xmlnsP] .nil) (.text ⟨"\n".toList, by decide⟩ .nil)))))

theorem balanced_namespaceDocument : namespaceDocument.write =
      ("<a xmlns=\"u/\" k=\"--\" xmlns:p=\"]\"> <a k=\"--\"/>t xmlns=" ++
        "<b1 xmlns:p=\"]\"></b1>\n</a>").toList ∧
    Balanced .default namespaceDocument :=
  ⟨by decide, (balanced_iff .default rfl namespaceDocument).2 (by decide)⟩

/-- An empty tag that declares a namespace. -/
def cutDocument : Element :=
  .empty (.ofWord 'a' [] (by decide)) [⟨⟨"xmlns".toList, by decide⟩, ⟨"u".toList, by decide⟩⟩]

theorem depth_cutDocument : cutDocument.write = "<a xmlns=\"u\"/>".toList ∧
    (render .default {} (split cutDocument.write)).1.depth = 1 ∧
    ¬ Balanced .default cutDocument := by
  have hdepth : (render .default {} (split cutDocument.write)).1.depth = 1 := by
    rw [render, walkThrough_of_clamp rfl]
    decide
  refine ⟨by decide, hdepth, fun h => ?_⟩
  rw [h.depth] at hdepth
  cases hdepth

end Reindent.Xml
