import Mathlib
import Reindent.Proofs.Xml.Tree

/-!
# Kinds of tags

The kind of a tag of a tree is read off its text and, for an end tag, off the fragment before it:
an end tag is taken for the end of the element right before it if that fragment starts with a tag
of the same name.
-/

namespace Reindent.Xml

open Text

/-! ## Occurrences in a tag -/

theorem occurs_open {s : List Char} (hs : '<' ∉ s) (x : Char) :
    occurs ['<', x] ('<' :: s) = (s.head? == some x) := by
  have hrest : occurs ['<', x] s = false :=
    occurs_eq_false_iff.2 fun h => hs (h.subset List.mem_cons_self)
  rw [occurs, hrest, Bool.or_false]
  cases s with
  | nil => rfl
  | cons c s => simp [List.isPrefixOf, Bool.beq_comm]

theorem hasStartTag_eq_false {s : List Char} (hs : '<' ∉ s) : hasStartTag s = false := by
  induction s with
  | nil => rfl
  | cons c s ih =>
    rw [List.mem_cons, not_or] at hs
    rw [hasStartTag, ih hs.2]
    simp [Ne.symm hs.1]

theorem hasStartTag_open {s : List Char} (hs : '<' ∉ s) :
    hasStartTag ('<' :: s) = startsWord s := by
  rw [hasStartTag, hasStartTag_eq_false hs]
  simp

section

variable {tag text : List Char}

theorem lt_notMem (htag : NoMarkup tag) (htext : NoMarkup text) : '<' ∉ tag ++ '>' :: text := by
  simpa using ⟨htag.1, htext.1⟩

/-- What occurs at the end of a tag. -/
theorem occurs_close (htag : '>' ∉ tag) (htext : '>' ∉ text) (part : List Char) :
    occurs (part ++ ['>']) ('<' :: (tag ++ '>' :: text)) = true ↔ part <:+ '<' :: tag := by
  rw [occurs_iff, ← List.cons_append]
  exact infix_append_singleton (by simpa using htag) htext

theorem endsComment_eq_false (htag : '>' ∉ tag) (htext : '>' ∉ text)
    (hdash : ¬ ['-'] <:+ '<' :: tag) (hbracket : ¬ [']'] <:+ '<' :: tag) :
    endsComment ('<' :: (tag ++ '>' :: text)) = false := by
  rw [endsComment, Bool.or_eq_false_iff, ← Bool.not_eq_true, ← Bool.not_eq_true]
  refine ⟨fun h => ?_, fun h => ?_⟩
  · exact hdash ((List.suffix_cons '-' ['-']).trans ((occurs_close htag htext ['-', '-']).1 h))
  · exact hbracket ((occurs_close htag htext [']']).1 h)

end

/-! ## Names in tags -/

theorem suffix_concat_iff {x last : Char} {init : List Char} : [x] <:+ init ++ [last] ↔
    x = last := by
  constructor
  · rintro ⟨u, h⟩
    exact (List.append_inj' h rfl).2 |> List.singleton_inj.1
  · rintro rfl
    exact List.suffix_append init [x]

section

variable (name : Name) (attrs : Attributes)

theorem Name.startsWord_text (s : List Char) : startsWord (name.text ++ s) = true :=
  name.isWord_first

theorem Name.not_suffix_text {x : Char} (hword : isWord x = false) (hx : x ≠ ':' ∧ x ≠ '.')
    (s : List Char) :
    ¬ [x] <:+ s ++ name.text := by
  have hne : name.text ≠ [] := by simp [Name.text]
  rw [← List.dropLast_append_getLast hne, ← List.append_assoc, suffix_concat_iff]
  exact fun h => name.notMem_text hword hx (h ▸ List.getLast_mem hne)

/-- A tag ends in a character of a name or in a quote. -/
theorem Name.not_suffix_tag {text : List Char}
    (hshape : text = [] ∨ ∃ inner quote, text = ' ' :: (inner ++ [quote]) ∧
      (quote = '"' ∨ quote = '\x27'))
    {x : Char} (hword : isWord x = false) (hx : x ∉ [':', '.', '"', '\x27']) :
    ¬ [x] <:+ '<' :: (name.text ++ text) := by
  simp only [List.mem_cons, List.not_mem_nil, or_false, not_or] at hx
  rcases hshape with rfl | ⟨inner, quote, rfl, hquote⟩
  · rw [List.append_nil]
    exact name.not_suffix_text hword ⟨hx.1, hx.2.1⟩ ['<']
  · rw [← List.cons_append, ← List.cons_append, ← List.append_assoc, suffix_concat_iff]
    rintro rfl
    exact hquote.elim hx.2.2.1 hx.2.2.2

theorem not_suffix_tagText {x : Char} (hword : isWord x = false)
    (hx : x ∉ [':', '.', '"', '\x27']) :
    ¬ [x] <:+ '<' :: tagText name attrs :=
  name.not_suffix_tag attrs.shape hword hx

theorem isNameChar_eq_false {c : Char} (h : c ∈ [' ', '/', '>']) : isNameChar c = false := by
  simp only [List.mem_cons, List.not_mem_nil, or_false] at h
  rcases h with rfl | rfl | rfl
  · simp [isNameChar, isWord_eq_false_of_punctuation (c := ' ') (by decide)]
  · simp [isNameChar, isWord_eq_false_of_punctuation (c := '/') (by decide)]
  · simp [isNameChar, isWord_eq_false_of_punctuation (c := '>') (by decide)]

theorem isNameChar_text {c : Char} (hc : c ∈ name.text) : isNameChar c = true := by
  rcases name.mem_text hc with h | rfl | rfl
  · simp [isNameChar, h]
  · simp [isNameChar]
  · simp [isNameChar]

theorem name?_text {c : Char} (hc : isNameChar c = false) (s : List Char) :
    name? (name.text ++ c :: s) = some name.text := by
  have hrest : ∀ d ∈ name.rest, isNameChar d = true :=
    fun d hd => isNameChar_text name (List.mem_cons_of_mem _ hd)
  rw [Name.text, List.cons_append, name?, if_pos name.isWord_first,
    List.takeWhile_append_of_pos hrest, List.takeWhile_cons_of_neg (by simp [hc]), List.append_nil]

theorem name?_tagText {c : Char} (hc : isNameChar c = false) (s : List Char) :
    name? (tagText name attrs ++ c :: s) = some name.text := by
  rw [tagText]
  rcases attrs.shape with hnil | ⟨inner, quote, htext, -⟩
  · rw [hnil, List.append_nil]
    exact name?_text name hc s
  · have hspace : isNameChar ' ' = false := isNameChar_eq_false (by decide)
    rw [htext, List.append_assoc, List.cons_append]
    exact name?_text name hspace _

end

/-! ## Kinds of fragments -/

theorem closesPrevious_of_closeName? {fragment : List Char} (h : closeName? fragment = none)
    (previous : Option (List Char)) : closesPrevious previous fragment = false := by
  rw [closesPrevious, h]
  cases previous.bind openName? <;> rfl

section

variable (previous : Option (List Char)) {s : List Char}

/-- A fragment that begins with a start tag is an empty tag if it holds the end of one. -/
theorem classify_open (hword : startsWord s = true) (hlt : '<' ∉ s)
    (hend : endsComment ('<' :: s) = false) :
    classify previous ('<' :: s) = if occurs ['/', '>'] ('<' :: s) then .selfClosingTag
    else .openTag := by
  have hfirst : ∀ c, isWord c = false → s.head? ≠ some c := by
    intro c hc hhead
    obtain ⟨t, rfl⟩ := List.head?_eq_some_iff.1 hhead
    have hword' : isWord c = true := hword
    rw [hc] at hword'
    cases hword'
  have hslash := hfirst '/' (isWord_eq_false_of_punctuation (by decide))
  have hbang : occurs ['<', '!'] ('<' :: s) = false := by
    rw [occurs_open hlt, beq_eq_false_iff_ne]
    exact hfirst '!' (isWord_eq_false_of_punctuation (by decide))
  have hcloses : occurs ['<', '/'] ('<' :: s) = false := by
    rw [occurs_open hlt, beq_eq_false_iff_ne]
    exact hslash
  have hopens : hasStartTag ('<' :: s) = true := (hasStartTag_open hlt).trans hword
  have hclose : closeName? ('<' :: s) = none := by
    unfold closeName?
    split
    · rename_i heq
      rw [(List.cons_eq_cons.1 heq).2] at hslash
      exact absurd rfl hslash
    · rfl
  have hpaired := closesPrevious_of_closeName? hclose previous
  by_cases hempty : occurs ['/', '>'] ('<' :: s) = true
  · simp [classify, hbang, hend, hpaired, hopens, hcloses, hempty]
  · simp [classify, hbang, hend, hpaired, hopens, hcloses, hempty]

/-- A fragment that begins with an end tag ends the fragment before it or an element that started
earlier. -/
theorem classify_close (hlt : '<' ∉ s) (hend : endsComment ('<' :: '/' :: s) = false) :
    classify previous ('<' :: '/' :: s) =
      if closesPrevious previous ('<' :: '/' :: s) then .pairedTag else .closeTag := by
  have hlt' : '<' ∉ '/' :: s := by simpa using hlt
  have hbang : occurs ['<', '!'] ('<' :: '/' :: s) = false :=
    (occurs_open hlt' '!').trans (by simp)
  have hcloses : occurs ['<', '/'] ('<' :: '/' :: s) = true :=
    (occurs_open hlt' '/').trans (by simp)
  have hopens : hasStartTag ('<' :: '/' :: s) = false :=
    (hasStartTag_open hlt').trans (isWord_eq_false_of_punctuation (by decide))
  by_cases hpaired : closesPrevious previous ('<' :: '/' :: s) = true
  · simp [classify, hbang, hend, hpaired]
  · simp [classify, hbang, hend, hpaired, hopens, hcloses]

/-- A fragment that starts no tag is the end of an empty tag, a namespace attribute or something
else. -/
theorem classify_inner (hlt : '<' ∉ s) (hend : endsComment s = false) :
    classify previous s = .selfClosingTag ∨
    classify previous s = .namespaceDecl ∨ classify previous s = .other := by
  have hbracket : ∀ x, occurs ['<', x] s = false :=
    fun x => occurs_eq_false_iff.2 fun h => hlt (h.subset List.mem_cons_self)
  have hclose : closeName? s = none := by
    unfold closeName?
    split
    · exact absurd List.mem_cons_self hlt
    · rfl
  have hpaired := closesPrevious_of_closeName? hclose previous
  simp only [classify, hbracket, hend, hpaired, hasStartTag_eq_false hlt]
  by_cases hempty : occurs ['/', '>'] s = true
  · simp [hempty]
  · by_cases hns : declaresNamespace s = true
    · simp [hempty, hns]
    · simp [hempty, hns]

end

/-! ## Kinds of tags -/

section

variable (name : Name) (attrs : Attributes) (previous : Option (List Char))

theorem classify_startTag (content : Content) :
    classify previous (startTag name attrs ++ content.text) = .openTag := by
  have htag := noMarkup_tagText name attrs
  have htext := content.noMarkup
  have heq : startTag name attrs ++ content.text =
      '<' :: (tagText name attrs ++ '>' :: content.text) := by
    simp [startTag]
  have hend := endsComment_eq_false htag.2.1 htext.2.1
    (not_suffix_tagText name attrs (isWord_eq_false_of_punctuation (by decide)) (by decide))
    (not_suffix_tagText name attrs (isWord_eq_false_of_punctuation (by decide)) (by decide))
  have hempty : ¬ occurs ['/', '>'] ('<' :: (tagText name attrs ++ '>' :: content.text)) =
      true := by
    intro h
    exact not_suffix_tagText name attrs (isWord_eq_false_of_punctuation (by decide)) (by decide)
      ((occurs_close htag.2.1 htext.2.1 ['/']).1 h)
  have hword : startsWord (tagText name attrs ++ '>' :: content.text) = true := name.isWord_first
  rw [heq, classify_open previous hword (lt_notMem htag htext) hend, if_neg hempty]

theorem classify_emptyTag : classify previous (emptyTag name attrs) = .selfClosingTag := by
  have htag : NoMarkup (tagText name attrs ++ ['/']) :=
    (noMarkup_tagText name attrs).append_cons noMarkup_nil (by decide) (by decide)
  have heq : emptyTag name attrs = '<' :: (tagText name attrs ++ ['/'] ++ ['>']) := by
    simp [emptyTag]
  have hlast : ∀ x, [x] <:+ '<' :: (tagText name attrs ++ ['/']) ↔ x = '/' := by
    intro x
    rw [← List.cons_append, suffix_concat_iff]
  have hend :=
    endsComment_eq_false htag.2.1 noMarkup_nil.2.1 (by rw [hlast]; decide) (by rw [hlast]; decide)
  have hempty := (occurs_close htag.2.1 noMarkup_nil.2.1 ['/']).2 ((hlast '/').2 rfl)
  have hword : startsWord (tagText name attrs ++ ['/'] ++ ['>']) = true := name.isWord_first
  rw [heq, classify_open previous hword (lt_notMem htag noMarkup_nil) hend]
  exact if_pos hempty

theorem classify_remark (remark : Remark) : classify previous remark.tag = .comment := by
  have hbang : occurs ['<', '!'] remark.tag = true := occurs_iff.2 ⟨[], _, rfl⟩
  have hend : endsComment remark.tag = true := by
    rw [endsComment, occurs_iff.2 ⟨'<' :: '!' :: '-' :: '-' :: remark.text,
      [], by simp [Remark.tag]⟩, Bool.true_or]
  simp [classify, hbang, hend]

theorem closesPrevious_endTag :
    closesPrevious previous (endTag name) = (previous.bind openName? == some name.text) := by
  have hclose : closeName? (endTag name) = some name.text :=
    name?_text name (isNameChar_eq_false (by decide)) []
  rw [closesPrevious, hclose]
  cases previous.bind openName? with
  | none => rfl
  | some a => simp

/-- An end tag is paired with the fragment before it exactly if that one starts with a tag of the
same name. -/
theorem classify_endTag : classify previous (endTag name) =
    if previous.bind openName? = some name.text then .pairedTag else .closeTag := by
  have hname := name.noMarkup_text
  have htag : '>' ∉ '/' :: name.text := by simpa using hname.2.1
  have hlt : '<' ∉ name.text ++ ['>'] := by simpa using hname.1
  have hlast : ∀ x, isWord x = false → x ≠ ':' ∧ x ≠ '.' → ¬ [x] <:+ '<' :: '/' :: name.text :=
    fun x hword hx => name.not_suffix_text hword hx ['<', '/']
  have hend := endsComment_eq_false htag noMarkup_nil.2.1
    (hlast '-' (isWord_eq_false_of_punctuation (by decide)) (by decide))
    (hlast ']' (isWord_eq_false_of_punctuation (by decide)) (by decide))
  have hclose := classify_close previous hlt hend
  rw [endTag, hclose, ← endTag, closesPrevious_endTag]
  simp

end

end Reindent.Xml
