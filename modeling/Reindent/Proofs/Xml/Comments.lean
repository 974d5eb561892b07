import Mathlib
import Reindent.Proofs.Xml.Gaps
import Reindent.Proofs.Xml.Layout

/-!
# Comments with markup inside

A comment is cut at every tag inside it. Its first piece opens the comment, the pieces in between
are written as they are whatever tags they hold, and the piece with the end of the comment closes
it, so the walk writes the comment on a line of its own and comes back to the depth at which it
started. The body of the comment must not hold what opens or ends a comment, a declaration or a
character data section, nor an instruction or a namespace attribute: these end the comment early,
or their pieces are written on lines of their own also inside comments.
-/

namespace Reindent.Xml

open Text

/-- The comment with a body. -/
def commentOf (body : List Char) : List Char :=
  ['<', '!', '-', '-'] ++ (body ++ ['-', '-', '>'])

/-- A body that is written as it is: the comment does not end in it, and nothing starts in it but
tags. -/
structure CommentBody (body : List Char) : Prop where
  not_ends : occurs ['-', '-', '>'] (['<', '!', '-', '-'] ++ body) = false
  noSectionEnd : occurs [']', '>'] body = false
  noDeclaration : occurs ['<', '!'] body = false
  noInstruction : occurs ['<', '?'] body = false
  noDoctype : occurs ['!', 'D', 'O', 'C', 'T', 'Y', 'P', 'E'] body = false
  noNamespace : declaresNamespace body = false

/-! ## Moves inside a comment -/

/-- A fragment that is written as it is inside a comment. -/
structure Quiet (f : List Char) : Prop where
  noDeclaration : occurs ['<', '!'] f = false
  noEnd : endsComment f = false
  noInstruction : occurs ['<', '?'] f = false
  noNamespace : declaresNamespace f = false

section

variable (table : IndentTable) (depth : Int) (previous : Option (List Char)) {f : List Char}

/-- A fragment that goes right after the one before it. -/
theorem move_inline {inComment : Bool} {kind : Kind} (h : classify previous f = kind)
    (htransition : transition kind inComment = ⟨.inline, .noChange⟩) :
    (move ⟨depth, inComment, previous⟩ f).line table = f ∧
      (move ⟨depth, inComment, previous⟩ f).next =
        ⟨depth, inCommentAfter kind inComment, some f⟩ := by
  obtain ⟨hline, hnext⟩ := move_of_classify table depth h inComment
  rw [hline, hnext, htransition]
  show f = f ∧ (⟨depth + 0 + 0, _, _⟩ : State) = _
  rw [Int.add_zero, Int.add_zero]
  exact ⟨rfl, rfl⟩

/-- An empty fragment changes nothing. -/
theorem move_empty : (move ⟨depth, false, previous⟩ []).line table = [] ∧
    (move ⟨depth, false, previous⟩ []).next = ⟨depth, false, some []⟩ := by
  have hkind : classify previous [] = .other := by
    have hpaired := closesPrevious_of_closeName? (show closeName? [] = none from rfl) previous
    rw [classify, hpaired]
    rfl
  exact move_inline table depth previous hkind rfl

theorem move_commentOpen (h : classify previous f = .commentOpen) :
    (move ⟨depth, false, previous⟩ f).line table = table.lineStart depth ++ f ∧
      (move ⟨depth, false, previous⟩ f).next = ⟨depth, true, some f⟩ := by
  obtain ⟨hline, hnext⟩ := move_plain table depth h
  rw [hline, hnext]
  show table.lineStart (depth + 0) ++ f = _ ∧ (⟨depth + 0 + 0, true, some f⟩ : State) = _
  rw [Int.add_zero, Int.add_zero]
  exact ⟨rfl, rfl⟩

/-- Inside a comment the tags of a quiet fragment have no effect. -/
theorem Quiet.move_eq (h : Quiet f) : (move ⟨depth, true, previous⟩ f).line table = f ∧
    (move ⟨depth, true, previous⟩ f).next = ⟨depth, true, some f⟩ := by
  have hkind : classify previous f ∈
      [.pairedTag, .openTag, .inlineElement, .closeTag, .selfClosingTag, .other] := by
    simp only [classify, h.noDeclaration, h.noEnd, h.noInstruction, h.noNamespace,
      Bool.false_eq_true, if_false]
    split_ifs <;> decide
  have heffect : transition (classify previous f) true = ⟨.inline, .noChange⟩ ∧
      inCommentAfter (classify previous f) true = true := by
    simp only [List.mem_cons, List.not_mem_nil, or_false] at hkind
    rcases hkind with hk | hk | hk | hk | hk | hk <;> rw [hk] <;> exact ⟨rfl, rfl⟩
  have hmove := move_inline table depth previous rfl heffect.1
  rwa [heffect.2] at hmove

/-- Quiet fragments are written one after the other. -/
theorem walk_quiet {fs : List (List Char)} (h : ∀ f ∈ fs, Quiet f) :
    written table move ⟨depth, true, previous⟩ fs = fs.flatten ∧
      ∃ last, stateAfter move ⟨depth, true, previous⟩ fs = ⟨depth, true, last⟩ := by
  induction fs generalizing previous with
  | nil => exact ⟨rfl, previous, rfl⟩
  | cons f fs ih =>
    obtain ⟨hline, hnext⟩ := (h f List.mem_cons_self).move_eq table depth previous
    obtain ⟨hwritten, hstate⟩ := ih (some f) fun g hg => h g (List.mem_cons_of_mem f hg)
    rw [written_cons, stateAfter_cons, hline, hnext, hwritten, List.flatten_cons]
    exact ⟨rfl, hstate⟩

end

/-! ## The pieces of a comment -/

theorem closeGaps_commentOf (body : List Char) :
    closeGaps (commentOf body) = commentOf (closeGaps body) := by
  rw [commentOf, closeGaps_append (by decide), closeGaps_append_cons (by decide) (by decide)]
  rfl

/-- A comment is one fragment, or it is cut inside its body only. -/
theorem split_commentOf (body : List Char) :
    split (commentOf body) = [[], commentOf (closeGaps body)] ∨
    ∃ first inner last, closeGaps body = first ++ (inner.flatten ++ last) ∧
    split (commentOf body) =
      [] :: (['<', '!', '-', '-'] ++ first) :: (inner ++ [last ++ ['-', '-', '>']]) := by
  have hns : declaresNamespace ['-', '-', '>'] = false := by decide
  have hopen : '<' ∉ ['-', '-', '>'] := by decide
  obtain ⟨ps, p, hbody, hcut⟩ :=
    exists_cutBefore_append (s := closeGaps body) (t := ['-', '-', '>'])
    (fun r _ _ => startsFragment_append_cons (by decide) (by decide) r ['-', '>'])
    (fun r hr => startsFragment_eq_false (fun hmem => hopen (hr.subset hmem))
      (declaresNamespace_of_suffix hr hns))
  have hflat := flatten_cutBefore startsFragment (closeGaps body)
  rw [hbody] at hflat
  have hsplit : ∀ {q : List Char} {qs : List (List Char)},
      cutBefore startsFragment (closeGaps body ++ ['-', '-', '>']) = q :: qs →
      split (commentOf body) = [] :: (['<', '!', '-', '-'] ++ q) :: qs := by
    intro q qs hq
    -- The dashes in front of the body belong to no boundary.
    have hdashes : cutBefore startsFragment
      ('!' :: '-' :: '-' :: (closeGaps body ++ ['-', '-', '>'])) =
        ('!' :: '-' :: '-' :: q) :: qs :=
      cutBefore_unmarked (s := ['!', '-']) (by decide) (by decide) (by decide) (by decide) hq
    rw [split, closeGaps_commentOf]
    exact (cutBefore_open _).trans (congrArg (fun ps => [] :: consFirst '<' ps) hdashes)
  cases ps with
  | nil =>
    rw [List.nil_append, List.flatten_singleton] at hflat
    refine Or.inl ?_
    rw [hsplit hcut, hflat, commentOf]
  | cons first inner =>
    refine Or.inr ⟨first, inner, p, ?_, hsplit hcut⟩
    rw [← hflat]
    simp

/-! ## The kinds of the pieces -/

/-- What does not occur in a text, nor across a gap in it, does not occur in a piece of it. -/
theorem occurs_piece {part s f : List Char}
    (hpart : occurs ['>', '<'] part = false) (hs : occurs part s = false)
    (hf : f <:+: closeGaps s) : occurs part f = false := by
  rw [occurs_eq_false_iff] at hpart hs ⊢
  exact fun h => hs (infix_of_infix_closeGaps hpart (h.trans hf))

theorem declaresNamespace_piece {s f : List Char} (hs : declaresNamespace s = false)
    (hf : f <:+: closeGaps s) :
    declaresNamespace f = false := by
  rw [declaresNamespace, Bool.or_eq_false_iff] at hs ⊢
  exact ⟨occurs_piece (by decide) hs.1 hf, occurs_piece (by decide) hs.2 hf⟩

theorem occurs_opened {part body : List Char} (hdash : '-' ∉ part)
    (hopen : occurs part ['<', '!', '-'] = false) (hbody : occurs part body = false) :
    occurs part (['<', '!', '-', '-'] ++ body) = false := by
  rw [occurs_eq_false_iff] at hopen hbody ⊢
  exact fun h => ((infix_append_cons (s := ['<', '!', '-']) hdash).1 h).elim hopen hbody

/-- A comment in one piece. -/
theorem classify_commentOf (previous : Option (List Char)) (body : List Char) :
    classify previous (commentOf body) = .comment := by
  have hopen : occurs ['<', '!'] (commentOf body) = true := occurs_iff.2 ⟨[], _, rfl⟩
  have hend : endsComment (commentOf body) = true := by
    have hoccurs : occurs ['-', '-', '>'] (commentOf body) = true :=
      occurs_iff.2 ⟨['<', '!', '-', '-'] ++ body, [], by simp [commentOf]⟩
    rw [endsComment, hoccurs, Bool.true_or]
  simp [classify, hopen, hend]

namespace CommentBody

section

variable {body : List Char} (hbody : CommentBody body) {f : List Char}

include hbody

/-- The comment ends in no piece of its opened body. -/
theorem endsComment_piece (hf : f <:+: closeGaps (['<', '!', '-', '-'] ++ body)) :
    endsComment f = false := by
  rw [endsComment, Bool.or_eq_false_iff]
  exact ⟨occurs_piece (by decide) hbody.not_ends hf,
    occurs_piece (by decide) (occurs_opened (by decide) (by decide) hbody.noSectionEnd) hf⟩

theorem classify_first (previous : Option (List Char)) (hf : f <+: closeGaps body) :
    classify previous (['<', '!', '-', '-'] ++ f) = .commentOpen := by
  have hpiece : ['<', '!', '-', '-'] ++ f <:+: closeGaps (['<', '!', '-', '-'] ++ body) := by
    rw [closeGaps_append (by decide)]
    exact ((List.prefix_append_right_inj _).2 hf).isInfix
  have hopen : occurs ['<', '!'] (['<', '!', '-', '-'] ++ f) = true := occurs_iff.2 ⟨[], _, rfl⟩
  have hdoctype : occurs ['!', 'D', 'O', 'C', 'T', 'Y', 'P', 'E'] (['<', '!', '-', '-'] ++ f) =
      false :=
    occurs_piece (by decide) (occurs_opened (by decide) (by decide) hbody.noDoctype) hpiece
  rw [classify, if_pos hopen, if_neg (by rw [hbody.endsComment_piece hpiece, hdoctype]; decide)]

theorem quiet_piece (hf : f <:+: closeGaps body) : Quiet f where
  noDeclaration := occurs_piece (by decide) hbody.noDeclaration hf
  noEnd := hbody.endsComment_piece (by
    rw [closeGaps_append (by decide)]
    exact hf.trans (List.suffix_append _ _).isInfix)
  noInstruction := occurs_piece (by decide) hbody.noInstruction hf
  noNamespace := declaresNamespace_piece hbody.noNamespace hf

theorem classify_last (previous : Option (List Char)) (hf : f <:+: closeGaps body) :
    classify previous (f ++ ['-', '-', '>']) = .commentClose := by
  have hopen : occurs ['<', '!'] (f ++ ['-', '-', '>']) = false := by
    have hquiet := (hbody.quiet_piece hf).noDeclaration
    rw [occurs_eq_false_iff] at hquiet ⊢
    exact fun h =>
      ((infix_append_cons (by decide)).1 h).elim hquiet (occurs_eq_false_iff.1 (by decide))
  have hend : endsComment (f ++ ['-', '-', '>']) = true := by
    rw [endsComment, occurs_iff.2 (List.suffix_append f _).isInfix, Bool.true_or]
  simp [classify, hopen, hend]

end

end CommentBody

/-! ## The walk over a comment -/

theorem CommentBody.written_split {body : List Char} (hbody : CommentBody body)
    (table : IndentTable) (depth : Int) (previous : Option (List Char)) :
    written table move ⟨depth, false, previous⟩ (split (commentOf body)) =
        table.lineStart depth ++ commentOf (closeGaps body) ∧
      ∃ last, stateAfter move ⟨depth, false, previous⟩ (split (commentOf body)) =
        ⟨depth, false, last⟩ := by
  obtain ⟨hline, hnext⟩ := move_empty table depth previous
  rcases split_commentOf body with hwhole | ⟨first, inner, last, hparts, hpieces⟩
  · obtain ⟨hline', hnext'⟩ :=
      move_single table depth (Or.inr (classify_commentOf (some []) (closeGaps body)))
    rw [hwhole, written_cons, stateAfter_cons, hline, hnext, written_cons, stateAfter_cons,
      hline', hnext', written_nil, List.nil_append, List.append_nil]
    exact ⟨rfl, _, rfl⟩
  · have hfirst : first <+: closeGaps body := hparts ▸ List.prefix_append first _
    have hinner : ∀ f ∈ inner, f <:+: closeGaps body := by
      intro f hf
      rw [hparts]
      exact (List.infix_of_mem_flatten hf).trans ⟨first, last, by simp⟩
    have hlast : last <:+: closeGaps body := ⟨first ++ inner.flatten, [], by simp [hparts]⟩
    obtain ⟨hopen, hopened⟩ :=
      move_commentOpen table depth (some []) (hbody.classify_first (some []) hfirst)
    obtain ⟨hquiet, previous', hstate⟩ :=
      walk_quiet table depth (some (['<', '!', '-', '-'] ++ first))
      fun f hf => hbody.quiet_piece (hinner f hf)
    obtain ⟨hclose, hclosed⟩ :=
      move_inline table depth previous' (hbody.classify_last previous' hlast)
      (show transition .commentClose true = ⟨.inline, .noChange⟩ from rfl)
    rw [hpieces, written_cons, stateAfter_cons, hline, hnext, written_cons, stateAfter_cons, hopen,
      hopened, written_append, stateAfter_append, hquiet, hstate, written_cons, stateAfter_cons,
      hclose, hclosed]
    refine ⟨?_, _, rfl⟩
    simp [commentOf, hparts]

/-- On a table that clamps, a comment that starts outside comments is written on a line of its own,
with nothing changed but the blanks between tags, and the walk ends at the same depth outside
comments. -/
theorem walk_comment (table : IndentTable) (hclamp : table.overflow = .clamp) {body : List Char}
    (hbody : CommentBody body) (depth : Int) (previous : Option (List Char)) :
    ∃ start last, table.shift depth = .ok start ∧
      walk table move ⟨depth, false, previous⟩ (split (commentOf body)) =
        (⟨depth, false, last⟩, .ok (start ++ betweenTags.apply (commentOf body))) := by
  obtain ⟨hwritten, last, hstate⟩ := hbody.written_split table depth previous
  refine ⟨table.lineStart depth, last, IndentTable.shift_of_clamp hclamp depth, ?_⟩
  rw [walk_of_clamp hclamp, hwritten, hstate, ← closeGaps_eq_apply, closeGaps_commentOf]

/-- A body with a tag that is not closed, an end tag that closes the fragment before the comment,
an end of a comment that lacks a dash, and blanks between tags. -/
theorem walk_comment_unbalanced : CommentBody "<b> </b> </a> -> <c/>-".toList ∧
    ∃ last, walk .default move ⟨2, false, some "<a>".toList⟩
    (split (commentOf "<b> </b> </a> -> <c/>-".toList)) =
      (⟨2, false, last⟩, .ok "\n    <!--<b></b></a> -><c/>--->".toList) := by
  have hbody : CommentBody "<b> </b> </a> -> <c/>-".toList :=
    ⟨by decide, by decide, by decide, by decide, by decide, by decide⟩
  obtain ⟨start, last, hstart, hwalk⟩ := walk_comment .default rfl hbody 2 (some "<a>".toList)
  have hspaces : IndentTable.default.shift 2 = .ok "\n    ".toList := by rfl
  have hgaps : betweenTags.apply (commentOf "<b> </b> </a> -> <c/>-".toList) =
      "<!--<b></b></a> -><c/>--->".toList := by decide
  rw [hspaces] at hstart
  rw [← Except.ok.inj hstart, hgaps] at hwalk
  exact ⟨hbody, last, hwalk⟩

end Reindent.Xml
