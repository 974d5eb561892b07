import Mathlib
import Reindent.Proofs.Json.Documents
import Reindent.Proofs.Minify.Quotes

/-!
# Rows of minified words

If every word of a row has no blank or stands between quotes, minifying the text of the row
minifies its words one by one and thins out the white space between them (`Spread.minify`): the two
sides of a quote do not see each other, and between the quotes only blanks are lost.
-/

namespace Reindent.Json

open Text Minify

/-! ## Words without blanks -/

/-- A word without blanks. -/
def IsBare (w : List Char) : Prop :=
  ∀ c ∈ w, isBlank c = false

/-- A word between quotes. -/
def IsQuoted (w : List Char) : Prop :=
  ∃ body, w = '"' :: (body ++ ['"'])

theorem isBare_quote : IsBare ['"'] :=
  List.forall_mem_singleton.2 isBlank_quote

theorem Mark.isBare (m : Mark) : IsBare [m.char] :=
  List.forall_mem_singleton.2 (by cases m <;> decide)

theorem isBare_of_inScalar {w : List Char} (h : ∀ c ∈ w, inScalar c = true) : IsBare w :=
  fun c hc => (ne_of_inScalar (h c hc)).1

theorem IsSpaces.thins {gap s : List Char} (hgap : IsSpaces gap) (h : Thins gap s) :
    IsSpaces s := by
  induction h with
  | nil => exact isSpaces_nil
  | keep c _ ih =>
    obtain ⟨hc, hgap⟩ := List.forall_mem_cons.1 hgap
    exact List.forall_mem_cons.2 ⟨hc, ih hgap⟩
  | drop _ _ ih => exact ih (List.forall_mem_cons.1 hgap).2
  | space _ _ ih => exact List.forall_mem_cons.2 ⟨by decide, ih (List.forall_mem_cons.1 hgap).2⟩

/-- Where no word has a blank, only the white space between the words is thinned out. -/
theorem Spread.thins {ws : List (List Char)} {s s' : List Char} (h : Spread ws s)
    (hws : ∀ w ∈ ws, IsBare w) (hs : Thins s s') : Spread ws s' := by
  induction h generalizing s' with
  | nil hgap => exact .nil (hgap.thins hs)
  | cons hgap _ ih =>
    obtain ⟨gap', rest, rfl, hgap', hrest⟩ := hs.exists_append
    obtain ⟨w', s'', rfl, hw', hs''⟩ := hrest.exists_append
    obtain ⟨hw, hws⟩ := List.forall_mem_cons.1 hws
    rw [hw'.eq_of_forall_not_isBlank hw]
    exact .cons (hgap.thins hgap') (ih hws hs'')

section

variable {g : List Char → List Char}

theorem IsBare.apply_eq_self (hg : QuoteLocal g) {w : List Char} (hw : IsBare w) : g w = w :=
  (hg.thins w).eq_of_forall_not_isBlank hw

/-- A word between quotes behind other text: the text is thinned out, the word becomes what it
becomes alone, and what follows becomes what it becomes behind the last quote. -/
theorem exists_thins_quoted (hg : QuoteLocal g) (u : List Char) {w : List Char} (hw : IsQuoted w) :
    ∃ x, Thins u x ∧ ∀ s, g (u ++ (w ++ s)) = x ++ (g w ++ (g ('"' :: s)).tail) := by
  obtain ⟨body, rfl⟩ := hw
  obtain ⟨x, hx⟩ := hg.parts u
  obtain ⟨y, hy⟩ := hg.parts ('"' :: body)
  have hword : g ('"' :: (body ++ ['"'])) = y ++ ['"'] := by
    rw [← List.cons_append, hy [], hg.apply_quote]
  refine ⟨x, ?_, fun s => ?_⟩
  · have hthins := hg.thins (u ++ ['"'])
    rw [hx [], hg.apply_quote] at hthins
    obtain ⟨x', q, hxq, hx', hq⟩ := hthins.exists_append
    rw [hq.eq_of_forall_not_isBlank isBare_quote] at hxq
    rwa [List.append_cancel_right hxq]
  · have hs : u ++ ('"' :: (body ++ ['"']) ++ s) = u ++ '"' :: (body ++ '"' :: s) := by simp
    rw [hs, hx, ← List.cons_append, hy, hg.eq_quote_tail s, hword, List.append_assoc,
      List.singleton_append, List.tail_cons]

/-- The row `ws` survives in the text `s`, also behind a text `pre` that stays and a row `us`
without blanks. -/
def Survives (g : List Char → List Char) (ws : List (List Char)) (s : List Char) : Prop :=
  ∀ (pre : List Char) (us : List (List Char)) (u z : List Char), IsBare pre →
    (∀ w ∈ us, IsBare w) → Spread us u → g (pre ++ (u ++ s)) = pre ++ z → Spread (us ++ ws.map g) z

theorem Survives.nil (hg : QuoteLocal g) {gap : List Char} (hgap : IsSpaces gap) :
    Survives g [] gap := by
  intro pre us u z hpre hus hu hz
  have hthins := hg.thins (pre ++ (u ++ gap))
  rw [hz] at hthins
  rw [List.map_nil, List.append_nil]
  exact (hu.append_gap hgap).thins hus (hthins.of_append hpre)

/-- A word without blanks joins the row in front. -/
theorem Survives.bare (hg : QuoteLocal g) {w gap s : List Char}
    {ws : List (List Char)} (hw : IsBare w) (hgap : IsSpaces gap) (h : Survives g ws s) :
    Survives g (w :: ws) (gap ++ (w ++ s)) := by
  intro pre us u z hpre hus hu hz
  have hspread : Spread (us ++ [w]) (u ++ (gap ++ w)) := by
    have hword := Spread.word w (.nil isSpaces_nil)
    rw [List.append_nil] at hword
    exact hu.append (hword.gap hgap)
  have hbare : ∀ w' ∈ us ++ [w], IsBare w' :=
    List.forall_mem_append.2 ⟨hus, List.forall_mem_singleton.2 hw⟩
  have hrest := h pre (us ++ [w]) (u ++ (gap ++ w)) z hpre hbare hspread (by
    rw [← hz]
    simp only [List.append_assoc])
  rwa [List.append_assoc, List.singleton_append, ← hw.apply_eq_self hg, ← List.map_cons] at hrest

/-- A word between quotes ends the row in front, and behind it only its last quote is in front. -/
theorem Survives.quoted (hg : QuoteLocal g) {w gap s : List Char}
    {ws : List (List Char)} (hw : IsQuoted w) (hgap : IsSpaces gap) (h : Survives g ws s) :
    Survives g (w :: ws) (gap ++ (w ++ s)) := by
  intro pre us u z hpre hus hu hz
  obtain ⟨x, hx, hparts⟩ := exists_thins_quoted hg (pre ++ (u ++ gap)) hw
  obtain ⟨pre', x', rfl, hpre', hx'⟩ := hx.exists_append
  rw [hpre'.eq_of_forall_not_isBlank hpre] at hparts
  have hzeq : z = x' ++ (g w ++ (g ('"' :: s)).tail) := by
    have heq := hparts s
    simp only [List.append_assoc] at heq
    exact List.append_cancel_left (hz.symm.trans heq)
  have hbehind :=
    h ['"'] [] [] (g ('"' :: s)).tail isBare_quote (List.forall_mem_nil _) (.nil isSpaces_nil)
    (hg.eq_quote_tail s)
  rw [hzeq]
  exact ((hu.append_gap hgap).thins hus hx').append (.word (g w) hbehind)

/-- The words of a text survive, each as what it becomes alone. -/
theorem Spread.minify (hg : QuoteLocal g) {ws : List (List Char)} {s : List Char} (h : Spread ws s)
    (hws : ∀ w ∈ ws, IsBare w ∨ IsQuoted w) : Spread (ws.map g) (g s) := by
  suffices hsurvives : Survives g ws s from
    hsurvives [] [] [] (g s) (List.forall_mem_nil _) (List.forall_mem_nil _)
    (.nil isSpaces_nil) rfl
  induction h with
  | nil hgap => exact .nil hg hgap
  | cons hgap _ ih =>
    obtain ⟨hw, hws⟩ := List.forall_mem_cons.1 hws
    rcases hw with hw | hw
    · exact .bare hg hw hgap (ih hws)
    · exact .quoted hg hw hgap (ih hws)

end

end Reindent.Json
