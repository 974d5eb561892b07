import Mathlib
import Reindent.Minify.Css
import Reindent.Minify.Json
import Reindent.Minify.Sql
import Reindent.Proofs.Text.Patterns

/-!
# Minifying comes to an end

No pass of a minifier makes a text longer, and one that changes the text makes it lighter. This is
shown for each substitution of the tables and for the operations that only leave characters out;
passes are put together from these. A loop that repeats such a pass until nothing changes therefore
stops, after no more passes than the weight of the text and one, and its result is not changed by
minifying it again.
-/

namespace Reindent.Minify

open Text

/-! ## Texts that become lighter -/

theorem weight_append (s t : List Char) : weight (s ++ t) = weight s + weight t := by
  simp only [weight, List.length_append, List.countP_append]
  omega

/-- The text `t` is no longer than `s`, and it is lighter unless it is the same text. -/
def Lightens (s t : List Char) : Prop :=
  t.length ≤ s.length ∧ (t = s ∨ weight t < weight s)

namespace Lightens

theorem refl (s : List Char) : Lightens s s :=
  ⟨Nat.le_refl _, Or.inl rfl⟩

theorem trans {s t u : List Char} (hst : Lightens s t) (htu : Lightens t u) : Lightens s u := by
  refine ⟨htu.1.trans hst.1, ?_⟩
  rcases htu.2 with rfl | htu
  · exact hst.2
  · rcases hst.2 with rfl | hst
    · exact Or.inr htu
    · exact Or.inr (htu.trans hst)

theorem antisymm {s t : List Char} (hst : Lightens s t) (hts : Lightens t s) : t = s := by
  rcases hst.2 with heq | hlt
  · exact heq
  · rcases hts.2 with heq | hlt'
    · exact heq.symm
    · omega

theorem append {s t s' t' : List Char} (h : Lightens s t) (h' : Lightens s' t') :
    Lightens (s ++ s') (t ++ t') := by
  refine ⟨?_, ?_⟩
  · rw [List.length_append, List.length_append]
    exact Nat.add_le_add h.1 h'.1
  · rw [weight_append, weight_append]
    rcases h.2 with rfl | hlt
    · rcases h'.2 with rfl | hlt'
      · exact Or.inl rfl
      · exact Or.inr (by omega)
    · rcases h'.2 with rfl | hlt'
      · exact Or.inr (by omega)
      · exact Or.inr (by omega)

/-- Leaving characters out makes a text lighter. -/
theorem of_sublist {s t : List Char} (h : t.Sublist s) : Lightens s t := by
  refine ⟨h.length_le, ?_⟩
  by_cases hlength : t.length = s.length
  · exact Or.inl (h.eq_of_length hlength)
  · right
    have hshorter : t.length < s.length := lt_of_le_of_ne h.length_le hlength
    have hblanks := h.countP_le (p := fun c => isBlank c && c != ' ')
    unfold weight
    omega

/-- A run of blanks is no lighter than a single space. -/
theorem space {c : Char} {run : List Char} (hc : isBlank c = true) :
    Lightens (c :: run) [' '] := by
  refine ⟨by simp, ?_⟩
  have hspace : weight [' '] = 1 := by decide
  have hrun : weight (c :: run) = weight [c] + weight run := weight_append [c] run
  by_cases hne : c = ' '
  · subst hne
    cases run with
    | nil => exact Or.inl rfl
    | cons d run =>
      right
      have : 0 < weight (d :: run) := by simp [weight]
      omega
  · right
    have : weight [c] = 2 := by simp [weight, hc, hne]
    omega

end Lightens

/-- Two steps that make a text lighter change nothing together exactly if neither does. -/
theorem comp_eq_self_iff {f g : List Char → List Char}
    (hf : ∀ s, Lightens s (f s)) (hg : ∀ s, Lightens s (g s)) {s : List Char} : g (f s) = s ↔
    f s = s ∧ g s = s := by
  constructor
  · intro hself
    have hback := hg (f s)
    rw [hself] at hback
    have hfirst := (hf s).antisymm hback
    rw [hfirst] at hself
    exact ⟨hfirst, hself⟩
  · rintro ⟨hfirst, hsecond⟩
    rw [hfirst, hsecond]

/-! ## Substitutions that trim blanks -/

/-- What is written in place of a pattern is the pattern without its blanks, but a run of blanks
may leave a space. -/
inductive Trims : Pattern → List Char → Prop where
  | nil : Trims [] []
  | char (c : Char) {p : Pattern} {t : List Char} (h : Trims p t) : Trims (.char c :: p) (c :: t)
  | blank {p : Pattern} {t : List Char} (h : Trims p t) : Trims (.one isBlank :: p) t
  | blanks {p : Pattern} {t : List Char} (h : Trims p t) : Trims (.blanks :: p) t
  | blanks1 {p : Pattern} {t : List Char} (h : Trims p t) : Trims (.blanks1 :: p) t
  | space {p : Pattern} {t : List Char} (h : Trims p t) : Trims (.blanks1 :: p) (' ' :: t)
  | textEnd {p : Pattern} {t : List Char} (h : Trims p t) : Trims (.textEnd :: p) t

theorem Trims.lightens {p : Pattern} {t : List Char} (h : Trims p t) {m s : List Char}
    (hm : Takes p m s) :
    Lightens m t := by
  induction h generalizing m with
  | nil =>
    cases hm
    exact .refl []
  | char c _ ih =>
    cases hm with
    | one hc hm =>
      rw [beq_iff_eq] at hc
      subst hc
      exact Lightens.append (.refl [_]) (ih hm)
  | blank _ ih =>
    cases hm with
    | one _ hm => exact (Lightens.of_sublist (List.sublist_cons_self _ _)).trans (ih hm)
  | blanks _ ih =>
    cases hm with
    | many _ hm => exact (Lightens.of_sublist (List.sublist_append_right _ _)).trans (ih hm)
  | blanks1 _ ih =>
    cases hm with
    | many1 _ hm => exact (Lightens.of_sublist (List.sublist_append_right _ _)).trans (ih hm)
  | space _ ih =>
    cases hm with
    | many1 hrun hm => exact (Lightens.space (hrun _ List.mem_cons_self)).append (ih hm)
  | textEnd _ ih =>
    cases hm with
    | textEnd _ hm => exact ih hm

theorem lightens_apply {r : Substitution} (h : Trims r.pattern r.replacement) (s : List Char) :
    Lightens s (r.apply s) :=
  Substitution.rel_apply r (.refl []) (fun c _ _ hrest => (Lightens.refl [c]).append hrest)
    (fun _ _ _ htakes hrest => (h.lightens htakes).append hrest) s

theorem lightens_applyAll {rs : List Substitution} (h : ∀ r ∈ rs, Trims r.pattern r.replacement)
    (s : List Char) :
    Lightens s (Substitution.applyAll rs s) := by
  induction rs generalizing s with
  | nil => exact .refl s
  | cons r rs ih =>
    have hfirst := lightens_apply (h r List.mem_cons_self) s
    have hrest := ih (fun q hq => h q (List.mem_cons_of_mem r hq)) (r.apply s)
    exact hfirst.trans hrest

theorem trims_oneSpace : Trims Substitution.oneSpace.pattern Substitution.oneSpace.replacement :=
  .space .nil

theorem trims_closeBetween (x y : Char) :
    Trims (closeBetween x y).pattern (closeBetween x y).replacement :=
  .char x (.blanks (.char y .nil))

theorem trims_closeUp (x : Char) : Trims (closeUp x).pattern (closeUp x).replacement :=
  .blanks1 (.char x .nil)

theorem trims_trimBehind (front : List Char) :
    Trims (trimBehind front).pattern (trimBehind front).replacement := by
  simp only [trimBehind]
  induction front with
  | nil => exact .blanks1 .nil
  | cons c front ih => exact .char c ih

theorem trims_jsonRules : ∀ r ∈ jsonRules, Trims r.pattern r.replacement := by
  simp only [jsonRules, List.forall_mem_cons, List.not_mem_nil, false_implies, implies_true,
    and_true]
  refine ⟨?_, ?_, ?_, trims_closeBetween _ _, ?_, ?_, trims_closeBetween _ _,
    trims_closeBetween _ _, trims_closeBetween _ _, trims_closeBetween _ _,
    trims_closeBetween _ _, trims_closeBetween _ _, ?_, ?_⟩
  · exact .blanks (.char _ (.blanks1 .nil))
  · exact .blanks (.char _ (.textEnd .nil))
  · exact .char _ (.blanks .nil)
  · exact .blanks1 (.char _ (.blanks .nil))
  · exact .blanks (.char _ (.blanks .nil))
  · exact .char _ (.blank (.space .nil))
  · exact .char _ (.blanks (.char _ (.blanks (.char _ .nil))))

theorem trims_cssRules : ∀ r ∈ cssRules, Trims r.pattern r.replacement := by
  simp only [cssRules, List.forall_mem_cons, List.not_mem_nil, false_implies, implies_true,
    and_true]
  exact ⟨trims_oneSpace, trims_trimBehind _, trims_trimBehind _, trims_trimBehind _,
    trims_trimBehind _, trims_trimBehind _⟩

theorem trims_sqlRules : ∀ r ∈ sqlRules, Trims r.pattern r.replacement := by
  simp only [sqlRules, List.forall_mem_cons, List.not_mem_nil, false_implies, implies_true,
    and_true]
  exact ⟨trims_oneSpace, trims_closeUp _, trims_closeUp _⟩

/-! ## Operations that leave characters out -/

theorem strip_sublist (s : List Char) : (strip s).Sublist s := by
  have hfront : (s.dropWhile isBlank).Sublist s := List.dropWhile_sublist isBlank
  have hback : ((s.dropWhile isBlank).reverse.dropWhile isBlank).Sublist
      (s.dropWhile isBlank).reverse :=
    List.dropWhile_sublist isBlank
  rw [strip]
  exact (List.reverse_sublist.1 (by rwa [List.reverse_reverse])).trans hfront

theorem dropFound_sublist (find? : List Char → Option Nat) (skip : Nat) (s : List Char) :
    (dropFound find? skip s).Sublist s := by
  induction s generalizing skip with
  | nil => rw [dropFound]
  | cons c s ih =>
    cases skip with
    | succ skip =>
      rw [dropFound]
      exact (ih skip).cons c
    | zero =>
      rw [dropFound]
      split
      · rename_i n _
        exact (ih n).cons c
      · exact (ih 0).cons_cons c

theorem consTight_sublist (c : Char) (s : List Char) : (Xml.consTight c s).Sublist (c :: s) := by
  unfold Xml.consTight
  split
  · rename_i hc
    subst hc
    split
    · rename_i r hr
      have hdrop : ('<' :: r).Sublist s := hr ▸ List.dropWhile_sublist isBlank
      exact hdrop.cons_cons '>'
    · exact List.Sublist.refl _
  · exact List.Sublist.refl _

theorem closeGaps_sublist (s : List Char) : (Xml.closeGaps s).Sublist s := by
  induction s with
  | nil => exact List.Sublist.refl []
  | cons c s ih => exact (consTight_sublist c (Xml.closeGaps s)).trans (ih.cons_cons c)

/-! ## Minifiers -/

/-- The minifiers of the four languages. -/
inductive Minifier where
  | xml (preserveComments : Bool)
  | css (preserveComments : Bool)
  | json
  | sql

namespace Minifier

/-- One pass. -/
def pass : Minifier → List Char → List Char
  | .xml preserve => xmlPass preserve
  | .css preserve => cssPass preserve
  | .json => jsonPass
  | .sql => sqlPass

/-- The minified text. -/
def minify : Minifier → List Char → List Char
  | .xml preserve => Minify.xml preserve
  | .css preserve => Minify.css preserve
  | .json => Minify.json
  | .sql => Minify.sql

theorem minify_eq_settle (m : Minifier) (s : List Char) : m.minify s = settle m.pass s := by
  cases m <;> rfl

/-- Every pass makes the text lighter or leaves it as it is. -/
theorem lightens_pass (m : Minifier) (s : List Char) : Lightens s (m.pass s) := by
  have hcomments : ∀ (preserve : Bool) (find? : List Char → Option Nat),
      Lightens s (if preserve then s else dropFound find? 0 s) := by
    intro preserve find?
    cases preserve with
    | true => exact .refl s
    | false => exact .of_sublist (dropFound_sublist find? 0 s)
  cases m with
  | xml preserve =>
    exact (hcomments preserve xmlComment?).trans (.of_sublist (closeGaps_sublist _))
  | css preserve =>
    have hrules :=
      lightens_applyAll trims_cssRules (if preserve then s else dropFound cssComment? 0 s)
    exact ((hcomments preserve cssComment?).trans hrules).trans (.of_sublist (strip_sublist _))
  | json => exact lightens_applyAll trims_jsonRules s
  | sql => exact lightens_applyAll trims_sqlRules s

end Minifier

/-! ## The loop -/

/-- A loop that starts with `s` and makes one pass after the other until a pass changes nothing
stops after `n` passes and gives `r`. -/
inductive Stops (pass : List Char → List Char) : List Char → Nat → List Char → Prop where
  | here {s : List Char} (h : pass s = s) : Stops pass s 1 s
  | later {s r : List Char} {n : Nat} (h : pass s ≠ s) (rest : Stops pass (pass s) n r) :
      Stops pass s (n + 1) r

variable {pass : List Char → List Char}

theorem Stops.pass_eq {s r : List Char} {n : Nat} (h : Stops pass s n r) : pass r = r := by
  induction h with
  | here h => exact h
  | later _ _ ih => exact ih

/-- A text that one pass takes to a fixed point settles there. -/
theorem settle_eq_of_pass {s t : List Char} (hs : pass s = t) (ht : pass t = t) :
    settle pass s = t := by
  rw [settle, settleWithin]
  simp only [hs]
  by_cases heq : t = s
  · rw [if_pos heq, heq]
  · rw [if_neg heq]
    cases weight s with
    | zero => rfl
    | succ fuel => simp [settleWithin, ht]

/-- As many passes as the weight of the text and one are enough. -/
theorem stops_settleWithin (hpass : ∀ s, Lightens s (pass s)) {fuel : Nat} {s : List Char}
    (hfuel : weight s < fuel) :
    ∃ n ≤ weight s + 1, Stops pass s n (settleWithin pass fuel s) := by
  induction fuel generalizing s with
  | zero => omega
  | succ fuel ih =>
    by_cases hs : pass s = s
    · refine ⟨1, by omega, ?_⟩
      simp only [settleWithin, hs, if_true]
      exact .here hs
    · have hlighter : weight (pass s) < weight s := (hpass s).2.resolve_left hs
      obtain ⟨n, hn, hstops⟩ := ih (s := pass s) (by omega)
      refine ⟨n + 1, by omega, ?_⟩
      simp only [settleWithin, hs, if_false]
      exact .later hs hstops

theorem Minifier.pass_minify (m : Minifier) (s : List Char) :
    m.pass (m.minify s) = m.minify s := by
  obtain ⟨n, -, hstops⟩ := stops_settleWithin m.lightens_pass (Nat.lt_succ_self (weight s))
  rw [m.minify_eq_settle]
  exact hstops.pass_eq

/-- The texts that are minified already are those that a pass leaves as they are. -/
theorem Minifier.minify_eq_self_iff {m : Minifier} {s : List Char} : m.minify s = s ↔
    m.pass s = s := by
  constructor
  · intro hself
    rw [← hself, pass_minify]
  · intro hpass
    rw [m.minify_eq_settle]
    exact settle_eq_of_pass hpass hpass

/-- A pass never makes a text longer and makes it lighter if it changes it. So the loop stops,
after at most as many passes as the text weighs and one, and minifying its result again changes
nothing. -/
theorem minify_settles (m : Minifier) (s : List Char) :
    (m.pass s).length ≤ s.length ∧ (m.pass s ≠ s → weight (m.pass s) < weight s) ∧
      (∃ n ≤ weight s + 1, Stops m.pass s n (m.minify s)) ∧
      m.minify (m.minify s) = m.minify s := by
  obtain ⟨hlength, hweight⟩ := m.lightens_pass s
  obtain ⟨n, hn, hstops⟩ := stops_settleWithin m.lightens_pass (Nat.lt_succ_self (weight s))
  have hminify : m.minify s = settleWithin m.pass (weight s + 1) s := m.minify_eq_settle s
  rw [← hminify] at hstops
  refine ⟨hlength, hweight.resolve_left, ⟨n, hn, hstops⟩, ?_⟩
  rw [m.minify_eq_settle (m.minify s)]
  exact settle_eq_of_pass hstops.pass_eq hstops.pass_eq

end Reindent.Minify
