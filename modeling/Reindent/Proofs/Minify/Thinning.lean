import Mathlib
import Reindent.Proofs.Minify.Settle

/-!
# Minifying JSON thins its blanks out

`Thins s t` says that `t` is the text `s` with some blanks left out and some replaced by spaces.
Every substitution of the table does this and nothing else, and so does the whole loop.
-/

namespace Reindent.Minify

open Text

/-- The second text is the first with some blanks left out and some replaced by spaces. -/
inductive Thins : List Char → List Char → Prop where
  | nil : Thins [] []
  | keep (c : Char) {s t : List Char} (h : Thins s t) : Thins (c :: s) (c :: t)
  | drop {c : Char} {s t : List Char} (hc : isBlank c = true) (h : Thins s t) : Thins (c :: s) t
  | space {c : Char} {s t : List Char} (hc : isBlank c = true) (h : Thins s t) :
      Thins (c :: s) (' ' :: t)

namespace Thins

theorem refl (s : List Char) : Thins s s := by
  induction s with
  | nil => exact .nil
  | cons c s ih => exact .keep c ih

theorem trans {s t u : List Char} (hst : Thins s t) (htu : Thins t u) : Thins s u := by
  induction hst generalizing u with
  | nil => exact htu
  | keep c _ ih =>
    cases htu with
    | keep _ h => exact .keep c (ih h)
    | drop hc h => exact .drop hc (ih h)
    | space hc h => exact .space hc (ih h)
  | drop hc _ ih => exact .drop hc (ih htu)
  | space hc _ ih =>
    cases htu with
    | keep _ h => exact .space hc (ih h)
    | drop _ h => exact .drop hc (ih h)
    | space _ h => exact .space hc (ih h)

theorem append {s t s' t' : List Char} (h : Thins s t) (h' : Thins s' t') :
    Thins (s ++ s') (t ++ t') := by
  induction h with
  | nil => exact h'
  | keep c _ ih => exact .keep c ih
  | drop hc _ ih => exact .drop hc ih
  | space hc _ ih => exact .space hc ih

/-- A text that was put together from two is thinned out part by part. -/
theorem exists_append {s s' t : List Char} (h : Thins (s ++ s') t) :
    ∃ x y, t = x ++ y ∧ Thins s x ∧ Thins s' y := by
  induction s generalizing t with
  | nil => exact ⟨[], t, rfl, .nil, h⟩
  | cons c s ih =>
    cases h with
    | keep _ h =>
      obtain ⟨x, y, rfl, hx, hy⟩ := ih h
      exact ⟨c :: x, y, rfl, .keep c hx, hy⟩
    | drop hc h =>
      obtain ⟨x, y, rfl, hx, hy⟩ := ih h
      exact ⟨x, y, rfl, .drop hc hx, hy⟩
    | space hc h =>
      obtain ⟨x, y, rfl, hx, hy⟩ := ih h
      exact ⟨' ' :: x, y, rfl, .space hc hx, hy⟩

/-- A character that is no blank stays. -/
theorem exists_cons {c : Char} {s t : List Char} (h : Thins (c :: s) t) (hc : isBlank c = false) :
    ∃ t', t = c :: t' ∧ Thins s t' := by
  cases h with
  | keep _ h => exact ⟨_, rfl, h⟩
  | drop hblank _ => exact absurd hblank (by simp [hc])
  | space hblank _ => exact absurd hblank (by simp [hc])

/-- A text without blanks stays. -/
theorem eq_of_forall_not_isBlank {s t : List Char} (h : Thins s t)
    (hs : ∀ c ∈ s, isBlank c = false) : t = s := by
  induction s generalizing t with
  | nil =>
    cases h
    rfl
  | cons c s ih =>
    obtain ⟨t', rfl, h'⟩ := h.exists_cons (hs c List.mem_cons_self)
    rw [ih h' fun d hd => hs d (List.mem_cons_of_mem c hd)]

theorem of_append {u s t : List Char}
    (h : Thins (u ++ s) (u ++ t)) (hu : ∀ c ∈ u, isBlank c = false) :
    Thins s t := by
  obtain ⟨x, y, hxy, hx, hy⟩ := h.exists_append
  rw [hx.eq_of_forall_not_isBlank hu] at hxy
  rwa [List.append_cancel_left hxy]

/-- A run of blanks may be left out. -/
theorem dropRun {run s t : List Char} (hrun : ∀ c ∈ run, isBlank c = true) (h : Thins s t) :
    Thins (run ++ s) t := by
  induction run with
  | nil => exact h
  | cons c run ih =>
    exact .drop (hrun c List.mem_cons_self) (ih fun d hd => hrun d (List.mem_cons_of_mem c hd))

end Thins

/-! ## Substitutions and passes -/

theorem Trims.thins {p : Pattern} {t : List Char} (h : Trims p t) {m s : List Char}
    (hm : Takes p m s) : Thins m t := by
  induction h generalizing m with
  | nil =>
    cases hm
    exact .nil
  | char c _ ih =>
    cases hm with
    | one hc hm =>
      rw [beq_iff_eq] at hc
      subst hc
      exact .keep _ (ih hm)
  | blank _ ih =>
    cases hm with
    | one hc hm => exact .drop hc (ih hm)
  | blanks _ ih =>
    cases hm with
    | many hrun hm => exact .dropRun hrun (ih hm)
  | blanks1 _ ih =>
    cases hm with
    | many1 hrun hm => exact .dropRun hrun (ih hm)
  | space _ ih =>
    cases hm with
    | @many1 _ _ c run _ _ hrun hm =>
      exact .space (hrun c List.mem_cons_self)
        (.dropRun (fun d hd => hrun d (List.mem_cons_of_mem c hd)) (ih hm))
  | textEnd _ ih =>
    cases hm with
    | textEnd _ hm => exact ih hm

theorem thins_apply {r : Substitution} (h : Trims r.pattern r.replacement) (s : List Char) :
    Thins s (r.apply s) :=
  Substitution.rel_apply r .nil (fun c _ _ hrest => .keep c hrest)
    (fun _ _ _ htakes hrest => (h.thins htakes).append hrest) s

end Reindent.Minify
