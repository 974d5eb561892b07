import Mathlib
import Reindent.Proofs.Text.Cuts
import Reindent.Proofs.Text.Patterns

/-!
# Renaming characters

A permutation of the characters renames texts, patterns and substitutions. If it keeps word
characters apart from the others, then substituting in a renamed text by the renamed substitution
gives the renamed result, and the same holds of cutting at a separator. A renaming of two
characters that a text does not hold leaves the text as it is.
-/

namespace Reindent.Text

variable (σ : Equiv.Perm Char)

/-! ## Patterns -/

/-- The part that takes the renamed characters. -/
def Part.rename : Part → Part
  | .one ok => .one fun c => ok (σ.symm c)
  | .many ok => .many fun c => ok (σ.symm c)
  | .many1 ok => .many1 fun c => ok (σ.symm c)
  | .wordEnd => .wordEnd
  | .textEnd => .textEnd

theorem Part.rename_char (c : Char) : (Part.char c).rename σ = Part.char (σ c) := by
  show Part.one (fun x => σ.symm x == c) = Part.one (· == σ c)
  congr 1
  funext x
  rw [Bool.eq_iff_iff, beq_iff_eq, beq_iff_eq]
  exact σ.symm_apply_eq

namespace Pattern

theorem takeMany_map (ok : Char → Bool) {next next' : List Char → Option Nat}
    (hnext : ∀ s, next' (s.map σ) = next s) (s : List Char) :
    takeMany (fun c => ok (σ.symm c)) next' (s.map σ) = takeMany ok next s := by
  induction s with
  | nil => exact hnext []
  | cons c s ih =>
    have hcons := hnext (c :: s)
    rw [List.map_cons] at hcons ⊢
    rw [takeMany, takeMany, σ.symm_apply_apply, ih, hcons]

/-- A renamed pattern takes as much of a renamed text as the pattern takes of the text. -/
theorem span?_map (hword : ∀ c, isWord (σ c) = isWord c) (p : Pattern) (s : List Char) :
    span? (p.map (Part.rename σ)) (s.map σ) = span? p s := by
  induction p generalizing s with
  | nil => rfl
  | cons part p ih =>
    cases part with
    | one ok =>
      cases s with
      | nil => rfl
      | cons c s =>
        show (if ok (σ.symm (σ c)) then (span? (p.map (Part.rename σ)) (s.map σ)).map (· + 1)
          else none) = _
        rw [σ.symm_apply_apply, ih]
        rfl
    | many ok => exact takeMany_map σ ok ih s
    | many1 ok =>
      cases s with
      | nil => rfl
      | cons c s =>
        show (if ok (σ.symm (σ c)) then
          (takeMany (fun d => ok (σ.symm d)) (span? (p.map (Part.rename σ))) (s.map σ)).map (· + 1)
          else none) = _
        rw [σ.symm_apply_apply, takeMany_map σ ok ih]
        rfl
    | wordEnd =>
      have hstarts : startsWord (s.map σ) = startsWord s := by
        cases s with
        | nil => rfl
        | cons c s => exact hword c
      show (if startsWord (s.map σ) then none else span? (p.map (Part.rename σ)) (s.map σ)) = _
      rw [hstarts, ih]
      rfl
    | textEnd =>
      show (if (s.map σ).isEmpty then span? (p.map (Part.rename σ)) (s.map σ) else none) = _
      rw [List.isEmpty_map, ih]
      rfl

end Pattern

/-! ## Substitutions -/

namespace Substitution

/-- The substitution that does to renamed texts what `r` does to texts. -/
def rename (r : Substitution) : Substitution where
  pattern := r.pattern.map (Part.rename σ)
  replacement := r.replacement.map σ

theorem applyFrom_map (hword : ∀ c, isWord (σ c) = isWord c) (r : Substitution) (skip : Nat)
    (s : List Char) :
    (r.rename σ).applyFrom skip (s.map σ) = (r.applyFrom skip s).map σ := by
  induction s generalizing skip with
  | nil => cases skip <;> rfl
  | cons c s ih =>
    cases skip with
    | succ skip => exact ih skip
    | zero =>
      have hspan : (r.rename σ).pattern.span? (σ c :: s.map σ) = r.pattern.span? (c :: s) :=
        Pattern.span?_map σ hword r.pattern (c :: s)
      rw [List.map_cons, applyFrom, applyFrom, hspan]
      rcases r.pattern.span? (c :: s) with _ | _ | n
      · simp only [ih, List.map_cons]
      · simp only [ih, List.map_cons]
      · simp only [ih, List.map_append]
        rfl

theorem apply_map (hword : ∀ c, isWord (σ c) = isWord c) (r : Substitution) (s : List Char) :
    (r.rename σ).apply (s.map σ) = (r.apply s).map σ :=
  applyFrom_map σ hword r 0 s

theorem applyAll_map (hword : ∀ c, isWord (σ c) = isWord c) (rs : List Substitution)
    (s : List Char) :
    applyAll (rs.map (rename σ)) (s.map σ) = (applyAll rs s).map σ := by
  induction rs generalizing s with
  | nil => rfl
  | cons r rs ih =>
    show applyAll (rs.map (rename σ)) ((r.rename σ).apply (s.map σ)) =
      (applyAll rs (r.apply s)).map σ
    rw [apply_map σ hword, ih]

/-- What a substitution leaves comes from the text or from what it writes. -/
theorem mem_of_mem_apply {r : Substitution} {s : List Char} {c : Char} (hc : c ∈ r.apply s) :
    c ∈ s ∨ c ∈ r.replacement := by
  refine r.rel_apply (R := fun s t => c ∈ t → c ∈ s ∨ c ∈ r.replacement) ?_ ?_ ?_ s hc
  · exact fun hmem => absurd hmem List.not_mem_nil
  · intro d s t h hmem
    rcases List.mem_cons.1 hmem with rfl | hmem
    · exact Or.inl List.mem_cons_self
    · exact (h hmem).imp_left (List.mem_cons_of_mem d)
  · intro m s t _ h hmem
    rcases List.mem_append.1 hmem with hmem | hmem
    · exact Or.inr hmem
    · exact (h hmem).imp_left (List.mem_append_right m)

theorem notMem_applyAll {rs : List Substitution} {s : List Char} {c : Char} (hs : c ∉ s)
    (hrs : ∀ r ∈ rs, c ∉ r.replacement) : c ∉ applyAll rs s := by
  induction rs generalizing s with
  | nil => exact hs
  | cons r rs ih =>
    rw [List.forall_mem_cons] at hrs
    exact ih (fun hc => (mem_of_mem_apply hc).elim hs hrs.1) hrs.2

end Substitution

/-! ## Cuts -/

theorem splitOn_map (mark : Char) (s : List Char) :
    splitOn (σ mark) (s.map σ) = (splitOn mark s).map (List.map σ) := by
  have hcons : ∀ c ps, consFirst (σ c) (List.map (List.map σ) ps) =
      (consFirst c ps).map (List.map σ) := by
    intro c ps
    cases ps <;> rfl
  induction s with
  | nil => rfl
  | cons c s ih =>
    rw [List.map_cons, splitOn_cons, splitOn_cons, ih]
    by_cases hc : c = mark
    · rw [if_pos hc, if_pos (congrArg σ hc)]
      rfl
    · rw [if_neg hc, if_neg (fun h => hc (σ.injective h)), hcons]

/-! ## Two characters -/

theorem map_swap_of_notMem {a b : Char} {s : List Char} (ha : a ∉ s) (hb : b ∉ s) :
    s.map (Equiv.swap a b) = s := by
  have hfixed : ∀ c ∈ s, Equiv.swap a b c = c := by
    intro c hc
    exact Equiv.swap_apply_of_ne_of_ne (fun h => ha (h ▸ hc)) (fun h => hb (h ▸ hc))
  rw [List.map_congr_left hfixed, List.map_id']

end Reindent.Text
