import Mathlib
import Reindent.Proofs.Walks

/-!
# Looking up indentation

A table has an entry for depth zero and one more for every level down to the deepest, while the
depths it is asked for have any sign and any size. Each depth that is not refused is looked up at a
position of the table, which counts from the end if it is negative; such a look-up can fail in two
ways (`IndentTable.entry`). In a table that was built neither happens: the entry that is found
stands at the depth itself, cut off at zero and at the deepest level.
-/

namespace Reindent

/-! ## Building -/

theorem Overflow.ofName?_eq_some_iff {name : List Char} {p : Overflow} : ofName? name = some p ↔
    name = p.name := by
  constructor
  · intro h
    rw [ofName?] at h
    split_ifs at h with hclamp herror
    · exact Option.some.inj h ▸ hclamp
    · exact Option.some.inj h ▸ herror
  · rintro rfl
    cases p <;> decide

namespace IndentTable

/-- A table is built for either policy and every deepest level within the limit. -/
theorem build_eq_ok (unit : List Char) {maxDepth : Int} (h : maxDepth ≤ depthLimit)
    (overflow : Overflow) :
    build unit maxDepth overflow.name = .ok (of unit maxDepth overflow) := by
  rw [build, Overflow.ofName?_eq_some_iff.2 rfl]
  exact if_neg (Int.not_lt.2 h)

/-! ## Positions -/

/-- The position at which the entry for a depth is looked up. Negative depths are looked up at the
start, depths beyond the deepest level, unless they are refused, at the end. -/
def position (table : IndentTable) (depth : Int) : Except DepthExceeded Int :=
  if depth < 0 then .ok 0
  else if table.maxDepth < depth then
    match table.overflow with
    | .error => .error ⟨depth, table.maxDepth⟩
    | .clamp => .ok (-1)
  else .ok depth

/-- Where a position lies, counted from the start of the table. -/
def place (table : IndentTable) (position : Int) : Int :=
  if position < 0 then position + table.entries.length else position

/-- A depth cut off at zero and at the deepest level. -/
def level (table : IndentTable) (depth : Int) : Int :=
  min (max depth 0) (max table.maxDepth 0)

/-- Why a depth has no line start: it is refused, or nothing is found at its position. -/
inductive LookupError where
  | refused (error : DepthExceeded)
  | missing (error : EntryError)
deriving DecidableEq, Repr

/-- The start of a line at a depth, as it is found at the position of the depth. -/
def lookup (table : IndentTable) (depth : Int) : Except LookupError (List Char) :=
  match table.position depth with
  | .error e => .error (.refused e)
  | .ok p => (table.entry p).mapError .missing

section

variable (table : IndentTable) (depth : Int)

theorem level_bounds : 0 ≤ table.level depth ∧ table.level depth < table.entries.length := by
  rw [level, table.length_entries]
  omega

theorem lineStart_eq_level :
    table.lineStart depth = '\n' ::
      (List.replicate (table.level depth).toNat table.unit).flatten := by
  have hlevel : (table.level depth).toNat = min depth.toNat table.maxDepth.toNat := by
    rw [level]
    omega
  rw [lineStart, hlevel]

variable {table depth}

/-- A depth that is refused has no position. -/
theorem position_of_refused (h : table.overflow = .error ∧ 0 ≤ depth ∧ table.maxDepth < depth) :
    table.position depth = .error ⟨depth, table.maxDepth⟩ := by
  obtain ⟨hpolicy, hnonneg, hdeep⟩ := h
  rw [position, if_neg (Int.not_lt.2 hnonneg), if_pos hdeep, hpolicy]

/-- The position of a depth that is not refused lies at its level. It counts from the end only if
the depth is beyond the deepest level. -/
theorem exists_position (table : IndentTable) {depth : Int}
    (h : ¬ (table.overflow = .error ∧ 0 ≤ depth ∧ table.maxDepth < depth)) :
    ∃ p, table.position depth = .ok p ∧ table.place p = table.level depth ∧
    p ≤ max table.maxDepth 0 ∧ (0 ≤ p ∨ p = -1 ∧ table.maxDepth < depth) := by
  simp only [place, level, table.length_entries]
  rw [position]
  by_cases hneg : depth < 0
  · exact ⟨0, if_pos hneg, by omega, by omega, Or.inl (Int.le_refl 0)⟩
  · rw [if_neg hneg]
    by_cases hdeep : table.maxDepth < depth
    · rw [if_pos hdeep]
      cases hpolicy : table.overflow with
      | error => exact absurd ⟨hpolicy, Int.not_lt.1 hneg, hdeep⟩ h
      | clamp => exact ⟨-1, rfl, by omega, by omega, Or.inr ⟨rfl, hdeep⟩⟩
    · exact ⟨depth, if_neg hdeep, by omega, by omega, Or.inl (Int.not_lt.1 hneg)⟩

/-- An entry is found at every position that has 64 bits and lies inside the table. -/
theorem entry_of_place {p : Int} {i : Nat} (hlo : -wordBound ≤ p) (hhi : p < wordBound)
    (hplace : table.place p = i) (hi : i ≤ table.maxDepth.toNat) :
    table.entry p = .ok ('\n' :: (List.replicate i table.unit).flatten) := by
  rw [place] at hplace
  have hwide : (decide (wordBound ≤ p) || decide (p < -wordBound)) = false := by
    simpa using ⟨hhi, hlo⟩
  rw [entry, hwide, if_neg Bool.false_ne_true]
  simp only [hplace]
  rw [if_neg (by omega), Int.toNat_natCast, table.getElem?_entries hi]

/-- No look-up fails: what is found at the position of a depth is the start of its line. -/
theorem lookup_eq_shift (hmax : table.maxDepth ≤ depthLimit) (depth : Int) :
    table.lookup depth = (table.shift depth).mapError .refused := by
  rw [lookup, shift_eq]
  by_cases hrefused : table.overflow = .error ∧ 0 ≤ depth ∧ table.maxDepth < depth
  · rw [position_of_refused hrefused, if_pos hrefused]
    rfl
  · obtain ⟨p, hposition, hplace, hlast, hfirst⟩ := exists_position table hrefused
    obtain ⟨hlevel, hlength⟩ := table.level_bounds depth
    rw [table.length_entries] at hlength
    -- A deepest level within the limit keeps every position far from the ends of the 64 bits.
    have hlo : -wordBound ≤ p := by
      rw [wordBound]
      omega
    have hhi : p < wordBound := by
      rw [depthLimit] at hmax
      rw [wordBound]
      omega
    have hfound :=
      entry_of_place hlo hhi (hplace.trans (Int.toNat_of_nonneg hlevel).symm) (by omega)
    rw [hposition, if_neg hrefused, lineStart_eq_level]
    show (table.entry p).mapError LookupError.missing = _
    rw [hfound]
    rfl

end

/-- A table for any unit, any deepest level within the limit and either policy has a line start for
every depth, or refuses it. It refuses the depths that are neither negative nor within the deepest
level, if that is its policy. Else the line start is a line end and as many units as the depth
says, counted from zero to the deepest level. No look-up fails, and the entry that is found stands
at that level from the start of the table; only depths beyond the deepest level are looked up from
the end, and these at the last entry. -/
theorem shift_total_exact (unit : List Char) (maxDepth : Int) (hmax : maxDepth ≤ 1000)
    (overflow : Overflow) :
    ∃ table, build unit maxDepth overflow.name = .ok table ∧ ∀ depth : Int,
      table.shift depth =
        (if overflow = .error ∧ 0 ≤ depth ∧ maxDepth < depth then .error ⟨depth, maxDepth⟩
        else .ok ('\n' ::
          (List.replicate (min (max depth 0) (max maxDepth 0)).toNat unit).flatten)) ∧
      table.lookup depth = (table.shift depth).mapError .refused ∧
      ∀ p, table.position depth = .ok p →
        table.place p = min (max depth 0) (max maxDepth 0) ∧
        (p < 0 → p = -1 ∧ maxDepth < depth) := by
  refine ⟨of unit maxDepth overflow, build_eq_ok unit hmax overflow, fun depth => ⟨?_, ?_, ?_⟩⟩
  · rw [shift_eq, lineStart_eq_level]
    rfl
  · exact lookup_eq_shift hmax depth
  · intro p hp
    by_cases hrefused : overflow = .error ∧ 0 ≤ depth ∧ maxDepth < depth
    · rw [position_of_refused hrefused] at hp
      cases hp
    · obtain ⟨q, hq, hplace, -, hfirst⟩ := exists_position (of unit maxDepth overflow) hrefused
      obtain rfl : q = p := Except.ok.inj (hq.symm.trans hp)
      exact ⟨hplace, fun hneg => hfirst.resolve_left (Int.not_le.2 hneg)⟩

/-- A table with a negative deepest level has one entry. It is found for a negative depth and, from
the end, for one that no word holds. -/
theorem shift_total_exact_one_entry :
    (-3 : Int) ≤ 1000 ∧ ∃ table, build ['\t'] (-3) Overflow.clamp.name = .ok table ∧
    table.shift (-7) = .ok ['\n'] ∧ table.shift 18446744073709551616 = .ok ['\n'] ∧
    table.position 18446744073709551616 = .ok (-1) ∧ table.place (-1) = 0 := by
  obtain ⟨table, hbuild, htable⟩ := shift_total_exact ['\t'] (-3) (by decide) .clamp
  have hposition : table.position 18446744073709551616 = .ok (-1) := by
    rw [build_eq_ok ['\t'] (by decide) .clamp] at hbuild
    obtain rfl := Except.ok.inj hbuild
    decide
  exact ⟨by decide, table, hbuild, (htable (-7)).1, (htable 18446744073709551616).1, hposition,
    ((htable 18446744073709551616).2.2 _ hposition).1⟩

end IndentTable

end Reindent
