import Mathlib
import Reindent.Json.Pretty
import Reindent.Proofs.Json.Reading

/-!
# Laying out and reading again

A document without fractions and lone halves is laid out as a text that has the same value, and
laying that text out again gives it back. What can be read names each member of an object once and
holds no overlong integer (`Form.wellFormed_value`), and every such value is written as the layout
of a syntax tree of its own, which takes no more levels than the document did (`hasForm_write`,
`Form.nesting_value_le`).
-/

namespace Reindent.Json

open Text

/-! ## Values -/

mutual

/-- All numbers are integers, and no string holds a lone half. -/
def isPlain : Json → Bool
  | .null => true
  | .bool _ => true
  | .int _ => true
  | .real _ => false
  | .text s => s.all fun x => !x.isHalf
  | .list items => itemsPlain items
  | .object members => membersPlain members

/-- All items are plain. -/
def itemsPlain : List Json → Bool
  | [] => true
  | v :: vs => v.isPlain && itemsPlain vs

/-- All names and values are plain. -/
def membersPlain : List (List Symbol × Json) → Bool
  | [] => true
  | (name, v) :: ms => (name.all fun x => !x.isHalf) && v.isPlain && membersPlain ms

end

mutual

/-- No integer is overlong, and no object names a member twice. -/
def WellFormed : Json → Prop
  | .int n => (showNat n.natAbs).length ≤ maxDigits
  | .list items => ItemsWellFormed items
  | .object members => (members.map Prod.fst).Nodup ∧ MembersWellFormed members
  | _ => True

def ItemsWellFormed : List Json → Prop
  | [] => True
  | v :: vs => v.WellFormed ∧ ItemsWellFormed vs

def MembersWellFormed : List (List Symbol × Json) → Prop
  | [] => True
  | (_, v) :: ms => v.WellFormed ∧ MembersWellFormed ms

end

mutual

/-- How deeply lists and objects are nested in a value. -/
def nesting : Json → Nat
  | .list items => itemNesting items + 1
  | .object members => memberNesting members + 1
  | _ => 0

def itemNesting : List Json → Nat
  | [] => 0
  | v :: vs => max v.nesting (itemNesting vs)

def memberNesting : List (List Symbol × Json) → Nat
  | [] => 0
  | (_, v) :: ms => max v.nesting (memberNesting ms)

end

/-! ## What can be read is well formed -/

/-- Digits stand for a number below the power of ten of their count. -/
theorem digitsValue_lt {ds : List Char} (h : IsDigits ds) : digitsValue ds < 10 ^ ds.length := by
  have hfold : ∀ (ds : List Char) (n : Nat), IsDigits ds →
      (ds.map fun c => c.toNat - 48).foldl (fun n d => 10 * n + d) n <
        (n + 1) * 10 ^ ds.length := by
    intro ds
    induction ds with
    | nil => simp
    | cons d ds ih =>
      intro n hds
      have hd := hds d List.mem_cons_self
      have hd9 : d.toNat - 48 ≤ 9 := by
        simp only [isDigit, Bool.and_eq_true, decide_eq_true_eq, Char.le_def,
          UInt32.le_iff_toNat_le] at hd
        have : d.val.toNat ≤ 57 := hd.2
        have : d.toNat = d.val.toNat := rfl
        omega
      have hrest := ih (10 * n + (d.toNat - 48)) fun c hc => hds c (List.mem_cons_of_mem d hc)
      rw [List.map_cons, List.foldl_cons, List.length_cons]
      calc (ds.map fun c => c.toNat - 48).foldl (fun n d => 10 * n + d) (10 * n + (d.toNat - 48))
          < (10 * n + (d.toNat - 48) + 1) * 10 ^ ds.length := hrest
        _ ≤ ((n + 1) * 10) * 10 ^ ds.length := Nat.mul_le_mul_right _ (by omega)
        _ = (n + 1) * 10 ^ (ds.length + 1) := by rw [Nat.pow_succ, Nat.mul_assoc, Nat.mul_comm 10]
  simpa [digitsValue, ofDigits] using hfold ds 0 h

theorem IsWhole.isDigits {ds : List Char} (h : IsWhole ds) : IsDigits ds := by
  rcases h with rfl | ⟨_, _, _, _, h⟩
  · exact List.forall_mem_singleton.2 (by decide)
  · exact h

theorem IsScalar.wellFormed {x : List Char} {v : Json} (h : IsScalar x v) : v.WellFormed := by
  cases h with
  | name h =>
    simp only [names, List.mem_cons, Prod.mk.injEq, List.not_mem_nil, or_false] at h
    rcases h with ⟨-, rfl⟩ | ⟨-, rfl⟩ | ⟨-, rfl⟩ | ⟨-, rfl⟩ | ⟨-, rfl⟩ <;> simp [WellFormed]
  | minusInfinity => simp [WellFormed]
  | number n hn =>
    by_cases hinteger : n.isInteger = true
    · have hlength : n.whole.length ≤ maxDigits := by simpa [Numeral.isOverlong, hinteger] using hn
      have habs : (if n.negative then -(digitsValue n.whole : Int)
          else digitsValue n.whole).natAbs = digitsValue n.whole := by
        split_ifs <;> simp
      rw [Numeral.value, if_pos hinteger, WellFormed, habs, showNat,
        Nat.length_toDigits_le_iff (by decide) (by decide)]
      exact (digitsValue_lt n.isWhole.isDigits).trans_le (Nat.pow_le_pow_right (by decide) hlength)
    · rw [Numeral.value, if_neg hinteger]
      simp [WellFormed]

theorem membersWellFormed_putMember {name : List Symbol} {v : Json}
    {ms : List (List Symbol × Json)} (hv : v.WellFormed) (h : MembersWellFormed ms) :
    MembersWellFormed (putMember name v ms) := by
  induction ms with
  | nil =>
    rw [putMember, MembersWellFormed, MembersWellFormed]
    exact ⟨hv, trivial⟩
  | cons m ms ih =>
    obtain ⟨n, w⟩ := m
    rw [MembersWellFormed] at h
    rw [putMember]
    split_ifs with hn
    · rw [MembersWellFormed]
      exact ⟨hv, h.2⟩
    · rw [MembersWellFormed]
      exact ⟨h.1, ih h.2⟩

mutual

/-- The value of a document is well formed. -/
theorem Form.wellFormed_value (f : Form) : f.value.WellFormed := by
  match f with
  | .scalar x =>
    rw [Form.value]
    exact x.isScalar.wellFormed
  | .text l =>
    rw [Form.value]
    simp [WellFormed]
  | .list items =>
    rw [Form.value, WellFormed]
    exact itemsWellFormed_itemValues items
  | .object members =>
    rw [Form.value, WellFormed]
    exact membersWellFormed_memberValues members [] List.nodup_nil
      (by rw [MembersWellFormed]; trivial)

theorem itemsWellFormed_itemValues (fs : List Form) : ItemsWellFormed (itemValues fs) := by
  match fs with
  | [] =>
    rw [itemValues, ItemsWellFormed]
    trivial
  | f :: fs =>
    rw [itemValues, ItemsWellFormed]
    exact ⟨f.wellFormed_value, itemsWellFormed_itemValues fs⟩

theorem membersWellFormed_memberValues
    (ms : List (Literal × Form)) (done : List (List Symbol × Json))
    (hnodup : (done.map Prod.fst).Nodup) (hdone : MembersWellFormed done) :
    ((memberValues done ms).map Prod.fst).Nodup ∧ MembersWellFormed (memberValues done ms) := by
  match ms with
  | [] =>
    rw [memberValues]
    exact ⟨hnodup, hdone⟩
  | (name, f) :: ms =>
    rw [memberValues]
    exact membersWellFormed_memberValues ms _ (nodup_putMember hnodup)
      (membersWellFormed_putMember f.wellFormed_value hdone)

end

theorem IsScalar.nesting_eq_zero {x : List Char} {v : Json} (h : IsScalar x v) :
    v.nesting = 0 := by
  cases h with
  | name h =>
    simp only [names, List.mem_cons, Prod.mk.injEq, List.not_mem_nil, or_false] at h
    rcases h with ⟨-, rfl⟩ | ⟨-, rfl⟩ | ⟨-, rfl⟩ | ⟨-, rfl⟩ | ⟨-, rfl⟩ <;> rw [nesting] <;> simp
  | minusInfinity => simp [nesting]
  | number n hn =>
    rw [Numeral.value]
    split_ifs <;> simp [nesting]

theorem memberNesting_putMember_le (name : List Symbol) (v : Json)
    (ms : List (List Symbol × Json)) :
    memberNesting (putMember name v ms) ≤ max v.nesting (memberNesting ms) := by
  induction ms with
  | nil => simp [putMember, memberNesting]
  | cons m ms ih =>
    obtain ⟨n, w⟩ := m
    rw [putMember]
    split_ifs with hn
    · rw [memberNesting, memberNesting]
      omega
    · rw [memberNesting, memberNesting]
      omega

mutual

/-- A value is not nested more deeply than the document it stands in. -/
theorem Form.nesting_value_le (f : Form) : f.value.nesting ≤ f.levels := by
  match f with
  | .scalar x =>
    rw [Form.value, x.isScalar.nesting_eq_zero]
    exact Nat.zero_le _
  | .text l =>
    rw [Form.value, nesting]
    · exact Nat.zero_le _
    all_goals simp
  | .list items =>
    rw [Form.value, nesting, Form.levels]
    exact Nat.succ_le_succ (itemNesting_itemValues_le items)
  | .object members =>
    have hmembers := memberNesting_memberValues_le members []
    rw [memberNesting, Nat.zero_max] at hmembers
    rw [Form.value, nesting, Form.levels]
    exact Nat.succ_le_succ hmembers

theorem itemNesting_itemValues_le (fs : List Form) :
    itemNesting (itemValues fs) ≤ Form.itemLevels fs := by
  match fs with
  | [] => rw [itemValues, itemNesting, Form.itemLevels]
  | f :: fs =>
    have hfirst := f.nesting_value_le
    have hlater := itemNesting_itemValues_le fs
    rw [itemValues, itemNesting, Form.itemLevels]
    omega

theorem memberNesting_memberValues_le (ms : List (Literal × Form))
    (done : List (List Symbol × Json)) :
    memberNesting (memberValues done ms) ≤ max (memberNesting done) (Form.memberLevels ms) := by
  match ms with
  | [] =>
    rw [memberValues, Form.memberLevels]
    exact Nat.le_max_left _ _
  | (name, f) :: ms =>
    have hfirst := f.nesting_value_le
    have hput := memberNesting_putMember_le name.value f.value done
    have hlater := memberNesting_memberValues_le ms (putMember name.value f.value done)
    rw [memberValues, Form.memberLevels]
    omega

end

/-! ## What is written has a tree -/

theorem isDigits_showNat (n : Nat) : IsDigits (showNat n) := by
  intro c hc
  have := Nat.isDigit_of_mem_toDigits (by decide) (by decide) hc
  simpa [Char.isDigit, isDigit, Char.le_def] using this

theorem digitsValue_showNat (n : Nat) : digitsValue (showNat n) = n := by
  rw [digitsValue, ofDigits, List.foldl_map]
  exact Nat.ofDigitChars_toDigits (by decide) (by decide)

/-- The digits of a positive number do not start with zero. -/
theorem exists_showNat_eq {n : Nat} (hn : n ≠ 0) : ∃ c r, showNat n = c :: r ∧ c ≠ '0' := by
  induction n using Nat.strong_induction_on with
  | _ n ih =>
    rw [showNat]
    by_cases hlt : n < 10
    · refine ⟨n.digitChar, [], Nat.toDigits_of_lt_base hlt, ?_⟩
      interval_cases n <;> simp_all
    · obtain ⟨c, r, hr, hc⟩ := ih (n / 10) (by omega) (by omega)
      rw [showNat] at hr
      exact ⟨c, r ++ [(n % 10).digitChar],
        by rw [Nat.toDigits_of_base_le (by decide) (by omega), hr]; rfl, hc⟩

theorem isWhole_showNat (n : Nat) : IsWhole (showNat n) := by
  by_cases hn : n = 0
  · subst hn
    exact .inl (by decide)
  · obtain ⟨c, r, h, hc⟩ := exists_showNat_eq hn
    exact .inr ⟨c, r, h, hc, isDigits_showNat n⟩

/-- The decimal notation of an integer. -/
def Numeral.ofInt (n : Int) : Numeral :=
  ⟨decide (n < 0), showNat n.natAbs, [], none, isWhole_showNat n.natAbs, isDigits_nil⟩

theorem Numeral.text_ofInt (n : Int) : (ofInt n).text = showInt n := by
  by_cases hn : n < 0 <;> simp [text, ofInt, unsigned, fractionText, exponentText, showInt, hn]

theorem Numeral.value_ofInt (n : Int) : (ofInt n).value = .int n := by
  have hint : (if n < 0 then -(n.natAbs : Int) else n.natAbs) = n := by
    split_ifs <;> omega
  simp only [value, isInteger, ofInt, digitsValue_showNat, List.isEmpty_nil, Option.isNone_none,
    Bool.and_true, decide_eq_true_eq, if_true, hint]

theorem Numeral.isOverlong_ofInt {n : Int} (h : (showNat n.natAbs).length ≤ maxDigits) :
    (ofInt n).isOverlong = false := by
  simp only [isOverlong, isInteger, ofInt, List.isEmpty_nil, Option.isNone_none, Bool.and_true,
    Bool.true_and]
  exact decide_eq_false (Nat.not_lt.2 h)

/-- A string without lone halves is a text. -/
theorem exists_symbols_eq {s : List Symbol} (h : s.all (fun x => !x.isHalf) = true) :
    ∃ cs, s = symbols cs := by
  induction s with
  | nil => exact ⟨[], rfl⟩
  | cons x s ih =>
    rw [List.all_cons, Bool.and_eq_true] at h
    obtain ⟨cs, rfl⟩ := ih h.2
    cases x with
    | char c => exact ⟨c :: cs, rfl⟩
    | half n => simp [Symbol.isHalf] at h

theorem symbols_append (s t : List Char) : symbols (s ++ t) = symbols s ++ symbols t :=
  List.map_append

theorem exists_newline_eq {unit : List Char} (hunit : IsSpaces unit) (level : Nat) :
    ∃ gap, IsSpaces gap ∧ newline unit level = symbols gap := by
  refine ⟨_, ?_, rfl⟩
  refine List.forall_mem_cons.2 ⟨by decide, fun c hc => ?_⟩
  obtain ⟨u, hu, hc⟩ := List.mem_flatten.1 hc
  exact hunit c (List.eq_of_mem_replicate hu ▸ hc)

/-- A string as it is written. -/
theorem exists_literal_writeString {s : List Symbol} (h : s.all (fun x => !x.isHalf) = true) :
    ∃ l : Literal, l.value = s ∧ writeString s = symbols l.text := by
  obtain ⟨cs, rfl⟩ := exists_symbols_eq h
  exact ⟨⟨_, _, spells_flatMap_writeChar cs⟩, rfl, writeString_symbols cs⟩

/-- What is written for `v` is the layout of a tree with the value `v`, which takes no more levels
than the value is nested. -/
def HasForm (v : Json) (out : List Symbol) : Prop :=
  ∃ (f : Form) (s : List Char),
    f.value = v ∧ out = symbols s ∧ Layout f.tokens s ∧ f.levels ≤ v.nesting

theorem hasForm_scalar {x : List Char} {v : Json} (h : IsScalar x v)
    (hname : isNumberName x = false) : HasForm v (symbols x) := by
  refine ⟨.scalar ⟨x, v, h⟩, x, by rw [Form.value], rfl, ?_, ?_⟩
  · rw [Form.tokens]
    exact Layout.single (.scalar ⟨x, v, h⟩)
  · rw [Form.levels, if_neg (by simp [hname])]
    exact Nat.zero_le _

section

variable {unit : List Char} (hunit : IsSpaces unit)

include hunit

/-- An item on a line of its own. -/
theorem exists_item_write {v : Json} {level : Nat} (hv : HasForm v (write unit level v)) :
    ∃ (f : Form) (s : List Char), f.value = v ∧
      newline unit level ++ write unit level v = symbols s ∧ Layout f.tokens s ∧
      f.levels ≤ v.nesting := by
  obtain ⟨f, s, hf, hs, hlayout, hlevels⟩ := hv
  obtain ⟨gap, hgap, hnewline⟩ := exists_newline_eq hunit level
  exact ⟨f, gap ++ s, hf, by rw [hnewline, hs, symbols_append], hlayout.gap hgap, hlevels⟩

/-- A member on a line of its own. -/
theorem exists_member_write {name : List Symbol} {v : Json} {level : Nat}
    (hname : name.all (fun x => !x.isHalf) = true) (hv : HasForm v (write unit level v)) :
    ∃ (l : Literal) (f : Form) (s : List Char), l.value = name ∧ f.value = v ∧
      newline unit level ++ writeString name ++ symbols [':', ' '] ++ write unit level v =
        symbols s ∧
      Layout (.string l :: .mark .colon :: f.tokens) s ∧ f.levels ≤ v.nesting := by
  obtain ⟨l, rfl, hl⟩ := exists_literal_writeString hname
  obtain ⟨f, s, hf, hs, hlayout, hlevels⟩ := hv
  obtain ⟨gap, hgap, hnewline⟩ := exists_newline_eq hunit level
  refine ⟨l, f, gap ++ (l.text ++ (':' :: ([' '] ++ s))), rfl, hf, ?_, ?_, hlevels⟩
  · rw [hnewline, hl, hs]
    simp [symbols]
  · have hspace : IsSpaces [' '] := List.forall_mem_singleton.2 (by decide)
    exact (((hlayout.gap hspace).token (.mark .colon)).token (.string l)).gap hgap

mutual

/-- A plain value is written as the layout of a tree. -/
theorem hasForm_write (v : Json) (level : Nat) (hplain : v.isPlain = true) (hv : v.WellFormed) :
    HasForm v (write unit level v) := by
  match v with
  | .null =>
    rw [write]
    exact hasForm_scalar (.name (by simp [names])) rfl
  | .bool true =>
    rw [write]
    exact hasForm_scalar (.name (by simp [names])) rfl
  | .bool false =>
    rw [write]
    exact hasForm_scalar (.name (by simp [names])) rfl
  | .int n =>
    rw [WellFormed] at hv
    have h := IsScalar.number (Numeral.ofInt n) (Numeral.isOverlong_ofInt hv)
    have hname := (Numeral.ofInt n).isNumberName_append []
    rw [Numeral.text_ofInt, Numeral.value_ofInt] at h
    rw [Numeral.text_ofInt, List.append_nil] at hname
    rw [write]
    exact hasForm_scalar h hname
  | .real x =>
    rw [isPlain] at hplain
    cases hplain
  | .text s =>
    rw [isPlain] at hplain
    obtain ⟨l, rfl, hl⟩ := exists_literal_writeString hplain
    refine ⟨.text l, l.text, by rw [Form.value], by rw [write, hl], ?_,
      by rw [Form.levels]; exact Nat.zero_le _⟩
    rw [Form.tokens]
    exact Layout.single (.string l)
  | .list [] =>
    refine ⟨.list [], ['[', ']'], by rw [Form.value, itemValues], by rw [write], ?_,
      by rw [Form.levels, Form.itemLevels, nesting, itemNesting]⟩
    rw [Form.tokens]
    exact (Layout.single (.mark .closeList)).token (.mark .openList)
  | .list (v :: vs) =>
    rw [isPlain, itemsPlain, Bool.and_eq_true] at hplain
    rw [WellFormed, ItemsWellFormed] at hv
    obtain ⟨f, x, rfl, hx, hfirst, hlevels⟩ :=
      exists_item_write hunit (hasForm_write v (level + 1) hplain.1 hv.1)
    obtain ⟨fs, y, rfl, hy, hlater, hlevels'⟩ :=
      exists_forms_writeItems vs (level + 1) hplain.2 hv.2
    obtain ⟨gap, hgap, hnewline⟩ := exists_newline_eq hunit level
    refine ⟨.list (f :: fs), '[' :: (x ++ (y ++ (gap ++ [']']))),
      by rw [Form.value, itemValues], ?_, ?_, ?_⟩
    · rw [write, hx, hy, hnewline]
      simp [symbols]
    · rw [Form.tokens]
      exact (hfirst.append (hlater gap hgap)).token (.mark .openList)
    · rw [Form.levels, Form.itemLevels, nesting, itemNesting]
      omega
  | .object [] =>
    refine ⟨.object [], ['\x7b', '\x7d'], by rw [Form.value, memberValues], by rw [write], ?_,
      by rw [Form.levels, Form.memberLevels, nesting, memberNesting]⟩
    rw [Form.tokens]
    exact (Layout.single (.mark .closeObject)).token (.mark .openObject)
  | .object ((name, v) :: ms) =>
    rw [isPlain, membersPlain, Bool.and_eq_true, Bool.and_eq_true] at hplain
    rw [WellFormed, MembersWellFormed] at hv
    obtain ⟨l, f, x, rfl, rfl, hx, hfirst, hlevels⟩ :=
      exists_member_write hunit hplain.1.1 (hasForm_write v (level + 1) hplain.1.2 hv.2.1)
    obtain ⟨fs, y, rfl, hy, hlater, hlevels'⟩ :=
      exists_forms_writeMembers ms (level + 1) hplain.2 hv.2.2
    obtain ⟨gap, hgap, hnewline⟩ := exists_newline_eq hunit level
    refine ⟨.object ((l, f) :: fs), '\x7b' :: (x ++ (y ++ (gap ++ ['\x7d']))), ?_, ?_, ?_, ?_⟩
    · rw [Form.value, memberValues_of_nodup ((l, f) :: fs) [] hv.1]
      rfl
    · rw [write, hx, hy, hnewline]
      simp [symbols]
    · rw [Form.tokens]
      exact (hfirst.append (hlater gap hgap)).token (.mark .openObject)
    · rw [Form.levels, Form.memberLevels, nesting, memberNesting]
      omega

theorem exists_forms_writeItems (vs : List Json) (level : Nat) (hplain : itemsPlain vs = true)
    (hvs : ItemsWellFormed vs) : ∃ (fs : List Form) (s : List Char), itemValues fs = vs ∧
      writeItems unit level vs = symbols s ∧
      (∀ gap, IsSpaces gap → Layout (laterItems fs) (s ++ (gap ++ [']']))) ∧
      Form.itemLevels fs ≤ itemNesting vs := by
  match vs with
  | [] =>
    refine ⟨[], [], by rw [itemValues], by rw [writeItems]; rfl, fun gap hgap => ?_,
      Nat.zero_le _⟩
    rw [laterItems, List.nil_append]
    exact (Layout.single (.mark .closeList)).gap hgap
  | v :: vs =>
    rw [itemsPlain, Bool.and_eq_true] at hplain
    rw [ItemsWellFormed] at hvs
    obtain ⟨f, x, rfl, hx, hfirst, hlevels⟩ :=
      exists_item_write hunit (hasForm_write v level hplain.1 hvs.1)
    obtain ⟨fs, y, rfl, hy, hlater, hlevels'⟩ := exists_forms_writeItems vs level hplain.2 hvs.2
    refine ⟨f :: fs, ',' :: (x ++ y), by rw [itemValues], ?_, fun gap hgap => ?_, ?_⟩
    · rw [writeItems, hx, hy]
      simp [symbols]
    · rw [laterItems, List.cons_append, List.append_assoc]
      exact (hfirst.append (hlater gap hgap)).token (.mark .comma)
    · rw [Form.itemLevels, itemNesting]
      omega

theorem exists_forms_writeMembers
    (ms : List (List Symbol × Json)) (level : Nat) (hplain : membersPlain ms = true)
    (hms : MembersWellFormed ms) : ∃ (fs : List (Literal × Form)) (s : List Char),
      memberPairs fs = ms ∧ writeMembers unit level ms = symbols s ∧
      (∀ gap, IsSpaces gap → Layout (laterMembers fs) (s ++ (gap ++ ['\x7d']))) ∧
      Form.memberLevels fs ≤ memberNesting ms := by
  match ms with
  | [] =>
    refine ⟨[], [], rfl, by rw [writeMembers]; rfl, fun gap hgap => ?_, Nat.zero_le _⟩
    rw [laterMembers, List.nil_append]
    exact (Layout.single (.mark .closeObject)).gap hgap
  | (name, v) :: ms =>
    rw [membersPlain, Bool.and_eq_true, Bool.and_eq_true] at hplain
    rw [MembersWellFormed] at hms
    obtain ⟨l, f, x, rfl, rfl, hx, hfirst, hlevels⟩ :=
      exists_member_write hunit hplain.1.1 (hasForm_write v level hplain.1.2 hms.1)
    obtain ⟨fs, y, rfl, hy, hlater, hlevels'⟩ :=
      exists_forms_writeMembers ms level hplain.2 hms.2
    refine ⟨(l, f) :: fs, ',' :: (x ++ y), rfl, ?_, fun gap hgap => ?_, ?_⟩
    · rw [writeMembers, hx, hy]
      simp [symbols]
    · rw [laterMembers, List.cons_append, List.append_assoc]
      exact (hfirst.append (hlater gap hgap)).token (.mark .comma)
    · have hpairs : memberPairs ((l, f) :: fs) = (l.value, f.value) :: memberPairs fs := rfl
      rw [Form.memberLevels, memberNesting]
      omega

end

end

/-! ## Round trip -/

theorem pretty_text {limits : Limits} {unit s : List Char} {v : Json}
    (h : read limits.jsonReading s = .ok v) (hv : v.levels ≤ limits.jsonWriting) :
    pretty limits unit (.text s) = .ok (some (write unit 0 v)) := by
  simp [pretty, prettyText, writeWithin, h, Nat.not_lt.2 hv, Except.map]

/-- A document whose numbers are all integers and whose strings hold no lone half keeps its value
when it is laid out, and laying out again changes nothing. -/
theorem read_of_pretty {limits : Limits} {unit t : List Char} {v : Json}
    (hunit : ∀ c ∈ unit, isSpace c = true) (ht : read limits.jsonReading t = .ok v)
    (hv : v.levels ≤ limits.jsonWriting) (hplain : v.isPlain = true) :
    ∃ p : List Char, pretty limits unit (.text t) = .ok (some (symbols p)) ∧
      read limits.jsonReading p = .ok v ∧
      pretty limits unit (.text p) = .ok (some (symbols p)) := by
  obtain ⟨f, -, rfl, hf⟩ := read_eq_ok_iff.1 ht
  obtain ⟨g, p, hg, hp, hlayout, hlevels⟩ :=
    hasForm_write hunit f.value 0 hplain f.wellFormed_value
  have hroom : g.levels ≤ limits.jsonReading := hlevels.trans (f.nesting_value_le.trans hf)
  have hread : read limits.jsonReading p = .ok f.value := read_eq_ok_iff.2 ⟨g, hlayout, hg, hroom⟩
  exact ⟨p, by rw [pretty_text ht hv, hp], hread, by rw [pretty_text hread hv, hp]⟩

/-- A name that is written in two ways and given two values, a negative number and an empty
list. -/
theorem read_of_pretty_repeated_name :
    let limits : Limits := ⟨0, 2, 1, 0⟩
    let t := ['\x7b', '"', 'a', '"', ':', '1', ',', '"', 'b', '"', ':', '[', ']', ' ', ',',
      '"', '\\', 'u', '0', '0', '6', '1', '"', ':', '-', '2', '\x7d']
    let v := Json.object [(symbols ['a'], .int (-2)), (symbols ['b'], .list [])]
    read limits.jsonReading t = .ok v ∧ v.levels ≤ limits.jsonWriting ∧ v.isPlain = true ∧
      ∃ p, pretty limits ['\t'] (.text t) = .ok (some (symbols p)) ∧
        read limits.jsonReading p = .ok v ∧
        pretty limits ['\t'] (.text p) = .ok (some (symbols p)) := by
  intro limits t v
  have ht : read limits.jsonReading t = .ok v := rfl
  have hlevels : v.levels ≤ limits.jsonWriting := Nat.le_refl 1
  have hv : v.isPlain = true := rfl
  exact ⟨ht, hlevels, hv, read_of_pretty (List.forall_mem_singleton.2 (by decide)) ht hlevels hv⟩

end Reindent.Json
