import Mathlib
import Reindent.Proofs.Sql.Rules
import Reindent.Proofs.Walks
import Reindent.Sql.Walk

/-!
# The fragments of a statement

A statement falls into spans that are by turns outside and inside literals, and each span outside
into clauses. All clauses exist if a mark is left for each of these spans. The fragments have the
quotes of the statement at their starts and nowhere else, and what is written for them differs from
their texts by blanks only.
-/

namespace Reindent.Sql

open Text Marker

/-! ## Clauses -/

theorem flatMap_deleteBlanks_consFirst (c : Char) (ps : List (List Char)) :
    (consFirst c ps).flatMap deleteBlanks = deleteBlanks [c] ++ ps.flatMap deleteBlanks := by
  cases ps with
  | nil => simp [consFirst]
  | cons p ps =>
    rw [consFirst, List.flatMap_cons, List.flatMap_cons, ← List.append_assoc]
    congr 1
    exact List.filter_append [c] p

/-- The clauses hold the ink of the text. -/
theorem flatMap_deleteBlanks_splitOn (mark : Char) (s : List Char) :
    (splitOn mark s).flatMap deleteBlanks = ink mark s := by
  induction s with
  | nil => rfl
  | cons c s ih =>
    rw [splitOn_cons, ink_cons]
    split
    · rename_i hc
      rw [List.flatMap_cons, ih, ink_eq_nil (s := [c]) (by simp [hc])]
      rfl
    · rename_i hc
      rw [flatMap_deleteBlanks_consFirst, ih, ink_of_notMem (s := [c]) (by simpa using Ne.symm hc)]

/-- The clauses hold the words of the text: a mark parts words as the end of a clause does. -/
theorem spell_splitOn {mark : Char} (hmark : isWord mark = false) (s : List Char) : ∃ p ps,
    splitOn mark s = p :: ps ∧ ∀ b, spell b s = spell b p ++ ps.flatMap (spell false) := by
  induction s with
  | nil => exact ⟨[], [], rfl, fun _ => rfl⟩
  | cons c s ih =>
    obtain ⟨p, ps, hsplit, hspell⟩ := ih
    rw [splitOn_cons, hsplit]
    split
    · rename_i hc
      refine ⟨[], p :: ps, rfl, fun b => ?_⟩
      rw [hc, spell_cons_of_not_isWord hmark, hspell, spell_nil, List.nil_append,
        List.flatMap_cons]
    · refine ⟨c :: p, ps, rfl, fun b => ?_⟩
      rw [spell_cons, spell_cons b c p, hspell, List.append_assoc]

theorem flatMap_spell_splitOn {mark : Char} (hmark : isWord mark = false) (s : List Char) :
    (splitOn mark s).flatMap (spell false) = spell false s := by
  obtain ⟨p, ps, hsplit, hspell⟩ := spell_splitOn hmark s
  rw [hsplit, hspell, List.flatMap_cons]

section

variable {tab : List Char} {mark : Char}

theorem quote_notMem_applyRules (hm : IsCandidate mark) (htab : ∀ c ∈ tab, isBlank c = true)
    {s : List Char} (h : '\x27' ∉ s) : '\x27' ∉ applyRules tab mark s := by
  have hink : ∀ t, '\x27' ∈ ink mark t ↔ '\x27' ∈ t := by
    intro t
    have hne : '\x27' ≠ mark := ne_mark_of_plainChar hm (by decide)
    simp [ink, List.mem_filter, isBlank_quote, hne]
  rwa [← hink, quote_mem_iff (ink_applyRules hm htab s), hink]

/-- The clauses of a text without quotes have none. -/
theorem quote_notMem_clause (hm : IsCandidate mark) (htab : ∀ c ∈ tab, isBlank c = true)
    {s p : List Char} (h : '\x27' ∉ s) (hp : p ∈ splitClausesWith mark tab s) : '\x27' ∉ p :=
  fun hmem => quote_notMem_applyRules hm htab h (mem_of_mem_splitOn hp hmem)

/-! ## Spans and fragments -/

/-- The spans outside literals, of spans that are by turns outside and inside. -/
def unquoted : Bool → List (List Char) → List (List Char)
  | _, [] => []
  | true, _ :: rest => unquoted false rest
  | false, span :: rest => span :: unquoted true rest

/-- A mark can be picked for every span of a statement outside its literals. -/
def MarksAvailable (tab text : List Char) : Prop :=
  ∀ span ∈ unquoted false (quoteSpans text), (pick? (span ++ tab)).isSome = true

instance (tab text : List Char) : Decidable (MarksAvailable tab text) :=
  inferInstanceAs (Decidable (∀ span ∈ unquoted false (quoteSpans text), _))

theorem exists_fragmentsOf {lit : Bool} {spans : List (List Char)}
    (h : ∀ span ∈ unquoted lit spans, (pick? (span ++ tab)).isSome = true) :
    ∃ fs, fragmentsOf tab lit spans = .ok fs := by
  induction spans generalizing lit with
  | nil => exact ⟨[], by rw [fragmentsOf]⟩
  | cons span rest ih =>
    cases lit with
    | true =>
      obtain ⟨fs, hfs⟩ := ih h
      exact ⟨⟨span, true⟩ :: fs, by rw [fragmentsOf, hfs]; rfl⟩
    | false =>
      obtain ⟨mark, hmark⟩ := Option.isSome_iff_exists.1 (h span List.mem_cons_self)
      obtain ⟨fs, hfs⟩ := ih fun s hs => h s (List.mem_cons_of_mem _ hs)
      exact ⟨_, by rw [fragmentsOf, splitClauses, hmark, hfs]; rfl⟩

theorem fragmentsOf_literal {span : List Char} {rest : List (List Char)} {fs : List Fragment}
    (h : fragmentsOf tab true (span :: rest) = .ok fs) :
    ∃ more, fragmentsOf tab false rest = .ok more ∧ fs = ⟨span, true⟩ :: more := by
  rw [fragmentsOf] at h
  cases hrest : fragmentsOf tab false rest with
  | error e =>
    rw [hrest] at h
    cases h
  | ok more =>
    rw [hrest] at h
    exact ⟨more, rfl, (Except.ok.inj h).symm⟩

theorem fragmentsOf_clauses {span : List Char} {rest : List (List Char)} {fs : List Fragment}
    (h : fragmentsOf tab false (span :: rest) = .ok fs) :
    ∃ mark more, pick? (span ++ tab) = some mark ∧ fragmentsOf tab true rest = .ok more ∧
      fs = (splitClausesWith mark tab span).map (Fragment.mk · false) ++ more := by
  rw [fragmentsOf, splitClauses] at h
  cases hmark : pick? (span ++ tab) with
  | none =>
    rw [hmark] at h
    cases h
  | some mark =>
    cases hrest : fragmentsOf tab true rest with
    | error e =>
      rw [hmark, hrest] at h
      cases h
    | ok more =>
      rw [hmark, hrest] at h
      exact ⟨mark, more, rfl, rfl, (Except.ok.inj h).symm⟩

/-- A law of fragments holds if each literal and the clauses of each span outside keep it. -/
theorem fragmentsOf_induct {P : Bool → List (List Char) → List Fragment → Prop}
    (nil : ∀ lit, P lit [] []) (literal : ∀ span rest fs, P false rest fs →
    P true (span :: rest) (⟨span, true⟩ :: fs)) (clauses :
    ∀ span rest fs mark, pick? (span ++ tab) = some mark → P true rest fs →
      P false (span :: rest) ((splitClausesWith mark tab span).map (Fragment.mk · false) ++ fs))
    {lit : Bool} {spans : List (List Char)} {fs : List Fragment}
    (h : fragmentsOf tab lit spans = .ok fs) :
    P lit spans fs := by
  induction spans generalizing lit fs with
  | nil =>
    rw [fragmentsOf, Except.ok.injEq] at h
    exact h ▸ nil lit
  | cons span rest ih =>
    cases lit with
    | true =>
      obtain ⟨more, hrest, rfl⟩ := fragmentsOf_literal h
      exact literal span rest more (ih hrest)
    | false =>
      obtain ⟨mark, more, hmark, hrest, hfs⟩ := fragmentsOf_clauses h
      rw [hfs]
      exact clauses span rest more mark hmark (ih hrest)

/-! ### Quotes in fragments -/

/-- Quotes stand at the starts of fragments only: in front of a literal, and in front of the first
clause behind one. `inside` says whether a literal is open before the fragments. -/
inductive Alternating : Bool → List Fragment → Prop where
  | nil (inside : Bool) : Alternating inside []
  | clause {text : List Char} {fs : List Fragment} (hquote : '\x27' ∉ text)
      (h : Alternating false fs) :
      Alternating false (⟨text, false⟩ :: fs)
  | literal {body : List Char} {fs : List Fragment} (hquote : '\x27' ∉ body)
      (h : Alternating true fs) :
      Alternating false (⟨'\x27' :: body, true⟩ :: fs)
  | closing {body : List Char} {fs : List Fragment} (hquote : '\x27' ∉ body)
      (h : Alternating false fs) :
      Alternating true (⟨'\x27' :: body, false⟩ :: fs)

theorem Alternating.clauses_append
    {ps : List (List Char)} {fs : List Fragment} (hps : ∀ p ∈ ps, '\x27' ∉ p)
    (h : Alternating false fs) : Alternating false (ps.map (Fragment.mk · false) ++ fs) := by
  induction ps with
  | nil => exact h
  | cons p ps ih =>
    exact .clause (hps p List.mem_cons_self) (ih fun q hq => hps q (List.mem_cons_of_mem _ hq))

/-- Of a span behind a literal, the first clause has the quote. -/
theorem splitClausesWith_quote (hm : IsCandidate mark) (htab : ∀ c ∈ tab, isBlank c = true)
    {body : List Char} (h : '\x27' ∉ body) :
    ∃ p ps, splitClausesWith mark tab ('\x27' :: body) = ('\x27' :: p) :: ps ∧
      '\x27' ∉ p ∧ ∀ q ∈ ps, '\x27' ∉ q := by
  have hclean : ∀ p ∈ splitClausesWith mark tab body, '\x27' ∉ p :=
    fun p => quote_notMem_clause hm htab h
  rw [splitClausesWith] at hclean ⊢
  obtain ⟨p, ps, hsplit⟩ :=
    List.exists_cons_of_ne_nil (splitOn_ne_nil mark (applyRules tab mark body))
  rw [hsplit] at hclean
  refine ⟨p, ps, ?_, hclean p List.mem_cons_self, fun q hq => hclean q (List.mem_cons_of_mem _ hq)⟩
  rw [applyRules_quote_cons hm, splitOn_cons, if_neg (ne_mark_of_plainChar hm (by decide)), hsplit,
    consFirst]

theorem alternating_fragmentsOf (htab : ∀ c ∈ tab, isBlank c = true) {lit : Bool}
    {spans : List (List Char)} {fs : List Fragment} (h : fragmentsOf tab lit spans = .ok fs)
    (hspans : ∀ r ∈ spans, QuoteSpan r) :
    Alternating (!lit) fs := by
  refine fragmentsOf_induct (P := fun lit spans fs => (∀ r ∈ spans, QuoteSpan r) →
    Alternating (!lit) fs)
    (fun lit _ => .nil _) ?_ ?_ h hspans
  · intro span rest fs ih hspans
    obtain ⟨body, rfl, hbody⟩ := hspans span List.mem_cons_self
    exact .literal hbody (ih fun r hr => hspans r (List.mem_cons_of_mem _ hr))
  · intro span rest fs mark hmark ih hspans
    obtain ⟨body, rfl, hbody⟩ := hspans span List.mem_cons_self
    obtain ⟨p, ps, hclauses, hp, hps⟩ := splitClausesWith_quote (pick?_eq_some hmark).1 htab hbody
    rw [hclauses]
    exact .closing hp (.clauses_append hps (ih fun r hr => hspans r (List.mem_cons_of_mem _ hr)))

/-- The fragments of a statement have their quotes at their starts. -/
theorem alternating_split (htab : ∀ c ∈ tab, isBlank c = true) {text : List Char}
    {fs : List Fragment} (h : fragmentsOf tab false (quoteSpans text) = .ok fs) :
    Alternating false fs := by
  obtain ⟨first, rest, hcut, hfirst, hrest, -⟩ := cutBefore_startsQuote (collapse text)
  rw [quoteSpans, hcut] at h
  obtain ⟨mark, more, hmark, hmore, hfs⟩ := fragmentsOf_clauses h
  rw [hfs]
  exact .clauses_append (fun p => quote_notMem_clause (pick?_eq_some hmark).1 htab hfirst)
    (alternating_fragmentsOf htab hmore hrest)

end

end Reindent.Sql
