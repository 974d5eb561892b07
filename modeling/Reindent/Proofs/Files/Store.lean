import Mathlib
import Reindent.Files.Resolve

/-!
# Nodes of the file tree

What stands at a place after something was put there or taken away, and what following a path
finds. Taking a regular file away changes only what paths find that end at it or go on behind it:
both find nothing then. Where a path resolves to does not change at all, since only links count for
that.
-/

namespace Reindent.Files

namespace Store

variable {store : Store} {place q : Place} {node : Node}

/-! ## Nodes -/

@[simp] theorem node?_nil (store : Store) : store.node? [] = some (.directory store.root) := rfl

/-- Only a directory can be the root. -/
theorem ne_nil_of_node? (h : store.node? place = some node) (hnode : ∀ d, node ≠ .directory d) :
    place ≠ [] := by
  rintro rfl
  rw [node?_nil] at h
  exact hnode _ (Option.some.inj h).symm

theorem node?_of_ne_nil (h : place ≠ []) :
    store.node? place = (store.nodes.find? fun n => n.1 == place).map Prod.snd := by
  rw [node?, if_neg (by simpa using h)]

/-- The places of a tree that are taken. -/
theorem mem_places_of_node? (h : place ≠ []) (hnode : store.node? place = some node) :
    place ∈ store.nodes.map Prod.fst := by
  rw [node?_of_ne_nil h, Option.map_eq_some_iff] at hnode
  obtain ⟨entry, hfind, -⟩ := hnode
  have hplace : entry.1 = place := by simpa using List.find?_some hfind
  exact hplace ▸ List.mem_map_of_mem (List.mem_of_find?_eq_some hfind)

theorem find?_filter_ne {nodes : List (Place × Node)} (h : q ≠ place) :
    (nodes.filter fun n => n.1 != place).find? (fun n => n.1 == q) =
      nodes.find? fun n => n.1 == q := by
  rw [List.find?_filter]
  congr 1
  funext n
  by_cases hq : n.1 = q
  · simp [hq, h]
  · simp [hq]

@[simp] theorem user_unlink (store : Store) (place : Place) :
    (store.unlink place).user = store.user := rfl

theorem node?_unlink_self (h : place ≠ []) : (store.unlink place).node? place = none := by
  rw [node?_of_ne_nil h, unlink, Option.map_eq_none_iff, List.find?_eq_none]
  intro n hn
  simpa using (List.mem_filter.1 hn).2

theorem node?_unlink_of_ne (h : q ≠ place) : (store.unlink place).node? q = store.node? q := by
  by_cases hq : q = []
  · rw [hq]
    rfl
  · rw [node?_of_ne_nil hq, node?_of_ne_nil hq, unlink, find?_filter_ne h]

/-- Where nothing stands, nothing is taken away. -/
theorem nodes_unlink_of_none (h : store.node? place = none) :
    (store.unlink place).nodes = store.nodes := by
  have hne : place ≠ [] := by
    rintro rfl
    rw [node?_nil] at h
    cases h
  rw [node?_of_ne_nil hne, Option.map_eq_none_iff, List.find?_eq_none] at h
  rw [unlink, List.filter_eq_self]
  intro n hn
  simpa using h n hn

theorem node?_put_self (h : place ≠ []) (node : Node) :
    (store.put place node).node? place = some node := by
  rw [node?_of_ne_nil h, put, List.find?_cons_of_pos (by simp)]
  rfl

/-- The tree has one node for each place. -/
def Distinct (store : Store) : Prop := (store.nodes.map Prod.fst).Nodup

theorem node?_of_mem (hdistinct : store.Distinct)
    (hplace : place ≠ []) (h : (place, node) ∈ store.nodes) :
    store.node? place = some node := by
  rw [node?_of_ne_nil hplace]
  cases hfind : store.nodes.find? fun n => n.1 == place with
  | none =>
    have hne := List.find?_eq_none.1 hfind _ h
    simp at hne
  | some entry =>
    have hentry : entry.1 = place := by simpa using List.find?_some hfind
    have hsame := List.inj_on_of_nodup_map hdistinct (List.mem_of_find?_eq_some hfind) h hentry
    simp [hsame]

theorem linkCount_unlink {f : File} (hdistinct : store.Distinct)
    (hfile : store.node? place = some (.file f)) :
    (store.unlink place).linkCount = store.linkCount := by
  have hplace : place ≠ [] := ne_nil_of_node? hfile (by simp)
  rw [linkCount, linkCount, unlink, List.countP_filter]
  refine List.countP_congr fun n hn => ?_
  obtain ⟨q, node⟩ := n
  by_cases hq : q = place
  · subst hq
    have hnode := node?_of_mem hdistinct hplace hn
    rw [hfile] at hnode
    cases hnode
    simp
  · simp [hq]

/-! ## Following paths -/

section

variable {followLast : Bool} {links : Nat} {start : Place} {name : Name} {rest steps : List Name}
  {target : List Char}

theorem follow_missing (h : store.node? start = none) :
    store.follow followLast links start steps = .error .notFound := by
  unfold follow
  simp [h]

theorem follow_nil (h : store.node? start = some node) :
    store.follow followLast links start [] = .ok (start, node) := by
  unfold follow
  cases node <;> simp [h]

/-- A directory that may be searched stands at a place. -/
def Searchable (store : Store) (place : Place) : Prop :=
  ∃ d, store.node? place = some (.directory d) ∧ d.allow store.user .search = true

/-- An empty part asks for a directory only. -/
theorem follow_empty {d : Permissions} (h : store.node? start = some (.directory d)) :
    store.follow followLast links start ([] :: rest) =
      store.follow followLast links start rest := by
  rw [follow.eq_def]
  simp [h]

theorem follow_denied {d : Permissions} (h : store.node? start = some (.directory d))
    (hdenied : d.allow store.user .search = false) (hname : name ≠ []) :
    store.follow followLast links start (name :: rest) = .error .accessDenied := by
  rw [follow.eq_def]
  simp [h, hname, hdenied]

theorem follow_point (h : store.Searchable start) :
    store.follow followLast links start (['.'] :: rest) =
      store.follow followLast links start rest := by
  obtain ⟨d, hd, hsearch⟩ := h
  rw [follow.eq_def]
  simp [hd, hsearch]

theorem follow_above (h : store.Searchable start) :
    store.follow followLast links start (Path.above :: rest) =
      store.follow followLast links start.dropLast rest := by
  obtain ⟨d, hd, hsearch⟩ := h
  rw [follow.eq_def]
  simp [hd, hsearch, Path.above]

/-- A name that leads neither nowhere nor up. -/
structure IsStep (name : Name) : Prop where
  ne_nil : name ≠ []
  ne_point : name ≠ ['.']
  ne_above : name ≠ Path.above

theorem follow_long (h : store.Searchable start) (hname : IsStep name)
    (hlong : maxName < octetLength name) :
    store.follow followLast links start (name :: rest) = .error .nameTooLong := by
  obtain ⟨d, hd, hsearch⟩ := h
  rw [follow.eq_def]
  simp [hd, hsearch, hname.ne_nil, hname.ne_point, hname.ne_above, hlong]

theorem follow_link (h : store.Searchable start) (hname : IsStep name)
    (hlong : ¬ maxName < octetLength name)
    (hlink : store.node? (start ++ [name]) = some (.link target)) :
    store.follow followLast links start (name :: rest) =
      if rest.isEmpty && !followLast then .ok (start ++ [name], .link target)
      else if maxLinks ≤ links then .error .tooManyLinks
      else store.follow followLast (links + 1) (if isAbsolute target then [] else start)
      (stepsOf target ++ rest) := by
  obtain ⟨d, hd, hsearch⟩ := h
  rw [follow.eq_def]
  simp [hd, hsearch, hname.ne_nil, hname.ne_point, hname.ne_above, hlong, hlink]

theorem follow_name (h : store.Searchable start) (hname : IsStep name)
    (hlong : ¬ maxName < octetLength name)
    (hlink : ∀ target, store.node? (start ++ [name]) ≠ some (.link target)) :
    store.follow followLast links start (name :: rest) =
      store.follow followLast links (start ++ [name]) rest := by
  obtain ⟨d, hd, hsearch⟩ := h
  rw [follow.eq_def]
  simp [hd, hsearch, hname.ne_nil, hname.ne_point, hname.ne_above, hlong]

theorem follow_behind (h : store.node? start = some node) (hnode : ∀ d, node ≠ .directory d) :
    store.follow followLast links start (name :: rest) = .error .notDirectory := by
  rw [follow.eq_def]
  cases node <;> simp_all

end

/-- What a followed path comes to stands where it ends. -/
theorem node?_of_follow {followLast : Bool} {links : Nat} {start : Place} {steps : List Name}
    (h : store.follow followLast links start steps = .ok (place, node)) :
    store.node? place = some node := by
  fun_induction follow store followLast links start steps with
  | case1 => cases h
  | case2 _ start found hfound =>
    cases h
    exact hfound
  | case3 _ _ _ _ _ _ _ ih => exact ih h
  | case4 => cases h
  | case5 _ _ _ _ _ _ _ ih => exact ih h
  | case6 _ _ _ _ _ _ _ _ ih => exact ih h
  | case7 => cases h
  | case8 _ _ _ _ _ _ _ _ _ _ _ _ hlink =>
    cases h
    exact hlink
  | case9 => cases h
  | case10 _ _ _ _ _ _ _ _ _ _ _ _ _ _ _ ih => exact ih h
  | case11 _ _ _ _ _ _ _ _ _ _ _ _ ih => exact ih h
  | case12 => cases h

/-- A path that ends at anything but a link comes to the same whether or not a link at its end
would be followed. -/
theorem follow_of_not_link {links : Nat} {start : Place} {steps : List Name}
    (h : store.follow false links start steps = .ok (place, node))
    (hnode : ∀ target, node ≠ .link target) :
    store.follow true links start steps = .ok (place, node) := by
  fun_induction follow store false links start steps with
  | case1 => cases h
  | case2 _ start found hfound =>
    rw [follow_nil hfound, h]
  | case3 _ start d name rest hdir hname ih =>
    rw [List.isEmpty_iff.1 hname, follow_empty hdir, ih h]
  | case4 => cases h
  | case5 _ start d rest hdir hsearch _ ih =>
    rw [follow_point ⟨d, hdir, by simpa using hsearch⟩, ih h]
  | case6 _ start d rest hdir hsearch _ _ ih =>
    rw [follow_above ⟨d, hdir, by simpa using hsearch⟩, ih h]
  | case7 => cases h
  | case8 =>
    cases h
    exact absurd rfl (hnode _)
  | case9 => cases h
  | case10 _ start d name rest hdir hname hsearch hpoint habove hlong target hlink _ hmany ih =>
    have hstep : IsStep name := ⟨by simpa using hname, hpoint, habove⟩
    rw [follow_link ⟨d, hdir, by simpa using hsearch⟩ hstep hlong hlink, if_neg (by simp),
      if_neg hmany]
    exact ih h
  | case11 _ start d name rest hdir hname hsearch hpoint habove hlong hplain ih =>
    have hstep : IsStep name := ⟨by simpa using hname, hpoint, habove⟩
    rw [follow_name ⟨d, hdir, by simpa using hsearch⟩ hstep hlong hplain, ih h]
  | case12 => cases h

/-! ### Paths without a file -/

/-- What a path comes to once the file at a place is gone: the same as before, unless it ended at
the file or went on behind it. -/
inductive Missed (place : Place) :
    Except SystemError (Place × Node) → Except SystemError (Place × Node) → Prop where
  | found {q : Place} {node : Node} (h : q ≠ place) : Missed place (.ok (q, node)) (.ok (q, node))
  | gone {node : Node} : Missed place (.ok (place, node)) (.error .notFound)
  | refused (e : SystemError) : Missed place (.error e) (.error e)
  | behind : Missed place (.error .notDirectory) (.error .notFound)

theorem follow_unlink {f : File}
    (hfile : store.node? place = some (.file f)) (followLast : Bool) (links : Nat) (start : Place)
    (steps : List Name) :
    Missed place (store.follow followLast links start steps)
      ((store.unlink place).follow followLast links start steps) := by
  have hplace : place ≠ [] := ne_nil_of_node? hfile (by simp)
  -- All but the file itself still stands where it stood.
  have hkeep : ∀ {q : Place} {node : Node}, store.node? q = some node → (∀ g, node ≠ .file g) →
      q ≠ place ∧ (store.unlink place).node? q = some node := by
    intro q node hq hnode
    have hne : q ≠ place := by
      rintro rfl
      rw [hfile] at hq
      exact hnode f (Option.some.inj hq).symm
    exact ⟨hne, by rw [node?_unlink_of_ne hne, hq]⟩
  have hsearch' : ∀ {q : Place} {d : Permissions}, store.node? q = some (.directory d) →
      ¬ (!d.allow store.user .search) = true → (store.unlink place).Searchable q :=
    fun hdir hsearch => ⟨_, (hkeep hdir (by simp)).2, by simpa using hsearch⟩
  fun_induction follow store followLast links start steps with
  | case1 _ start steps hnone =>
    have hne : start ≠ place := by
      rintro rfl
      rw [hfile] at hnone
      cases hnone
    rw [follow_missing (by rw [node?_unlink_of_ne hne, hnone])]
    exact .refused _
  | case2 _ start found hfound =>
    by_cases hne : start = place
    · rw [follow_missing (by rw [hne, node?_unlink_self hplace]), hne]
      exact .gone
    · rw [follow_nil (by rw [node?_unlink_of_ne hne, hfound])]
      exact .found hne
  | case3 _ start d name rest hdir hname ih =>
    rw [List.isEmpty_iff.1 hname, follow_empty (hkeep hdir (by simp)).2]
    exact ih
  | case4 _ start d name rest hdir hname hdenied =>
    have hdenied' : d.allow (store.unlink place).user .search = false := by simpa using hdenied
    rw [follow_denied (hkeep hdir (by simp)).2 hdenied' (by simpa using hname)]
    exact .refused _
  | case5 _ start d rest hdir hsearch _ ih =>
    rw [follow_point (hsearch' hdir hsearch)]
    exact ih
  | case6 _ start d rest hdir hsearch _ _ ih =>
    rw [follow_above (hsearch' hdir hsearch)]
    exact ih
  | case7 _ start d name rest hdir hname hsearch hpoint habove hlong =>
    have hstep : IsStep name := ⟨by simpa using hname, hpoint, habove⟩
    rw [follow_long (hsearch' hdir hsearch) hstep hlong]
    exact .refused _
  | case8 _ start d name rest hdir hname hsearch hpoint habove hlong target hlink hlast =>
    have hstep : IsStep name := ⟨by simpa using hname, hpoint, habove⟩
    have hlink' := hkeep hlink (by simp)
    rw [follow_link (hsearch' hdir hsearch) hstep hlong hlink'.2, if_pos hlast]
    exact .found hlink'.1
  | case9 _ start d name rest hdir hname hsearch hpoint habove hlong target hlink hlast hmany =>
    have hstep : IsStep name := ⟨by simpa using hname, hpoint, habove⟩
    rw [follow_link (hsearch' hdir hsearch) hstep hlong (hkeep hlink (by simp)).2, if_neg hlast,
      if_pos hmany]
    exact .refused _
  | case10 _ start d name rest hdir hname hsearch hpoint habove hlong target hlink hlast
      hmany ih =>
    have hstep : IsStep name := ⟨by simpa using hname, hpoint, habove⟩
    rw [follow_link (hsearch' hdir hsearch) hstep hlong (hkeep hlink (by simp)).2, if_neg hlast,
      if_neg hmany]
    exact ih
  | case11 _ start d name rest hdir hname hsearch hpoint habove hlong hplain ih =>
    have hstep : IsStep name := ⟨by simpa using hname, hpoint, habove⟩
    have hplain' : ∀ target, (store.unlink place).node? (start ++ [name]) ≠
        some (.link target) := by
      intro target htarget
      by_cases hne : start ++ [name] = place
      · rw [hne, node?_unlink_self hplace] at htarget
        cases htarget
      · rw [node?_unlink_of_ne hne] at htarget
        exact hplain target htarget
    rw [follow_name (hsearch' hdir hsearch) hstep hlong hplain']
    exact ih
  | case12 _ start node name rest hnode hfound =>
    by_cases hne : start = place
    · rw [follow_missing (by rw [hne, node?_unlink_self hplace])]
      exact .behind
    · rw [follow_behind (by rw [node?_unlink_of_ne hne, hfound]) hnode]
      exact .refused _

/-! ## Looking up paths -/

/-- A written path that can be followed at all. -/
structure IsUsable (path : List Char) : Prop where
  no_null : path.contains (Char.ofNat 0) = false
  not_empty : path.isEmpty = false
  not_long : ¬ maxPath < octetLength path

theorem lookUp_of_isUsable {path : List Char} (h : IsUsable path) (store : Store)
    (followLast : Bool) :
    store.lookUp followLast path =
      (store.follow followLast 0 (if isAbsolute path then [] else store.workDir)
        (stepsOf path)).mapError
        fun e => .system e path := by
  rw [lookUp, if_neg (by simpa using h.no_null), if_neg (by simpa using h.not_empty),
    if_neg h.not_long]

/-- A path that cannot be followed is refused in all trees alike. -/
theorem lookUp_of_not_isUsable {path : List Char} (h : ¬ IsUsable path) :
    ∃ e, ∀ (store : Store) (followLast : Bool), store.lookUp followLast path = .error e := by
  by_cases hnull : path.contains (Char.ofNat 0) = true
  · exact ⟨.nullCharacter, fun store followLast => by simp only [lookUp, if_pos hnull]⟩
  by_cases hempty : path.isEmpty = true
  · exact ⟨.system .notFound path,
      fun store followLast => by simp only [lookUp, if_neg hnull, if_pos hempty]⟩
  by_cases hlong : maxPath < octetLength path
  · exact ⟨.system .nameTooLong path, fun store followLast => by
      simp only [lookUp, if_neg hnull, if_neg hempty, if_pos hlong]⟩
  exact absurd ⟨by simpa using hnull, by simpa using hempty, hlong⟩ h

/-- What is found is found by following the path. -/
theorem follow_of_lookUp {followLast : Bool} {path : List Char}
    (h : store.lookUp followLast path = .ok (place, node)) :
    IsUsable path ∧
      store.follow followLast 0 (if isAbsolute path then [] else store.workDir) (stepsOf path) =
        .ok (place, node) := by
  by_cases huse : IsUsable path
  · rw [lookUp_of_isUsable huse] at h
    cases hfollow : store.follow followLast 0 (if isAbsolute path then [] else store.workDir)
      (stepsOf path) with
    | error e => simp [hfollow, Except.mapError] at h
    | ok found => exact ⟨huse, by simpa [hfollow, Except.mapError] using h⟩
  · obtain ⟨e, he⟩ := lookUp_of_not_isUsable huse
    simp [he] at h

/-- A path that ends at anything but a link comes to the same with and without following its
end. -/
theorem lookUp_of_not_link {path : List Char} (h : store.lookUp false path = .ok (place, node))
    (hnode : ∀ target, node ≠ .link target) : store.lookUp true path = .ok (place, node) := by
  obtain ⟨huse, hfollow⟩ := follow_of_lookUp h
  rw [lookUp_of_isUsable huse, follow_of_not_link hfollow hnode]
  rfl

/-- Without the file at a place nothing is found by the paths that came to it or went on behind it;
all others come to what they came to before. -/
theorem lookUp_unlink {f : File}
    (hfile : store.node? place = some (.file f)) (followLast : Bool) (path : List Char) :
    (store.unlink place).lookUp followLast path = store.lookUp followLast path ∨
      (store.unlink place).lookUp followLast path = .error (.system .notFound path) ∧
        (store.lookUp followLast path = .ok (place, .file f) ∨
          store.lookUp followLast path = .error (.system .notDirectory path)) := by
  by_cases huse : IsUsable path
  · have hwork : (store.unlink place).workDir = store.workDir := rfl
    rw [lookUp_of_isUsable huse, lookUp_of_isUsable huse, hwork]
    generalize (if isAbsolute path then [] else store.workDir) = start
    have hmissed := follow_unlink hfile followLast 0 start (stepsOf path)
    generalize hbefore : store.follow followLast 0 start (stepsOf path) = before at hmissed ⊢
    generalize (store.unlink place).follow followLast 0 start (stepsOf path) = behind at hmissed ⊢
    cases hmissed with
    | found => exact .inl rfl
    | refused => exact .inl rfl
    | behind => exact .inr ⟨rfl, .inr rfl⟩
    | gone =>
      have hnode := node?_of_follow hbefore
      rw [hfile] at hnode
      cases hnode
      exact .inr ⟨rfl, .inl rfl⟩
  · obtain ⟨e, he⟩ := lookUp_of_not_isUsable huse
    exact .inl (by rw [he, he])

/-! ## Resolving paths -/

/-- A name that is no link is passed, whether or not anything stands there. -/
theorem resolveFrom_unlink {f : File}
    (hfile : store.node? place = some (.file f)) (depth : Nat) (trail : Trail)
    (base rest : List Char) :
    (store.unlink place).resolveFrom false depth trail base rest =
      store.resolveFrom false depth trail base rest := by
  rw [resolveFrom.eq_def, resolveFrom.eq_def store]
  by_cases hrest : rest = []
  · simp [hrest]
  have hshort := Path.length_afterFirst_lt hrest
  have hafter : ∀ trail base, (store.unlink place).resolveFrom false depth trail base
    (Path.afterFirst rest) = store.resolveFrom false depth trail base (Path.afterFirst rest) :=
    fun trail base => resolveFrom_unlink hfile depth trail base (Path.afterFirst rest)
  have hinner : 0 < depth → ∀ trail base rest, (store.unlink place).resolveFrom false
    (depth - 1) trail base rest = store.resolveFrom false (depth - 1) trail base rest :=
    fun hdepth trail base rest => resolveFrom_unlink hfile (depth - 1) trail base rest
  simp only [hrest, hafter, atCircle, dite_false, Bool.false_eq_true, if_false]
  obtain h | ⟨h, h' | h'⟩ := lookUp_unlink hfile false (Path.joinText base (Path.firstName rest))
  · by_cases hdepth : 0 < depth
    · simp only [h, hinner hdepth]
    · simp only [h, hdepth, dite_false]
  · simp only [h, h']
  · simp only [h, h']
termination_by (depth, rest.length)
decreasing_by
  · exact Prod.Lex.right _ hshort
  · exact Prod.Lex.left _ _ (by omega)

/-- Where a path leads does not depend on regular files. -/
theorem resolve_unlink {f : File} (hdistinct : store.Distinct)
    (hfile : store.node? place = some (.file f)) (p : Path) :
    (store.unlink place).resolve false p = store.resolve false p := by
  have habsolute : ∀ s, (store.unlink place).absolute s = store.absolute s := fun _ => rfl
  simp only [resolve, maxDepth, linkCount_unlink hdistinct hfile, resolveFrom_unlink hfile,
    habsolute]
  congr 1
  funext found
  obtain h | ⟨h, h' | h'⟩ := lookUp_unlink hfile true (store.absolute found.path).render
  · simp only [h]
  · simp only [h, h']
  · simp only [h, h']

end Store

end Reindent.Files
