import Mathlib
import Reindent.Files.Source
import Reindent.Proofs.Files.Store

/-!
# Replacing a file

The temporary file gets a name that is free, so making it changes nothing else, and once it is
removed or moved away the tree has no trace of it. A file is therefore replaced altogether, with a
new text, the permission bits that were read and all other nodes as they were, or the tree is left
as it was. Whichever step the system refuses, the file is not touched; only if it does not let the
temporary file be taken away either, that one stays.
-/

namespace Reindent.Files

open Text

/-- The number of a temporary name can be read off it: the zeros in front do not count. -/
theorem temporaryName_injective : Function.Injective temporaryName := by
  have hread : ∀ n, Nat.ofDigitChars 10 ((temporaryName n).drop temporaryStem.length) 0 = n := by
    intro n
    rw [temporaryName, List.drop_left, Nat.ofDigitChars_append, Nat.ofDigitChars_replicate_zero,
      Nat.mul_zero]
    exact Nat.ofDigitChars_toDigits (by decide) (by decide)
  intro m n h
  rw [← hread m, h, hread n]

namespace Disk

variable {disk : Disk} {p : Path} {text : List Symbol}

/-- The system does not refuse to make a new file, to write to it and to move it. -/
def Writes (disk : Disk) : Prop :=
  ∀ step, step ≠ .remove → disk.refuses step = none

/-- The system lets temporary files be taken away, or they are gone already. -/
def Removes (disk : Disk) : Prop :=
  disk.refuses .remove = none ∨ disk.refuses .remove = some .notFound

/-- A text is written to a new file if it is one of characters and the system does not refuse. -/
theorem fill_eq_ok_iff : (disk.fill p text).2 = .ok () ↔ (∃ content, chars text = .ok content) ∧
    disk.refuses .write = none ∧ disk.refuses .flush = none ∧ disk.refuses .sync = none ∧
    disk.refuses .close = none := by
  simp only [fill]
  cases disk.refuses .close with
  | some e => simp
  | none =>
    cases chars text with
    | error halves => simp
    | ok content =>
      cases disk.refuses .write <;> cases disk.refuses .flush <;> cases disk.refuses .sync <;>
        simp

theorem Writes.fill_eq {content : List Char} (h : disk.Writes) (hchars : chars text = .ok content)
    (p : Path) : disk.fill p text = (encodeUtf8 content, .ok ()) := by
  simp [fill, hchars, h .write, h .flush, h .sync, h .close]

end Disk

namespace Store

variable {store after opened left : Store} {p : Path} {place q : Place} {temporary : Temporary}
  {disk : Disk} {text : List Symbol} {expected : FileStat} {f : File} {e : SourceError}

/-- Of more names than there are nodes, one is free. -/
theorem node?_temporaryPlace (store : Store) (directory : Place) :
    store.node? (store.temporaryPlace directory) = none := by
  rw [temporaryPlace]
  cases hfind : ((List.range (store.nodes.length + 1)).map fun n =>
    directory ++ [temporaryName n]).find?
      fun p => (store.node? p).isNone with
  | some p => simpa using List.find?_some hfind
  | none =>
    -- All the names taken would be more places than there are.
    exfalso
    rw [List.find?_eq_none] at hfind
    have htaken : ∀ p ∈ (List.range (store.nodes.length + 1)).map fun n => directory ++
        [temporaryName n], p ∈ store.nodes.map Prod.fst := by
      intro p hp
      have hne : p ≠ [] := by
        obtain ⟨n, -, rfl⟩ := List.mem_map.1 hp
        simp
      obtain ⟨node, hnode⟩ := Option.ne_none_iff_exists'.1 (by simpa using hfind p hp)
      exact mem_places_of_node? hne hnode
    have hnodup : ((List.range (store.nodes.length + 1)).map fun n =>
      directory ++ [temporaryName n]).Nodup := by
      refine List.nodup_range.map fun m n hmn => temporaryName_injective ?_
      simpa using hmn
    have hlength := (hnodup.subperm htaken).length_le
    simp at hlength

theorem node?_of_newTemporary (h : store.newTemporary p = .ok temporary) :
    store.node? temporary.place = none := by
  simp only [newTemporary] at h
  split at h
  · cases h
  · split at h
    · split at h
      · cases h
        exact node?_temporaryPlace store _
      · cases h
    · cases h
  all_goals cases h

/-- A temporary file is made if there is a place for it and the system does not refuse. -/
theorem createTemporary_eq_ok_iff :
    store.createTemporary disk p = .ok (temporary, opened) ↔ store.newTemporary p = .ok temporary ∧
      disk.refuses .create = none ∧ opened = store.writeNew temporary.place [] 0o600 := by
  rw [createTemporary]
  cases hnew : store.newTemporary p with
  | error e => simp [bind, Except.bind]
  | ok t =>
    cases disk.refuses .create with
    | some e => simp [bind, Except.bind, throw, throwThe, MonadExceptOf.throw]
    | none =>
      simp only [bind, Except.bind, pure, Except.pure, Except.ok.injEq, Prod.mk.injEq, true_and]
      constructor <;>
      · rintro ⟨rfl, rfl⟩
        exact ⟨rfl, rfl⟩

/-- A place is given for a file that stands there in the expected version. -/
theorem unchangedPlace_eq_ok_iff : store.unchangedPlace p expected = .ok place ↔
    ∃ current, store.fileAt p = .ok (place, current) ∧
    expected.sameVersion current.stat = true := by
  rw [unchangedPlace]
  cases hfile : store.fileAt p with
  | error e => simp [bind, Except.bind]
  | ok found =>
    obtain ⟨there, current⟩ := found
    by_cases hsame : expected.sameVersion current.stat = true
    · simp [checkUnchanged, hsame, bind, Except.bind, pure, Except.pure]
    · simp [checkUnchanged, hsame, bind, Except.bind]

theorem lookUp_of_fileAt (h : store.fileAt p = .ok (place, f)) :
    store.lookUp false p.render = .ok (place, .file f) := by
  rw [fileAt] at h
  split at h
  all_goals cases h
  assumption

theorem node?_of_fileAt (h : store.fileAt p = .ok (place, f)) :
    store.node? place = some (.file f) :=
  node?_of_follow (follow_of_lookUp (lookUp_of_fileAt h)).2

/-! ## Trees that agree -/

/-- Two trees with the same nodes, seen by the same user from the same directory. How new files
will be numbered and dated does not count. -/
structure SameTree (store after : Store) : Prop where
  nodes : after.nodes = store.nodes
  workDir : after.workDir = store.workDir
  user : after.user = store.user
  root : after.root = store.root

theorem SameTree.refl (store : Store) : SameTree store store := ⟨rfl, rfl, rfl, rfl⟩

theorem SameTree.trans {middle : Store} (h : SameTree store middle) (h' : SameTree middle after) :
    SameTree store after :=
  ⟨h'.nodes.trans h.nodes, h'.workDir.trans h.workDir, h'.user.trans h.user, h'.root.trans h.root⟩

theorem SameTree.node? (h : SameTree store after) (q : Place) : after.node? q = store.node? q := by
  by_cases hq : q = []
  · rw [hq, node?_nil, node?_nil, h.root]
  · rw [node?_of_ne_nil hq, node?_of_ne_nil hq, h.nodes]

theorem SameTree.unlink (h : SameTree store after) (place : Place) :
    SameTree (store.unlink place) (after.unlink place) :=
  ⟨by simp only [Store.unlink, h.nodes], h.workDir, h.user, h.root⟩

theorem sameTree_unlink_of_none (h : store.node? place = none) :
    SameTree store (store.unlink place) :=
  ⟨nodes_unlink_of_none h, rfl, rfl, rfl⟩

/-- What is put at a place is gone when it is taken away. -/
theorem sameTree_unlink_put (store : Store) (place : Place) (node : Node) :
    SameTree (store.unlink place) ((store.put place node).unlink place) :=
  ⟨by simp [Store.unlink, put, List.filter_filter], rfl, rfl, rfl⟩

theorem sameTree_unlink_writeNew (store : Store) (place : Place) (octets : List UInt8)
    (mode : Nat) :
    SameTree (store.unlink place) ((store.writeNew place octets mode).unlink place) := by
  obtain ⟨hnodes, hwork, huser, hroot⟩ := sameTree_unlink_put store place _
  exact ⟨hnodes, hwork, huser, hroot⟩

theorem sameTree_unlink_modify (store : Store) (place : Place) (change : File → File) :
    SameTree (store.unlink place) ((store.modify place change).unlink place) := by
  rw [modify]
  split
  · exact sameTree_unlink_put store place _
  · exact .refl _

/-! ## What is left after a failure -/

/-- What a replacement leaves that has failed: the tree as it was or, if the system does not let
files be taken away, the tree with a new one in it. -/
inductive Spared (disk : Disk) (store after : Store) : Prop where
  | restored (h : SameTree store after)
  | littered {place : Place} (hkept : ¬ disk.Removes) (hfree : store.node? place = none)
      (h : SameTree store (after.unlink place))

/-- Whatever was done to a temporary file, discarding it spares the tree. -/
theorem spared_discard (hfree : store.node? temporary.place = none)
    (h : SameTree store (opened.unlink temporary.place)) (disk : Disk) (e : SourceError) :
    ∃ left e', opened.discard disk temporary e = (left, .error e') ∧ Spared disk store left := by
  rw [discard]
  split
  · exact ⟨_, _, rfl, .restored h⟩
  · exact ⟨_, _, rfl, .restored h⟩
  · rename_i refusal hnotFound hrefusal
    refine ⟨_, _, rfl, .littered ?_ hfree h⟩
    rintro (hnone | hsome)
    · simp [hrefusal] at hnone
    · exact hnotFound (Option.some.inj (hrefusal.symm.trans hsome))

/-! ## Replacing -/

/-- The tree `after` differs from `store` at one place only, where a file with the given octets and
permission bits stands now. -/
structure ReplacedAt (store after : Store) (place : Place) (octets : List UInt8) (mode : Nat) :
    Prop where
  file : ∃ g, after.node? place = some (.file g) ∧ g.octets = octets ∧ g.mode = mode
  beside : SameTree (store.unlink place) (after.unlink place)

theorem node?_modify_self (h : store.node? place = some (.file f)) (change : File → File) :
    (store.modify place change).node? place = some (.file (change f)) := by
  rw [modify, h]
  exact node?_put_self (ne_nil_of_node? h (by simp)) _

/-- A temporary file that is written and moved over another file replaces that one and is gone
itself. -/
theorem replacedAt_moveOver {content : List Char} (hfree : store.node? temporary.place = none)
    (hfile : store.node? place = some (.file f)) (hdisk : disk.Writes)
    (hchars : chars text = .ok content) (p : Path) (mode : Nat) :
    ∃ moved, (store.writeNew temporary.place [] 0o600).moveOver disk temporary p place text mode =
      (moved, .ok ()) ∧ store.ReplacedAt moved place (encodeUtf8 content) mode := by
  have htemporary : temporary.place ≠ [] := by
    intro hnil
    rw [hnil] at hfree
    cases hfree
  have hplace : place ≠ [] := ne_nil_of_node? hfile (by simp)
  -- The new file, then with the text in it, and then with its permission bits.
  obtain ⟨g, hg⟩ : ∃ g, (store.writeNew temporary.place [] 0o600).node? temporary.place =
      some (.file g) := ⟨_, node?_put_self htemporary _⟩
  generalize hopened : store.writeNew temporary.place [] 0o600 = opened at hg ⊢
  have hready := node?_modify_self
    (node?_modify_self hg fun f => { f with octets := encodeUtf8 content })
    fun f => { f with mode }
  have hgone : SameTree (store.unlink temporary.place)
      (((opened.modify temporary.place fun f => { f with octets := encodeUtf8 content }).modify
        temporary.place fun f => { f with mode }).unlink temporary.place) := by
    rw [← hopened]
    exact ((sameTree_unlink_writeNew _ _ _ _).trans (sameTree_unlink_modify _ _ _)).trans
      (sameTree_unlink_modify _ _ _)
  simp only [moveOver, hdisk.fill_eq hchars, hdisk .setMode, hdisk .move, rename, hready,
    ne_eq, reduceCtorEq, not_false_eq_true]
  refine ⟨_, rfl, ⟨_, node?_put_self hplace _, rfl, rfl⟩, ?_⟩
  have hsame := (sameTree_unlink_of_none hfree).trans hgone
  exact (hsame.unlink place).trans (sameTree_unlink_put _ place _)

/-- Otherwise moving it spares the tree. -/
theorem moveOver_cases (hfree : store.node? temporary.place = none) (disk : Disk) (p : Path)
    (place : Place) (text : List Symbol) (mode : Nat) :
    (∃ left e,
      (store.writeNew temporary.place [] 0o600).moveOver disk temporary p place text mode =
        (left, .error e) ∧ Spared disk store left) ∨
    (disk.refuses .create = none → disk.Writes) ∧ ∃ content, chars text = .ok content := by
  have hopened := sameTree_unlink_writeNew store temporary.place [] 0o600
  generalize store.writeNew temporary.place [] 0o600 = opened at hopened ⊢
  have hspared : ∀ after : Store, SameTree (opened.unlink temporary.place)
      (after.unlink temporary.place) → ∀ e, ∃ left e',
      after.discard disk temporary e = (left, .error e') ∧ Spared disk store left :=
    fun after hafter e => spared_discard hfree
      (((sameTree_unlink_of_none hfree).trans hopened).trans hafter) disk e
  have hfilled := sameTree_unlink_modify opened temporary.place
    fun f => { f with octets := (disk.fill p text).1 }
  simp only [moveOver]
  cases hfill : (disk.fill p text).2 with
  | error e => exact .inl (hspared _ hfilled e)
  | ok =>
    cases hmode : disk.refuses .setMode with
    | some e => exact .inl (hspared _ hfilled _)
    | none =>
      cases hmove : disk.refuses .move with
      | some e => exact .inl (hspared _ (hfilled.trans (sameTree_unlink_modify _ _ _)) _)
      | none =>
        obtain ⟨hchars, hwrite, hflush, hsync, hclose⟩ := Disk.fill_eq_ok_iff.1 hfill
        refine .inr ⟨fun hcreate step hstep => ?_, hchars⟩
        cases step <;> first | assumption | exact absurd rfl hstep

/-- A file in the expected version is replaced by any text that can be written, if there is a place
for a temporary file and the system does not refuse. -/
theorem rewrite_of_newTemporary {current : File} {content : List Char}
    (hfile : store.fileAt p = .ok (place, current))
    (hsame : expected.sameVersion current.stat = true)
    (hnew : store.newTemporary p = .ok temporary) (hdisk : disk.Writes)
    (hchars : chars text = .ok content) :
    ∃ after, store.rewrite disk p text expected = (after, .ok ()) ∧
      store.ReplacedAt after place (encodeUtf8 content) expected.mode := by
  obtain ⟨after, hmoved, hreplaced⟩ := replacedAt_moveOver (node?_of_newTemporary hnew)
    (node?_of_fileAt hfile) hdisk hchars p expected.mode
  have hmade : store.createTemporary disk p =
      .ok (temporary, store.writeNew temporary.place [] 0o600) :=
    createTemporary_eq_ok_iff.2 ⟨hnew, hdisk .create (by simp), rfl⟩
  refine ⟨after, ?_, hreplaced⟩
  rw [rewrite, unchangedPlace_eq_ok_iff.2 ⟨current, hfile, hsame⟩, hmade]
  exact hmoved

/-- Otherwise the tree is spared. -/
theorem rewrite_cases (store : Store) (disk : Disk) (p : Path) (text : List Symbol)
    (expected : FileStat) :
    (∃ left e, store.rewrite disk p text expected = (left, .error e) ∧ Spared disk store left) ∨
    ∃ place current temporary content, store.fileAt p = .ok (place, current) ∧
      expected.sameVersion current.stat = true ∧ store.newTemporary p = .ok temporary ∧
      disk.Writes ∧ chars text = .ok content := by
  rw [rewrite]
  cases hplace : store.unchangedPlace p expected with
  | error e => exact .inl ⟨store, e, rfl, .restored (.refl store)⟩
  | ok place =>
    obtain ⟨current, hfile, hsame⟩ := unchangedPlace_eq_ok_iff.1 hplace
    cases hmade : store.createTemporary disk p with
    | error e => exact .inl ⟨store, e, rfl, .restored (.refl store)⟩
    | ok made =>
      obtain ⟨temporary, opened⟩ := made
      obtain ⟨hnew, hcreate, rfl⟩ := createTemporary_eq_ok_iff.1 hmade
      obtain hspared | ⟨hwrites, content, hchars⟩ :=
        moveOver_cases (node?_of_newTemporary hnew) disk p place text expected.mode
      · exact .inl hspared
      · exact .inr ⟨place, current, temporary, content, hfile, hsame, hnew, hwrites hcreate,
          hchars⟩

end Store

end Reindent.Files
