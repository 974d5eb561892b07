import Mathlib
import Reindent.Command.Run
import Reindent.Proofs.Engine
import Reindent.Proofs.Files.Rewrite
import Reindent.Proofs.Settings.Precedence

/-!
# What a run changes

A run that is not asked to work in place, or that fails, leaves the file tree as it was, unless the
system does not let a temporary file be taken away. One that is asked to succeeds exactly if its
request has a target, and replaces that file and nothing else: the new text is the formatted one
with a line end, and the permission bits stay.
-/

namespace Reindent.Command

open Text Files

/-! ## Options -/

/-- Whether arguments hold an option. -/
def Asks (flag : Flag) (arguments : List (List Char)) : Prop :=
  ∃ s, scan arguments = .ok s ∧ flag ∈ s.options.map Prod.fst

/-- Settling repeated options loses none. -/
theorem mem_map_fst_settled {options : List Given} {flag : Flag} :
    flag ∈ (settled options).map Prod.fst ↔ flag ∈ options.map Prod.fst := by
  have hfind : ∀ {f : Flag} {o : Given}, (options.reverse.find? fun o => o.1 = f) = some o →
      o.1 = f ∧ o ∈ options := by
    intro f o ho
    exact ⟨by simpa using List.find?_some ho, by simpa using List.mem_of_find?_eq_some ho⟩
  simp only [settled, List.mem_map, List.mem_filterMap]
  constructor
  · rintro ⟨o, ⟨f, -, ho⟩, rfl⟩
    exact ⟨o, (hfind ho).2, rfl⟩
  · rintro ⟨o, ho, rfl⟩
    cases hlast : options.reverse.find? fun o' => o'.1 = o.1 with
    | none =>
      have hne := List.find?_eq_none.1 hlast o (by simpa using ho)
      simp at hne
    | some o' => exact ⟨o', ⟨o.1, by simpa using ⟨o.2, ho⟩, hlast⟩, (hfind hlast).1⟩

/-- One option makes a request work in place. -/
theorem Request.inPlace_set {r r' : Request} {o : Given} (h : r.set o = .ok r') :
    r'.inPlace = true ↔ r.inPlace = true ∨ o.1 = .inPlace := by
  obtain ⟨flag, value⟩ := o
  cases flag with
  | minify | preserveComments | indentChars | inPlace | verbose | version | help =>
    cases h
    simp
  | language | depthOverflow =>
    simp only [Request.set] at h
    split at h
    · cases h
      simp
    · cases h
  | indentSpaces | maxDepth =>
    simp only [Request.set, integerValue] at h
    split at h
    · cases h
      simp
    · cases h

theorem Request.inPlace_setAll {options : List Given} {r r' : Request}
    (h : r.setAll options = .ok r') :
    r'.inPlace = true ↔ r.inPlace = true ∨ .inPlace ∈ options.map Prod.fst := by
  induction options generalizing r with
  | nil =>
    cases h
    simp
  | cons o rest ih =>
    rw [Request.setAll] at h
    cases hset : r.set o with
    | error e =>
      rw [hset] at h
      cases h
    | ok next =>
      rw [hset] at h
      rw [ih h, Request.inPlace_set hset, List.map_cons, List.mem_cons, or_assoc, @eq_comm _ o.1]

/-- A request works in place if that option is among the arguments. -/
theorem inPlace_of_readRequest {store : Store} {s : Scanned} {r : Request}
    (h : readRequest store s = .ok r) :
    r.inPlace = true ↔ .inPlace ∈ s.options.map Prod.fst := by
  rw [readRequest] at h
  obtain ⟨⟨r', extra⟩, hrequest, h⟩ := exists_of_bind_eq_ok h
  obtain ⟨-, -, h⟩ := exists_of_bind_eq_ok h
  have hr : r = r' := by
    simp only at h
    split at h
    · cases h
    · exact (Except.ok.inj h).symm
  have hrequest := eq_ok_of_mapError hrequest
  rw [Scanned.request] at hrequest
  obtain ⟨r₀, hset, hrequest⟩ := exists_of_bind_eq_ok hrequest
  have hset := Request.inPlace_setAll hset
  rw [mem_map_fst_settled] at hset
  have hsame : r'.inPlace = r₀.inPlace := by
    split at hrequest
    all_goals
      cases hrequest
      rfl
  rw [hr, hsame, hset]
  simp

/-- Two options are answered at once. -/
theorem answer?_eq_none_iff {helpPage : List Char} {options : List Given} :
    answer? helpPage options = none ↔
    .version ∉ options.map Prod.fst ∧ .help ∉ options.map Prod.fst := by
  induction options with
  | nil => simp [answer?]
  | cons o rest ih =>
    obtain ⟨flag, value⟩ := o
    rw [answer?] at ih ⊢
    cases flag <;> simp_all

/-! ## Written texts -/

/-- A text without lone halves is one of characters. -/
theorem charsFrom_eq_ok {text : List Symbol} {pos : Nat} {content : List Char}
    (h : charsFrom pos text = .ok content) : text = symbols content := by
  induction text generalizing pos content with
  | nil =>
    cases h
    rfl
  | cons s rest ih =>
    cases s with
    | half n => cases h
    | char c =>
      rw [charsFrom] at h
      cases hrest : charsFrom (pos + 1) rest with
      | error e =>
        rw [hrest] at h
        cases h
      | ok tail =>
        rw [hrest] at h
        cases h
        rw [ih hrest]
        rfl

/-- A text with a line end: one is added if there is none. -/
def withLineEnd (out : List Char) : List Char :=
  if out.getLast? = some '\n' then out else out ++ ['\n']

theorem endLine_symbols (out : List Char) : endLine (symbols out) = symbols (withLineEnd out) := by
  have hlast : (symbols out).getLast? = some (.char '\n') ↔ out.getLast? = some '\n' := by
    simp [symbols, List.getLast?_map]
  rw [endLine, withLineEnd]
  by_cases h : out.getLast? = some '\n'
  · rw [if_pos (hlast.2 h), if_pos h]
  · rw [if_neg fun hend => h (hlast.1 hend), if_neg h]
    simp [symbols]

theorem isPrefix_endLine (text : List Symbol) : text <+: endLine text := by
  rw [endLine]
  split
  · exact List.prefix_rfl
  · exact List.prefix_append _ _

/-- A text can be written with its line end if it is one of characters. -/
theorem exists_of_chars_endLine {text : List Symbol} {content : List Char}
    (h : chars (endLine text) = .ok content) :
    ∃ out, text = symbols out ∧ content = withLineEnd out := by
  have hsymbols := charsFrom_eq_ok h
  have htext : text = symbols (content.take text.length) := by
    have hprefix := isPrefix_endLine text
    rw [hsymbols] at hprefix
    rw [symbols, List.map_take]
    exact List.prefix_iff_eq_take.1 hprefix
  refine ⟨content.take text.length, htext, ?_⟩
  rw [htext, endLine_symbols] at hsymbols
  exact (List.map_injective_iff.2 (fun _ _ => Symbol.char.inj) hsymbols).symm

theorem charsFrom_symbols (pos : Nat) (out : List Char) :
    charsFrom pos (symbols out) = .ok out := by
  induction out generalizing pos with
  | nil => rfl
  | cons c out ih =>
    have hcons : symbols (c :: out) = .char c :: symbols out := rfl
    rw [hcons, charsFrom, ih]
    rfl

/-! ## Stages -/

/-- The file at a path, which may be read, is not too large for the settings and holds a text in
UTF-8. -/
structure Holds (around : Surroundings) (s : Settings) (path : Path) (f : File)
    (content : List Char) : Prop where
  found : ∃ place, around.store.fileAt path = .ok (place, f)
  readable : around.store.readError? f = none
  small : ∃ limit, sizeLimit (settingsLimit s) around.sizeLimit? = .ok limit ∧
    f.octets.length ≤ limit
  decoded : decodeUtf8 f.octets = .ok content

theorem readNamed_of_holds {around : Surroundings} {s : Settings} {path : Path} {f : File}
    {content : List Char} (h : Holds around s path f content) :
    readNamed around s path = .ok (f.stat, unifyNewlines content) := by
  obtain ⟨place, hfile⟩ := h.found
  obtain ⟨limit, hlimit, hsmall⟩ := h.small
  have hread : around.store.readSource path = .ok (unifyNewlines content) := by
    rw [Store.readSource, Store.lookUp_of_not_link (Store.lookUp_of_fileAt hfile) (by simp)]
    simp [h.readable, h.decoded, Except.map, Except.mapError]
  have hsize : checkSize f.stat limit path = .ok () := if_neg (not_lt.2 hsmall)
  rw [readNamed, hlimit, Store.stat, hfile]
  simp [Except.map, Except.mapError, bind, Except.bind, pure, Except.pure, hsize, hread]

/-- The file that is read is the one whose record is taken. -/
theorem exists_of_readNamed {around : Surroundings} {s : Settings} {path : Path} {stat : FileStat}
    {text : List Char} (h : readNamed around s path = .ok (stat, text)) :
    ∃ f content, Holds around s path f content ∧ stat = f.stat ∧ text = unifyNewlines content := by
  rw [readNamed] at h
  obtain ⟨limit, hlimit, h⟩ := exists_of_bind_eq_ok h
  obtain ⟨stat', hstat, h⟩ := exists_of_bind_eq_ok (eq_ok_of_mapError h)
  obtain ⟨_, hsize, h⟩ := exists_of_bind_eq_ok h
  obtain ⟨text', htext, h⟩ := exists_of_bind_eq_ok h
  cases h
  rw [Store.stat] at hstat
  cases hfile : around.store.fileAt path with
  | error e =>
    rw [hfile] at hstat
    cases hstat
  | ok found =>
    obtain ⟨place, f⟩ := found
    rw [hfile] at hstat
    cases hstat
    have hsmall : f.octets.length ≤ limit := by
      rw [checkSize] at hsize
      split at hsize
      · cases hsize
      · rename_i hlarge
        exact not_lt.1 hlarge
    rw [Store.readSource, Store.lookUp_of_not_link (Store.lookUp_of_fileAt hfile) (by simp)]
      at htext
    simp only at htext
    split at htext
    · rename_i hreadable
      have htext := eq_ok_of_mapError htext
      cases hdecode : decodeUtf8 f.octets with
      | error fault =>
        rw [hdecode] at htext
        cases htext
      | ok content =>
        rw [hdecode] at htext
        cases htext
        exact ⟨f, content, ⟨⟨place, hfile⟩, hreadable,
          ⟨limit, eq_ok_of_mapError hlimit, hsmall⟩, hdecode⟩, rfl, rfl⟩
    all_goals cases htext

/-- A file that a request names, and what formatting the text in it gives. -/
structure Formats (around : Surroundings) (r : Request) (path : Path) (f : File)
    (text : List Symbol) : Prop where
  named : r.fromInput = false
  located : around.store.locate around.homes r.path = .ok path
  formatted : ∃ language s content engine, r.language.or (language? path) = some language ∧
    Settings.build around.limits around.store path.parent (overrides r) = .ok s ∧
    Holds around s path f content ∧ Engine.create around.limits s = .ok engine ∧
    engine.format language.name (unifyNewlines content) r.minify = .ok text

theorem prepare_of_formats {around : Surroundings} {r : Request} {path : Path} {f : File}
    {text : List Symbol} (h : Formats around r path f text) :
    ∃ job, prepare around r = .ok job ∧ job.file? = some (path, f.stat) ∧
      job.engine.format job.language.name job.text r.minify = .ok text := by
  obtain ⟨language, s, content, engine, hlanguage, hsettings, hholds, hengine, hformat⟩ :=
    h.formatted
  refine ⟨⟨some (path, f.stat), language, unifyNewlines content, engine⟩, ?_, rfl, hformat⟩
  have hsource : source around r = .ok (some path, language) := by
    rw [source, h.named, h.located]
    simp [Except.mapError, bind, Except.bind, pure, Except.pure, hlanguage]
  rw [prepare, hsource]
  simp [settings, Except.map, Except.mapError, bind, Except.bind, pure, Except.pure, hsettings,
    readNamed_of_holds hholds, hengine]

/-- A job in place is one for a file. -/
theorem exists_of_prepare {around : Surroundings} {r : Request} {job : Job}
    (h : prepare around r = .ok job) (hplace : r.inPlace = true) :
    ∃ path f, job.file? = some (path, f.stat) ∧
      ∀ text, job.engine.format job.language.name job.text r.minify = .ok text →
      Formats around r path f text := by
  rw [prepare] at h
  obtain ⟨⟨path?, language⟩, hsource, h⟩ := exists_of_bind_eq_ok h
  obtain ⟨s, hsettings, h⟩ := exists_of_bind_eq_ok h
  -- From the standard input nothing is formatted in place.
  rw [source, hplace] at hsource
  split at hsource
  · cases hsource
  rename_i hnamed
  obtain ⟨path, hlocate, hsource⟩ := exists_of_bind_eq_ok hsource
  split at hsource
  · rename_i hlanguage
    cases hsource
    obtain ⟨⟨file?, text⟩, hread, h⟩ := exists_of_bind_eq_ok h
    obtain ⟨engine, hengine, h⟩ := exists_of_bind_eq_ok h
    cases h
    cases hnamed' : readNamed around s path with
    | error stop =>
      rw [hnamed'] at hread
      cases hread
    | ok read =>
      obtain ⟨stat, text⟩ := read
      rw [hnamed'] at hread
      cases hread
      obtain ⟨f, content, hholds, rfl, rfl⟩ := exists_of_readNamed hnamed'
      refine ⟨path, f, rfl, fun out hout => ?_⟩
      exact ⟨by simpa using hnamed, eq_ok_of_mapError hlocate,
        ⟨_, s, content, engine, hlanguage, eq_ok_of_mapError hsettings, hholds,
          eq_ok_of_mapError hengine, hout⟩⟩
  · cases hsource

/-! ## Runs -/

@[simp] theorem Stop.store_report (stop : Stop) (store : Store) (notes : List Note) :
    (stop.report store notes).store = store := by
  cases stop <;> rfl

theorem Stop.exitCode_report (stop : Stop) (store : Store) (notes : List Note) :
    (stop.report store notes).exitCode ≠ 0 := by
  cases stop <;> simp [Stop.report]

section

variable {r : Request} {around : Surroundings} {job : Job} {store : Store} {stop : Stop}
  {output : List Char}

theorem Request.run_of_prepare_error (h : prepare around r = .error stop) :
    r.run around = stop.report around.later [] := by
  rw [Request.run, h]

theorem Request.run_of_finish_error (h : prepare around r = .ok job)
    (hfinish : job.finish around r = (store, .error stop)) :
    r.run around = stop.report store (job.notes r) := by
  rw [Request.run, h]
  simp only [hfinish]

theorem Request.run_of_finish_ok (h : prepare around r = .ok job)
    (hfinish : job.finish around r = (store, .ok output)) :
    r.run around = { exitCode := 0, output, notes := job.notes r, store } := by
  rw [Request.run, h]
  simp only [hfinish]

end

/-- A result that is not written to its file changes nothing. -/
theorem Job.finish_of_not_inPlace {r : Request} (h : r.inPlace = false) (job : Job)
    (around : Surroundings) :
    (job.finish around r).1 = around.later := by
  rw [Job.finish]
  split
  · rfl
  · simp [deliver, h]

/-- A request that is not to be carried out in place leaves the tree alone. -/
theorem Request.store_run_of_not_inPlace {r : Request} (h : r.inPlace = false)
    (around : Surroundings) :
    (r.run around).store = around.later := by
  cases hprepare : prepare around r with
  | error stop => rw [Request.run_of_prepare_error hprepare, Stop.store_report]
  | ok job =>
    have hstore := job.finish_of_not_inPlace h around
    cases hfinish : job.finish around r with
    | mk store result =>
      rw [hfinish] at hstore
      cases result with
      | error stop =>
        rw [Request.run_of_finish_error hprepare hfinish, Stop.store_report, ← hstore]
      | ok output => rw [Request.run_of_finish_ok hprepare hfinish, ← hstore]

/-- A request that can be carried out in place: the text of the file at its path is formatted to
`out`, the file, which stands at `place` by then, has not changed, there is a place for a temporary
file beside it, and the system does not refuse to write that and to move it. -/
structure Target (around : Surroundings) (r : Request) (path : Path) (place : Place) (f : File)
    (out : List Char) : Prop where
  formats : Formats around r path f (symbols out)
  unchanged : ∃ current, around.later.fileAt path = .ok (place, current) ∧
    f.stat.sameVersion current.stat = true
  replaceable : ∃ temporary, around.later.newTemporary path = .ok temporary
  writes : around.disk.Writes

/-- A request in place succeeds if it has a target, and replaces that. -/
theorem Request.run_of_target {around : Surroundings} {r : Request} {path : Path} {place : Place}
    {f : File} {out : List Char} (h : r.inPlace = true)
    (htarget : Target around r path place f out) :
    (r.run around).exitCode = 0 ∧
      around.later.ReplacedAt (r.run around).store place
      (encodeUtf8 (withLineEnd out)) f.mode := by
  obtain ⟨hformats, ⟨current, hcurrent, hsame⟩, ⟨temporary, hnew⟩, hdisk⟩ := htarget
  obtain ⟨job, hprepare, hfile, hformat⟩ := prepare_of_formats hformats
  have hchars : chars (endLine (symbols out)) = .ok (withLineEnd out) := by
    rw [endLine_symbols]
    exact charsFrom_symbols 0 _
  obtain ⟨after, hrewrite, hreplaced⟩ :=
    Store.rewrite_of_newTemporary hcurrent hsame hnew hdisk hchars
  have hfinish : job.finish around r = (after, .ok []) := by
    rw [Job.finish, hformat]
    simp only [deliver, h, hfile, hrewrite]
    rfl
  rw [Request.run_of_finish_ok hprepare hfinish]
  exact ⟨rfl, hreplaced⟩

/-- Without a target it fails and spares the tree. -/
theorem Request.run_of_inPlace {r : Request} (h : r.inPlace = true) (around : Surroundings) :
    ((r.run around).exitCode ≠ 0 ∧
      Store.Spared around.disk around.later (r.run around).store) ∨
    ∃ path place f out, Target around r path place f out := by
  cases hprepare : prepare around r with
  | error stop =>
    rw [Request.run_of_prepare_error hprepare]
    exact .inl ⟨stop.exitCode_report _ _, by simpa using .restored (.refl _)⟩
  | ok job =>
    obtain ⟨path, f, hfile, hformats⟩ := exists_of_prepare hprepare h
    cases hformat : job.engine.format job.language.name job.text r.minify with
    | error e =>
      have hfinish : job.finish around r = (around.later, .error (stopOfFailure e)) := by
        rw [Job.finish, hformat]
      rw [Request.run_of_finish_error hprepare hfinish]
      exact .inl ⟨(stopOfFailure e).exitCode_report _ _, by simpa using .restored (.refl _)⟩
    | ok text =>
      have hfinish : job.finish around r = deliver around r job.file? text := by
        rw [Job.finish, hformat]
      simp only [deliver, h, hfile] at hfinish
      obtain ⟨left, e, hrewrite, hspared⟩ | ⟨place, current, temporary, content, hcurrent, hsame,
          hnew, hdisk, hchars⟩ :=
        around.later.rewrite_cases around.disk path (endLine text) f.stat
      · simp only [hrewrite] at hfinish
        rw [Request.run_of_finish_error hprepare hfinish]
        exact .inl ⟨(stopOfSource e).exitCode_report _ _, by simpa using hspared⟩
      · obtain ⟨out, rfl, -⟩ := exists_of_chars_endLine hchars
        exact .inr ⟨path, place, f, out, hformats _ hformat, ⟨current, hcurrent, hsame⟩,
          ⟨temporary, hnew⟩, hdisk⟩

/-- The request that arguments make. -/
def Requests (arguments : List (List Char)) (around : Surroundings) (r : Request) : Prop :=
  ∃ s, scan arguments = .ok s ∧ readRequest around.store s = .ok r

/-- A run changes at most the file it was asked to format in place, and that only if it succeeds:
then the file has the formatted text with a line end, and its permission bits are as they were. A
run that fails leaves no more than a temporary file, and that only if the system does not let it be
taken away. -/
theorem run_changes_only_target (arguments : List (List Char)) (around : Surroundings) :
    (¬ Asks .inPlace arguments ∨ Asks .version arguments ∨ Asks .help arguments →
      (run arguments around).store = around.later) ∧
    ((run arguments around).exitCode ≠ 0 →
      Store.Spared around.disk around.later (run arguments around).store) ∧
    (Asks .inPlace arguments → ¬ Asks .version arguments → ¬ Asks .help arguments →
      ((run arguments around).exitCode = 0 ↔
        ∃ r path place f out, Requests arguments around r ∧ Target around r path place f out) ∧
      ∀ r path place f out, Requests arguments around r → Target around r path place f out →
        around.later.ReplacedAt (run arguments around).store place
        (encodeUtf8 (withLineEnd out)) f.mode) := by
  have hasks : ∀ {flag s}, scan arguments = .ok s →
      (Asks flag arguments ↔ flag ∈ s.options.map Prod.fst) := by
    intro flag s hscan
    simp [Asks, hscan]
  rw [run]
  cases hscan : scan arguments with
  | error e =>
    refine ⟨fun _ => by simp, fun _ => by simpa using .restored (.refl _), fun hin => ?_⟩
    obtain ⟨s, hs, -⟩ := hin
    rw [hscan] at hs
    cases hs
  | ok s =>
    rw [hasks hscan, hasks hscan, hasks hscan]
    simp only
    cases hanswer : answer? around.helpPage s.options with
    | some text =>
      refine ⟨fun _ => rfl, fun hexit => absurd rfl hexit, fun _ hversion hhelp => ?_⟩
      rw [answer?_eq_none_iff.2 ⟨hversion, hhelp⟩] at hanswer
      cases hanswer
    | none =>
      obtain ⟨hversion, hhelp⟩ := answer?_eq_none_iff.1 hanswer
      have hrequests : ∀ {r}, Requests arguments around r ↔
          readRequest around.store s = .ok r := by
        intro r
        simp [Requests, hscan]
      simp only [hrequests]
      cases hread : readRequest around.store s with
      | error stop =>
        refine ⟨fun _ => by simp, fun _ => by simpa using .restored (.refl _),
          fun _ _ _ => ⟨?_, by simp⟩⟩
        simp [stop.exitCode_report]
      | ok r =>
        have hplace := inPlace_of_readRequest hread
        have hstay : r.inPlace ≠ true → (r.run around).store = around.later := fun h =>
          Request.store_run_of_not_inPlace (by simpa using h) around
        refine ⟨?_, fun hexit => ?_, fun hin _ _ => ⟨⟨fun hexit => ?_, ?_⟩, ?_⟩⟩
        · rintro (hin | hin | hin)
          · exact hstay fun h => hin (hplace.1 h)
          · exact absurd hin hversion
          · exact absurd hin hhelp
        · by_cases h : r.inPlace = true
          · obtain ⟨-, hsame⟩ | ⟨path, place, f, out, htarget⟩ := Request.run_of_inPlace h around
            · exact hsame
            · exact absurd (Request.run_of_target h htarget).1 hexit
          · rw [hstay h]
            exact .restored (.refl _)
        · obtain ⟨hfailed, -⟩ | ⟨path, place, f, out, htarget⟩ :=
            Request.run_of_inPlace (hplace.2 hin) around
          · exact absurd hexit hfailed
          · exact ⟨r, path, place, f, out, rfl, htarget⟩
        · rintro ⟨_, path, place, f, out, ⟨⟩, htarget⟩
          exact (Request.run_of_target (hplace.2 hin) htarget).1
        · rintro _ path place f out ⟨⟩ htarget
          exact (Request.run_of_target (hplace.2 hin) htarget).2

/-- A file with a document. -/
def document : File where
  mode := 0o640
  owner := 1000
  octets := encodeUtf8 "[1]".toList
  inode := 1
  mtime := 0

/-- The document of a user who may make files beside it. -/
def documentStore : Store where
  nodes := [(["a.json".toList], .file document)]
  user := { id := 1000 }
  root := { mode := 0o755, owner := 1000 }

/-- The document is laid out in place, and keeps its permission bits. -/
theorem run_changes_only_target_document :
    let around : Surroundings := { limits := ⟨0, 1, 1, 0⟩, store := documentStore }
    let report := run ["--in-place".toList, "a.json".toList] around
    report.exitCode = 0 ∧ documentStore.ReplacedAt report.store ["a.json".toList]
      (encodeUtf8 "[\n  1\n]\n".toList) 0o640 := by
  intro around report
  let arguments := ["--in-place".toList, "a.json".toList]
  let r : Request := { inPlace := true, path := "a.json".toList }
  let path : Path := ⟨['/'], ["a.json".toList]⟩
  have hscan : scan arguments = .ok ⟨[(.inPlace, [])], ["a.json".toList]⟩ := by rfl
  have hrequests : Requests arguments around r := ⟨_, hscan, by cbv⟩
  have hsearch : Settings.search around.limits documentStore path.parent = .ok {} := by cbv
  have hlower : (Settings.Value.text (Overflow.name .clamp)).lower =
      .text (Overflow.name .clamp) :=
    congrArg Settings.Value.text (by decide)
  have hsettings : Settings.build around.limits documentStore path.parent (overrides r) =
      .ok {} :=
    Settings.build_eq_ok_iff.2 ⟨by decide, _, hsearch, by decide, by decide,
      ⟨[' ', ' '], 100, .clamp, false, 10485760⟩,
      ⟨.own rfl, by decide, rfl, by decide, by decide, rfl, by decide, hlower, rfl⟩, rfl⟩
  have hlength : document.octets.length = 3 := by cbv
  have hholds : Holds around {} path document "[1]".toList :=
    ⟨⟨["a.json".toList], by cbv⟩, by cbv, ⟨10485760, by cbv, by rw [hlength]; decide⟩, by cbv⟩
  have hformats : Formats around r path document (symbols "[\n  1\n]".toList) :=
    ⟨rfl, by cbv, .json, {}, "[1]".toList, _, by cbv, hsettings, hholds, rfl, by cbv⟩
  have htarget : Target around r path ["a.json".toList] document "[\n  1\n]".toList :=
    ⟨hformats, ⟨_, by cbv, by cbv⟩, ⟨⟨_, _⟩, by cbv⟩, fun _ _ => rfl⟩
  have hasks : ∀ flag, Asks flag arguments ↔ flag = .inPlace := by
    intro flag
    simp [Asks, hscan]
  have hin := (run_changes_only_target arguments around).2.2 ((hasks _).2 rfl) (by simp [hasks])
    (by simp [hasks])
  exact ⟨hin.1.2 ⟨r, path, _, _, _, hrequests, htarget⟩, hin.2 r path _ _ _ hrequests htarget⟩

end Reindent.Command
