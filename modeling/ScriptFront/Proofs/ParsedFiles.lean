import ScriptFront.Proofs.AccountedRuns
import ScriptFront.Proofs.ExportCache

/-!
How often a file is parsed in a compilation that starts afresh. A file that gives exports is parsed
once at the most, however many files import it, since its exports are kept. Nothing is kept of a
file that gives none: it is parsed once for every route that imports lead on to it, so that the work
grows with the number of routes and not with that of files.
-/

namespace ScriptFront

open Relation

/-! ### Files and routes to them -/

/-- The path that a question asks to parse, if it does. -/
def FileCall.parsed? : FileCall → Option Path
  | exists_ _ | read _ => none
  | parse p => some p

/-- The paths that were passed to the parser, in order. -/
def Session.parsed (s : Session) : List Path := s.calls.filterMap FileCall.parsed?

namespace Files

/-- Whether a file exists and can be read. -/
def readable (fs : Files) (p : Path) : Bool := ((fs.find? p).bind Except.toOption).isSome

/-- The files that some imports of a file name, one for each declaration. -/
def named (p : Path) (is : List ImportDeclaration) : List Path :=
  (is.filter fun i => !i.isNative).map fun i => p.resolveImport i.source

/-- The files that the imports of a file name, if it can be analysed. -/
def targets (fs : Files) (p : Path) : List Path :=
  match fs.program? p with
  | some program => named p program.imports
  | none => []

/--
The files that imports lead to from a file, which comes first: one for each route on which no file
is met twice, and none of those that were met before, with at most so many files on a route.
-/
def tour (fs : Files) : Nat → List Path → Path → List Path
  | 0, _, _ => []
  | levels + 1, met, p =>
    if p ∈ met ∨ fs.readable p = false then []
    else p :: (fs.targets p).flatMap (fs.tour levels (met ++ [p]))

variable {fs : Files} {p q : Path} {program : Program} {levels : Nat} {met : List Path}

theorem readable_of_program? (h : fs.program? p = some program) : fs.readable p = true := by
  obtain ⟨text, found, -⟩ := find?_of_program? h
  rw [readable, found]
  rfl

theorem targets_of_program? (h : fs.program? p = some program) :
    fs.targets p = named p program.imports := by
  rw [targets, h]

section Named

variable {i : ImportDeclaration} {is : List ImportDeclaration}

theorem named_native (native : i.isNative = true) : named p (i :: is) = named p is := by
  simp [named, native]

theorem named_file (native : i.isNative = false) :
    named p (i :: is) = [p.resolveImport i.source] ++ named p is := by
  simp [named, native]

theorem mem_named :
    q ∈ named p is ↔ ∃ i ∈ is, i.isNative = false ∧ p.resolveImport i.source = q := by
  simp [named, and_assoc]

end Named

theorem mem_targets : q ∈ fs.targets p ↔ fs.Imports p q := by
  unfold targets Imports
  cases fs.program? p with
  | none => simp
  | some program => simp [mem_named]

theorem tour_of_met (h : p ∈ met) : fs.tour levels met p = [] := by
  cases levels with
  | zero => rfl
  | succ levels => rw [tour, if_pos (.inl h)]

theorem tour_of_program? (h : fs.program? p = some program) (new : p ∉ met) :
    fs.tour (levels + 1) met p
      = p :: (named p program.imports).flatMap (fs.tour levels (met ++ [p])) := by
  rw [tour, if_neg, targets_of_program? h]
  rintro (here | unreadable)
  · exact new here
  · rw [readable_of_program? h] at unreadable
    cases unreadable

theorem tour_of_no_program? (h : fs.program? p = none) (new : p ∉ met) :
    fs.tour (levels + 1) met p = if fs.readable p then [p] else [] := by
  rw [tour, targets, h]
  cases readable : fs.readable p <;> simp [new]

/-- A tour stays with the files that imports lead to. -/
theorem reaches_of_mem_tour (h : q ∈ fs.tour levels met p) : ReflTransGen fs.Imports p q := by
  induction levels generalizing met p with
  | zero => cases h
  | succ levels ih =>
      unfold tour at h
      split at h
      · cases h
      · rcases List.mem_cons.mp h with rfl | later
        · exact .refl
        · obtain ⟨r, target, inside⟩ := List.mem_flatMap.mp later
          exact .head (mem_targets.mp target) (ih inside)

theorem not_mem_tour_of_met (h : q ∈ met) : q ∉ fs.tour levels met p := by
  induction levels generalizing met p with
  | zero => exact List.not_mem_nil
  | succ levels ih =>
      unfold tour
      split
      · exact List.not_mem_nil
      · next new =>
          have other : q ≠ p := fun same => new (.inl (same ▸ h))
          refine fun here => other ((List.mem_cons.mp here).resolve_right fun later => ?_)
          obtain ⟨r, -, inside⟩ := List.mem_flatMap.mp later
          exact ih (List.mem_append_left _ h) inside

end Files

namespace Session

variable {s t : Session} {p q : Path}

@[simp] theorem parsed_start (log : DiagnosticLog) : (start log).parsed = [] := rfl

@[simp] theorem parsed_report (s : Session) (ds : List Diagnostic) :
    (s.report ds).parsed = s.parsed := rfl

@[simp] theorem parsed_begin (s : Session) (p : Path) : (s.begin p).parsed = s.parsed := rfl

theorem parsed_asked (s : Session) (calls : List FileCall) :
    (s.asked calls).parsed = s.parsed ++ calls.filterMap FileCall.parsed? := by
  rw [parsed, parsed, asked, List.filterMap_append]

@[simp] theorem parsed_asked_reading (s : Session) (p : Path) :
    (s.asked (readingCalls p)).parsed = s.parsed ++ [p] := s.parsed_asked _

end Session

variable {fs : Files} {root p q file : Path} {stack : List Path} {program : Program}
  {s s' t : Session}

/-- Why a file has no program: it cannot be found, it cannot be read, or it does not parse. -/
theorem Files.no_program_cases (h : fs.program? p = none) :
    fs.find? p = none ∨ (∃ reason, fs.find? p = some (.error reason)) ∨
      ∃ text failure, fs.find? p = some (.ok text) ∧
        (parseFile p text).result = .error failure := by
  cases found : fs.find? p with
  | none => exact .inl rfl
  | some content =>
      cases content with
      | error reason => exact .inr (.inl ⟨reason, rfl⟩)
      | ok text =>
          cases parsed : (parseFile p text).result with
          | error failure => exact .inr (.inr ⟨text, failure, rfl, parsed⟩)
          | ok program => cases h.symm.trans (Files.program?_eq found parsed)

/-- A file without a program is parsed if it can be read. -/
theorem parsed_loadFile (h : fs.program? p = none) (importer : Importer) (source : String)
    (s : Session) :
    (loadFile fs importer source p s).2.parsed
      = s.parsed ++ if fs.readable p then [p] else [] := by
  unfold Files.readable
  rcases Files.no_program_cases h with found | ⟨reason, found⟩ | ⟨text, failure, found, failed⟩
  · simp [loadFile, found, Session.call_eq_asked, Session.parsed_asked, FileCall.parsed?]
  · simp [loadFile, found, Session.call_eq_asked, Session.parsed_asked, FileCall.parsed?,
      Except.toOption]
  · simp [loadFile_of_failure found failed, found, Except.toOption]

theorem parsed_compile (h : fs.program? p.normalize = none) (s : Session) :
    (s.compile fs p).2.parsed
      = s.parsed ++ if fs.readable p.normalize then [p.normalize] else [] := by
  unfold Files.readable
  rcases Files.no_program_cases h with found | ⟨reason, found⟩ | ⟨text, failure, found, failed⟩
  · simp [Session.compile, found, Session.call_eq_asked, Session.parsed_asked, FileCall.parsed?]
  · simp [Session.compile, found, Session.call_eq_asked, Session.parsed_asked, FileCall.parsed?,
      Except.toOption]
  · have source : (Job.file p).source? fs = some text := by
      rw [Job.source?, found]
      rfl
    have run : s.compile fs p = _ := Session.run_of_source source s
    have failed : (parseFile (Job.file p).path text).result = .error failure := failed
    rw [run, failed, found]
    exact s.parsed_asked_reading p.normalize

/-! ### Runs that started afresh -/

/--
In the course of a compilation that started afresh, every file that was parsed is reached from the
first one, and with every file that is not in progress all files that it imports were parsed. A file
that gives exports was parsed once if it is in progress or its exports are kept, and never else.
-/
structure Session.Tallied (fs : Files) (root : Path) (s : Session) : Prop where
  sound : s.Sound fs
  reached : ∀ q ∈ s.parsed, ReflTransGen fs.Imports root q ∧ fs.readable q = true
  progress : ∀ q ∈ s.inProgress, q ∈ s.parsed ∧ s.exportsOf q = none
  once : ∀ q exports, q.Normal → fs.Gives q exports →
    s.parsed.count q = (s.exportsOf q).isSome.toNat + s.inProgress.count q
  closed : ∀ q ∈ s.parsed, q ∉ s.inProgress →
    ∀ r, fs.Imports q r → fs.readable r = true → r ∈ s.parsed

namespace Session.Tallied

theorem of_same (h : s.Tallied fs root) (stack : t.inProgress = s.inProgress)
    (kept : ∀ q, t.exportsOf q = s.exportsOf q) (parsed : t.parsed = s.parsed) :
    t.Tallied fs root where
  sound := h.sound.of_same kept
  reached := parsed ▸ h.reached
  progress q hq := by
    rw [parsed, kept]
    exact h.progress q (stack ▸ hq)
  once q exports normal given := by
    rw [parsed, kept, stack]
    exact h.once q exports normal given
  closed := by
    rw [parsed, stack]
    exact h.closed

/-- A file that exports are kept for was parsed. -/
theorem mem_of_kept {exports : ExportTable} (h : s.Tallied fs root) (normal : q.Normal)
    (kept : s.exportsOf q = some exports) : q ∈ s.parsed := by
  have once := h.once q exports normal (h.sound.gives q exports normal kept)
  rw [kept, Option.isSome_some, Bool.toNat_true] at once
  exact List.count_pos_iff.mp (by omega)

/-- A file is parsed and entered. -/
theorem enter (h : s.Tallied fs root) (lost : s.exportsOf p = none)
    (reach : ReflTransGen fs.Imports root p) (readable : fs.readable p = true) :
    ((s.asked (readingCalls p)).begin p).Tallied fs root where
  sound := h.sound.of_same fun _ => rfl
  reached := by
    rw [parsed_begin, parsed_asked_reading]
    exact List.forall_mem_append.mpr
      ⟨h.reached, List.forall_mem_singleton.mpr ⟨reach, readable⟩⟩
  progress := by
    rw [parsed_begin, parsed_asked_reading]
    refine List.forall_mem_append.mpr ⟨fun q hq => ?_, List.forall_mem_singleton.mpr ?_⟩
    · exact (h.progress q hq).imp_left (List.mem_append_left _)
    · exact ⟨List.mem_append_right _ List.mem_cons_self, lost⟩
  once q exports normal given := by
    have once := h.once q exports normal given
    rw [parsed_begin, parsed_asked_reading, inProgress_begin, List.count_append, List.count_append]
    rw [once, Nat.add_assoc]
    rfl
  closed q hq out r imports readable := by
    rw [parsed_begin, parsed_asked_reading] at hq ⊢
    rw [inProgress_begin, List.mem_append, not_or] at out
    have earlier := (List.mem_append.mp hq).resolve_right out.2
    exact List.mem_append_left _ (h.closed q earlier out.1 r imports readable)

/-- A file is left when all that it imports was parsed, and its exports are kept if it gives any. -/
theorem leave {u : Session} (h : t.Tallied fs root) (entered : t.inProgress = stack ++ [p])
    (new : p ∉ stack) (normal : ∀ q ∈ stack, q.Normal)
    (imported : ∀ r, fs.Imports p r → fs.readable r = true → r ∈ t.parsed)
    (sound : u.Sound fs) (left : u.inProgress = stack) (parsed : u.parsed = t.parsed)
    (others : ∀ q, q.Normal → q ≠ p → u.exportsOf q = t.exportsOf q)
    (own : ∀ exports, fs.Gives p exports → u.exportsOf p = some exports) :
    u.Tallied fs root where
  sound := sound
  reached := parsed ▸ h.reached
  progress q hq := by
    rw [left] at hq
    have other : q ≠ p := fun same => new (same ▸ hq)
    rw [parsed, others q (normal q hq) other]
    exact h.progress q (entered ▸ List.mem_append_left _ hq)
  once q exports normal given := by
    have once := h.once q exports normal given
    rw [parsed, once, entered, left, List.count_append, List.count_singleton]
    by_cases same : q = p
    · subst same
      have lost := (h.progress q (by simp [entered])).2
      rw [own exports given, lost, List.count_eq_zero.mpr new]
      simp
    · rw [others q normal same]
      simp [Ne.symm same]
  closed q hq out r imports readable := by
    rw [parsed] at hq ⊢
    rw [left] at out
    by_cases same : q = p
    · exact imported r (same ▸ imports) readable
    · refine h.closed q hq (fun inside => ?_) r imports readable
      rw [entered, List.mem_append, List.mem_singleton] at inside
      exact inside.elim out same

end Session.Tallied

/--
What was done in such a run for some files that are imported: they were parsed, and every file that
gives no exports was parsed once more for every route to it.
-/
structure Loads (fs : Files) (root : Path) (levels : Nat) (ps : List Path) (s t : Session) :
    Prop where
  stack : t.inProgress = s.inProgress
  tallied : t.Tallied fs root
  more : s.parsed ⊆ t.parsed
  loaded : ∀ q ∈ ps, fs.readable q = true → q ∈ t.parsed
  routes : ∀ q, (∀ exports, ¬ fs.Gives q exports) → t.parsed.count q
    = s.parsed.count q + (ps.flatMap (fs.tour levels s.inProgress)).count q

namespace Loads

variable {levels : Nat} {ps qs : List Path}

theorem nil (h : s.Tallied fs root) : Loads fs root levels [] s s where
  stack := rfl
  tallied := h
  more _ hq := hq
  loaded := List.forall_mem_nil _
  routes _ _ := rfl

theorem report (h : Loads fs root levels ps s t) (ds : List Diagnostic) :
    Loads fs root levels ps s (t.report ds) where
  stack := h.stack
  tallied := h.tallied.of_same rfl (fun _ => rfl) rfl
  more := h.more
  loaded := h.loaded
  routes := h.routes

theorem append (h : Loads fs root levels ps s s') (h' : Loads fs root levels qs s' t) :
    Loads fs root levels (ps ++ qs) s t where
  stack := h'.stack.trans h.stack
  tallied := h'.tallied
  more _ hq := h'.more (h.more hq)
  loaded := List.forall_mem_append.mpr
    ⟨fun q hq readable => h'.more (h.loaded q hq readable), h'.loaded⟩
  routes q none := by
    rw [h'.routes q none, h.routes q none, h.stack, List.flatMap_append, List.count_append,
      Nat.add_assoc]

end Loads

/-- An importer loads the file of an import in every such run with certain files in progress. -/
def Importer.Loads (importer : Importer) (fs : Files) (root : Path) (levels : Nat)
    (stack : List Path) (file : Path) (i : ImportDeclaration) : Prop :=
  ∀ s, s.inProgress = stack → s.Tallied fs root →
    ScriptFront.Loads fs root levels [file.resolveImport i.source] s (importer file i s).2

namespace Loads

variable {levels depth : Nat} {importer : Importer} {mayFail : Prop} {i : ImportDeclaration}
  {is : List ImportDeclaration}

theorem of_binds (binds : Workspace.Binds importer file mayFail is s t)
    (tallied : s.Tallied fs root)
    (loads : ∀ i ∈ is, i.isNative = false → importer.Loads fs root levels s.inProgress file i) :
    Loads fs root levels (Files.named file is) s t := by
  induction binds with
  | nil => exact .nil tallied
  | @native i is ds s t native _ _ ih =>
      have told : Loads fs root levels [] s (s.report ds) := (Loads.nil tallied).report ds
      rw [Files.named_native native, ← List.nil_append (Files.named file is)]
      exact told.append (ih told.tallied fun j hj => loads j (List.mem_cons_of_mem _ hj))
  | @given i is ds s s' t exports native answer _ _ ih =>
      have head := (loads i List.mem_cons_self native s rfl tallied).report ds
      rw [answer] at head
      rw [Files.named_file native]
      refine head.append (ih head.tallied fun j hj => ?_)
      rw [head.stack]
      exact loads j (List.mem_cons_of_mem _ hj)
  | @failed i is s s' t fault _ native answer _ ih =>
      have head := (loads i List.mem_cons_self native s rfl tallied).report
        [Workspace.failure file i fault]
      rw [answer] at head
      rw [Files.named_file native]
      refine head.append (ih head.tallied fun j hj => ?_)
      rw [head.stack]
      exact loads j (List.mem_cons_of_mem _ hj)

/-- Between the time when a file is entered and when it is left, its imports are loaded. -/
theorem of_analysis (tallied : (s.begin p).Tallied fs root)
    (loads : ∀ i ∈ program.imports, i.isNative = false →
      importer.Loads fs root levels (s.inProgress ++ [p]) p i) :
    ∃ t ds, (analyzeWith importer p program .fresh s).session = (t.finish p).report ds ∧
      Loads fs root levels (Files.named p program.imports) (s.begin p) t := by
  obtain ⟨opened, t, ds, -, -, binds, session⟩ := analyzeWith_binds importer p program .fresh s
  have told : Loads fs root levels [] (s.begin p) ((s.begin p).report opened) :=
    (Loads.nil tallied).report opened
  exact ⟨t, ds, session, told.append (of_binds binds told.tallied loads)⟩

end Loads

theorem Analyzed.parsed_imported (a : Analyzed) (source : String) (p : Path) :
    (a.imported source p).2.parsed = a.session.parsed := by
  unfold imported
  split <;> rfl

theorem Analyzed.exportsOf_imported (a : Analyzed) (source : String) (normal : p.Normal)
    (normal' : q.Normal) (other : q ≠ p) :
    (a.imported source p).2.exportsOf q = a.session.exportsOf q := by
  unfold imported
  split
  · rfl
  · rw [Session.exportsOf_store, if_neg]
    exact fun same => other (normal.eq_of_same normal' same).symm

namespace Loads

variable {levels depth : Nat} {i : ImportDeclaration}

theorem of_inProgress (tallied : s.Tallied fs root) (here : p ∈ s.inProgress) :
    Loads fs root levels [p] s s where
  stack := rfl
  tallied := tallied
  more _ hq := hq
  loaded := List.forall_mem_singleton.mpr fun _ => (tallied.progress p here).1
  routes q _ := by rw [List.flatMap_singleton, Files.tour_of_met here]; rfl

/-- A file that exports are kept for leads to none that gives no exports. -/
theorem of_kept {exports : ExportTable} (tallied : s.Tallied fs root) (normal : p.Normal)
    (kept : s.exportsOf p = some exports) : Loads fs root levels [p] s s where
  stack := rfl
  tallied := tallied
  more _ hq := hq
  loaded := List.forall_mem_singleton.mpr fun _ => tallied.mem_of_kept normal kept
  routes q none := by
    have given := tallied.sound.gives p exports normal kept
    have never : q ∉ fs.tour levels s.inProgress p := fun mem => by
      obtain ⟨exports', given'⟩ := given.reached (Files.reaches_of_mem_tour mem)
      exact none exports' given'
    rw [List.flatMap_singleton, List.count_eq_zero.mpr never, Nat.add_zero]

/-- A file without a program is entered and left at once, if it can be read. -/
theorem of_no_program (tallied : s.Tallied fs root) (h : fs.program? p = none)
    (lost : s.exportsOf p = none) (new : p ∉ s.inProgress) (normal : ∀ q ∈ s.inProgress, q.Normal)
    (reach : ReflTransGen fs.Imports root p) (stack : t.inProgress = s.inProgress)
    (kept : ∀ q, t.exportsOf q = s.exportsOf q)
    (parsed : t.parsed = s.parsed ++ if fs.readable p then [p] else []) :
    Loads fs root (levels + 1) [p] s t where
  stack := stack
  tallied := by
    cases readable : fs.readable p with
    | false =>
        rw [readable, if_neg Bool.false_ne_true, List.append_nil] at parsed
        exact tallied.of_same stack kept parsed
    | true =>
        rw [readable, if_pos rfl] at parsed
        refine (tallied.enter lost reach readable).leave rfl new normal (fun r imports => ?_)
          (tallied.sound.of_same kept) stack ?_ (fun q _ _ => kept q) fun exports given => ?_
        · obtain ⟨program, found, -⟩ := imports
          cases h.symm.trans found
        · rw [parsed, Session.parsed_begin, Session.parsed_asked_reading]
        · obtain ⟨-, found, -⟩ := given
          cases h.symm.trans found
  more := parsed ▸ List.subset_append_left _ _
  loaded := by
    refine List.forall_mem_singleton.mpr fun readable => ?_
    rw [parsed, readable, if_pos rfl]
    exact List.mem_append_right _ List.mem_cons_self
  routes q _ := by
    rw [parsed, List.flatMap_singleton, Files.tour_of_no_program? h new, List.count_append]

/-- A file with a program is entered, and left when its imports were loaded. -/
theorem of_program (found : fs.program? p = some program) (new : p ∉ s.inProgress)
    (normal : ∀ q ∈ s.inProgress, q.Normal)
    (loads : Loads fs root levels (Files.named p program.imports)
      ((s.asked (readingCalls p)).begin p) s')
    (sound : t.Sound fs) (stack : t.inProgress = s.inProgress) (parsed : t.parsed = s'.parsed)
    (others : ∀ q, q.Normal → q ≠ p → t.exportsOf q = s'.exportsOf q)
    (own : ∀ exports, fs.Gives p exports → t.exportsOf p = some exports) :
    Loads fs root (levels + 1) [p] s t := by
  have more : s.parsed ++ [p] ⊆ t.parsed := by
    rw [parsed, ← s.parsed_asked_reading]
    exact loads.more
  refine ⟨stack, ?_, fun q hq => more (List.mem_append_left _ hq), ?_, fun q none => ?_⟩
  · refine loads.tallied.leave loads.stack new normal (fun r imports => ?_) sound stack parsed
      others own
    rw [← Files.mem_targets, Files.targets_of_program? found] at imports
    exact loads.loaded r imports
  · exact List.forall_mem_singleton.mpr fun _ => more (List.mem_append_right _ List.mem_cons_self)
  · rw [parsed, loads.routes q none, Session.parsed_begin, Session.parsed_asked_reading,
      List.flatMap_singleton, Files.tour_of_program? found new, List.count_append, Nat.add_assoc,
      ← List.count_append]
    rfl

/-- A file that is new to the run is loaded if its imports are. -/
theorem of_loadFile {importer : Importer} {source : String} (tallied : s.Tallied fs root)
    (lost : s.exportsOf p = none) (new : p ∉ s.inProgress) (normal : p.Normal)
    (normals : ∀ q ∈ s.inProgress, q.Normal) (reach : ReflTransGen fs.Imports root p)
    (imported : Imported fs p s (loadFile fs importer source p s).1
      (loadFile fs importer source p s).2)
    (gives : ∀ exports, fs.Gives p exports → (loadFile fs importer source p s).1 = .ok exports)
    (below : ∀ program, fs.program? p = some program → ∀ i ∈ program.imports,
      i.isNative = false → importer.Loads fs root levels (s.inProgress ++ [p]) p i) :
    Loads fs root (levels + 1) [p] s (loadFile fs importer source p s).2 := by
  have own := fun exports given => imported.kept exports (gives exports given)
  cases found : fs.program? p with
  | none =>
      have parsed := parsed_loadFile found importer source s
      obtain ⟨fault, calls, ds, -, -, load⟩ := loadFile_of_no_program found source
      rw [load] at parsed ⊢
      exact .of_no_program tallied found lost new normals reach rfl (fun _ => rfl) parsed
  | some program =>
      rw [loadFile_of_program found] at imported own ⊢
      obtain ⟨t, ds, session, loads⟩ := of_analysis
        (tallied.enter lost reach (Files.readable_of_program? found)) (below program found)
      refine .of_program found new normals loads imported.sound imported.stack ?_ ?_ own
      · rw [Analyzed.parsed_imported, session]
        rfl
      · intro q hq other
        rw [Analyzed.exportsOf_imported _ _ normal hq other, session]
        rfl

end Loads

/--
The import of a file that is asked for by the last file in progress loads it, as long as there are
levels left for the files that are not in progress.
-/
theorem importFiles_loads {depth levels : Nat} {i : ImportDeclaration} (h : fs.Stacked stack file)
    (imports : fs.Imports file (file.resolveImport i.source))
    (reach : ReflTransGen fs.Imports root file) (enough : fs.size < depth + stack.length)
    (enough' : fs.size < levels + stack.length) :
    (importFiles fs depth).Loads fs root levels stack file i := by
  have bounded := h.length_le
  induction depth generalizing levels stack file i with
  | zero => omega
  | succ depth ih =>
      intro s hs tallied
      have imported := importFiles_sound h imports enough s hs tallied.sound
      have gives := fun exports (given : fs.Gives (file.resolveImport i.source) exports) =>
        (importFiles_gives given h rfl imports enough hs tallied.sound).1
      cases levels with
      | zero => omega
      | succ levels =>
          cases progress : s.isInProgress (file.resolveImport i.source) with
          | true =>
              rw [importFiles_of_inProgress progress]
              rw [Session.isInProgress, hs, h.mem_iff imports.normal, ← hs] at progress
              exact .of_inProgress tallied progress
          | false =>
              cases cached : s.exportsOf (file.resolveImport i.source) with
              | some exports =>
                  rw [importFiles_of_cached progress cached]
                  exact .of_kept tallied imports.normal cached
              | none =>
                  have new := not_mem_of_isInProgress progress
                  have normals : ∀ q ∈ s.inProgress, q.Normal :=
                    fun q hq => (h.parsed q (hs ▸ hq)).1
                  rw [importFiles_of_new progress cached] at imported gives ⊢
                  refine .of_loadFile tallied cached new imports.normal normals (reach.tail imports)
                    imported gives fun program found j hj native => ?_
                  have deeper := h.push imports (hs ▸ new) (found ▸ rfl)
                  have grown : (stack ++ [file.resolveImport i.source]).length
                      = stack.length + 1 := by simp
                  rw [hs]
                  exact ih deeper ⟨program, found, j, hj, native, rfl⟩ (reach.tail imports)
                    (by omega) (by omega) deeper.length_le

/-! ### Compilations -/

/-- The first file of a tour is not met again. -/
theorem Files.count_tour_le_one {levels : Nat} {met : List Path} :
    (fs.tour levels met p).count p ≤ 1 := by
  cases levels with
  | zero => exact Nat.zero_le 1
  | succ levels =>
      unfold tour
      split
      · exact Nat.zero_le 1
      · rw [List.count_cons_self, List.count_eq_zero.mpr fun later => ?_]
        obtain ⟨r, -, inside⟩ := List.mem_flatMap.mp later
        exact not_mem_tour_of_met (List.mem_append_right _ List.mem_cons_self) inside

/-- A file that is compiled with success gives exports. -/
theorem Session.gives_of_compile (idle : s.inProgress = []) (sound : s.Sound fs)
    {c : Compilation} (success : (s.compile fs p).1 = .ok c) :
    ∃ exports, fs.Gives p.normalize exports := by
  cases found : fs.program? p.normalize with
  | none =>
      obtain ⟨error, calls, ds, -, compiled⟩ := compile_of_no_program found
      rw [compiled s] at success
      cases success
  | some program =>
      have fits := analyze_fits (s := s.asked (readingCalls p.normalize)) (Path.normal_normalize p)
        found idle (sound.of_same fun _ => rfl)
      rw [compile_of_program found] at success
      generalize analyze fs p.normalize program .fresh _ = a at fits success
      unfold Analyzed.compiled at success
      split at success
      · cases success
      · next m result => exact ⟨m.exports, fits.gives m result⟩

/-- In a fresh run, the first file is entered and its imports are loaded. -/
theorem Session.compile_loads (found : fs.program? p.normalize = some program) (log : DiagnosticLog)
    {levels : Nat} (enough : fs.size ≤ levels) :
    ∃ t, ((start log).compile fs p).2.parsed = t.parsed ∧
      Loads fs p.normalize levels (Files.named p.normalize program.imports)
        (((start log).asked (readingCalls p.normalize)).begin p.normalize) t := by
  have tallied : (start log).Tallied fs p.normalize :=
    ⟨sound_start fs log, nofun, nofun, fun _ _ _ _ => rfl, nofun⟩
  have single : fs.Stacked [p.normalize] p.normalize :=
    .single (Path.normal_normalize p) (found ▸ rfl)
  have below : ∀ i ∈ program.imports, i.isNative = false →
      (importFiles fs (fs.size + 1)).Loads fs p.normalize levels [p.normalize] p.normalize i := by
    intro i hi native
    refine importFiles_loads single ⟨program, found, i, hi, native, rfl⟩ .refl ?_ ?_
    · rw [List.length_singleton]
      omega
    · rw [List.length_singleton]
      omega
  obtain ⟨t, ds, session, loads⟩ := Loads.of_analysis
    (tallied.enter rfl .refl (Files.readable_of_program? found)) below
  refine ⟨t, ?_, loads⟩
  rw [compile_of_program found, Analyzed.session_compiled, analyze, session]
  rfl

/-- What was parsed for a file and all that it leads to. -/
structure Files.Covers (fs : Files) (root : Path) (parsed : List Path) : Prop where
  reached : ∀ q ∈ parsed, ReflTransGen fs.Imports root q ∧ fs.readable q = true
  first : fs.readable root = true → root ∈ parsed
  closed : ∀ q ∈ parsed, ∀ r, fs.Imports q r → fs.readable r = true → r ∈ parsed
  once : ∀ q exports, fs.Gives q exports → parsed.count q ≤ 1
  routes : ∀ q, (∀ exports, ¬ fs.Gives q exports) → ∀ levels, fs.size < levels →
    parsed.count q = (fs.tour levels [] root).count q

theorem Files.Covers.mem_iff {parsed : List Path} (h : fs.Covers root parsed) :
    q ∈ parsed ↔ ReflTransGen fs.Imports root q ∧ fs.readable q = true := by
  refine ⟨h.reached q, ?_⟩
  rintro ⟨reach, readable⟩
  induction reach with
  | refl => exact h.first readable
  | @tail r q _ imports ih =>
      have ⟨program, found, _⟩ := imports
      exact h.closed r (ih (Files.readable_of_program? found)) q imports readable

/-- A file without a program is parsed if it can be read, and nothing else is. -/
theorem Files.covers_of_no_program (h : fs.program? root = none) :
    fs.Covers root (if fs.readable root then [root] else []) := by
  have mem {q : Path} (hq : q ∈ if fs.readable root then [root] else []) :
      fs.readable root = true ∧ q = root := by
    split at hq
    · next readable => exact ⟨readable, List.mem_singleton.mp hq⟩
    · cases hq
  refine ⟨fun q hq => ?_, fun readable => ?_, fun q hq r imports => ?_, fun q exports _ => ?_, ?_⟩
  · obtain ⟨readable, rfl⟩ := mem hq
    exact ⟨.refl, readable⟩
  · rw [if_pos readable]
    exact List.mem_cons_self
  · obtain ⟨-, rfl⟩ := mem hq
    obtain ⟨program, found, -⟩ := imports
    cases h.symm.trans found
  · refine List.nodup_iff_count_le_one.mp ?_ q
    split
    · exact List.nodup_singleton root
    · exact List.nodup_nil
  · intro q _ levels enough
    obtain ⟨levels, rfl⟩ := Nat.exists_eq_add_one_of_ne_zero (Nat.ne_zero_of_lt enough)
    rw [tour_of_no_program? h List.not_mem_nil]

theorem Files.normal_of_reaches (normal : p.Normal) (reach : ReflTransGen fs.Imports p q) :
    q.Normal := by
  rcases reach.cases_tail with rfl | ⟨r, -, imports⟩
  · exact normal
  · exact imports.normal

theorem Session.compile_covers (fs : Files) (log : DiagnosticLog) (p : Path) :
    fs.Covers p.normalize ((start log).compile fs p).2.parsed := by
  cases found : fs.program? p.normalize with
  | none =>
      have parsed := parsed_compile found (start log)
      rw [parsed_start, List.nil_append] at parsed
      exact parsed ▸ Files.covers_of_no_program found
  | some program =>
      obtain ⟨t, same, loads⟩ := compile_loads found log (Nat.le_refl _)
      have stack : t.inProgress = [p.normalize] := loads.stack
      rw [same]
      refine ⟨loads.tallied.reached, fun _ => loads.more List.mem_cons_self, ?_, ?_, ?_⟩
      · intro q hq r imports readable
        by_cases first : q = p.normalize
        · rw [first, ← Files.mem_targets, Files.targets_of_program? found] at imports
          exact loads.loaded r imports readable
        · have out : q ∉ t.inProgress := stack ▸ List.mem_singleton.not.mpr first
          exact loads.tallied.closed q hq out r imports readable
      · intro q exports given
        by_cases mem : q ∈ t.parsed
        · have reach := (loads.tallied.reached q mem).1
          rw [loads.tallied.once q exports
            (Files.normal_of_reaches (Path.normal_normalize p) reach) given, stack]
          by_cases first : q = p.normalize
          · rw [(loads.tallied.progress q (by simp [stack, first])).2, first]
            simp
          · rw [List.count_eq_zero.mpr (List.mem_singleton.not.mpr first)]
            exact Bool.toNat_le _
        · rw [List.count_eq_zero.mpr mem]
          exact Nat.zero_le 1
      · intro q none levels enough
        obtain ⟨levels, rfl⟩ := Nat.exists_eq_add_one_of_ne_zero (Nat.ne_zero_of_lt enough)
        obtain ⟨t', same', loads'⟩ := compile_loads found log (Nat.le_of_lt_succ enough)
        rw [← same, same', loads'.routes q none, Files.tour_of_program? found List.not_mem_nil,
          ← List.singleton_append, List.count_append]
        rfl

/--
In a compilation that starts afresh, the files that are parsed are those that can be read and that
imports lead to. The first file and every file that gives exports are parsed once at the most. A
file that gives none is parsed as often as there are routes to it, so that every layer of imports on
the way to a file that fails multiplies the work. If the compilation succeeds, no file is parsed
twice.
-/
theorem Session.compile_parses (fs : Files) (log : DiagnosticLog) (p : Path) :
    let root := p.normalize
    let answer := ((start log).compile fs p).1
    let parsed := ((start log).compile fs p).2.parsed
    (∀ q, q ∈ parsed ↔ ReflTransGen fs.Imports root q ∧ fs.readable q = true) ∧
    (∀ q, (q = root ∨ ∃ exports, fs.Gives q exports) → parsed.count q ≤ 1) ∧
    (∀ q, (∀ exports, ¬ fs.Gives q exports) → ∀ levels, fs.size < levels →
      parsed.count q = (fs.tour levels [] root).count q) ∧
    ((∃ c, answer = .ok c) → parsed.Nodup) := by
  intro root answer parsed
  have covers := compile_covers fs log p
  refine ⟨fun q => covers.mem_iff, fun q => ?_, covers.routes, ?_⟩
  · rintro (rfl | ⟨exports, given⟩)
    · by_cases gives : ∃ exports, fs.Gives root exports
      · obtain ⟨exports, given⟩ := gives
        exact covers.once root exports given
      · rw [covers.routes root (not_exists.mp gives) (fs.size + 1) (Nat.lt_succ_self _)]
        exact Files.count_tour_le_one
    · exact covers.once q exports given
  · rintro ⟨c, success⟩
    obtain ⟨exports, given⟩ := gives_of_compile rfl (sound_start fs log) success
    refine List.nodup_iff_count_le_one.mpr fun q => ?_
    by_cases mem : q ∈ parsed
    · obtain ⟨exports', given'⟩ := given.reached (covers.reached q mem).1
      exact covers.once q exports' given'
    · rw [List.count_eq_zero.mpr mem]
      exact Nat.zero_le 1

/--
Of two files that two others import, the one that gives exports is parsed once, and the other one
twice.
-/
theorem Session.failing_file_is_parsed_again :
    let both := "import * from \"lib\"; import * from \"bad\";"
    let fs : Files := ⟨[(⟨"main.ky"⟩, .ok "import * from \"a\"; import * from \"b\";"),
      (⟨"a.ky"⟩, .ok both), (⟨"b.ky"⟩, .ok both), (⟨"lib.ky"⟩, .ok ""),
      (⟨"bad.ky"⟩, .ok "int x = ;")]⟩
    let parsed := ((start .empty).compile fs ⟨"main.ky"⟩).2.parsed
    ((∃ exports, fs.Gives ⟨"lib.ky"⟩ exports) ∧ ⟨"lib.ky"⟩ ∈ parsed ∧ parsed.count ⟨"lib.ky"⟩ ≤ 1) ∧
      (∀ exports, ¬ fs.Gives ⟨"bad.ky"⟩ exports) ∧ parsed.count ⟨"bad.ky"⟩ = 2 := by
  intro both fs parsed
  have evaluated : (fs.program? ⟨"lib.ky"⟩).map (fun program => (program.imports.length,
      (analyzeWith (Files.answering default) ⟨"lib.ky"⟩ program .fresh
        (start .empty)).result.toOption.isSome)) = some (0, true) := by decide +kernel
  have unparsed : (fs.program? ⟨"bad.ky"⟩).isNone = true := by decide +kernel
  have tour : (fs.tour 6 [] (Path.normalize ⟨"main.ky"⟩)).count ⟨"bad.ky"⟩ = 2 := by decide +kernel
  have reach : ⟨"lib.ky"⟩ ∈ parsed := by decide +kernel
  obtain ⟨program, found, same⟩ := Option.map_eq_some_iff.mp evaluated
  obtain ⟨imports, success⟩ := Prod.mk.inj same
  obtain ⟨m, result⟩ := Option.isSome_iff_exists.mp success
  have given : fs.Gives ⟨"lib.ky"⟩ m.exports := by
    refine .intro default found (fun i hi => ?_) (eq_ok_of_toOption result)
    rw [List.length_eq_zero_iff.mp imports] at hi
    cases hi
  have none (exports : ExportTable) : ¬ fs.Gives ⟨"bad.ky"⟩ exports := by
    rintro ⟨-, found, -⟩
    cases (Option.isNone_iff_eq_none.mp unparsed).symm.trans found
  obtain ⟨-, once, routes, -⟩ := compile_parses fs .empty ⟨"main.ky"⟩
  refine ⟨⟨⟨_, given⟩, reach, once _ (.inr ⟨_, given⟩)⟩, none, ?_⟩
  exact (routes _ none 6 (by decide)).trans tour

end ScriptFront
