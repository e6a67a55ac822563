import ScriptFront.Phase.Compilation
import ScriptFront.Proofs.ImportGraph

/-!
What the import of a file does to a run: the files in progress stay as they were, everything that is
kept for a file is what the file gives, and if no cycle is reported on the way then the file is
clear of those in progress. All of this holds in any run that is sound when the import is asked for.
-/

namespace ScriptFront

/-! ### Reading a file -/

theorem quiet_failed {α : Type} {phase : Phase} {file : Path} {errors : List Diagnostic}
    (h : Quiet file errors) :
    Quiet file (Report.failed (α := α) phase file errors).diagnostics := by
  apply quiet_append h
  intro d hd
  obtain rfl := List.mem_singleton.mp hd
  refine ⟨rfl, ?_⟩
  cases phase <;> simp [PhaseFailure.toDiagnostic, PhaseFailure.kind]

theorem quiet_lexFile (file : Path) (source : String) :
    Quiet file (lexFile file source).diagnostics := by
  unfold lexFile
  dsimp only
  split
  · exact quiet_nil file
  · apply quiet_failed
    intro d hd
    obtain ⟨e, _, rfl⟩ := List.mem_map.mp hd
    refine ⟨rfl, ?_⟩
    cases h : e.fault <;> simp [LexicalError.toDiagnostic, LexicalFault.kind, h]

theorem quiet_parseTokens (file : Path) (tokens : List Token) :
    Quiet file (parseTokens file tokens).diagnostics := by
  unfold parseTokens
  split
  · exact quiet_nil file
  · apply quiet_failed
    intro d hd
    obtain ⟨e, _, rfl⟩ := List.mem_map.mp hd
    refine ⟨rfl, ?_⟩
    cases h : e.fault <;> simp [SyntaxError.toDiagnostic, SyntaxFault.kind, h]

theorem quiet_parseFile (file : Path) (source : String) :
    Quiet file (parseFile file source).diagnostics := by
  unfold parseFile Report.andThen
  split
  · exact quiet_lexFile file source
  · exact quiet_append (quiet_lexFile file source) (quiet_parseTokens file _)

/-- A text that parses gives rise to no diagnostics. -/
theorem diagnostics_parseFile {file : Path} {source : String} {program : Program}
    (h : (parseFile file source).result = .ok program) :
    (parseFile file source).diagnostics = [] := by
  have lexed : ∀ tokens, (lexFile file source).result = .ok tokens →
      (lexFile file source).diagnostics = [] := by
    intro tokens
    unfold lexFile
    dsimp only
    split
    · intro _
      rfl
    · intro h
      cases h
  unfold parseFile Report.andThen at h ⊢
  split at h
  · cases h
  · next tokens ht =>
      simp only [lexed tokens ht, List.nil_append]
      unfold parseTokens at h ⊢
      split at h
      · rfl
      · cases h

/-! ### One import -/

namespace Session

/-- A session after more questions were put to the files. -/
def asked (s : Session) (calls : List FileCall) : Session := { s with calls := s.calls ++ calls }

@[simp] theorem inProgress_asked (s : Session) (calls : List FileCall) :
    (s.asked calls).inProgress = s.inProgress := rfl

@[simp] theorem exportsOf_asked (s : Session) (calls : List FileCall) (q : Path) :
    (s.asked calls).exportsOf q = s.exportsOf q := rfl

@[simp] theorem log_asked (s : Session) (calls : List FileCall) : (s.asked calls).log = s.log := rfl

theorem call_eq_asked (s : Session) (c : FileCall) : s.call c = s.asked [c] := rfl

theorem asked_asked (s : Session) (calls more : List FileCall) :
    (s.asked calls).asked more = s.asked (calls ++ more) := by
  simp [asked]

end Session

/-- The questions put to the files for a file that can be read. -/
def readingCalls (p : Path) : List FileCall := [.exists_ p, .read p, .parse p]

/-- What the importing file gets of an analysis: the exports if it succeeded, which are kept. -/
def Analyzed.imported (a : Analyzed) (source : String) (p : Path) :
    Except SemanticFault ExportTable × Session :=
  match a.result with
  | .error _ => (.error (.importFailed source .analysisFailed), a.session)
  | .ok m => (.ok m.exports, a.session.store p m.exports)

theorem Analyzed.log_imported (a : Analyzed) (source : String) (p : Path) :
    (a.imported source p).2.log = a.session.log := by
  unfold imported
  split <;> rfl

theorem Analyzed.kind_imported {a : Analyzed} {source : String} {p : Path} {fault : SemanticFault}
    (h : (a.imported source p).1 = .error fault) : fault.kind ≠ .circularImport := by
  unfold imported at h
  split at h
  · cases h
    simp [SemanticFault.kind]
  · cases h

/-- A file without a program cannot be imported, for a reason that no run has an influence on. -/
theorem loadFile_of_no_program {fs : Files} {p : Path} (h : fs.program? p = none)
    (source : String) :
    ∃ fault calls ds, fault.kind ≠ .circularImport ∧ Quiet p ds ∧
      ∀ importer s,
        loadFile fs importer source p s = (.error fault, (s.asked calls).report ds) := by
  cases hf : fs.find? p with
  | none =>
      refine ⟨.importNotFound source, [.exists_ p], [], by simp [SemanticFault.kind],
        quiet_nil p, ?_⟩
      intro importer s
      simp only [loadFile, hf]
      rfl
  | some content =>
      cases content with
      | error reason =>
          refine ⟨.importFailed source (.unreadable reason), [.exists_ p, .read p], [],
            by simp [SemanticFault.kind], quiet_nil p, ?_⟩
          intro importer s
          simp only [loadFile, hf, Session.call_eq_asked, Session.asked_asked]
          rfl
      | ok text =>
          cases hr : (parseFile p text).result with
          | error failure =>
              refine ⟨.importFailed source .syntaxErrors, readingCalls p, _,
                by simp [SemanticFault.kind], quiet_parseFile p text, ?_⟩
              intro importer s
              simp only [loadFile, hf, hr, Session.call_eq_asked, Session.asked_asked]
              rfl
          | ok program =>
              rw [Files.program?_eq hf hr] at h
              cases h

/-- A file with a program is analysed. -/
theorem loadFile_of_program {fs : Files} {p : Path} {program : Program}
    (h : fs.program? p = some program) (importer : Importer) (source : String) (s : Session) :
    loadFile fs importer source p s =
      (analyzeWith importer p program .fresh (s.asked (readingCalls p))).imported source p := by
  obtain ⟨text, hf, hr⟩ := Files.find?_of_program? h
  simp only [loadFile, hf, hr, diagnostics_parseFile hr, Session.call_eq_asked,
    Session.asked_asked, Session.report_nil, readingCalls, List.cons_append, List.nil_append]
  generalize analyzeWith importer p program .fresh _ = a
  rfl

section Import

variable {fs : Files} {depth : Nat} {file : Path} {i : ImportDeclaration} {s : Session}

theorem importFiles_of_inProgress (h : s.isInProgress (file.resolveImport i.source) = true) :
    importFiles fs (depth + 1) file i s =
      (.error (.circularImport (s.cycleTo (file.resolveImport i.source))), s) := by
  simp [importFiles, h]

theorem importFiles_of_cached {exports : ExportTable}
    (h : s.isInProgress (file.resolveImport i.source) = false)
    (cached : s.exportsOf (file.resolveImport i.source) = some exports) :
    importFiles fs (depth + 1) file i s = (.ok exports, s) := by
  simp [importFiles, h, cached]

theorem importFiles_of_new (h : s.isInProgress (file.resolveImport i.source) = false)
    (new : s.exportsOf (file.resolveImport i.source) = none) :
    importFiles fs (depth + 1) file i s =
      loadFile fs (importFiles fs depth) i.source (file.resolveImport i.source) s := by
  simp [importFiles, h, new]

end Import

/-! ### Sound runs -/

namespace Session

/--
In a sound run, what is kept for a file is what the file gives, and with a file all files that it
imports are kept.
-/
structure Sound (fs : Files) (s : Session) : Prop where
  gives : ∀ p exports, p.Normal → s.exportsOf p = some exports → fs.Gives p exports
  closed : ∀ p exports q, p.Normal → s.exportsOf p = some exports → fs.Imports p q →
    ∃ exports', s.exportsOf q = some exports'

theorem sound_start (fs : Files) (log : DiagnosticLog) : (start log).Sound fs where
  gives _ _ _ h := by cases h
  closed _ _ _ _ h := by cases h

/-- Soundness is about what is kept alone. -/
theorem Sound.of_same {fs : Files} {s t : Session} (h : s.Sound fs)
    (same : ∀ p, t.exportsOf p = s.exportsOf p) : t.Sound fs where
  gives p exports normal kept := h.gives p exports normal (same p ▸ kept)
  closed p exports q normal kept imports := by
    obtain ⟨exports', kept'⟩ := h.closed p exports q normal (same p ▸ kept) imports
    exact ⟨exports', (same q).trans kept'⟩

theorem Sound.store {fs : Files} {s : Session} {p : Path} {exports : ExportTable} (h : s.Sound fs)
    (normal : p.Normal) (given : fs.Gives p exports)
    (closed : ∀ q, fs.Imports p q → ∃ exports', s.exportsOf q = some exports') :
    (s.store p exports).Sound fs where
  gives q exports' hq kept := by
    rw [exportsOf_store] at kept
    split at kept
    · next same =>
        cases kept
        exact normal.eq_of_same hq same ▸ given
    · exact h.gives q exports' hq kept
  closed q exports' r hq kept imports := by
    have kept' : ∃ exports'', s.exportsOf r = some exports'' := by
      rw [exportsOf_store] at kept
      split at kept
      · next same => exact closed r (normal.eq_of_same hq same ▸ imports)
      · exact h.closed q exports' r hq kept imports
    rw [exportsOf_store]
    split
    · exact ⟨exports, rfl⟩
    · exact kept'

/-- A later state of a run keeps everything for files that an earlier one kept. -/
def Grows (s t : Session) : Prop :=
  ∀ p exports, s.exportsOf p = some exports → t.exportsOf p = some exports

theorem Grows.trans {s t u : Session} (h : s.Grows t) (h' : t.Grows u) : s.Grows u :=
  fun p exports kept => h' p exports (h p exports kept)

/-- Keeping the exports of a file for which nothing was kept loses nothing. -/
theorem Grows.store {s t : Session} {p : Path} (exports : ExportTable) (h : s.Grows t)
    (new : s.exportsOf p = none) : s.Grows (t.store p exports) := by
  intro q exports' kept
  rw [exportsOf_store]
  split
  · next same =>
      have together : s.exportsOf q = s.exportsOf p := by
        simp only [Path.same, beq_iff_eq] at same
        simp only [exportsOf, Path.same, same]
      rw [together, new] at kept
      cases kept
  · exact h q exports' kept

/-- Diagnostics that tell of no cycle of imports. -/
def NoCycle (ds : List Diagnostic) : Prop := ∀ d ∈ ds, d.kind ≠ .circularImport

/-- A later state of a run has more diagnostics; if none tells of a cycle, something holds. -/
def Tells (s t : Session) (P : Prop) : Prop :=
  ∃ ds, t.log.items = s.log.items ++ ds ∧ (NoCycle ds → P)

variable {s t u : Session} {P Q R : Prop}

theorem Tells.refl (h : P) : Tells s s P := ⟨[], by simp, fun _ => h⟩

theorem Tells.trans (h : Tells s t P) (h' : Tells t u Q) (combine : P → Q → R) : Tells s u R := by
  obtain ⟨ds, items, tells⟩ := h
  obtain ⟨ds', items', tells'⟩ := h'
  refine ⟨ds ++ ds', by rw [items', items, List.append_assoc], fun noCycle => ?_⟩
  refine combine (tells fun d hd => ?_) (tells' fun d hd => ?_)
  · exact noCycle d (List.mem_append_left _ hd)
  · exact noCycle d (List.mem_append_right _ hd)

theorem Tells.report {ds : List Diagnostic} (h : NoCycle ds → P) : Tells s (s.report ds) P :=
  ⟨ds, items_report s ds, h⟩

theorem Tells.mono (h : Tells s t P) (weaker : P → Q) : Tells s t Q := by
  obtain ⟨ds, items, tells⟩ := h
  exact ⟨ds, items, fun noCycle => weaker (tells noCycle)⟩

theorem Tells.of_logs {s' t' : Session} (h : Tells s t P) (hs : s'.log = s.log)
    (ht : t'.log = t.log) : Tells s' t' P := by
  unfold Tells at h ⊢
  rw [hs, ht]
  exact h

end Session

/-- What the import of a file did to a sound run. -/
structure Imported (fs : Files) (p : Path) (s : Session)
    (answer : Except SemanticFault ExportTable) (t : Session) : Prop where
  stack : t.inProgress = s.inProgress
  sound : t.Sound fs
  grows : s.Grows t
  kept : ∀ exports, answer = .ok exports → t.exportsOf p = some exports
  tells : s.Tells t ((∀ fault, answer = .error fault → fault.kind ≠ .circularImport) →
    fs.Clear s.inProgress p)

/-- What the imports of a file did to a sound run. -/
structure Bound (fs : Files) (file : Path) (mayFail : Prop) (is : List ImportDeclaration)
    (s t : Session) : Prop where
  stack : t.inProgress = s.inProgress
  sound : t.Sound fs
  grows : s.Grows t
  kept : ¬ mayFail → ∀ i ∈ is, i.isNative = false →
    ∃ exports, t.exportsOf (file.resolveImport i.source) = some exports
  tells : s.Tells t (∀ i ∈ is, i.isNative = false →
    fs.Clear s.inProgress (file.resolveImport i.source))

/-- An importer does to every sound run with certain files in progress what an import should do. -/
def Importer.Sound (importer : Importer) (fs : Files) (stack : List Path) (file : Path)
    (i : ImportDeclaration) : Prop :=
  ∀ s, s.inProgress = stack → s.Sound fs →
    Imported fs (file.resolveImport i.source) s (importer file i s).1 (importer file i s).2

variable {fs : Files} {importer : Importer} {file : Path} {mayFail : Prop}

theorem Bound.nil {s : Session} (sound : s.Sound fs) : Bound fs file mayFail [] s s where
  stack := rfl
  sound := sound
  grows _ _ h := h
  kept _ i hi := by cases hi
  tells := .refl fun i hi => by cases hi

theorem Bound.cons_native {i : ImportDeclaration} {is : List ImportDeclaration}
    {ds : List Diagnostic} {s t : Session} (native : i.isNative = true)
    (rest : Bound fs file mayFail is (s.report ds) t) : Bound fs file mayFail (i :: is) s t where
  stack := rest.stack
  sound := rest.sound
  grows := rest.grows
  kept sure j hj hn := by
    rcases List.mem_cons.mp hj with rfl | hj
    · simp [native] at hn
    · exact rest.kept sure j hj hn
  tells := by
    refine (Session.Tells.report fun _ => trivial).trans rest.tells fun _ clear j hj hn => ?_
    rcases List.mem_cons.mp hj with rfl | hj
    · simp [native] at hn
    · exact clear j hj hn

theorem Bound.cons_file {i : ImportDeclaration} {is : List ImportDeclaration}
    {ds : List Diagnostic} {s s' t : Session} {answer : Except SemanticFault ExportTable}
    (head : Imported fs (file.resolveImport i.source) s answer s')
    (sure : ¬ mayFail → ∃ exports, answer = .ok exports)
    (told : Session.NoCycle ds → ∀ fault, answer = .error fault → fault.kind ≠ .circularImport)
    (rest : Bound fs file mayFail is (s'.report ds) t) : Bound fs file mayFail (i :: is) s t where
  stack := rest.stack.trans head.stack
  sound := rest.sound
  grows := head.grows.trans rest.grows
  kept success j hj hn := by
    rcases List.mem_cons.mp hj with rfl | hj
    · obtain ⟨exports, ok⟩ := sure success
      exact ⟨exports, rest.grows _ _ (head.kept exports ok)⟩
    · exact rest.kept success j hj hn
  tells := by
    have reported : s.Tells (s'.report ds) (fs.Clear s.inProgress (file.resolveImport i.source)) :=
      head.tells.trans (.report told) fun clear told => clear told
    refine reported.trans rest.tells fun clear clears j hj hn => ?_
    rcases List.mem_cons.mp hj with rfl | hj
    · exact clear
    · have same : (s'.report ds).inProgress = s.inProgress := head.stack
      exact same ▸ clears j hj hn

theorem bound_of_binds {is : List ImportDeclaration} {s t : Session}
    (binds : Workspace.Binds importer file mayFail is s t) (sound : s.Sound fs)
    (importerSound : ∀ i ∈ is, i.isNative = false →
      importer.Sound fs s.inProgress file i) : Bound fs file mayFail is s t := by
  induction binds with
  | nil => exact .nil sound
  | native hn _ _ ih =>
      refine .cons_native hn (ih (sound.of_same fun _ => rfl) fun j hj => ?_)
      exact importerSound j (List.mem_cons_of_mem _ hj)
  | @given i is ds s s' t exports hn ha _ _ ih =>
      have head := importerSound i (by simp) hn s rfl sound
      rw [ha] at head
      have rest : Bound fs file mayFail is (s'.report ds) t := by
        refine ih (head.sound.of_same fun _ => rfl) fun j hj hnj => ?_
        rw [Session.inProgress_report, head.stack]
        exact importerSound j (List.mem_cons_of_mem _ hj) hnj
      refine .cons_file head (fun _ => ⟨exports, rfl⟩) (fun _ fault h => ?_) rest
      cases h
  | @failed i is s s' t fault may hn ha _ ih =>
      have head := importerSound i (by simp) hn s rfl sound
      rw [ha] at head
      have rest : Bound fs file mayFail is (s'.report [Workspace.failure file i fault]) t := by
        refine ih (head.sound.of_same fun _ => rfl) fun j hj hnj => ?_
        rw [Session.inProgress_report, head.stack]
        exact importerSound j (List.mem_cons_of_mem _ hj) hnj
      refine .cons_file head (fun sure => absurd may sure) (fun noCycle fault' h => ?_) rest
      cases h
      exact noCycle _ (List.mem_singleton.mpr rfl)

/-! ### Analyses and imports in sound runs -/

/-- What the analysis of a file did to a sound run. -/
structure Analyzed.Fits (a : Analyzed) (fs : Files) (p : Path) (s : Session) : Prop where
  stack : a.session.inProgress = s.inProgress
  sound : a.session.Sound fs
  grows : s.Grows a.session
  gives : ∀ m, a.result = .ok m → fs.Gives p m.exports
  closed : ∀ m, a.result = .ok m → ∀ q, fs.Imports p q →
    ∃ exports, a.session.exportsOf q = some exports
  tells : s.Tells a.session (fs.Clear s.inProgress p)

/-- The answers that a run would get if every file that can be imported gave its exports. -/
noncomputable def Files.answers (fs : Files) (p : Path) (i : ImportDeclaration) : ExportTable :=
  Classical.epsilon fun exports => fs.Gives (p.resolveImport i.source) exports

theorem Files.answers_eq {p : Path} {i : ImportDeclaration} {exports : ExportTable}
    (h : fs.Gives (p.resolveImport i.source) exports) : fs.answers p i = exports :=
  (Classical.epsilon_spec (p := fun e => fs.Gives (p.resolveImport i.source) e)
    ⟨exports, h⟩).unique h

/-- An analysis that succeeds in a sound run succeeds with what the file gives. -/
theorem gives_of_analyzeWith {p : Path} {program : Program} {s : Session} {m : AnalyzedModule}
    (hp : fs.program? p = some program) (sound : s.Sound fs)
    (importerSound : ∀ i ∈ program.imports, i.isNative = false →
      importer.Sound fs (s.inProgress ++ [p]) p i)
    (given : ∀ q, fs.Imports p q → ∃ exports, fs.Gives q exports)
    (success : (analyzeWith importer p program .fresh s).result = .ok m) :
    fs.Gives p m.exports := by
  let R (t _ : Session) := t.inProgress = s.inProgress ++ [p] ∧ t.Sound fs
  have reporting : Workspace.Reporting p R :=
    fun _ _ _ _ h => ⟨h.1, h.2.of_same fun _ => rfl⟩
  have agree : ∀ i ∈ program.imports, i.isNative = false →
      Workspace.Agree R True importer (Files.answering (fs.answers p)) p i := by
    intro i hi hn t u h
    have imported := importerSound i hi hn t h.1 h.2
    cases answer : (importer p i t).1 with
    | error fault => exact .inl ⟨trivial, fault, rfl⟩
    | ok exports =>
        have gives := imported.sound.gives _ _ (Path.normal_resolveImport p i.source)
          (imported.kept exports answer)
        refine .inr ⟨?_, imported.stack.trans h.1, imported.sound⟩
        exact (congrArg Except.ok (fs.answers_eq gives)).symm
  have begun : R (s.begin p) (.start .empty) := ⟨rfl, sound.of_same fun _ => rfl⟩
  rcases analyzeWith_related .fresh (t := .start .empty) reporting agree begun with
    ⟨_, failure, failed⟩ | ⟨_, _, _, _, _, same, _⟩
  · rw [success] at failed
    cases failed
  · rw [success] at same
    refine .intro (fs.answers p) hp ?_ same.symm
    intro i hi hn
    obtain ⟨exports, gives⟩ := given _ ⟨program, hp, i, hi, hn, rfl⟩
    rw [fs.answers_eq gives]
    exact gives

theorem analyzeWith_fits {p : Path} {program : Program} {s : Session}
    (hp : fs.program? p = some program) (new : p ∉ s.inProgress) (sound : s.Sound fs)
    (importerSound : ∀ i ∈ program.imports, i.isNative = false →
      importer.Sound fs (s.inProgress ++ [p]) p i) :
    (analyzeWith importer p program .fresh s).Fits fs p s := by
  obtain ⟨opened, t, ds, quietOpened, quiet, binds, session⟩ :=
    analyzeWith_binds importer p program .fresh s
  have begun : ((s.begin p).report opened).Sound fs := sound.of_same fun _ => rfl
  have bound := bound_of_binds binds begun importerSound
  have stack : t.inProgress = s.inProgress ++ [p] := bound.stack
  have kept : ∀ m, (analyzeWith importer p program .fresh s).result = .ok m →
      ∀ q, fs.Imports p q → ∃ exports, t.exportsOf q = some exports := by
    intro m hm q imports
    obtain ⟨program', hp', i, hi, hn, rfl⟩ := imports
    rw [hp] at hp'
    cases hp'
    exact bound.kept (fun failing => failing ⟨m, hm⟩) i hi hn
  refine ⟨?_, ?_, ?_, ?_, ?_, ?_⟩
  · rw [session]
    exact Session.inProgress_finish p stack
  · rw [session]
    exact bound.sound.of_same fun _ => rfl
  · rw [session]
    exact bound.grows
  · intro m hm
    refine gives_of_analyzeWith hp sound importerSound (fun q imports => ?_) hm
    obtain ⟨exports, hq⟩ := kept m hm q imports
    exact ⟨exports, bound.sound.gives q exports imports.normal hq⟩
  · rw [session]
    exact kept
  · rw [session]
    have opening : s.Tells ((s.begin p).report opened) True := ⟨opened, by simp, fun _ => trivial⟩
    have leaving : t.Tells ((t.finish p).report ds) True := ⟨ds, by simp, fun _ => trivial⟩
    refine opening.trans (bound.tells.trans leaving fun clear _ => clear) fun _ clear => ?_
    refine Files.clear_of_imports new fun q imports => ?_
    obtain ⟨program', hp', i, hi, hn, rfl⟩ := imports
    rw [hp] at hp'
    cases hp'
    exact clear i hi hn

theorem imported_circular {s : Session} {p : Path} (sound : s.Sound fs) :
    Imported fs p s (.error (.circularImport (s.cycleTo p))) s where
  stack := rfl
  sound := sound
  grows _ _ h := h
  kept _ h := by cases h
  tells := .refl fun told => absurd rfl (told _ rfl)

theorem imported_cached {stack : List Path} {s : Session} {p : Path} {exports : ExportTable}
    (h : fs.Stacked stack file) (imports : fs.Imports file p) (hs : s.inProgress = stack)
    (sound : s.Sound fs) (cached : s.exportsOf p = some exports) :
    Imported fs p s (.ok exports) s where
  stack := rfl
  sound := sound
  grows _ _ h := h
  kept exports' h := by
    cases h
    exact cached
  tells := .refl fun _ => hs ▸ (sound.gives p exports imports.normal cached).clear h imports

theorem imported_failed {s : Session} {p : Path} {fault : SemanticFault} {calls : List FileCall}
    {ds : List Diagnostic} (hp : fs.program? p = none) (new : p ∉ s.inProgress)
    (sound : s.Sound fs) : Imported fs p s (.error fault) ((s.asked calls).report ds) where
  stack := rfl
  sound := sound.of_same fun _ => rfl
  grows _ _ h := h
  kept _ h := by cases h
  tells := ⟨ds, by simp, fun _ _ => Files.clear_of_no_program hp new⟩

theorem imported_of_fits {s s' : Session} {p : Path} {a : Analyzed} (source : String)
    (fits : a.Fits fs p s') (normal : p.Normal) (new : s.exportsOf p = none)
    (stack : s'.inProgress = s.inProgress) (log : s'.log = s.log)
    (kept : ∀ q, s'.exportsOf q = s.exportsOf q) :
    Imported fs p s (a.imported source p).1 (a.imported source p).2 := by
  have grows : s.Grows a.session := fun q exports h => fits.grows q exports (kept q ▸ h)
  have tells : s.Tells a.session (fs.Clear s.inProgress p) :=
    stack ▸ fits.tells.of_logs log.symm rfl
  cases result : a.result with
  | error failure =>
      simp only [Analyzed.imported, result]
      refine ⟨fits.stack.trans stack, fits.sound, grows, ?_, tells.mono fun clear _ => clear⟩
      intro exports h
      cases h
  | ok m =>
      simp only [Analyzed.imported, result]
      refine ⟨fits.stack.trans stack, ?_, grows.store m.exports new, ?_, ?_⟩
      · exact fits.sound.store normal (fits.gives m result) (fits.closed m result)
      · intro exports h
        cases h
        rw [Session.exportsOf_store, if_pos (Path.same_self p)]
      · exact (tells.of_logs rfl rfl).mono fun clear _ => clear

/--
The import of a file that is asked for by the last file in progress does to a sound run what it
should do, as long as there are levels left for the files that are not in progress.
-/
theorem importFiles_sound {depth : Nat} {stack : List Path} {file : Path} {i : ImportDeclaration}
    (h : fs.Stacked stack file) (imports : fs.Imports file (file.resolveImport i.source))
    (enough : fs.size < depth + stack.length) :
    (importFiles fs depth).Sound fs stack file i := by
  induction depth generalizing stack file i with
  | zero =>
      have := h.length_le
      omega
  | succ depth ih =>
      intro s hs sound
      cases progress : s.isInProgress (file.resolveImport i.source) with
      | true =>
          rw [importFiles_of_inProgress progress]
          exact imported_circular sound
      | false =>
          cases cached : s.exportsOf (file.resolveImport i.source) with
          | some exports =>
              rw [importFiles_of_cached progress cached]
              exact imported_cached h imports hs sound cached
          | none =>
              rw [importFiles_of_new progress cached]
              have new : file.resolveImport i.source ∉ stack := by
                rw [← h.mem_iff imports.normal, ← hs]
                simpa [Session.isInProgress] using progress
              cases hp : fs.program? (file.resolveImport i.source) with
              | none =>
                  obtain ⟨fault, calls, ds, _, _, load⟩ := loadFile_of_no_program hp i.source
                  rw [load]
                  exact imported_failed hp (hs ▸ new) sound
              | some program =>
                  rw [loadFile_of_program hp]
                  have deeper := h.push imports new (by simp [hp])
                  let s' := s.asked (readingCalls (file.resolveImport i.source))
                  have sound' : s'.Sound fs := sound.of_same fun _ => rfl
                  have fits := analyzeWith_fits (s := s') hp (hs ▸ new) sound' fun j hj hn => by
                    rw [Session.inProgress_asked, hs]
                    refine ih deeper ⟨program, hp, j, hj, hn, rfl⟩ ?_
                    rw [List.length_append, List.length_singleton]
                    omega
                  exact imported_of_fits i.source fits imports.normal cached rfl rfl fun _ => rfl

/-! ### Compilations -/

/-- What the caller of a compilation gets of an analysis. -/
def Analyzed.compiled (a : Analyzed) (program : Program) :
    Except CompileError Compilation × Session :=
  match a.result with
  | .error failure => (.error (.phase failure), a.session)
  | .ok m => (.ok ⟨program, m⟩, a.session)

theorem Analyzed.session_compiled (a : Analyzed) (program : Program) :
    (a.compiled program).2 = a.session := by
  unfold compiled
  split <;> rfl

namespace Session

/-- A file with a program is analysed when it is compiled. -/
theorem compile_of_program {fs : Files} {p : Path} {program : Program}
    (h : fs.program? p.normalize = some program) (s : Session) :
    s.compile fs p =
      (analyze fs p.normalize program .fresh (s.asked (readingCalls p.normalize))).compiled
        program := by
  obtain ⟨text, hf, hr⟩ := Files.find?_of_program? h
  simp only [compile, hf, compileSource, (Path.normal_normalize p).normalize_eq, hr,
    diagnostics_parseFile hr, call_eq_asked, asked_asked, report_nil, readingCalls,
    List.cons_append, List.nil_append]
  generalize analyze fs p.normalize program .fresh _ = a
  rfl

/-- A file without a program cannot be compiled, for a reason that no run has an influence on. -/
theorem compile_of_no_program {fs : Files} {p : Path} (h : fs.program? p.normalize = none) :
    ∃ error calls ds, Quiet p.normalize ds ∧
      ∀ s : Session, s.compile fs p = (.error error, (s.asked calls).report ds) := by
  cases hf : fs.find? p.normalize with
  | none =>
      refine ⟨.notFound p.normalize, [.exists_ p.normalize], [], quiet_nil _, ?_⟩
      intro s
      simp only [compile, hf]
      rfl
  | some content =>
      cases content with
      | error reason =>
          refine ⟨.unreadable p.normalize reason, [.exists_ p.normalize, .read p.normalize], [],
            quiet_nil _, ?_⟩
          intro s
          simp only [compile, hf, call_eq_asked, asked_asked]
          rfl
      | ok text =>
          cases hr : (parseFile p.normalize text).result with
          | error failure =>
              refine ⟨.phase failure, readingCalls p.normalize, _, quiet_parseFile _ text, ?_⟩
              intro s
              simp only [compile, hf, compileSource, (Path.normal_normalize p).normalize_eq, hr,
                call_eq_asked, asked_asked]
              rfl
          | ok program =>
              rw [Files.program?_eq hf hr] at h
              cases h

/-- The run after the files at several paths were compiled in order. -/
def compileAll (s : Session) (fs : Files) (paths : List Path) : Session :=
  paths.foldl (fun s p => (s.compile fs p).2) s

/-- The diagnostics that a run reported since an earlier state. -/
def reportedSince (t s : Session) : List Diagnostic := t.log.items.drop s.log.items.length

theorem reportedSince_eq {s t : Session} {ds : List Diagnostic}
    (h : t.log.items = s.log.items ++ ds) : t.reportedSince s = ds := by
  simp [reportedSince, h]

/-- The analysis of a file that nothing is in progress for fits into a sound run. -/
theorem analyze_fits {fs : Files} {p : Path} {program : Program} {s : Session}
    (normal : p.Normal) (hp : fs.program? p = some program) (idle : s.inProgress = [])
    (sound : s.Sound fs) : (analyze fs p program .fresh s).Fits fs p s := by
  refine analyzeWith_fits hp (by simp [idle]) sound fun i hi hn => ?_
  rw [idle]
  refine importFiles_sound (.single normal (by simp [hp])) ⟨program, hp, i, hi, hn, rfl⟩ ?_
  simp only [List.nil_append, List.length_singleton]
  omega

theorem compile_idle_sound {fs : Files} {s : Session} (p : Path) (idle : s.inProgress = [])
    (sound : s.Sound fs) :
    (s.compile fs p).2.inProgress = [] ∧ (s.compile fs p).2.Sound fs := by
  cases h : fs.program? p.normalize with
  | none =>
      obtain ⟨_, _, _, _, compiled⟩ := compile_of_no_program h
      rw [compiled s]
      exact ⟨idle, sound.of_same fun _ => rfl⟩
  | some program =>
      have fits := analyze_fits (s := s.asked (readingCalls p.normalize)) (Path.normal_normalize p)
        h idle (sound.of_same fun _ => rfl)
      rw [compile_of_program h, Analyzed.session_compiled]
      exact ⟨fits.stack.trans idle, fits.sound⟩

/-- Between compilations a run is sound, and no file is in progress. -/
theorem compileAll_idle_sound {fs : Files} {s : Session} (paths : List Path)
    (idle : s.inProgress = []) (sound : s.Sound fs) :
    (s.compileAll fs paths).inProgress = [] ∧ (s.compileAll fs paths).Sound fs := by
  induction paths generalizing s with
  | nil => exact ⟨idle, sound⟩
  | cons p paths ih =>
      obtain ⟨idle', sound'⟩ := compile_idle_sound p idle sound
      exact ih idle' sound'

end Session
end ScriptFront
