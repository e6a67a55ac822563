import ScriptFront.Proofs.ErrorAccounting
import ScriptFront.Proofs.RunHistories

/-!
What a job reports and what it comes to. The errors that are reported in the course of a job decide
its result, warnings have no part in it, and whatever is said about a file fits the one phase that
its text gets to. An imported file that fails leaves one aggregate of its own, and one failed import
in the file that imports it.
-/

namespace ScriptFront

variable {fs : Files} {base s t : Session} {job : Job} {depth : Nat} {file : Path}
  {program : Program} {answer : Except CompileError Compilation} {f : PhaseFailure}
  {ds : List Diagnostic} {bound rest : List ImportDeclaration} {i : ImportDeclaration}

/-! ### The phase that a text gets to -/

/-- The failure of a text to be read tells how many errors there are before its aggregate. -/
theorem failed_of_parseFile {text : String} (failed : (parseFile file text).result = .error f) :
    f.file = file ∧ ∃ before, (parseFile file text).diagnostics = before ++ [f.toDiagnostic] ∧
      f.errors = before.countP (·.isErrorIn file) := by
  have count {errors : List Diagnostic} (h : OfReading file errors) :
      errors.length = errors.countP (·.isErrorIn file) := by
    refine (List.countP_eq_length.mpr fun d mem => ?_).symm
    obtain ⟨about, error, -⟩ := h d mem
    rw [Diagnostic.isErrorIn, error, about, Bool.true_and]
    exact beq_self_eq_true file
  cases reading file text with
  | lexing errors _ whole =>
      rw [whole] at failed ⊢
      cases failed
      exact ⟨rfl, _, rfl, count errors⟩
  | parsing errors _ _ whole =>
      rw [whole] at failed ⊢
      cases failed
      exact ⟨rfl, _, rfl, count errors⟩
  | program whole =>
      rw [whole] at failed
      cases failed

namespace Diagnostic

variable {text : String} {d : Diagnostic}

/-- Where the text does not parse, all diagnostics come from reading it. -/
theorem StemsFrom.read (h : d.StemsFrom text)
    (failed : (parseFile d.file text).result = .error f) :
    d ∈ (parseFile d.file text).diagnostics := by
  rcases h with read | ⟨⟨program, parsed⟩, -⟩
  · exact read
  · rw [failed] at parsed
    cases parsed

/-- An aggregate that does not tell of an analysis comes from reading the text. -/
theorem StemsFrom.aggregate (h : d.StemsFrom text) (aggregate : d.isAggregate = true)
    (kind : d.kind ≠ .programAnalysis) : d ∈ (parseFile d.file text).diagnostics := by
  rcases h with read | ⟨-, ⟨f, same⟩ | ⟨errors, same⟩⟩
  · exact read
  · rw [same, f.isAggregate_toDiagnostic] at aggregate
    cases aggregate
  · exact absurd (same ▸ rfl) kind

/-- In the report of a phase that failed, the aggregate is that of the phase. -/
theorem kind_of_mem_failed {α : Type} {phase : Phase} {errors : List Diagnostic}
    (h : OfReading file errors) (mem : d ∈ (Report.failed (α := α) phase file errors).diagnostics)
    (aggregate : d.isAggregate = true) : d.kind = PhaseFailure.kind ⟨phase, file, 0⟩ := by
  rcases List.mem_append.mp mem with inside | last
  · rw [(h d inside).2.2] at aggregate
    cases aggregate
  · rw [List.mem_singleton.mp last]
    rfl

/-- Where the scanner has failed, nothing is reported but what it found. -/
theorem StemsFrom.lexing (h : d.StemsFrom text) (kind : d.kind = .programLexing) {d' : Diagnostic}
    (h' : d'.StemsFrom text) (same : d'.file = d.file) :
    d' ∈ (lexFile d.file text).diagnostics := by
  have aggregate : d.isAggregate = true := by
    rw [isAggregate, kind]
    rfl
  have mem := h.aggregate aggregate (by rw [kind]; nofun)
  cases reading d.file text with
  | lexing errors lexed whole =>
      rw [← same] at whole lexed ⊢
      have read := h'.read (congrArg Report.result whole)
      rw [whole] at read
      rwa [lexed]
  | parsing errors _ _ whole =>
      rw [whole] at mem
      have other := kind_of_mem_failed errors mem aggregate
      rw [kind] at other
      cases other
  | program whole =>
      rw [whole] at mem
      cases mem

/-- Where the grammar has failed, nothing is reported but what it found. -/
theorem StemsFrom.parsing (h : d.StemsFrom text) (kind : d.kind = .programParsing) :
    ∃ tokens, (lexFile d.file text).result = .ok tokens ∧ ∀ d' : Diagnostic,
      d'.StemsFrom text → d'.file = d.file → d' ∈ (parseTokens d.file tokens).diagnostics := by
  have aggregate : d.isAggregate = true := by
    rw [isAggregate, kind]
    rfl
  have mem := h.aggregate aggregate (by rw [kind]; nofun)
  cases reading d.file text with
  | lexing errors _ whole =>
      rw [whole] at mem
      have other := kind_of_mem_failed errors mem aggregate
      rw [kind] at other
      cases other
  | @parsing tokens _ errors lexed parsed whole =>
      refine ⟨tokens, lexed, fun d' h' same => ?_⟩
      rw [← same] at whole parsed ⊢
      have read := h'.read (congrArg Report.result whole)
      rwa [whole, ← parsed] at read
  | program whole =>
      rw [whole] at mem
      cases mem

end Diagnostic

/-! ### What a job comes to -/

/-- The text that a file has while a job is done. -/
def Job.text? (fs : Files) (job : Job) (p : Path) : Option String :=
  if p = job.path then job.source? fs else (fs.find? p).bind Except.toOption

/--
How a job ends: there is no text to read, or it cannot be read as a program, or the analysis of the
program closes the books of the file.
-/
inductive Ends (fs : Files) (job : Job) :
    Except CompileError Compilation → List Diagnostic → Prop
  | absent {error : CompileError} : job.source? fs = none → (∀ f, error ≠ .phase f) →
      Ends fs job (.error error) []
  | unread {text : String} {f : PhaseFailure} : job.source? fs = some text →
      (parseFile job.path text).result = .error f →
      Ends fs job (.error (.phase f)) (parseFile job.path text).diagnostics
  | failed {text : String} {program : Program} {f : PhaseFailure} {ds : List Diagnostic} :
      job.source? fs = some text → (parseFile job.path text).result = .ok program →
      Closes fs [job.path] job.path (.error f) ds → Ends fs job (.error (.phase f)) ds
  | done {text : String} {program : Program} {m : AnalyzedModule} {ds : List Diagnostic} :
      job.source? fs = some text → (parseFile job.path text).result = .ok program →
      Closes fs [job.path] job.path (.ok m) ds → Ends fs job (.ok ⟨program, m⟩) ds

theorem Session.run_ends (idle : s.inProgress = []) (fs : Files) (job : Job) :
    ∃ ds, s.Reported (s.run fs job).2 ds ∧ Ends fs job (s.run fs job).1 ds := by
  cases source : job.source? fs with
  | none =>
      obtain ⟨error, calls, run, other⟩ := run_of_no_source source s
      rw [run]
      exact ⟨[], ⟨rfl, (List.append_nil _).symm⟩, .absent source other⟩
  | some text =>
      rw [run_of_source source]
      cases parsed : (parseFile job.path text).result with
      | error failure =>
          exact ⟨_, ⟨rfl, Session.items_report _ _⟩, .unread source parsed⟩
      | ok program =>
          rw [finishJob, diagnostics_parseFile parsed, report_nil, analyze]
          obtain ⟨ds, reported, closes⟩ := analyzeWith_accounts
            (importFiles_accounts fs (fs.size + 1)) job.path program (s.asked job.calls)
          generalize analyzeWith (importFiles fs (fs.size + 1)) job.path program .fresh
            (s.asked job.calls) = a at reported closes
          rw [inProgress_asked, idle, List.nil_append] at closes
          have reported : s.Reported a.session ds := ⟨reported.stack, reported.items⟩
          refine ⟨ds, by rwa [Analyzed.session_compiled], ?_⟩
          unfold Analyzed.compiled
          cases result : a.result with
          | error failure => exact .failed source parsed (result ▸ closes)
          | ok m => exact .done source parsed (result ▸ closes)

/-- Between jobs, no file is in progress. -/
theorem Session.runAll_idle (fs : Files) (log : DiagnosticLog) (jobs : List Job) :
    ((start log).runAll fs jobs).inProgress = [] := by
  induction jobs using List.reverseRecOn with
  | nil => rfl
  | append_singleton jobs job ih =>
      obtain ⟨ds, reported, -⟩ := run_ends ih fs job
      rw [runAll_concat, reported.stack, ih]

namespace Ends

variable {d : Diagnostic}

theorem source_isSome_of_ok {c : Compilation} (h : Ends fs job (.ok c) ds) :
    (job.source? fs).isSome ∧ ∀ d ∈ ds, d.isError = false := by
  cases h with
  | done source _ closes => exact ⟨source ▸ rfl, closes.clean⟩

/-- A failure is about the file of the job, and the last to be reported, with all other errors. -/
theorem aggregate_of_failure (h : Ends fs job (.error (.phase f)) ds) :
    (job.source? fs).isSome ∧ f.file = job.path ∧ ∃ before, ds = before ++ [f.toDiagnostic] ∧
      f.errors = before.countP (·.isErrorIn job.path) := by
  cases h with
  | absent _ other => exact absurd rfl (other f)
  | unread source failed => exact ⟨source ▸ rfl, failed_of_parseFile failed⟩
  | failed source _ closes =>
      cases closes with
      | failed books => exact ⟨source ▸ rfl, rfl, _, rfl, books.count⟩

/-- A job whose text is found either succeeds or fails in a phase. -/
theorem ok_or_phase (h : Ends fs job answer ds) (source : (job.source? fs).isSome) :
    (∃ c, answer = .ok c) ∨ ∃ f, answer = .error (.phase f) := by
  cases h with
  | absent none _ =>
      rw [none] at source
      cases source
  | unread _ _ => exact .inr ⟨_, rfl⟩
  | failed _ _ _ => exact .inr ⟨_, rfl⟩
  | done _ _ _ => exact .inl ⟨_, rfl⟩

/-- Whatever is reported stems from the text of the file that it is about. -/
theorem origin (h : Ends fs job answer ds) (mem : d ∈ ds) :
    ∃ text, job.text? fs d.file = some text ∧ d.StemsFrom text := by
  have own {text : String} (about : d.file = job.path) (source : job.source? fs = some text) :
      job.text? fs d.file = some text := by
    rw [Job.text?, if_pos about, source]
  have closed {text : String} (source : job.source? fs = some text)
      (part : Foreign fs [job.path] d ∨ d.file = job.path ∧ d.StemsFrom text) :
      ∃ text, job.text? fs d.file = some text ∧ d.StemsFrom text := by
    rcases part with ⟨other, text', found, stems⟩ | ⟨about, stems⟩
    · refine ⟨text', ?_, stems⟩
      rw [Job.text?, if_neg fun same => other (List.mem_singleton.mpr same), found]
      rfl
    · exact ⟨text, own about source, stems⟩
  cases h with
  | absent _ _ => cases mem
  | unread source _ =>
      have about : d.file = job.path := (quiet_parseFile _ _ d mem).1
      exact ⟨_, own about source, .inl (about ▸ mem)⟩
  | failed source parsed closes => exact closed source (closes.origin parsed mem)
  | done source parsed closes => exact closed source (closes.origin parsed mem)

end Ends

/-! ### The course of a job -/

namespace Workspace

theorem bind_reported {importer : Importer} (answers : importer.Accounts fs) (w : Workspace)
    (file : Path) (i : ImportDeclaration) :
    ∃ ds, w.session.Reported (w.bind importer file i).session ds := by
  obtain ⟨ds, answered⟩ := exportsFor_accounts answers file i w.session
  rw [bind_eq, session_perform]
  exact ⟨_, answered.reported.report _⟩

theorem binds_reported {importer : Importer} (answers : importer.Accounts fs) (w : Workspace)
    (file : Path) (is : List ImportDeclaration) :
    ∃ ds, w.session.Reported (is.foldl (bind importer file) w).session ds := by
  induction is generalizing w with
  | nil => exact ⟨[], .refl _⟩
  | cons i is ih =>
      obtain ⟨ds, first⟩ := bind_reported answers w file i
      obtain ⟨es, later⟩ := ih (w.bind importer file i)
      exact ⟨ds ++ es, first.trans later⟩

end Workspace

theorem midway_reported (fs : Files) (depth : Nat) (file : Path) (s : Session)
    (bound : List ImportDeclaration) :
    ∃ ds, (s.begin file).Reported (midway fs depth file s bound) ds := by
  obtain ⟨ds, reported, -⟩ := (Workspace.opening_accounts fs file s).binds
    (importFiles_accounts fs depth) bound
  exact ⟨ds, reported⟩

/-- What was reported when the first imports were bound is reported first. -/
theorem midway_before (split : program.imports = bound ++ rest) :
    (midway fs depth file s bound).log.items
      <+: (analyzeWith (importFiles fs depth) file program .fresh s).session.log.items := by
  obtain ⟨ds, later⟩ := Workspace.binds_reported (importFiles_accounts fs depth)
    (bound.foldl (Workspace.bind (importFiles fs depth) file) (.opening file .fresh s)) file rest
  obtain ⟨es, closed⟩ := Workspace.session_closing file program
    (program.imports.foldl (Workspace.bind (importFiles fs depth) file) (.opening file .fresh s))
  rw [Workspace.analyzeWith_eq, closed, Session.items_report, Session.log_finish, split,
    List.foldl_append, later.items, List.append_assoc]
  exact List.prefix_append _ _

/-- What an imported file reports is reported by the time when the import is bound. -/
theorem nested_before {program' : Program} (native : i.isNative = false)
    (progress : (midway fs (depth + 1) file s bound).isInProgress (file.resolveImport i.source)
      = false)
    (cached : (midway fs (depth + 1) file s bound).exportsOf (file.resolveImport i.source) = none)
    (found : fs.program? (file.resolveImport i.source) = some program') :
    (analyzeWith (importFiles fs depth) (file.resolveImport i.source) program' .fresh
      ((midway fs (depth + 1) file s bound).asked
        (readingCalls (file.resolveImport i.source)))).session.log.items
      <+: (midway fs (depth + 1) file s (bound ++ [i])).log.items := by
  obtain ⟨w, here, next⟩ := midway_concat fs (depth + 1) file s bound i
  rw [next, Workspace.bind_file native, Workspace.session_perform, Session.items_report]
  dsimp only
  rw [here, importFiles_of_new progress cached, loadFile_of_program found, Analyzed.log_imported]
  exact List.prefix_append _ _

namespace Started

/-- An analysis in the course of a job: what is reported before, during and after it. -/
theorem course (h : Started fs base job depth file program s) :
    base.log.items <+: s.log.items ∧
      (analyzeWith (importFiles fs depth) file program .fresh s).session.log.items
        <+: (base.run fs job).2.log.items := by
  induction h with
  | @entry text program source parsed =>
      have last : (base.run fs job).2 = (analyzeWith (importFiles fs (fs.size + 1)) job.path program
          .fresh (base.asked job.calls)).session := by
        rw [Session.run_of_source source, parsed, diagnostics_parseFile parsed, Session.report_nil,
          Session.finishJob, Analyzed.session_compiled, analyze]
      exact ⟨List.prefix_rfl, last ▸ List.prefix_rfl⟩
  | @nested depth file program s bound i rest program' _ split native progress cached found ih =>
      obtain ⟨ds, reported⟩ := midway_reported fs (depth + 1) file s bound
      refine ⟨ih.1.trans ?_, (nested_before native progress cached found).trans ?_⟩
      · exact reported.items ▸ List.prefix_append _ _
      · rw [← List.singleton_append, ← List.append_assoc] at split
        exact (midway_before split).trans ih.2

/--
The files in progress are the one of the job and files that were loaded, each a level below the one
that imports it.
-/
theorem stack (h : Started fs base job depth file program s) (idle : base.inProgress = []) :
    ∃ loaded : List Path, s.inProgress ++ [file] = job.path :: loaded ∧ loaded.Nodup ∧
      (∀ p ∈ loaded, p.Normal ∧ (fs.find? p).isSome) ∧ depth + loaded.length = fs.size + 1 := by
  induction h with
  | entry _ _ =>
      refine ⟨[], ?_, List.nodup_nil, List.forall_mem_nil _, rfl⟩
      rw [Session.inProgress_asked, idle]
      rfl
  | @nested depth file program s bound i rest program' _ split native progress cached found ih =>
      obtain ⟨loaded, stack, nodup, exist, levels⟩ := ih
      obtain ⟨ds, reported⟩ := midway_reported fs (depth + 1) file s bound
      have now : (midway fs (depth + 1) file s bound).inProgress = job.path :: loaded :=
        reported.stack.trans stack
      have new := not_mem_of_isInProgress progress
      rw [now] at new
      obtain ⟨text, here, -⟩ := Files.find?_of_program? found
      refine ⟨loaded ++ [file.resolveImport i.source], ?_, ?_, ?_, ?_⟩
      · rw [Session.inProgress_asked, now]
        rfl
      · refine List.nodup_append.mpr ⟨nodup, List.nodup_singleton _, fun p mem q last => ?_⟩
        obtain rfl := List.mem_singleton.mp last
        exact fun same => new (List.mem_cons_of_mem _ (same ▸ mem))
      · refine List.forall_mem_append.mpr ⟨exist, List.forall_mem_singleton.mpr ?_⟩
        exact ⟨Path.normal_resolveImport file i.source, here ▸ rfl⟩
      · rw [List.length_append, List.length_singleton]
        omega

end Started

/-! ### Attempts at imported files -/

/--
The next import of a file leads to the text of a file that is neither in progress nor done with, so
that the text has to be read.
-/
structure Attempts (fs : Files) (file : Path) (i : ImportDeclaration) (text : String) (s : Session) :
    Prop where
  native : i.isNative = false
  progress : s.isInProgress (file.resolveImport i.source) = false
  cached : s.exportsOf (file.resolveImport i.source) = none
  found : fs.find? (file.resolveImport i.source) = some (.ok text)

/-- The text of a file fails to lex or to parse, or its program fails in its analysis. -/
def Fails (fs : Files) (depth : Nat) (p : Path) (text : String) (s : Session) : Prop :=
  ∀ program, (parseFile p text).result = .ok program → ∃ failure,
    (analyzeWith (importFiles fs depth) p program .fresh (s.asked (readingCalls p))).result
      = .error failure

variable {text : String}

theorem loadFile_of_fails {p : Path} (found : fs.find? p = some (.ok text))
    (fails : Fails fs depth p text s) (source : String) :
    ∃ fault, (loadFile fs (importFiles fs depth) source p s).1 = .error fault := by
  cases parsed : (parseFile p text).result with
  | error failure => exact ⟨_, congrArg Prod.fst (loadFile_of_failure found parsed _ source s)⟩
  | ok program =>
      obtain ⟨failure, result⟩ := fails program parsed
      rw [loadFile_of_program (Files.program?_eq found parsed), Analyzed.imported, result]
      exact ⟨_, rfl⟩

/-- An attempt that fails leaves one aggregate, and one failed import where it was made. -/
theorem Workspace.bind_of_fails {w : Workspace} (here : file ∈ w.session.inProgress)
    (attempts : Attempts fs file i text w.session)
    (fails : Fails fs depth (file.resolveImport i.source) text w.session) :
    ∃ new, w.session.Reported (w.bind (importFiles fs (depth + 1)) file i).session new ∧
      new.countP (·.isAggregateOf (file.resolveImport i.source)) = 1 ∧
      new.countP (·.isFailedImportIn file) = 1 := by
  obtain ⟨native, progress, cached, found⟩ := attempts
  obtain ⟨fault, failed⟩ := loadFile_of_fails found fails i.source
  obtain ⟨ds, answered, reason⟩ := loadFile_accounts
    (not_mem_of_isInProgress progress) found (importFiles_accounts fs depth) i.source
  obtain ⟨kind, aggregate⟩ := reason fault failed
  rw [Workspace.bind_file native, importFiles_of_new progress cached, failed]
  refine ⟨ds ++ [failure file i fault], answered.reported.report _, ?_, ?_⟩
  · have other : (failure file i fault).isAggregateOf (file.resolveImport i.source) = false := by
      have none := Finding.isAggregate_toDiagnostic (.error ⟨fault, i.location⟩) file
      rw [Diagnostic.isAggregateOf]
      exact Bool.and_eq_false_iff.mpr (.inl none)
    rw [List.countP_append, aggregate, List.countP_singleton, other]
    rfl
  · have none : ds.countP (·.isFailedImportIn file) = 0 := List.countP_eq_zero.mpr fun d mem => by
      rw [Diagnostic.isFailedImportIn_of_file ((answered.foreign d mem).file_ne here)]
      exact Bool.false_ne_true
    have own : (failure file i fault).isFailedImportIn file = true := by
      rw [Diagnostic.isFailedImportIn, failure, kind]
      exact beq_self_eq_true file
    rw [List.countP_append, none, List.countP_singleton, own]
    rfl

/-- There are levels left for an attempt that is made in the course of a job. -/
theorem Started.level (h : Started fs base job depth file program t) (idle : base.inProgress = [])
    (attempts : Attempts fs file i text (midway fs depth file t bound)) :
    ∃ below, depth = below + 1 := by
  obtain ⟨loaded, stack, nodup, exist, levels⟩ := h.stack idle
  obtain ⟨ds, reported⟩ := midway_reported fs depth file t bound
  have new := not_mem_of_isInProgress attempts.progress
  rw [reported.stack.trans stack] at new
  -- All files in progress but the first are files of the map, and here is one more of those.
  have distinct : (file.resolveImport i.source :: loaded).Nodup :=
    List.nodup_cons.mpr ⟨fun mem => new (List.mem_cons_of_mem _ mem), nodup⟩
  have all := Files.length_le_size distinct (List.forall_mem_cons.mpr
    ⟨⟨Path.normal_resolveImport file i.source, attempts.found ▸ rfl⟩, exist⟩)
  rw [List.length_cons] at all
  exact ⟨depth - 1, by omega⟩

theorem Started.attempt (h : Started fs base job (depth + 1) file program t)
    (split : program.imports = bound ++ i :: rest)
    (reported : base.Reported (base.run fs job).2 ds)
    (attempts : Attempts fs file i text (midway fs (depth + 1) file t bound))
    (fails : Fails fs depth (file.resolveImport i.source) text (midway fs (depth + 1) file t bound)) :
    ∃ new, (midway fs (depth + 1) file t (bound ++ [i])).log.items
        = (midway fs (depth + 1) file t bound).log.items ++ new ∧ new <:+: ds ∧
      new.countP (·.isAggregateOf (file.resolveImport i.source)) = 1 ∧
      new.countP (·.isFailedImportIn file) = 1 := by
  obtain ⟨w, here, next⟩ := midway_concat fs (depth + 1) file t bound i
  obtain ⟨opened, begun⟩ := midway_reported fs (depth + 1) file t bound
  have inside : file ∈ w.session.inProgress := by
    rw [here, begun.stack]
    exact List.mem_append_right _ List.mem_cons_self
  obtain ⟨new, bound', aggregate, failed⟩ :=
    Workspace.bind_of_fails inside (here ▸ attempts) (here ▸ fails)
  rw [← next, here] at bound'
  refine ⟨new, bound'.items, ?_, aggregate, failed⟩
  obtain ⟨earlier, course⟩ := h.course
  obtain ⟨before, first⟩ := earlier
  rw [← List.singleton_append, ← List.append_assoc] at split
  obtain ⟨after, last⟩ := (midway_before split).trans course
  -- Reports are never taken back, so what the attempt adds is a part of what the job reports.
  have whole : base.log.items ++ (before ++ opened ++ new ++ after) = base.log.items ++ ds := by
    rw [← reported.items, ← last, bound'.items, begun.items, Session.log_begin, ← first]
    simp only [List.append_assoc]
  exact ⟨before ++ opened, after, List.append_cancel_left whole⟩

/-! ### Every job of every run -/

theorem countP_isErrorIn (file : Path) (ds : List Diagnostic) :
    ds.countP (·.isErrorIn file) = (ds.filter (·.isError)).countP (·.file == file) := by
  rw [List.countP_filter]
  exact List.countP_congr fun d _ => by rw [Diagnostic.isErrorIn, Bool.and_comm]

/-- A failure is told by its aggregate and by the number of errors. -/
theorem PhaseFailure.eq_of_toDiagnostic {f g : PhaseFailure}
    (same : f.toDiagnostic = g.toDiagnostic) (errors : f.errors = g.errors) : f = g := by
  obtain ⟨phase, file, n⟩ := f
  obtain ⟨phase', file', n'⟩ := g
  obtain rfl : file = file' := congrArg Diagnostic.file same
  obtain rfl : n = n' := errors
  have kind : PhaseFailure.kind ⟨phase, file, n⟩ = PhaseFailure.kind ⟨phase', file, n⟩ :=
    congrArg Diagnostic.kind same
  cases phase <;> cases phase' <;> first | rfl | cases kind

namespace Ends

theorem ok_iff (h : Ends fs job answer ds) :
    (∃ c, answer = .ok c) ↔ (job.source? fs).isSome ∧ ds.filter (·.isError) = [] := by
  constructor
  · rintro ⟨c, rfl⟩
    obtain ⟨source, clean⟩ := h.source_isSome_of_ok
    refine ⟨source, List.filter_eq_nil_iff.mpr fun d mem => ?_⟩
    rw [clean d mem]
    exact Bool.false_ne_true
  · rintro ⟨source, none⟩
    rcases h.ok_or_phase source with ok | ⟨f, rfl⟩
    · exact ok
    · obtain ⟨-, -, before, rfl, -⟩ := h.aggregate_of_failure
      refine absurd f.isError_toDiagnostic (List.filter_eq_nil_iff.mp none _ ?_)
      exact List.mem_append_right _ List.mem_cons_self

/-- The failure of a phase can be told from the errors. -/
theorem failure_iff (h : Ends fs job answer ds) (f : PhaseFailure) :
    answer = .error (.phase f) ↔ (job.source? fs).isSome ∧ f.file = job.path ∧
      ∃ others, ds.filter (·.isError) = others ++ [f.toDiagnostic] ∧
        f.errors = others.countP (·.file == job.path) := by
  have told {f : PhaseFailure} (h : Ends fs job (.error (.phase f)) ds) :
      ∃ others, ds.filter (·.isError) = others ++ [f.toDiagnostic] ∧
        f.errors = others.countP (·.file == job.path) := by
    obtain ⟨-, -, before, rfl, count⟩ := h.aggregate_of_failure
    refine ⟨before.filter (·.isError), ?_, count.trans (countP_isErrorIn _ _)⟩
    rw [List.filter_append, List.filter_singleton, f.isError_toDiagnostic, cond_true]
  constructor
  · rintro rfl
    obtain ⟨source, about, -⟩ := h.aggregate_of_failure
    exact ⟨source, about, told h⟩
  · rintro ⟨source, -, others, errors, count⟩
    rcases h.ok_or_phase source with ok | ⟨g, rfl⟩
    · rw [(h.ok_iff.mp ok).2] at errors
      exact absurd errors.symm (List.append_ne_nil_of_right_ne_nil _ (List.cons_ne_nil _ _))
    · obtain ⟨others', errors', count'⟩ := told h
      obtain ⟨rfl, last⟩ := List.append_inj' (errors.symm.trans errors') rfl
      have same : g = f :=
        PhaseFailure.eq_of_toDiagnostic (List.cons.inj last).1.symm (count'.trans count.symm)
      rw [same]

end Ends

/--
Every error is accounted for, in every job after any others. The job succeeds if and only if there
is a text and no error is reported; it fails in a phase if and only if the last error is the aggregate
of that failure, which has the number of the other errors about the file of the job; this is said of
the errors alone, so that warnings have no part in it; and the aggregate is what is reported last.
Every attempt at an imported file that can be read and fails leaves, among what is reported, one
aggregate of that file and one failed import in the file that imports it. And all that is reported is
about a file with a text: with the aggregate of the scanner there is nothing about the file but what
the scanner reports, and with that of the grammar nothing but what the grammar reports.
-/
theorem Session.run_accounts_for_errors (fs : Files) (log : DiagnosticLog) (history : List Job)
    (job : Job) :
    let s := (Session.start log).runAll fs history
    let answer := (s.run fs job).1
    let ds := (s.run fs job).2.reportedSince s
    let errors := ds.filter (·.isError)
    ((∃ c, answer = .ok c) ↔ (job.source? fs).isSome ∧ errors = []) ∧
    (∀ f, answer = .error (.phase f) ↔ (job.source? fs).isSome ∧ f.file = job.path ∧
      ∃ others, errors = others ++ [f.toDiagnostic] ∧
        f.errors = others.countP (·.file == job.path)) ∧
    (∀ f, answer = .error (.phase f) → ds.getLast? = some f.toDiagnostic) ∧
    (∀ depth file program t bound i rest text, Started fs s job depth file program t →
      program.imports = bound ++ i :: rest →
      Attempts fs file i text (midway fs depth file t bound) →
      ∃ below, depth = below + 1 ∧
        (Fails fs below (file.resolveImport i.source) text (midway fs depth file t bound) →
          ∃ new, (midway fs depth file t (bound ++ [i])).log.items
              = (midway fs depth file t bound).log.items ++ new ∧ new <:+: ds ∧
            new.countP (·.isAggregateOf (file.resolveImport i.source)) = 1 ∧
            new.countP (·.isFailedImportIn file) = 1)) ∧
    (∀ d ∈ ds, ∃ text, job.text? fs d.file = some text ∧
      (d.kind = .programLexing → ∀ d' ∈ ds, d'.file = d.file →
        d' ∈ (lexFile d.file text).diagnostics) ∧
      (d.kind = .programParsing → ∃ tokens, (lexFile d.file text).result = .ok tokens ∧
        ∀ d' ∈ ds, d'.file = d.file → d' ∈ (parseTokens d.file tokens).diagnostics)) := by
  intro s answer ds errors
  have idle : s.inProgress = [] := runAll_idle fs log history
  obtain ⟨all, reported, ends⟩ := run_ends idle fs job
  have same : ds = all := reportedSince_eq reported.items
  rw [← same] at reported ends
  refine ⟨ends.ok_iff, ends.failure_iff, fun f failed => ?_, ?_, fun d mem => ?_⟩
  · have ends : Ends fs job (.error (.phase f)) ds := failed ▸ ends
    obtain ⟨-, -, before, last, -⟩ := ends.aggregate_of_failure
    rw [last, List.getLast?_concat]
  · intro depth file program t bound i rest text started split attempts
    obtain ⟨below, rfl⟩ := started.level idle attempts
    exact ⟨below, rfl, started.attempt split reported attempts⟩
  · obtain ⟨text, here, stems⟩ := ends.origin mem
    -- A file has one text in the course of a job, and all that is said of it stems from that text.
    have others {d' : Diagnostic} (mem' : d' ∈ ds) (about : d'.file = d.file) :
        d'.StemsFrom text := by
      obtain ⟨text', here', stems'⟩ := ends.origin mem'
      rw [about, here] at here'
      cases here'
      exact stems'
    refine ⟨text, here, fun kind d' mem' about => ?_, fun kind => ?_⟩
    · exact stems.lexing kind (others mem' about) about
    · obtain ⟨tokens, lexed, read⟩ := stems.parsing kind
      exact ⟨tokens, lexed, fun d' mem' about => read d' (others mem' about) about⟩

/-- An imported file has an error of its own, which fails it, and with it the one that imports it. -/
theorem Session.run_accounts_for_failed_import :
    let text := "import x from \"a\";"
    let fs : Files := ⟨[(⟨"a.ky"⟩, .ok "int y = z;")]⟩
    let job : Job := .text text ⟨"b.ky"⟩
    let ds := ((Session.start .empty).run fs job).2.reportedSince (.start .empty)
    ∃ depth program t i, Started fs (.start .empty) job depth ⟨"b.ky"⟩ program t ∧
      Attempts fs ⟨"b.ky"⟩ i "int y = z;" (midway fs depth ⟨"b.ky"⟩ t []) ∧
      ∃ new, new <:+: ds ∧ new.countP (·.isAggregateOf ⟨"a.ky"⟩) = 1 ∧
        new.countP (·.isFailedImportIn ⟨"b.ky"⟩) = 1 := by
  intro text fs job ds
  let begun := (Session.start .empty).asked job.calls
  let u := midway fs 2 ⟨"b.ky"⟩ begun []
  have normal : job.path = ⟨"b.ky"⟩ := by decide +kernel
  have imports : (parseFile ⟨"b.ky"⟩ text).result.toOption.map
      (·.imports.map fun i => (i.isNative, Path.resolveImport ⟨"b.ky"⟩ i.source))
        = some [(false, ⟨"a.ky"⟩)] := by decide +kernel
  have failing : (parseFile ⟨"a.ky"⟩ "int y = z;").result.toOption.map (fun p =>
      (analyzeWith (importFiles fs 1) ⟨"a.ky"⟩ p .fresh
        (u.asked (readingCalls ⟨"a.ky"⟩))).result.toOption.isSome) = some false := by
    decide +kernel
  have progress : u.isInProgress ⟨"a.ky"⟩ = false := by decide +kernel
  have cached : (u.exportsOf ⟨"a.ky"⟩).isNone = true := by decide +kernel
  obtain ⟨program, parsed, targets⟩ := Option.map_eq_some_iff.mp imports
  cases split : program.imports with
  | nil => rw [split] at targets; cases targets
  | cons i rest =>
      rw [split] at targets
      obtain ⟨native, target⟩ := Prod.mk.inj (List.cons.inj targets).1
      have started : Started fs (.start .empty) job 2 ⟨"b.ky"⟩ program begun :=
        normal ▸ .entry rfl (normal.symm ▸ eq_ok_of_toOption parsed)
      have attempts : Attempts fs ⟨"b.ky"⟩ i "int y = z;" u :=
        ⟨native, target ▸ progress, target ▸ Option.isNone_iff_eq_none.mp cached, target ▸ rfl⟩
      have fails : Fails fs 1 (Path.resolveImport ⟨"b.ky"⟩ i.source) "int y = z;" u := by
        rw [target]
        intro program' parsed'
        rw [parsed'] at failing
        cases result : (analyzeWith (importFiles fs 1) ⟨"a.ky"⟩ program' .fresh
            (u.asked (readingCalls ⟨"a.ky"⟩))).result with
        | error failure => exact ⟨failure, rfl⟩
        | ok m =>
            rw [Except.toOption, Option.map_some, result] at failing
            cases failing
      obtain ⟨-, -, -, attempted, -⟩ := Session.run_accounts_for_errors fs .empty [] job
      obtain ⟨below, levels, left⟩ := attempted 2 ⟨"b.ky"⟩ program begun [] i rest _ started split
        attempts
      obtain rfl : 1 = below := Nat.succ.inj levels
      obtain ⟨new, -, inside, aggregate, failed⟩ := left fails
      exact ⟨2, program, begun, i, started, attempts, new, inside, target ▸ aggregate, failed⟩

end ScriptFront
