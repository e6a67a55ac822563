import ScriptFront.Proofs.AnalysisParts
import ScriptFront.Proofs.ImportRuns

/-!
Every error is accounted for. While a file is analysed, the files that it imports report to the same
log, each about itself, and the file keeps a count of its own errors. The count is that of the
diagnostics about the file, and it stays at zero only if nothing at all has gone wrong, since a file
that cannot be imported is an error of the file that imports it.
-/

namespace ScriptFront

namespace Diagnostic

/-- Whether a diagnostic is an error about a file. -/
def isErrorIn (file : Path) (d : Diagnostic) : Bool := d.isError && d.file == file

/-- Whether a diagnostic is the aggregate of a phase. -/
def isAggregate (d : Diagnostic) : Bool :=
  d.kind == .programLexing || d.kind == .programParsing || d.kind == .programAnalysis

/-- Whether a diagnostic is the aggregate of a phase on a file. -/
def isAggregateOf (file : Path) (d : Diagnostic) : Bool := d.isAggregate && d.file == file

/-- Whether a diagnostic tells of an import that failed in a file. -/
def isFailedImportIn (file : Path) (d : Diagnostic) : Bool :=
  d.kind == .importFailed && d.file == file

theorem isErrorIn_of_file {file : Path} {d : Diagnostic} (h : d.file ≠ file) :
    d.isErrorIn file = false := by
  simp [isErrorIn, h]

theorem isAggregateOf_of_file {file : Path} {d : Diagnostic} (h : d.file ≠ file) :
    d.isAggregateOf file = false := by
  simp [isAggregateOf, h]

theorem isFailedImportIn_of_file {file : Path} {d : Diagnostic} (h : d.file ≠ file) :
    d.isFailedImportIn file = false := by
  simp [isFailedImportIn, h]

end Diagnostic

namespace PhaseFailure

variable (f : PhaseFailure)

theorem isError_toDiagnostic : f.toDiagnostic.isError = true := by
  obtain ⟨phase, file, errors⟩ := f
  cases phase <;> rfl

theorem isAggregate_toDiagnostic : f.toDiagnostic.isAggregate = true := by
  obtain ⟨phase, file, errors⟩ := f
  cases phase <;> rfl

end PhaseFailure

namespace Finding

variable (f : Finding) (file : Path)

theorem isError_toDiagnostic : (f.toDiagnostic file).isError = f.isError := by
  cases f with
  | error e =>
      obtain ⟨fault, place⟩ := e
      cases fault <;> rfl
  | warning w place => cases w <;> rfl

theorem isAggregate_toDiagnostic : (f.toDiagnostic file).isAggregate = false := by
  cases f with
  | error e =>
      obtain ⟨fault, place⟩ := e
      cases fault <;> rfl
  | warning w place => cases w <;> rfl

theorem isErrorIn_toDiagnostic : (f.toDiagnostic file).isErrorIn file = f.isError := by
  have here : ((f.toDiagnostic file).file == file) = true := beq_self_eq_true file
  rw [Diagnostic.isErrorIn, f.isError_toDiagnostic, here, Bool.and_true]

end Finding

/-! ### Reading a text -/

/-- Errors about a file of a phase that reads it, apart from the aggregate. -/
def OfReading (file : Path) (errors : List Diagnostic) : Prop :=
  ∀ d ∈ errors, d.file = file ∧ d.isError = true ∧ d.isAggregate = false

theorem ofReading_scanned (file : Path) (errors : List LexicalError) :
    OfReading file (errors.map (·.toDiagnostic file)) := by
  intro d mem
  obtain ⟨⟨fault, place⟩, -, rfl⟩ := List.mem_map.mp mem
  cases fault <;> exact ⟨rfl, rfl, rfl⟩

theorem ofReading_parsed (file : Path) (errors : List SyntaxError) :
    OfReading file (errors.map (·.toDiagnostic file)) := by
  intro d mem
  obtain ⟨⟨fault, place⟩, -, rfl⟩ := List.mem_map.mp mem
  cases fault <;> exact ⟨rfl, rfl, rfl⟩

/-- A report of a phase: it succeeds without diagnostics, or fails with errors and an aggregate. -/
inductive Settles {α : Type} (phase : Phase) (file : Path) : Report α → Prop
  | ok (a : α) : Settles phase file ⟨.ok a, []⟩
  | failed {errors} : OfReading file errors → Settles phase file (.failed phase file errors)

theorem lexFile_settles (file : Path) (text : String) :
    Settles .lexing file (lexFile file text) := by
  unfold lexFile
  dsimp only
  split
  · exact .ok _
  · exact .failed (ofReading_scanned file _)

theorem parseTokens_settles (file : Path) (tokens : List Token) :
    Settles .parsing file (parseTokens file tokens) := by
  unfold parseTokens
  split
  · exact .ok _
  · exact .failed (ofReading_parsed file _)

/-- What becomes of a text: it does not get past the scanner, or not past the grammar, or it does. -/
inductive Reading (file : Path) (text : String) : Prop
  | lexing {errors} : OfReading file errors → lexFile file text = .failed .lexing file errors →
      parseFile file text = .failed .lexing file errors → Reading file text
  | parsing {tokens errors} : OfReading file errors → (lexFile file text).result = .ok tokens →
      parseTokens file tokens = .failed .parsing file errors →
      parseFile file text = .failed .parsing file errors → Reading file text
  | program {program} : parseFile file text = ⟨.ok program, []⟩ → Reading file text

theorem reading (file : Path) (text : String) : Reading file text := by
  have lexed := lexFile_settles file text
  generalize lexing : lexFile file text = report at lexed
  cases lexed with
  | failed errors =>
      refine .lexing errors lexing ?_
      rw [parseFile, lexing]
      rfl
  | ok tokens =>
      have parsed := parseTokens_settles file tokens
      have next : parseFile file text = parseTokens file tokens := by
        rw [parseFile, lexing]
        rfl
      generalize parsing : parseTokens file tokens = report at parsed
      cases parsed with
      | failed errors =>
          exact .parsing errors (congrArg Report.result lexing) parsing (next.trans parsing)
      | ok program => exact .program (next.trans parsing)

/-! ### Diagnostics by file -/

/--
A diagnostic is one that a text gives rise to as its file: reading the text reports it, or the text
has a program, and it is a finding in the file or the aggregate of its analysis.
-/
def Diagnostic.StemsFrom (text : String) (d : Diagnostic) : Prop :=
  d ∈ (parseFile d.file text).diagnostics ∨
  (∃ program, (parseFile d.file text).result = .ok program) ∧
    ((∃ f : Finding, d = f.toDiagnostic d.file) ∨
      ∃ errors, d = PhaseFailure.toDiagnostic ⟨.analysis, d.file, errors⟩)

/-- A diagnostic is about a file that is not in progress, and its text gives rise to it. -/
def Foreign (fs : Files) (stack : List Path) (d : Diagnostic) : Prop :=
  d.file ∉ stack ∧ ∃ text, fs.find? d.file = some (.ok text) ∧ d.StemsFrom text

/-- A diagnostic is a finding in a file. -/
def Own (file : Path) (d : Diagnostic) : Prop := ∃ f : Finding, d = f.toDiagnostic file

variable {fs : Files} {stack : List Path} {file : Path} {ds es : List Diagnostic} {n m : Nat}

/-- What is not about a larger stack of files is not about a smaller one. -/
theorem Foreign.of_push {p : Path} {d : Diagnostic} (h : Foreign fs (stack ++ [p]) d) :
    Foreign fs stack d :=
  ⟨fun mem => h.1 (List.mem_append_left _ mem), h.2⟩

theorem Foreign.file_ne {d : Diagnostic} (h : Foreign fs stack d) (here : file ∈ stack) :
    d.file ≠ file :=
  fun same => h.1 (same ▸ here)

/--
The books of a file that is in progress: its own findings, diagnostics of the files that it imports,
and the number of errors. There is none only if nothing is an error at all.
-/
structure Books (fs : Files) (stack : List Path) (file : Path) (ds : List Diagnostic) (n : Nat) :
    Prop where
  origin : ∀ d ∈ ds, Foreign fs stack d ∨ Own file d
  count : n = ds.countP (·.isErrorIn file)
  clean : n = 0 → ∀ d ∈ ds, d.isError = false

namespace Books

theorem append (h : Books fs stack file ds n) (h' : Books fs stack file es m) :
    Books fs stack file (ds ++ es) (n + m) where
  origin := List.forall_mem_append.mpr ⟨h.origin, h'.origin⟩
  count := by rw [List.countP_append, ← h.count, ← h'.count]
  clean none := by
    obtain ⟨left, right⟩ := Nat.add_eq_zero_iff.mp none
    exact List.forall_mem_append.mpr ⟨h.clean left, h'.clean right⟩

/-- Findings in a file, of which the errors count. -/
theorem of_found (fs : Files) (stack : List Path) (file : Path) (found : List Finding) :
    Books fs stack file (found.map (·.toDiagnostic file)) (found.filter (·.isError)).length where
  origin d mem := by
    obtain ⟨f, -, rfl⟩ := List.mem_map.mp mem
    exact .inr ⟨f, rfl⟩
  count := by
    rw [← List.countP_eq_length_filter, List.countP_map]
    exact List.countP_congr fun f _ => by rw [Function.comp, f.isErrorIn_toDiagnostic]
  clean none d mem := by
    obtain ⟨f, inside, rfl⟩ := List.mem_map.mp mem
    rw [List.length_eq_zero_iff, List.filter_eq_nil_iff] at none
    rw [f.isError_toDiagnostic]
    exact Bool.not_eq_true _ ▸ none f inside

/-- Diagnostics of imported files do not count, and nothing goes wrong if none is an error. -/
theorem of_foreign (here : file ∈ stack) (foreign : ∀ d ∈ ds, Foreign fs stack d)
    (clean : ∀ d ∈ ds, d.isError = false) : Books fs stack file ds 0 where
  origin d mem := .inl (foreign d mem)
  count := by
    refine (List.countP_eq_zero.mpr fun d mem => ?_).symm
    rw [Diagnostic.isErrorIn_of_file ((foreign d mem).file_ne here)]
    exact Bool.false_ne_true
  clean _ := clean

/-- Whatever is reported about imported files, an import that fails is an error of its own. -/
theorem of_failure (here : file ∈ stack) (foreign : ∀ d ∈ ds, Foreign fs stack d)
    (i : ImportDeclaration) (fault : SemanticFault) :
    Books fs stack file (ds ++ [Workspace.failure file i fault]) 1 where
  origin := by
    refine List.forall_mem_append.mpr ⟨fun d mem => .inl (foreign d mem), ?_⟩
    exact List.forall_mem_singleton.mpr (.inr ⟨.error ⟨fault, i.location⟩, rfl⟩)
  count := by
    have none : ds.countP (·.isErrorIn file) = 0 := List.countP_eq_zero.mpr fun d mem => by
      rw [Diagnostic.isErrorIn_of_file ((foreign d mem).file_ne here)]
      exact Bool.false_ne_true
    have own : (Workspace.failure file i fault).isErrorIn file = true :=
      Finding.isErrorIn_toDiagnostic (.error ⟨fault, i.location⟩) file
    rw [List.countP_append, none, List.countP_singleton, own]
    rfl
  clean := nofun

end Books

/-! ### A run from one state to another -/

namespace Session

variable {s t u : Session}

/-- From one state of a run to another, diagnostics are reported, and the same files are in progress. -/
structure Reported (s t : Session) (ds : List Diagnostic) : Prop where
  stack : t.inProgress = s.inProgress
  items : t.log.items = s.log.items ++ ds

theorem Reported.refl (s : Session) : s.Reported s [] := ⟨rfl, (List.append_nil _).symm⟩

theorem Reported.trans (h : s.Reported t ds) (h' : t.Reported u es) : s.Reported u (ds ++ es) :=
  ⟨h'.stack.trans h.stack, by rw [h'.items, h.items, List.append_assoc]⟩

theorem Reported.report (h : s.Reported t ds) (es : List Diagnostic) :
    s.Reported (t.report es) (ds ++ es) :=
  h.trans ⟨rfl, t.items_report es⟩

end Session

/--
What it takes of a run to answer an import: whatever is reported is about files that are not in
progress, and nothing is an error if there is a table of exports in the end.
-/
structure Answered (fs : Files) (s : Session) (answer : Except SemanticFault ExportTable)
    (t : Session) (ds : List Diagnostic) : Prop where
  reported : s.Reported t ds
  foreign : ∀ d ∈ ds, Foreign fs s.inProgress d
  clean : ∀ table, answer = .ok table → ∀ d ∈ ds, d.isError = false

/-- An answer that is at hand. -/
theorem answered_at_once (fs : Files) (s : Session) (answer : Except SemanticFault ExportTable) :
    Answered fs s answer s [] :=
  ⟨.refl s, List.forall_mem_nil _, fun _ _ => List.forall_mem_nil _⟩

/-- An importer answers every import of every file in all states of a run as it should. -/
def Importer.Accounts (importer : Importer) (fs : Files) : Prop :=
  ∀ file i s, ∃ ds, Answered fs s (importer file i s).1 (importer file i s).2 ds

/-! ### The analysis of one file -/

namespace Workspace

variable {importer : Importer} {s : Session} {w : Workspace}

/-- The books of a file are kept in a workspace, from the state on in which its analysis began. -/
def Accounts (fs : Files) (file : Path) (s : Session) (w : Workspace) : Prop :=
  ∃ ds, (s.begin file).Reported w.session ds ∧ Books fs (s.inProgress ++ [file]) file ds w.errors

theorem exportsFor_accounts (h : importer.Accounts fs) (file : Path) (i : ImportDeclaration)
    (s : Session) :
    ∃ ds, Answered fs s (exportsFor importer file i s).1 (exportsFor importer file i s).2 ds := by
  unfold exportsFor
  split
  · split
    · exact ⟨[], answered_at_once fs s _⟩
    · exact ⟨[], answered_at_once fs s _⟩
  · exact h file i s

theorem Accounts.perform (h : w.Accounts fs file s) (check : Check Unit) :
    (w.perform file check).Accounts fs file s := by
  obtain ⟨ds, reported, books⟩ := h
  exact ⟨_, reported.report (w.found file check), books.append (.of_found _ _ _ _)⟩

theorem opening_accounts (fs : Files) (file : Path) (s : Session) :
    (opening file .fresh s).Accounts fs file s := by
  unfold opening
  refine Accounts.perform ⟨[], .refl _, ?_⟩ Check.builtins
  exact ⟨List.forall_mem_nil _, rfl, fun _ => List.forall_mem_nil _⟩

theorem bind_eq (importer : Importer) (file : Path) (w : Workspace) (i : ImportDeclaration) :
    w.bind importer file i =
      { w with session := (exportsFor importer file i w.session).2 }.perform file
        (Check.importing i (exportsFor importer file i w.session).1) := rfl

theorem Accounts.bind (h : w.Accounts fs file s) (answers : importer.Accounts fs)
    (i : ImportDeclaration) : (w.bind importer file i).Accounts fs file s := by
  obtain ⟨ds, reported, books⟩ := h
  obtain ⟨es, answered⟩ := exportsFor_accounts answers file i w.session
  rw [bind_eq]
  generalize (exportsFor importer file i w.session).1 = answer at answered
  generalize (exportsFor importer file i w.session).2 = t at answered
  have here : file ∈ s.inProgress ++ [file] := List.mem_append_right _ List.mem_cons_self
  have foreign : ∀ d ∈ es, Foreign fs (s.inProgress ++ [file]) d := by
    rw [← s.inProgress_begin, ← reported.stack]
    exact answered.foreign
  have before := reported.trans answered.reported
  -- Errors of imported files do not count here, so a failed import has to count for all of them.
  cases answer with
  | error fault =>
      have session := before.report [failure file i fault]
      rw [List.append_assoc] at session
      exact ⟨_, session, books.append (.of_failure here foreign i fault)⟩
  | ok table =>
      have between := books.append (.of_foreign here foreign (answered.clean table rfl))
      exact Accounts.perform (w := { w with session := t }) ⟨_, before, between⟩ _

theorem Accounts.binds (h : w.Accounts fs file s) (answers : importer.Accounts fs)
    (is : List ImportDeclaration) :
    (is.foldl (Workspace.bind importer file) w).Accounts fs file s := by
  induction is generalizing w with
  | nil => exact h
  | cons i is ih => exact ih (h.bind answers i)

end Workspace

/-- How an analysis ends: with books of a file that show no error, or with the aggregate of those. -/
inductive Closes (fs : Files) (stack : List Path) (file : Path) :
    Except PhaseFailure AnalyzedModule → List Diagnostic → Prop
  | ok {m : AnalyzedModule} {ds : List Diagnostic} : Books fs stack file ds 0 →
      Closes fs stack file (.ok m) ds
  | failed {ds : List Diagnostic} {n : Nat} : Books fs stack file ds (n + 1) →
      Closes fs stack file (.error ⟨.analysis, file, n + 1⟩)
        (ds ++ [PhaseFailure.toDiagnostic ⟨.analysis, file, n + 1⟩])

/-- From the state on in which an analysis began to its end, the books of the file are kept. -/
def Analyzed.Accounts (a : Analyzed) (fs : Files) (file : Path) (s : Session) : Prop :=
  ∃ ds, s.Reported a.session ds ∧ Closes fs (s.inProgress ++ [file]) file a.result ds

theorem Workspace.Accounts.closing {w : Workspace} {s : Session} (h : w.Accounts fs file s)
    (p : Program) : (w.closing file p).Accounts fs file s := by
  obtain ⟨ds, reported, books⟩ := h
  obtain ⟨unused, errors, warnings, count, closed⟩ := w.closing_eq file p
  have none : unused.filter (·.isError) = [] := by
    refine List.filter_eq_nil_iff.mpr fun f mem => ?_
    obtain ⟨name, place, rfl⟩ := warnings f mem
    exact Bool.false_ne_true
  have all := books.append (.of_found fs (s.inProgress ++ [file]) file
    (Check.reported (Check.body p) w.checker ++ unused))
  rw [List.filter_append, none, List.append_nil, Check.reported, ← count] at all
  -- The file was entered last, so that leaving it restores the files in progress.
  have left : s.Reported (w.session.finish file) ds :=
    ⟨Session.inProgress_finish file reported.stack, reported.items⟩
  rw [closed]
  cases errors with
  | zero => exact ⟨_, left.report _, .ok all⟩
  | succ n => exact ⟨_, (left.report _).report _, .failed all⟩

theorem analyzeWith_accounts {importer : Importer} (answers : importer.Accounts fs)
    (file : Path) (program : Program) (s : Session) :
    (analyzeWith importer file program .fresh s).Accounts fs file s := by
  rw [Workspace.analyzeWith_eq]
  exact ((Workspace.opening_accounts fs file s).binds answers _).closing program

/-! ### Imports of files -/

/-- One aggregate stands behind diagnostics among which there is none. -/
theorem countP_aggregate {f : PhaseFailure} (none : ∀ d ∈ ds, d.isAggregateOf f.file = false) :
    (ds ++ [f.toDiagnostic]).countP (·.isAggregateOf f.file) = 1 := by
  have before : ds.countP (·.isAggregateOf f.file) = 0 :=
    List.countP_eq_zero.mpr fun d mem => by
      rw [none d mem]
      exact Bool.false_ne_true
  have last : f.toDiagnostic.isAggregateOf f.file = true := by
    rw [Diagnostic.isAggregateOf, f.isAggregate_toDiagnostic]
    exact beq_self_eq_true f.file
  rw [List.countP_append, before, List.countP_singleton, last]
  rfl

/-- A text that is not read to its end gives rise to one aggregate. -/
theorem Reading.aggregate {text : String} {failure : PhaseFailure} (h : Reading file text)
    (failed : (parseFile file text).result = .error failure) :
    (parseFile file text).diagnostics.countP (·.isAggregateOf file) = 1 := by
  have none {errors : List Diagnostic} (h : OfReading file errors) :
      ∀ d ∈ errors, d.isAggregateOf file = false := fun d mem => by
    rw [Diagnostic.isAggregateOf, (h d mem).2.2]
    rfl
  cases h with
  | lexing errors _ whole =>
      rw [whole]
      exact countP_aggregate (f := ⟨.lexing, file, _⟩) (none errors)
  | parsing errors _ _ whole =>
      rw [whole]
      exact countP_aggregate (f := ⟨.parsing, file, _⟩) (none errors)
  | program whole =>
      rw [whole] at failed
      cases failed

namespace Closes

variable {p : Path} {result : Except PhaseFailure AnalyzedModule}

/--
What the analysis of a program reports is about other files, or the text of the analysed file gives
rise to it.
-/
theorem origin {text : String} {program : Program} {d : Diagnostic} (h : Closes fs stack p result ds)
    (parsed : (parseFile p text).result = .ok program) (mem : d ∈ ds) :
    Foreign fs stack d ∨ d.file = p ∧ d.StemsFrom text := by
  have inside {ds : List Diagnostic} {n : Nat} (books : Books fs stack p ds n) (mem : d ∈ ds) :
      Foreign fs stack d ∨ d.file = p ∧ d.StemsFrom text := by
    rcases books.origin d mem with other | ⟨f, rfl⟩
    · exact .inl other
    · exact .inr ⟨rfl, .inr ⟨⟨program, parsed⟩, .inl ⟨f, rfl⟩⟩⟩
  cases h with
  | ok books => exact inside books mem
  | failed books =>
      rcases List.mem_append.mp mem with mem | last
      · exact inside books mem
      · obtain rfl := List.mem_singleton.mp last
        exact .inr ⟨rfl, .inr ⟨⟨program, parsed⟩, .inr ⟨_, rfl⟩⟩⟩

/-- From outside, all that an analysis reports is about imported files, the analysed one included. -/
theorem foreign {text : String} {program : Program}
    (h : Closes fs (stack ++ [p]) p result ds) (new : p ∉ stack)
    (found : fs.find? p = some (.ok text)) (parsed : (parseFile p text).result = .ok program) :
    ∀ d ∈ ds, Foreign fs stack d := by
  intro d mem
  rcases h.origin parsed mem with other | ⟨rfl, stems⟩
  · exact other.of_push
  · exact ⟨new, text, found, stems⟩

theorem clean {m : AnalyzedModule} (h : Closes fs stack p (.ok m) ds) :
    ∀ d ∈ ds, d.isError = false := by
  cases h with
  | ok books => exact books.clean rfl

theorem aggregate {failure : PhaseFailure} (h : Closes fs stack p (.error failure) ds)
    (here : p ∈ stack) : ds.countP (·.isAggregateOf p) = 1 := by
  cases h with
  | @failed ds n books =>
      refine countP_aggregate (f := ⟨.analysis, p, n + 1⟩) fun d mem => ?_
      rcases books.origin d mem with other | ⟨f, rfl⟩
      · exact Diagnostic.isAggregateOf_of_file (other.file_ne here)
      · rw [Diagnostic.isAggregateOf, f.isAggregate_toDiagnostic]
        rfl

end Closes

section Load

variable {p : Path} {text : String} {importer : Importer} {s : Session}

/-- A file that is not there, or cannot be read, is not imported. -/
theorem loadFile_of_no_text (h : ∀ text, fs.find? p ≠ some (.ok text)) (importer : Importer)
    (source : String) (s : Session) :
    ∃ fault calls, loadFile fs importer source p s = (.error fault, s.asked calls) := by
  unfold loadFile
  dsimp only
  rw [Session.call_eq_asked]
  split
  · exact ⟨_, _, rfl⟩
  · next content found =>
      rw [Session.call_eq_asked, Session.asked_asked]
      split
      · exact ⟨_, _, rfl⟩
      · exact absurd found (h _)

/-- The text of a file does not parse. -/
theorem loadFile_of_failure (found : fs.find? p = some (.ok text)) {failure : PhaseFailure}
    (failed : (parseFile p text).result = .error failure) (importer : Importer) (source : String)
    (s : Session) :
    loadFile fs importer source p s = (.error (.importFailed source .syntaxErrors),
      (s.asked (readingCalls p)).report (parseFile p text).diagnostics) := by
  unfold loadFile
  dsimp only
  rw [found]
  dsimp only
  rw [failed, Session.call_eq_asked, Session.call_eq_asked, Session.call_eq_asked,
    Session.asked_asked, Session.asked_asked]
  rfl

/--
A file that can be read is answered for as it should be; and if it is not imported, then for the
reason that this has failed, with one aggregate of the file.
-/
theorem loadFile_accounts (new : p ∉ s.inProgress) (found : fs.find? p = some (.ok text))
    (answers : importer.Accounts fs) (source : String) :
    ∃ ds, Answered fs s (loadFile fs importer source p s).1 (loadFile fs importer source p s).2 ds ∧
      ∀ fault, (loadFile fs importer source p s).1 = .error fault →
        fault.kind = .importFailed ∧ ds.countP (·.isAggregateOf p) = 1 := by
  cases parsed : (parseFile p text).result with
  | error failure =>
      rw [loadFile_of_failure found parsed]
      have about : ∀ d ∈ (parseFile p text).diagnostics, Foreign fs s.inProgress d := by
        intro d mem
        have file : d.file = p := (quiet_parseFile p text d mem).1
        exact ⟨file ▸ new, text, file ▸ found, .inl (file ▸ mem)⟩
      refine ⟨_, ⟨⟨rfl, Session.items_report _ _⟩, about, nofun⟩, fun fault same => ?_⟩
      cases same
      exact ⟨rfl, (reading p text).aggregate parsed⟩
  | ok program =>
      rw [loadFile_of_program (Files.program?_eq found parsed)]
      obtain ⟨ds, reported, closes⟩ :=
        analyzeWith_accounts answers p program (s.asked (readingCalls p))
      generalize analyzeWith importer p program .fresh (s.asked (readingCalls p)) = a
        at reported closes
      have reported : s.Reported a.session ds := ⟨reported.stack, reported.items⟩
      have foreign := closes.foreign new found parsed
      unfold Analyzed.imported
      cases result : a.result with
      | error failure =>
          rw [result] at closes
          refine ⟨ds, ⟨reported, foreign, nofun⟩, fun fault same => ?_⟩
          cases same
          exact ⟨rfl, closes.aggregate (List.mem_append_right _ List.mem_cons_self)⟩
      | ok m =>
          rw [result] at closes
          exact ⟨ds, ⟨⟨reported.stack, reported.items⟩, foreign, fun _ _ => closes.clean⟩, nofun⟩

end Load

theorem not_mem_of_isInProgress {s : Session} {p : Path} (h : s.isInProgress p = false) :
    p ∉ s.inProgress := by
  intro mem
  have found : s.isInProgress p = true := List.any_eq_true.mpr ⟨p, mem, p.same_self⟩
  rw [h] at found
  cases found

/-- With any number of levels, imports of files are answered for as they should be. -/
theorem importFiles_accounts (fs : Files) (depth : Nat) : (importFiles fs depth).Accounts fs := by
  -- The levels below answer for the imports of a file, and its analysis closes the books on them.
  induction depth with
  | zero => exact fun _ _ s => ⟨[], answered_at_once fs s _⟩
  | succ depth ih =>
      intro file i s
      cases progress : s.isInProgress (file.resolveImport i.source) with
      | true =>
          rw [importFiles_of_inProgress progress]
          exact ⟨[], answered_at_once fs s _⟩
      | false =>
          cases cached : s.exportsOf (file.resolveImport i.source) with
          | some exports =>
              rw [importFiles_of_cached progress cached]
              exact ⟨[], answered_at_once fs s _⟩
          | none =>
              rw [importFiles_of_new progress cached]
              by_cases readable : ∃ text, fs.find? (file.resolveImport i.source) = some (.ok text)
              · obtain ⟨text, found⟩ := readable
                obtain ⟨ds, answered, -⟩ := loadFile_accounts
                  (not_mem_of_isInProgress progress) found ih i.source
                exact ⟨ds, answered⟩
              · obtain ⟨fault, calls, load⟩ := loadFile_of_no_text (not_exists.mp readable)
                  (importFiles fs depth) i.source s
                rw [load]
                have none := answered_at_once fs s (.error fault)
                exact ⟨[], ⟨none.reported.stack, none.reported.items⟩, none.foreign, none.clean⟩

end ScriptFront
