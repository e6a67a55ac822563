import ScriptFront.Proofs.ExportTables
import ScriptFront.Proofs.RunHistories

/-!
Exports from end to end. In any run, what is kept for a file is what an analysis of that file has
given, so that a name that an import binds is an entry of the module that declares it, under another
name and at another place.
-/

namespace ScriptFront

/-- In a run, a file is analysed with success as a module, which exports what its program says. -/
def Analyzes (fs : Files) (log : DiagnosticLog) (p : Path) (m : AnalyzedModule) : Prop :=
  ∃ jobs job depth program s, Started fs ((Session.start log).runAll fs jobs) job depth p program s ∧
    (analyzeWith (importFiles fs depth) p program .fresh s).result = .ok m ∧ m.Exports program

/-- All that is kept in a state of a run for files is what analyses in the run have given. -/
def Session.Backed (fs : Files) (log : DiagnosticLog) (s : Session) : Prop :=
  ∀ p exports, p.Normal → s.exportsOf p = some exports →
    ∃ m, Analyzes fs log p m ∧ m.exports = exports

variable {fs : Files} {log : DiagnosticLog} {base : Session} {jobs : List Job} {job : Job}
  {depth : Nat} {file : Path} {program : Program} {s t : Session} {m : AnalyzedModule} {bound rest : List ImportDeclaration} {i : ImportDeclaration}

/-- The tokens of a file that parses are those of its text. -/
theorem parse_ofText {text : String} (h : (parseFile file text).result = .ok program) :
    Program.parse nestingLimit (Scan.ofText text).tokens = .ok program := by
  unfold parseFile Report.andThen at h
  split at h
  · cases h
  · next tokens lexed =>
      unfold lexFile at lexed
      dsimp only at lexed
      split at lexed
      · cases lexed
        unfold parseTokens at h
        split at h
        · next parsed => exact parsed.trans (congrArg _ (Except.ok.inj h))
        · cases h
      · cases lexed

theorem parse_of_parseFile {text : String} (h : (parseFile file text).result = .ok program) :
    ∃ tokens, Program.parse nestingLimit tokens = .ok program := ⟨_, parse_ofText h⟩

theorem Started.program_exports (started : Started fs base job depth file program s)
    (ok : (analyzeWith (importFiles fs depth) file program .fresh s).result = .ok m) :
    m.Exports program := by
  obtain ⟨text, parsed⟩ := started.parsed
  obtain ⟨tokens, parsed⟩ := parse_of_parseFile parsed
  exact exports_of_ok parsed ok

/-! ### What is kept in a run -/

namespace Session

theorem Backed.of_same (h : s.Backed fs log) (same : ∀ p, t.exportsOf p = s.exportsOf p) :
    t.Backed fs log :=
  fun p exports normal kept => h p exports normal (same p ▸ kept)

theorem Backed.store (h : s.Backed fs log) {p : Path} (normal : p.Normal)
    (own : Analyzes fs log p m) : (s.store p m.exports).Backed fs log := by
  intro q exports normal' kept
  rw [exportsOf_store] at kept
  split at kept
  · next same =>
      cases kept
      exact ⟨m, normal.eq_of_same normal' same ▸ own, rfl⟩
  · exact h q exports normal' kept

end Session

/-- The imports of a file keep what they should if each of them does. -/
theorem midway_backed (backed : s.Backed fs log)
    (step : ∀ bound i rest, program.imports = bound ++ i :: rest → i.isNative = false →
      (midway fs depth file s bound).Backed fs log →
      (importFiles fs depth file i (midway fs depth file s bound)).2.Backed fs log)
    (split : program.imports = bound ++ rest) : (midway fs depth file s bound).Backed fs log := by
  induction bound using List.reverseRecOn generalizing rest with
  | nil => exact backed.of_same fun _ => rfl
  | append_singleton bound i ih =>
      rw [List.append_assoc, List.singleton_append] at split
      have before := ih split
      obtain ⟨w, here, next⟩ := midway_concat fs depth file s bound i
      rw [next]
      cases native : i.isNative with
      | true =>
          obtain ⟨ds, -, session⟩ := Workspace.bind_native (importFiles fs depth) file native w
          rw [session, here]
          exact before.of_same fun _ => rfl
      | false =>
          rw [Workspace.bind_file native, Workspace.session_perform]
          dsimp only
          rw [here]
          exact (step bound i rest split native before).of_same fun _ => rfl

theorem analyzeWith_backed (backed : s.Backed fs log)
    (step : ∀ bound i rest, program.imports = bound ++ i :: rest → i.isNative = false →
      (midway fs depth file s bound).Backed fs log →
      (importFiles fs depth file i (midway fs depth file s bound)).2.Backed fs log) :
    (analyzeWith (importFiles fs depth) file program .fresh s).session.Backed fs log := by
  have last := midway_backed backed step (List.append_nil program.imports).symm
  obtain ⟨ds, closed⟩ := Workspace.session_closing file program
    (program.imports.foldl (Workspace.bind (importFiles fs depth) file) (.opening file .fresh s))
  rw [Workspace.analyzeWith_eq, closed]
  exact last.of_same fun _ => rfl

/-- An import gets what an analysis of its file in the run has given. -/
theorem importFiles_backed
    (started : Started fs ((Session.start log).runAll fs jobs) job depth file program s)
    (split : program.imports = bound ++ i :: rest) (native : i.isNative = false)
    (backed : (midway fs depth file s bound).Backed fs log) :
    let r := importFiles fs depth file i (midway fs depth file s bound)
    r.2.Backed fs log ∧ ∀ table, r.1 = .ok table →
      ∃ m, Analyzes fs log (file.resolveImport i.source) m ∧ m.exports = table := by
  -- One level less for each file that is loaded; its analysis is one of the run, by `Started.nested`.
  induction depth generalizing file program s bound i rest with
  | zero => exact ⟨backed, fun _ same => by cases same⟩
  | succ depth ih =>
      have normal := Path.normal_resolveImport file i.source
      cases progress : (midway fs (depth + 1) file s bound).isInProgress
          (file.resolveImport i.source) with
      | true =>
          rw [importFiles_of_inProgress progress]
          exact ⟨backed, fun _ same => by cases same⟩
      | false =>
          cases cached : (midway fs (depth + 1) file s bound).exportsOf
              (file.resolveImport i.source) with
          | some exports =>
              rw [importFiles_of_cached progress cached]
              refine ⟨backed, fun table same => ?_⟩
              cases same
              exact backed _ exports normal cached
          | none =>
              rw [importFiles_of_new progress cached]
              cases found : fs.program? (file.resolveImport i.source) with
              | none =>
                  obtain ⟨fault, calls, ds, -, -, load⟩ := loadFile_of_no_program found i.source
                  rw [load]
                  exact ⟨backed.of_same fun _ => rfl, fun _ same => by cases same⟩
              | some program' =>
                  rw [loadFile_of_program found]
                  have nested := Started.nested started split native progress cached found
                  have begun : ((midway fs (depth + 1) file s bound).asked
                      (readingCalls (file.resolveImport i.source))).Backed fs log :=
                    backed.of_same fun _ => rfl
                  have inner := analyzeWith_backed begun fun bound' j rest' split' native' backed' =>
                    (ih nested split' native' backed').1
                  unfold Analyzed.imported
                  split
                  · refine ⟨inner, fun table same => ?_⟩
                    cases same
                  · next m result =>
                      have own : Analyzes fs log (file.resolveImport i.source) m :=
                        ⟨jobs, job, depth, program', _, nested, result, nested.program_exports result⟩
                      refine ⟨inner.store normal own, fun table same => ?_⟩
                      cases same
                      exact ⟨m, own, rfl⟩

/-- In every run, what is kept for files is what analyses have given. -/
theorem Session.runAll_backed (fs : Files) (log : DiagnosticLog) (jobs : List Job) :
    ((Session.start log).runAll fs jobs).Backed fs log := by
  induction jobs using List.reverseRecOn with
  | nil => exact fun _ _ _ kept => nomatch kept
  | append_singleton jobs job ih =>
      rw [runAll_concat]
      cases source : job.source? fs with
      | none =>
          obtain ⟨error, calls, run, -⟩ := run_of_no_source source ((start log).runAll fs jobs)
          rw [run]
          exact ih.of_same fun _ => rfl
      | some text =>
          rw [run_of_source source]
          cases parsed : (parseFile job.path text).result with
          | error failure => exact ih.of_same fun _ => rfl
          | ok program =>
              have started : Started fs ((start log).runAll fs jobs) _ _ _ _ _ := .entry source parsed
              rw [finishJob, diagnostics_parseFile parsed, report_nil, Analyzed.session_compiled]
              exact analyzeWith_backed (ih.of_same fun _ => rfl) fun bound i rest split native kept =>
                (importFiles_backed started split native kept).1

theorem Started.backed
    (started : Started fs ((Session.start log).runAll fs jobs) job depth file program s) :
    s.Backed fs log := by
  induction started with
  | entry _ _ => exact (Session.runAll_backed fs log jobs).of_same fun _ => rfl
  | nested started split native _ _ _ ih =>
      have before := midway_backed ih (fun bound i rest split native kept =>
        (importFiles_backed started split native kept).1) split
      exact before.of_same fun _ => rfl

/-! ### Names that imports bind -/

/-- Every name that an import binds is an entry of a table, under that name and at its place. -/
structure AnalyzedModule.Binds (m : AnalyzedModule) (i : ImportDeclaration) (table : ExportTable) :
    Prop where
  wildcard : i.wildcard = true →
    ∀ e ∈ table.symbols, m.global? e.name = some (e.renamed e.name i.location)
  whole : ∀ name ∈ i.whole, ∃ e, table.default = some e ∧
    m.global? name.text = some (e.renamed name.text name.location)
  named : ∀ part ∈ i.named, ∃ e, table.find? part.imported.text = some e ∧
    m.global? part.binding.text = some (e.renamed part.binding.text part.binding.location)

end ScriptFront
