import ScriptFront.Proofs.ImportCycles

/-!
Runs of any length. A run does one job after another: it compiles a file, or a text that is said to
be the file at a path. Every analysis in its course is that of the program of a job, or that of a
file for the next import of a file whose analysis is under way.
-/

namespace ScriptFront

theorem eq_ok_of_toOption {ε α : Type} {r : Except ε α} {a : α} (h : r.toOption = some a) :
    r = .ok a := by
  cases r <;> cases h
  rfl

/-- A request to compile: the file at a path, or a text as the file at a path. -/
inductive Job
  | file (path : Path)
  | text (source : String) (path : Path)
  deriving DecidableEq, Repr, Inhabited

namespace Job

/-- The file that a job is about. -/
def path : Job → Path
  | file p | text _ p => p.normalize

/-- The text that a job is about, if it is found and can be read. -/
def source? (fs : Files) : Job → Option String
  | file p => (fs.find? p.normalize).bind Except.toOption
  | text source _ => some source

/-- The questions put to the files until the text of a job is parsed. -/
def calls : Job → List FileCall
  | file p => readingCalls p.normalize
  | text _ p => [.parse p.normalize]

end Job

namespace Session

/-- Does one job. -/
def run (s : Session) (fs : Files) : Job → Except CompileError Compilation × Session
  | .file p => s.compile fs p
  | .text source p => s.compileSource fs source p

/-- The run after some jobs were done in order. -/
def runAll (s : Session) (fs : Files) (jobs : List Job) : Session :=
  jobs.foldl (fun s job => (s.run fs job).2) s

variable {fs : Files} {job : Job}

theorem runAll_concat (s : Session) (fs : Files) (jobs : List Job) (job : Job) :
    s.runAll fs (jobs ++ [job]) = ((s.runAll fs jobs).run fs job).2 := by
  rw [runAll, List.foldl_append]
  rfl

/-- What there is to do with the program of a job, or with the reason why there is none. -/
def finishJob (fs : Files) (file : Path) (parsed : Except PhaseFailure Program) (s : Session) :
    Except CompileError Compilation × Session :=
  match parsed with
  | .error failure => (.error (.phase failure), s)
  | .ok program => (analyze fs file program .fresh s).compiled program

theorem compileSource_eq (s : Session) (fs : Files) (source : String) (p : Path) :
    s.compileSource fs source p = finishJob fs p.normalize (parseFile p.normalize source).result
      ((s.asked [.parse p.normalize]).report (parseFile p.normalize source).diagnostics) := by
  unfold compileSource finishJob
  dsimp only
  rw [call_eq_asked]
  cases (parseFile p.normalize source).result with
  | error failure => rfl
  | ok program =>
      dsimp only
      generalize analyze fs p.normalize program .fresh _ = a
      rfl

/-- The text of a job is parsed, and its program is analysed. -/
theorem run_of_source {text : String} (h : job.source? fs = some text) (s : Session) :
    s.run fs job = finishJob fs job.path (parseFile job.path text).result
      ((s.asked job.calls).report (parseFile job.path text).diagnostics) := by
  cases job with
  | file p =>
      obtain ⟨content, found, read⟩ := Option.bind_eq_some_iff.mp h
      cases content with
      | error reason => cases read
      | ok source =>
          cases read
          have normal := (Path.normal_normalize p).normalize_eq
          change s.compile fs p = _
          unfold compile
          dsimp only
          rw [found]
          dsimp only
          rw [compileSource_eq, normal, call_eq_asked, call_eq_asked, asked_asked, asked_asked]
          rfl
  | text source p =>
      cases h
      exact s.compileSource_eq fs text p

/-- A job without a text comes to nothing, without a diagnostic. -/
theorem run_of_no_source (h : job.source? fs = none) (s : Session) :
    ∃ error calls, s.run fs job = (.error error, s.asked calls) ∧
      ∀ failure, error ≠ .phase failure := by
  cases job with
  | file p =>
      cases found : fs.find? p.normalize with
      | none =>
          refine ⟨.notFound p.normalize, [.exists_ p.normalize], ?_, fun _ same => by cases same⟩
          simp only [run, compile, found]
          rfl
      | some content =>
          cases content with
          | error reason =>
              refine ⟨.unreadable p.normalize reason, [.exists_ p.normalize, .read p.normalize], ?_,
                fun _ same => by cases same⟩
              simp only [run, compile, found, call_eq_asked, asked_asked]
              rfl
          | ok source => simp [Job.source?, found, Except.toOption] at h
  | text source p => cases h

end Session

/--
In the course of a job that is done in some state of a run, an analysis is started in another state,
with so many levels of imports below it: for the job itself, or for the next import of a file whose
analysis was started.
-/
inductive Started (fs : Files) (base : Session) (job : Job) :
    Nat → Path → Program → Session → Prop
  | entry {text program} : job.source? fs = some text →
      (parseFile job.path text).result = .ok program →
      Started fs base job (fs.size + 1) job.path program (base.asked job.calls)
  | nested {depth file program s bound i rest program'} :
      Started fs base job (depth + 1) file program s → program.imports = bound ++ i :: rest →
      i.isNative = false →
      (midway fs (depth + 1) file s bound).isInProgress (file.resolveImport i.source) = false →
      (midway fs (depth + 1) file s bound).exportsOf (file.resolveImport i.source) = none →
      fs.program? (file.resolveImport i.source) = some program' →
      Started fs base job depth (file.resolveImport i.source) program'
        ((midway fs (depth + 1) file s bound).asked (readingCalls (file.resolveImport i.source)))

variable {fs : Files} {base : Session} {job : Job} {depth : Nat} {file : Path} {program : Program}
  {s : Session}

/-- What is analysed was parsed. -/
theorem Started.parsed (h : Started fs base job depth file program s) :
    ∃ text, (parseFile file text).result = .ok program := by
  cases h with
  | entry _ parsed => exact ⟨_, parsed⟩
  | nested _ _ _ _ _ parsed =>
      obtain ⟨text, -, parsed⟩ := Files.find?_of_program? parsed
      exact ⟨text, parsed⟩

theorem midway_concat (fs : Files) (depth : Nat) (file : Path) (s : Session)
    (bound : List ImportDeclaration) (i : ImportDeclaration) :
    ∃ w : Workspace, w.session = midway fs depth file s bound ∧
      midway fs depth file s (bound ++ [i])
        = (w.bind (importFiles fs depth) file i).session := by
  refine ⟨_, rfl, ?_⟩
  rw [midway, List.foldl_append]
  rfl

end ScriptFront
