import ScriptFront.Phase.Analysis

/-!
All phases for a program and the files that it imports.
-/

namespace ScriptFront

/-- Why a program cannot be compiled. -/
inductive CompileError
  | notFound (p : Path)
  | unreadable (p : Path) (reason : String)
  | phase (failure : PhaseFailure)
  deriving DecidableEq, Repr, Inhabited

def CompileError.message : CompileError → String
  | notFound p => "cannot find " ++ p.text
  | unreadable p reason => "cannot read " ++ p.text ++ ": " ++ reason
  | phase failure => failure.message

/-- A program that made it through every phase. -/
structure Compilation where
  program : Program
  analyzed : AnalyzedModule
  deriving Inhabited

namespace Session

/-- Compiles a text as the file at a path. -/
def compileSource (s : Session) (files : Files) (source : String) (file : Path) :
    Except CompileError Compilation × Session :=
  let file := file.normalize
  let parsed := parseFile file source
  let s := (s.call (.parse file)).report parsed.diagnostics
  match parsed.result with
  | .error failure => (.error (.phase failure), s)
  | .ok program =>
    let a := analyze files file program .fresh s
    match a.result with
    | .error failure => (.error (.phase failure), a.session)
    | .ok m => (.ok ⟨program, m⟩, a.session)

/-- Compiles the file at a path. -/
def compile (s : Session) (files : Files) (path : Path) :
    Except CompileError Compilation × Session :=
  let path := path.normalize
  let s := s.call (.exists_ path)
  match files.find? path with
  | none => (.error (.notFound path), s)
  | some content =>
    let s := s.call (.read path)
    match content with
    | .error reason => (.error (.unreadable path reason), s)
    | .ok source => s.compileSource files source path

end Session
end ScriptFront
