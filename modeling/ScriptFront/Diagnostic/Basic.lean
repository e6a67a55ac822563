import ScriptFront.Diagnostic.Kind
import ScriptFront.Path.Basic
import ScriptFront.Text.Location

/-!
Diagnostics are plain data. A phase reports what it finds and goes on; if it found an error it fails
as a whole at its end, with one aggregate diagnostic.
-/

namespace ScriptFront

/-- One error or warning about a place in a file. -/
structure Diagnostic where
  kind : DiagnosticKind
  message : String
  file : Path
  location : Location
  deriving DecidableEq, Repr, Inhabited

namespace Diagnostic

def severity (d : Diagnostic) : Severity := d.kind.severity

def isError (d : Diagnostic) : Bool := d.severity == .error

/-- A diagnostic on one line. -/
def display (d : Diagnostic) : String :=
  d.kind.name ++ ": " ++ d.message ++ " (" ++ d.file.text ++ ":" ++ d.location.display ++ ")"

end Diagnostic

/-- The phases a source text goes through. -/
inductive Phase
  | lexing
  | parsing
  | analysis
  deriving DecidableEq, Repr, Inhabited

/-- The failure of a phase on a file, with the number of errors that the phase reported for it. -/
structure PhaseFailure where
  phase : Phase
  file : Path
  errors : Nat
  deriving DecidableEq, Repr, Inhabited

namespace PhaseFailure

/-- The kind of the aggregate diagnostic of a failure. -/
def kind (f : PhaseFailure) : DiagnosticKind :=
  match f.phase with
  | .lexing => .programLexing
  | .parsing => .programParsing
  | .analysis => .programAnalysis

/-- The wording of a failure. -/
def message (f : PhaseFailure) : String :=
  let work := match f.phase with
    | .lexing => "lexing"
    | .parsing => "parsing"
    | .analysis => "semantic analysis"
  work ++ " of " ++ f.file.text ++ " failed with " ++ toString f.errors ++ " error(s)"

/-- The aggregate diagnostic of a failure stands at the start of its file. -/
def toDiagnostic (f : PhaseFailure) : Diagnostic :=
  ⟨f.kind, f.message, f.file, .start⟩

end PhaseFailure
end ScriptFront
