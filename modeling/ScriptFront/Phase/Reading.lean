import ScriptFront.Diagnostic.Basic
import ScriptFront.Grammar.Program
import ScriptFront.Token.Scan

/-!
From the text of a file to its program, in two phases. A text that fails in the first phase does not
reach the second.
-/

namespace ScriptFront

/-- What a phase makes of a file: a result or a failure, and the diagnostics in reporting order. -/
structure Report (α : Type) where
  result : Except PhaseFailure α
  diagnostics : List Diagnostic

namespace Report

variable {α β : Type}

/-- The report of a phase that found errors in a file: each of them, and then the aggregate. -/
def failed (phase : Phase) (file : Path) (errors : List Diagnostic) : Report α :=
  let failure : PhaseFailure := ⟨phase, file, errors.length⟩
  ⟨.error failure, errors ++ [failure.toDiagnostic]⟩

/-- Goes on with the next phase if there is something to go on with. -/
def andThen (r : Report α) (next : α → Report β) : Report β :=
  match r.result with
  | .error failure => ⟨.error failure, r.diagnostics⟩
  | .ok a => ⟨(next a).result, r.diagnostics ++ (next a).diagnostics⟩

end Report

/-- A lexical error as a diagnostic. -/
def LexicalError.toDiagnostic (file : Path) (e : LexicalError) : Diagnostic :=
  ⟨e.fault.kind, e.fault.message, file, e.location⟩

/-- A syntax error as a diagnostic. -/
def SyntaxError.toDiagnostic (file : Path) (e : SyntaxError) : Diagnostic :=
  ⟨e.fault.kind, e.fault.message, file, e.location⟩

/-- The tokens of a file. -/
def lexFile (file : Path) (source : String) : Report (List Token) :=
  let scan := Scan.ofText source
  if scan.errors.isEmpty then ⟨.ok scan.tokens, []⟩
  else .failed .lexing file (scan.errors.map (·.toDiagnostic file))

/-- The program that the tokens of a file spell. -/
def parseTokens (file : Path) (tokens : List Token) : Report Program :=
  match Program.parse nestingLimit tokens with
  | .ok program => ⟨.ok program, []⟩
  | .error errors => .failed .parsing file (errors.map (·.toDiagnostic file))

/-- The program of a file. -/
def parseFile (file : Path) (source : String) : Report Program :=
  (lexFile file source).andThen (parseTokens file)

end ScriptFront
