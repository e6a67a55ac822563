import ScriptFront.CommandLine.Invocation
import ScriptFront.Diagnostic.Excerpt
import ScriptFront.Module.Directory
import ScriptFront.Phase.Compilation
import ScriptFront.Text.Column

/-!
What the command line prints: the tokens of the file if they are asked for, each diagnostic with its
excerpt, and a closing line with what was checked or why it failed.
-/

namespace ScriptFront

/-- The end of a run: whether it succeeds, and what it writes to its two outputs. -/
structure Outcome where
  succeeds : Bool
  output : String
  errors : String
  deriving DecidableEq, Repr, Inhabited

namespace Outcome

/-- The exit code. -/
def code (o : Outcome) : Nat := if o.succeeds then 0 else 1

/-- A run that stops with one line of complaint. -/
def failed (output complaint : String) : Outcome := ⟨false, output, complaint ++ "\n"⟩

end Outcome

/-- A token on one line, after its place. -/
def Token.listed (t : Token) : String :=
  Text.padLeft 4 (toString t.location.line) ++ ":" ++ Text.padRight 3 (toString t.location.column)
    ++ " " ++ t.kind.name ++ " " ++ t.display ++ "\n"

/-- The text of a file that can be read; there is none of others. -/
def Files.textOf (fs : Files) (p : Path) : String :=
  match fs.find? p with
  | some (.ok text) => text
  | _ => ""

/-- Diagnostics as they are printed, each with the excerpt of its own file. -/
def Files.render (fs : Files) (ds : List Diagnostic) : String :=
  .join (ds.map fun d => d.render (fs.textOf d.file) ++ "\n")

namespace Invocation

/--
The tokens of a text, if they are asked for and the text has no lexical error. A syntax tree has no
listing: to ask for it only has the file read ahead.
-/
def listing (i : Invocation) (text : String) : String :=
  match i.showsTokens, (lexFile i.path text).result with
  | true, .ok tokens => .join (tokens.map (·.listed))
  | _, _ => ""

/-- The closing line about a program without errors. -/
def summary (c : Compilation) (warnings : Nat) : String :=
  "Checked " ++ c.analyzed.file.text ++ " (" ++ toString c.program.body.length
    ++ " top-level statements, " ++ toString warnings ++ " warning(s))\n"

/-- The check of the file, with the run that it leaves. -/
def compile (i : Invocation) (files : Files) : Except CompileError Compilation × Session :=
  (Session.start .empty).compile files i.path

/-- Checks the file. -/
def check (i : Invocation) (files : Files) : Outcome :=
  let (result, session) := i.compile files
  let rendered := files.render session.log.items
  match result with
  | .ok c => ⟨true, summary c session.log.warnings.length, rendered⟩
  | .error e => ⟨false, "", rendered ++ e.message ++ "\n"⟩

/--
Runs an invocation on given files. The text at the path as it was given is at hand beside them; it
takes part only if something is to be shown of it.
-/
def run (i : Invocation) (given : Except String String) (files : Files) : Outcome :=
  let heading := "Compiling " ++ i.file ++ "...\n"
  match if i.readsAhead then given.map i.listing else .ok "" with
  | .error reason => .failed heading ("Cannot read " ++ i.file ++ ": " ++ reason)
  | .ok listed =>
    let o := i.check files
    { o with output := heading ++ listed ++ o.output }

/-- The paths that a check asks for, among them those where there is no file. -/
def asked (i : Invocation) (files : Files) : List Path :=
  (i.compile files).2.calls.filterMap fun
    | .exists_ p => some p
    | _ => none

end Invocation

/-- Runs a command line in a directory. -/
def Directory.run (d : Directory) (arguments : List String) : Outcome :=
  match Invocation.ofArguments arguments with
  | .error misuse => .failed "" misuse.message
  | .ok i => i.run ((d.read i.path).mapError ReadError.message) d.toFiles

end ScriptFront
