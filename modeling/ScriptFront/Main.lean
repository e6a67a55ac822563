import ScriptFront.CommandLine.Run

/-!
The program: it looks up the files that a check asks for, runs the command line on them, and writes
what the run gives.
-/

namespace ScriptFront.Main

/-- Error numbers arrive as such or negated in 32 bits. -/
def errorNumber (code : UInt32) : Nat :=
  if code.toInt32 < 0 then (-code.toInt32).toNatClampNeg else code.toNat

/-- An error by its number, with the wording that the library has for it, or else a given one. -/
def systemError (code : UInt32) (text : String) : ReadError :=
  let known := ReadError.aboutPath.find? fun
    | .system n _ => n == errorNumber code
    | .notText => false
  known.getD (.system (errorNumber code) text.capitalize)

/-- An error of the system as the reason why a path cannot be read. -/
def reason : IO.Error → ReadError
  | .noFileOrDirectory _ code text | .permissionDenied _ code text
  | .inappropriateType _ code text | .invalidArgument _ code text
  | .resourceExhausted _ code text => systemError code text
  | .resourceBusy code text | .hardwareFault code text | .otherError code text =>
    systemError code text
  | e => .system 0 (toString e)

/-- The text at a path. -/
def readText (p : Path) : IO (Except ReadError String) := do
  try return Directory.decode (← IO.FS.readBinFile p.text)
  catch e => return .error (reason e)

/-- Adds the file at a path, if there is one. -/
def lookUp (files : Files) (p : Path) : IO Files := do
  match ← readText p with
  | .ok text => return files.insert p (.ok text)
  | .error e => return if e.isAboutFile then files.insert p (.error e.message) else files

/-- Looks files up until all that a check asks for are known. -/
partial def gather (i : Invocation) (looked : List Path) (files : Files) : IO Files := do
  match (i.asked files).filter fun p => !looked.contains p with
  | [] => return files
  | new => gather i (new ++ looked) (← new.foldlM lookUp files)

/-- The outcome of a command line in the current directory. -/
def outcome (arguments : List String) : IO Outcome := do
  match Invocation.ofArguments arguments with
  | .error misuse => return .failed "" misuse.message
  | .ok i =>
    let given ← if i.readsAhead then readText i.path else pure (.ok "")
    return i.run (given.mapError ReadError.message) (← gather i [] .empty)

end ScriptFront.Main

def main (arguments : List String) : IO UInt32 := do
  let o ← ScriptFront.Main.outcome arguments
  IO.print o.output
  IO.eprint o.errors
  return o.code.toUInt32
