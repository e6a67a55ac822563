import ScriptFront.Path.Basic

/-!
What the arguments of the command line ask for.
-/

namespace ScriptFront

/-- Arguments that ask for nothing that can be done. -/
inductive Misuse
  | noFile
  | notSource (name : String)
  deriving DecidableEq, Repr, Inhabited

/-- The complaint about unusable arguments. -/
def Misuse.message : Misuse → String
  | noFile => "No input files found!\nusage: kyro <file.ky> [--tokens] [--ast]"
  | notSource name => "Expected a ." ++ Path.sourceExtension ++ " source file, got " ++ name

/-- A file to check, and what is to be shown of it before. -/
structure Invocation where
  file : String
  showsTokens : Bool
  showsTree : Bool
  deriving DecidableEq, Repr, Inhabited

namespace Invocation

/-- The first argument is the file; of the others only the known options count. -/
def ofArguments : List String → Except Misuse Invocation
  | [] => .error .noFile
  | file :: options =>
    if Path.extension? ⟨file⟩ = some Path.sourceExtension.toList then
      .ok ⟨file, options.contains "--tokens", options.contains "--ast"⟩
    else .error (.notSource file)

/-- Whether the file is read once more, ahead of the check, to be shown. -/
def readsAhead (i : Invocation) : Bool := i.showsTokens || i.showsTree

def path (i : Invocation) : Path := ⟨i.file⟩

end Invocation
end ScriptFront
