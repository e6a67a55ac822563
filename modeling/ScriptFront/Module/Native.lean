import ScriptFront.Scope.Entry

/-!
Modules that the host provides. They have no source; their functions are described by signatures.
-/

namespace ScriptFront

/-- A module of the host with its functions in order. -/
structure NativeModule where
  name : String
  functions : List FunctionEntry
  deriving Inhabited

namespace NativeModule

/-- A function of the host: its name, its parameters and its result. -/
def function (name : String) (params : List (String × Ty)) (returns : Ty) : FunctionEntry :=
  ⟨name, params, returns, [], false, false, .empty, none⟩

def console : NativeModule :=
  ⟨"console",
    [function "print" [("value", .string)] .void,
     function "println" [("value", .string)] .void,
     function "input" [("prompt", .string)] .string,
     function "exit" [] .void,
     function "error" [("message", .string)] .void]⟩

def env : NativeModule :=
  ⟨"env", [function "get" [("key", .string)] .string]⟩

def file : NativeModule :=
  ⟨"file",
    [function "read" [("path", .string)] .string,
     function "write" [("path", .string), ("content", .string)] .void,
     function "append" [("path", .string), ("content", .string)] .void,
     function "exists" [("path", .string)] .bool,
     function "delete" [("path", .string)] .void,
     function "mkdir" [("path", .string)] .void]⟩

def time : NativeModule :=
  ⟨"time", [function "now" [] .int, function "sleep" [("ms", .int)] .void]⟩

/-- Every module of the host. -/
def all : List NativeModule := [console, env, file, time]

/-- The module with a given name. -/
def find? (name : String) : Option NativeModule := all.find? (·.name == name)

/-- A function of a module as an entry. -/
def get? (m : NativeModule) (name : String) : Option Entry :=
  (m.functions.find? (·.name == name)).map .func

/-- The structure type of a whole module: one field for each function. -/
def asStruct (m : NativeModule) : Ty :=
  .struct (Ty.ofFields (m.functions.map fun f => (f.name, f.type))) []

end NativeModule
end ScriptFront
