import ScriptFront.Module.Native
import ScriptFront.Scope.Frame
import ScriptFront.Tree.Statement

/-!
What a file or a native module gives to those that import it.
-/

namespace ScriptFront

/-- The exported entries by name, in order and each name once, and the default export. -/
structure ExportTable where
  symbols : List Entry
  default : Option Entry
  deriving Inhabited

namespace ExportTable

def empty : ExportTable := ⟨[], none⟩

def find? (t : ExportTable) (name : String) : Option Entry :=
  t.symbols.find? (·.name == name)

/-- Adds an entry; one of the same name is replaced in its place. -/
def insert (e : Entry) : List Entry → List Entry
  | [] => [e]
  | old :: rest => if old.name == e.name then e :: rest else old :: insert e rest

/-- The exports of a native module: its functions, and the whole module as the default. -/
def ofNative (m : NativeModule) : ExportTable :=
  ⟨m.functions.map .func, some (.var ⟨m.name, m.asStruct, true, true, .empty, none⟩)⟩

/-- The global entries that a statement of a program declares. -/
def declaredEntries (p : Program) (global : Frame) (index : Nat) : List Entry :=
  (p.body[index]?.map (·.declaredNames)).getD [] |>.filterMap fun name => global.find? name.text

/-- The exports of a file: the entries of its public declarations and of its default declaration. -/
def ofProgram (p : Program) (global : Frame) : ExportTable :=
  ⟨(p.exports.flatMap (declaredEntries p global)).foldl (fun es e => insert e es) [],
    p.defaultExport.bind fun index => (declaredEntries p global index).head?⟩

end ExportTable
end ScriptFront
