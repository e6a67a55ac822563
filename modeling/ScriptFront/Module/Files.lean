import ScriptFront.Path.Normal

/-!
The files that a program can be made of.
-/

namespace ScriptFront

/-- The files that exist: the source of each, or the reason why it cannot be read. -/
structure Files where
  entries : List (Path × Except String String)

namespace Files

def empty : Files := ⟨[]⟩

instance : Inhabited Files := ⟨empty⟩

/-- A file by path. -/
def find? (fs : Files) (p : Path) : Option (Except String String) :=
  (fs.entries.find? fun e => e.1.same p).map (·.2)

def contains (fs : Files) (p : Path) : Bool := (fs.find? p).isSome

/-- Adds a file in front of all others, so that it hides those of the same path. -/
def insert (fs : Files) (p : Path) (content : Except String String) : Files :=
  ⟨(p, content) :: fs.entries⟩

def size (fs : Files) : Nat := fs.entries.length

end Files
end ScriptFront
