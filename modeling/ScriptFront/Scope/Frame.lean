import ScriptFront.Scope.Entry

/-!
One scope: the names declared in it, in order, and which of them were read.
-/

namespace ScriptFront

/-- The entries of one scope in declaration order, no two of one name, and the names read so far. -/
structure Frame where
  entries : List Entry
  used : List String
  deriving Inhabited

namespace Frame

def empty : Frame := ⟨[], []⟩

def find? (f : Frame) (name : String) : Option Entry :=
  f.entries.find? (·.name == name)

def declares (f : Frame) (name : String) : Bool := (f.find? name).isSome

/-- Adds an entry, unless its name is taken: then the entry that has it is given back. -/
def define (f : Frame) (e : Entry) : Except Entry Frame :=
  match f.find? e.name with
  | some existing => .error existing
  | none => .ok { f with entries := f.entries ++ [e] }

/-- Replaces the entry of a name that was declared before its meaning was known. -/
def complete (f : Frame) (e : Entry) : Frame :=
  { f with entries := f.entries.map fun old => if old.name == e.name then e else old }

/-- Records that a name was read. -/
def markUsed (f : Frame) (name : String) : Frame :=
  if f.used.contains name then f else { f with used := name :: f.used }

/-- The variables and parameters that were never read. -/
def unused (f : Frame) : List Entry :=
  f.entries.filter fun e => e.isTracked && !f.used.contains e.name

end Frame
end ScriptFront
