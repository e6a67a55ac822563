import ScriptFront.Scope.Tables

/-!
The tables of the scopes around a place, the innermost of which steps are taken in. A table is
dropped as soon as its scope is left. What steps do in which table can be listed along a run.
-/

namespace ScriptFront

/--
A step through scopes: one is entered or left, an entry is declared at a place or completed, or a
name is read.
-/
inductive ScopeStep
  | enter
  | leave
  | declare (e : Entry) (place : Location)
  | complete (e : Entry)
  | read (name : String)
  deriving Inhabited

namespace ScopeStep

def isEnter : ScopeStep → Bool
  | .enter => true
  | _ => false

def isLeave : ScopeStep → Bool
  | .leave => true
  | _ => false

/-- Steps that leave no scope but those that they enter. -/
def Confined (steps : List ScopeStep) : Prop :=
  ∀ before, before <+: steps → before.countP isLeave ≤ before.countP isEnter

end ScopeStep

/-- The frame of a table; that of a missing one is empty. -/
def Tables.frame (ts : Tables) (id : Nat) : Frame := (ts.get? id).elim .empty (·.frame)

/--
Tables, and the numbers of those inside the global table that are open, the innermost first. The
number of the global table is zero.
-/
structure OpenTables where
  tables : Tables
  inner : List Nat
  deriving Inhabited

namespace OpenTables

/-- The global table alone. -/
def start : OpenTables := ⟨.start, []⟩

/-- The numbers of all open tables, the innermost first. -/
def numbers (s : OpenTables) : List Nat := s.inner ++ [0]

def current (s : OpenTables) : Nat := s.inner.headD 0

def frame (s : OpenTables) (id : Nat) : Frame := s.tables.frame id

/-- The frames of the open tables, the innermost first. -/
def frames (s : OpenTables) : List Frame := s.numbers.map s.frame

/-- What a name stands for, by the tables from the innermost one outwards. -/
def lookup (s : OpenTables) (name : String) : Option Entry := s.tables.lookup s.current name

/-- The innermost open table whose frame declares a name. -/
def owner? (s : OpenTables) (name : String) : Option Nat :=
  s.numbers.find? fun id => (s.frame id).declares name

def enter (s : OpenTables) : OpenTables :=
  let (tables, id) := s.tables.addChild s.current
  ⟨tables, id :: s.inner⟩

/-- Leaves the innermost scope. The global one cannot be left. -/
def leave? (s : OpenTables) : Option OpenTables :=
  match s.inner with
  | [] => none
  | id :: rest => some ⟨s.tables.drop id, rest⟩

/-- Declares an entry in the innermost table, unless its name is taken there. -/
def declare (s : OpenTables) (e : Entry) : OpenTables :=
  match s.tables.define s.current e with
  | .ok tables => { s with tables := tables }
  | .error _ => s

/-- Completes an entry of the innermost table. -/
def complete (s : OpenTables) (e : Entry) : OpenTables :=
  { s with tables := s.tables.modifyFrame s.current (·.complete e) }

/-- Records a read of a name that stands for something. -/
def read (s : OpenTables) (name : String) : OpenTables :=
  if (s.lookup name).isSome then { s with tables := s.tables.markUsed s.current name } else s

/-- Takes a step, unless it leaves the global scope. -/
def step? (s : OpenTables) : ScopeStep → Option OpenTables
  | .enter => some s.enter
  | .leave => s.leave?
  | .declare e _ => some (s.declare e)
  | .complete e => some (s.complete e)
  | .read name => some (s.read name)

def run? (s : OpenTables) (steps : List ScopeStep) : Option OpenTables := steps.foldlM step? s

/-- What the steps of a run are worth, each in the state that it is taken in. -/
def along {β : Type} (worth : OpenTables → ScopeStep → List β) (s : OpenTables) :
    List ScopeStep → List β
  | [] => []
  | step :: steps => worth s step ++ ((s.step? step).map fun t => along worth t steps).getD []

/-- The names that are declared while a table is the innermost one, whether they are free or not. -/
def declaredIn (id : Nat) : List ScopeStep → List String :=
  along (fun s step => match step with
    | .declare e _ => if s.current = id then [e.name] else []
    | _ => []) start

/-- The names that are read while a table is the innermost one that declares them. -/
def readIn (id : Nat) : List ScopeStep → List String :=
  along (fun s step => match step with
    | .read name => if s.owner? name = some id then [name] else []
    | _ => []) start

end OpenTables
end ScriptFront
