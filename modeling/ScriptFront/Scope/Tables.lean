import ScriptFront.Scope.Frame

/-!
Scopes as numbered tables that know the number of the table around them. A table can be dropped
while tables inside it are still in use; names around it are then out of their reach.
-/

namespace ScriptFront

/-- A table and the number of the table around it, which is smaller than its own. -/
structure Table where
  frame : Frame
  parent : Option Nat
  deriving Inhabited

/-- All tables by number; a dropped one is missing. -/
structure Tables where
  slots : List (Option Table)
  deriving Inhabited

namespace Tables

/-- A single table around which there is none. -/
def start : Tables := ⟨[some ⟨.empty, none⟩]⟩

def get? (ts : Tables) (id : Nat) : Option Table := (ts.slots[id]?).join

/-- Adds a table inside another one and gives its number. -/
def addChild (ts : Tables) (parent : Nat) : Tables × Nat :=
  (⟨ts.slots ++ [some ⟨.empty, some parent⟩]⟩, ts.slots.length)

/-- Forgets a table. -/
def drop (ts : Tables) (id : Nat) : Tables := ⟨ts.slots.set id none⟩

/-- Changes the frame of a table. -/
def modifyFrame (ts : Tables) (id : Nat) (f : Frame → Frame) : Tables :=
  ⟨ts.slots.modify id (·.map fun t => { t with frame := f t.frame })⟩

/-- Declares an entry in a table, unless its name is taken there. A missing table takes nothing. -/
def define (ts : Tables) (id : Nat) (e : Entry) : Except Entry Tables :=
  match ts.get? id with
  | none => .ok ts
  | some t =>
    match t.frame.define e with
    | .ok f => .ok (ts.modifyFrame id fun _ => f)
    | .error existing => .error existing

/-- What a name stands for, seen from a table: its entry there, or what it stands for around. -/
def lookup (ts : Tables) (id : Nat) (name : String) : Option Entry :=
  match ts.get? id with
  | none => none
  | some t =>
    match t.frame.find? name with
    | some e => some e
    | none => match t.parent with
      | none => none
      | some p => if p < id then lookup ts p name else none
termination_by id

/-- Records a read of a name in the nearest table, from one outwards, that declares it. -/
def markUsed (ts : Tables) (id : Nat) (name : String) : Tables :=
  match ts.get? id with
  | none => ts
  | some t =>
    if t.frame.declares name then ts.modifyFrame id (·.markUsed name)
    else match t.parent with
      | none => ts
      | some p => if p < id then markUsed ts p name else ts
termination_by id

end Tables
end ScriptFront
