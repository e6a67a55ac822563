import ScriptFront.Modifier.Basic
import ScriptFront.Text.Location
import ScriptFront.Typing.Ty

/-!
What a name can stand for.
-/

namespace ScriptFront

/-- A variable, a constant, a parameter, or a property of a class. -/
structure VariableEntry where
  name : String
  type : Ty
  isConstant : Bool
  isInitialized : Bool
  modifiers : Modifiers
  location : Option Location
  deriving Inhabited

/-- A function, a method, an operator or a constructor. -/
structure FunctionEntry where
  name : String
  params : List (String × Ty)
  returns : Ty
  generics : List String
  isAsync : Bool
  hasRest : Bool
  modifiers : Modifiers
  location : Option Location
  deriving Inhabited

/-- The type of the value that a function is. -/
def FunctionEntry.type (f : FunctionEntry) : Ty :=
  .function (f.params.map (·.2)) f.returns (Ty.ofGenerics f.generics) f.hasRest

/-- A class. No two fields have one name, and no two methods. -/
structure ClassEntry where
  name : String
  type : ClassTy
  fields : List VariableEntry
  methods : List FunctionEntry
  constructor : Option FunctionEntry
  modifiers : Modifiers
  location : Option Location
  deriving Inhabited

namespace ClassEntry

def field? (c : ClassEntry) (name : String) : Option VariableEntry :=
  c.fields.find? (·.name == name)

def method? (c : ClassEntry) (name : String) : Option FunctionEntry :=
  c.methods.find? (·.name == name)

/-- Puts an entry into a list: in the place of the one of its name, or at the end. -/
def put {α : Type} (name : α → String) (a : α) : List α → List α
  | [] => [a]
  | b :: bs => if name b = name a then a :: bs else b :: put name a bs

def putField (c : ClassEntry) (f : VariableEntry) : ClassEntry :=
  { c with fields := put (·.name) f c.fields }

def putMethod (c : ClassEntry) (m : FunctionEntry) : ClassEntry :=
  { c with methods := put (·.name) m c.methods }

/-- A member of the class itself with its modifiers; a field hides a method of its name. -/
def ownMember? (c : ClassEntry) (name : String) : Option (Ty × Modifiers) :=
  match c.field? name with
  | some f => some (f.type, f.modifiers)
  | none => (c.method? name).map fun m => (m.type, m.modifiers)

end ClassEntry

/-- A named type: a built-in one, a declared structure, or a generic parameter. -/
structure TypeEntry where
  name : String
  type : Ty
  modifiers : Modifiers
  location : Option Location
  deriving Inhabited

/-- What a name stands for in a scope. -/
inductive Entry
  | var (v : VariableEntry)
  | param (v : VariableEntry)
  | func (f : FunctionEntry)
  | cls (c : ClassEntry)
  | named (t : TypeEntry)
  deriving Inhabited

namespace Entry

def name : Entry → String
  | .var v | .param v => v.name
  | .func f => f.name
  | .cls c => c.name
  | .named t => t.name

/-- The type of the value that the name denotes in an expression. -/
def valueType : Entry → Ty
  | .var v | .param v => v.type
  | .func f => f.type
  | .cls c => c.type.toTy
  | .named t => t.type

def location : Entry → Option Location
  | .var v | .param v => v.location
  | .func f => f.location
  | .cls c => c.location
  | .named t => t.location

def modifiers : Entry → Modifiers
  | .var v | .param v => v.modifiers
  | .func f => f.modifiers
  | .cls c => c.modifiers
  | .named t => t.modifiers

/-- The entry bound to another name at another place; nothing else of it changes. -/
def renamed (name : String) (place : Location) : Entry → Entry
  | .var v => .var { v with name := name, location := some place }
  | .param v => .param { v with name := name, location := some place }
  | .func f => .func { f with name := name, location := some place }
  | .cls c => .cls { c with name := name, location := some place }
  | .named t => .named { t with name := name, location := some place }

/-- Whether the entry is of the kind whose reads are recorded: a variable or a parameter. -/
def isTracked : Entry → Bool
  | .var _ | .param _ => true
  | _ => false

/-- A generic parameter as a type. -/
def ofGeneric (name : String) (place : Location) : Entry :=
  .named ⟨name, .generic name, .empty, some place⟩

theorem location_renamed (e : Entry) (name : String) (place : Location) :
    (e.renamed name place).location = some place := by
  cases e <;> rfl

theorem valueType_renamed (e : Entry) (name : String) (place : Location) :
    (e.renamed name place).valueType = e.valueType := by
  cases e <;> rfl

end Entry
end ScriptFront
