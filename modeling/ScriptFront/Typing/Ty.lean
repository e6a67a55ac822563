/-!
The types of values. Types are plain values compared by structure: two structure types with the same
fields are one type, wherever they are declared.
-/

namespace ScriptFront

/-- The built-in types. -/
inductive Primitive
  | int | float | bool | string | char | void | null | undefined | nan
  deriving DecidableEq, Repr, Inhabited

namespace Primitive

/-- Every built-in type once, in the order in which a file knows them. -/
def all : List Primitive := [int, float, bool, string, char, void, null, undefined, nan]

def name : Primitive → String
  | int => "int"
  | float => "float"
  | bool => "bool"
  | string => "string"
  | char => "char"
  | void => "void"
  | null => "null"
  | undefined => "undefined"
  | nan => "NaN"

end Primitive

/--
The type of a value. A structure lists its fields in order, each name once. A variadic function
collects the remaining arguments in its last parameter. A generic is a parameter that is not
instantiated.
-/
inductive Ty
  | primitive (p : Primitive)
  | array (element : Ty)
  | struct (fields : List (String × Ty)) (generics : List Ty)
  | class_ (name : String) (superclass : Option Ty) (interfaces generics : List Ty)
  | function (params : List Ty) (returns : Ty) (generics : List Ty) (variadic : Bool)
  | union (left right : Ty)
  | intersection (left right : Ty)
  | generic (name : String)

namespace Ty

instance : Inhabited Ty := ⟨.generic ""⟩

abbrev int : Ty := .primitive .int
abbrev float : Ty := .primitive .float
abbrev bool : Ty := .primitive .bool
abbrev string : Ty := .primitive .string
abbrev char : Ty := .primitive .char
abbrev void : Ty := .primitive .void
abbrev null : Ty := .primitive .null
abbrev undefined : Ty := .primitive .undefined
abbrev nan : Ty := .primitive .nan

/-- A declared type that could not be worked out. Like a generic, it accepts every value. -/
def inferred : Ty := .generic "infer"

/-- The types that arithmetic works on. -/
def isNumeric : Ty → Bool
  | .primitive .int | .primitive .float | .primitive .nan => true
  | _ => false

/-- Whether a type is a class. -/
def isClass : Ty → Bool
  | .class_ .. => true
  | _ => false

/-- Sets a field: a known name keeps its place and gets the new type, a new one goes last. -/
def setField (name : String) (t : Ty) : List (String × Ty) → List (String × Ty)
  | [] => [(name, t)]
  | (n, u) :: fields =>
    if n = name then (n, t) :: fields else (n, u) :: setField name t fields

/-- The fields of a list in which later entries for a name replace the type of earlier ones. -/
def ofFields (fields : List (String × Ty)) : List (String × Ty) :=
  fields.foldl (fun fs f => setField f.1 f.2 fs) []

/-- The generics that stand for declared generic parameters. -/
def ofGenerics (names : List String) : List Ty := names.map .generic

mutual

/-- A type as messages show it. -/
def display : Ty → String
  | .primitive p => p.name
  | .array t => t.display ++ "[]"
  | .struct fields _ => "\x7b " ++ ", ".intercalate (displayFields fields) ++ " \x7d"
  | .class_ name _ _ _ => name
  | .function params returns _ _ =>
    "(" ++ ", ".intercalate (displayAll params) ++ ") => " ++ returns.display
  | .union l r => l.display ++ " | " ++ r.display
  | .intersection l r => l.display ++ " & " ++ r.display
  | .generic name => name

def displayAll : List Ty → List String
  | [] => []
  | t :: ts => t.display :: displayAll ts

def displayFields : List (String × Ty) → List String
  | [] => []
  | (n, t) :: fields => (n ++ ": " ++ t.display) :: displayFields fields

end

mutual

/-- Equality of types: the order of the fields of a structure does not count, other order does. -/
def same : Ty → Ty → Bool
  | .primitive p, .primitive q => p == q
  | .array t, .array u => t.same u
  | .struct fields generics, .struct fields' generics' =>
    fields.length == fields'.length && sameFields fields fields' && sameAll generics generics'
  | .class_ name superclass interfaces generics, .class_ name' superclass' interfaces' generics' =>
    name == name' && sameOptional superclass superclass' && sameAll interfaces interfaces'
      && sameAll generics generics'
  | .function params returns generics variadic, .function params' returns' generics' variadic' =>
    sameAll params params' && returns.same returns' && sameAll generics generics'
      && variadic == variadic'
  | .union l r, .union l' r' => l.same l' && r.same r'
  | .intersection l r, .intersection l' r' => l.same l' && r.same r'
  | .generic name, .generic name' => name == name'
  | _, _ => false
termination_by structural t => t

/-- Equality of lists of types, place by place. -/
def sameAll : List Ty → List Ty → Bool
  | [], [] => true
  | t :: ts, u :: us => t.same u && sameAll ts us
  | _, _ => false
termination_by structural ts => ts

def sameOptional : Option Ty → Option Ty → Bool
  | none, none => true
  | some t, some u => t.same u
  | _, _ => false
termination_by structural t => t

/-- Whether each field of a list has an equal one in another list. -/
def sameFields : List (String × Ty) → List (String × Ty) → Bool
  | [], _ => true
  | (n, t) :: fields, others =>
    (match others.lookup n with
      | some u => t.same u
      | none => false) && sameFields fields others
termination_by structural fields => fields

end

/-- Whether a class is the named one or inherits from it, through the superclasses in its type. -/
def descendsFrom (target : String) : Ty → Bool
  | .class_ name superclass _ _ =>
    name == target || match superclass with
      | some parent => parent.descendsFrom target
      | none => false
  | _ => false

theorem descendsFrom_class (name : String) (superclass : Option Ty) (interfaces generics : List Ty)
    (a : String) :
    (class_ name superclass interfaces generics).descendsFrom a = true ↔
      name = a ∨ ∃ parent, superclass = some parent ∧ parent.descendsFrom a = true := by
  cases superclass <;> simp [descendsFrom]

/--
Whether a function type takes a number of arguments. A variadic one needs all parameters but the
last, which may collect none.
-/
def acceptsCount (params : List Ty) (variadic : Bool) (count : Nat) : Bool :=
  if variadic then params.length ≤ count + 1 else count == params.length

end Ty

/-- The type of a class with its parts at hand. -/
structure ClassTy where
  name : String
  superclass : Option Ty
  interfaces : List Ty
  generics : List Ty
  deriving Inhabited

namespace ClassTy

/-- A class of which only the name is known. -/
def named (name : String) : ClassTy := ⟨name, none, [], []⟩

def toTy (c : ClassTy) : Ty := .class_ c.name c.superclass c.interfaces c.generics

/-- The name of the superclass, if there is one and it is a class. -/
def parentName? (c : ClassTy) : Option String :=
  match c.superclass with
  | some (.class_ name _ _ _) => some name
  | _ => none

end ClassTy
end ScriptFront
