import ScriptFront.Check.Finding
import ScriptFront.Scope.Entry
import ScriptFront.Tree.Type

/-!
The types that written types denote where names have given meanings.
-/

namespace ScriptFront

/-- What the names in scope stand for. -/
abbrev Meaning := String → Option Entry

namespace Meaning

/-- The meaning of names where generic parameters are in scope as well. -/
def withGenerics (m : Meaning) (generics : List Ident) : Meaning := fun name =>
  match generics.find? (·.text == name) with
  | some g => some (.ofGeneric g.text g.location)
  | none => m name

/--
The type that a name denotes with generic arguments. Arguments replace the generics of structures
and classes, and mean nothing to other types.
-/
def typeNamed? (m : Meaning) (name : String) (arguments : List Ty) : Option Ty :=
  match m name with
  | some (.named t) =>
    match t.type with
    | .struct fields generics =>
      some (.struct fields (if arguments.isEmpty then generics else arguments))
    | other => some other
  | some (.cls c) =>
    some (if arguments.isEmpty then c.type.toTy else { c.type with generics := arguments }.toTy)
  | _ => none

end Meaning

mutual

/-- The type that a written type denotes; the first name that denotes none is an error. -/
def TypeExpr.resolve (m : Meaning) : TypeExpr → Except SemanticError Ty
  | ⟨form, place⟩ => form.resolve m place

def TypeForm.resolve (m : Meaning) (place : Location) : TypeForm → Except SemanticError Ty
  | .reference name generics => do
    let arguments ← resolveAll m generics
    match m.typeNamed? name arguments with
    | some t => .ok t
    | none => .error ⟨.unknownType name, place⟩
  | .array t => return .array (← t.resolve m)
  | .union l r => return .union (← l.resolve m) (← r.resolve m)
  | .intersection l r => return .intersection (← l.resolve m) (← r.resolve m)
  | .infer => .ok .inferred
  | .void => .ok .void
  | .null => .ok .null
  | .undefined => .ok .undefined

def resolveAll (m : Meaning) : List TypeExpr → Except SemanticError (List Ty)
  | [] => .ok []
  | t :: ts => return (← t.resolve m) :: (← resolveAll m ts)

end

/-- The type that a written type denotes, `void` if it denotes none. -/
def TypeExpr.resolveOrVoid (m : Meaning) (t : TypeExpr) : Ty :=
  match t.resolve m with
  | .ok ty => ty
  | .error _ => .void

end ScriptFront
