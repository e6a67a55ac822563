import ScriptFront.Text.Location

/-!
Names and type annotations as they are written.
-/

namespace ScriptFront

/-- A name with the position where it is written. -/
structure Ident where
  text : String
  location : Location
  deriving DecidableEq, Repr, Inhabited

mutual

/-- A type as it is written, before its names are resolved. -/
structure TypeExpr where
  form : TypeForm
  location : Location

/-- The forms of written types. The names of built-in types are references too. -/
inductive TypeForm
  | reference (name : String) (generics : List TypeExpr)
  | array (element : TypeExpr)
  | union (left right : TypeExpr)
  | intersection (left right : TypeExpr)
  | infer
  | void
  | null
  | undefined

end

instance : Inhabited TypeExpr := ⟨⟨.infer, .nowhere⟩⟩

namespace TypeExpr

/-- A reference to a type by its bare name. -/
def named (name : String) (here : Location) : TypeExpr := ⟨.reference name [], here⟩

/-- Whether a written type leaves the type to be inferred. -/
def isInfer (t : TypeExpr) : Bool :=
  match t.form with
  | .infer => true
  | _ => false

end TypeExpr

/-- A parameter of a callable; a rest parameter takes all remaining arguments. -/
structure Param where
  name : Ident
  type : TypeExpr
  isRest : Bool
  location : Location
  deriving Inhabited

/-- What a function, method or operator declares in front of its body. -/
structure Signature where
  generics : List Ident
  params : List Param
  returns : TypeExpr
  deriving Inhabited

end ScriptFront
