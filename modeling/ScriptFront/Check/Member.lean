import ScriptFront.Check.State

/-!
Members of classes, inherited ones included, and what may be written to.
-/

namespace ScriptFront

namespace Scopes

/--
Looks for a member from a class upwards. Superclasses are found by name in scope; the walk ends
where a name is no class, or was met before.
-/
def memberFrom (s : Scopes) (member : String) : Nat → List String → String → Option (Ty × Modifiers)
  | 0, _, _ => none
  | steps + 1, visited, className =>
    if visited.contains className then none
    else match s.lookup className with
      | some (.cls c) =>
        match c.ownMember? member with
        | some m => some m
        | none => c.type.parentName?.bind (memberFrom s member steps (className :: visited))
      | _ => none

/--
The type and modifiers of a member of a class, its own or the nearest inherited one. No walk visits
more names than there are entries in scope.
-/
def classMember (s : Scopes) (className member : String) : Option (Ty × Modifiers) :=
  memberFrom s member (s.size + 1) [] className

end Scopes

namespace Check

def classMember (className member : String) : Check (Option (Ty × Modifiers)) :=
  return (← get).scopes.classMember className member

/-- The type of `this`. -/
def thisType : Check (Option Ty) := return (← get).classes.head?.map (·.type.toTy)

/-- The type of the object of a member, where its form tells it without checking it again. -/
def objectType (object : Expr) : Check (Option Ty) := do
  match object.form with
  | .this => thisType
  | .identifier name => return (← lookup name).map (·.valueType)
  | _ => return none

/-- Whether an expression is `this`. -/
def isThis (e : Expr) : Bool :=
  match e.form with
  | .this => true
  | _ => false

/-- Why a name cannot be written to, if it cannot. -/
def nameFault? (name : String) : Option Entry → Option WriteFault
  | some (.var v) => if v.isConstant then some (.constant name) else none
  | some (.func _) | some (.cls _) | some (.named _) => some (.notVariable name)
  | _ => none

/--
Reports a write to what is not a variable, to a constant, or to an immutable property; the last is
allowed on `this` in a constructor.
-/
def writable (target : Expr) : Check Unit := do
  match target.form with
  | .identifier name =>
    match nameFault? name (← lookup name) with
    | some fault => error (.invalidAssignment fault) target.location
    | none => return
  | .member object property false =>
    match property.form, ← objectType object with
    | .identifier name, some (.class_ className _ _ _) =>
      match ← classMember className name with
      | some (_, modifiers) =>
        let ownConstructor := (← get).inConstructor && isThis object
        if modifiers.isImmutable && !ownConstructor then
          error (.invalidAssignment (.readOnly name)) target.location
      | none => return
    | _, _ => return
  | _ => return

/-- Reports a wrong number of arguments in a call; the type of the call is that of the result. -/
def call (name : String) (callee : Ty) (count : Nat) (place : Location) : Check (Option Ty) := do
  match callee with
  | .function params returns _ variadic =>
    if !Ty.acceptsCount params variadic count then
      let arity := if variadic then Arity.atLeast (params.length - 1) else .exactly params.length
      error (.argumentCount name arity count) place
    return some returns
  | _ => return none

end Check
end ScriptFront
