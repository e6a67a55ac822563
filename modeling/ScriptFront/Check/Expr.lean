import ScriptFront.Check.Member

/-!
Checks of expressions and patterns. A check resolves every name and works out the type of an
expression where that takes no guess; a value of unknown type fits everywhere.
-/

namespace ScriptFront
namespace Check

/-- The type that all of several types are, if they are known and the same and there is one. -/
def commonType : List (Option Ty) → Option Ty
  | some first :: rest =>
    if rest.all fun t => (t.map (·.same first)).getD false then some first else none
  | _ => none

/-- The name by which a message knows a called member. -/
def memberName (property : Expr) : String :=
  match property.form with
  | .identifier name => name
  | _ => "<member>"

/-- The type of a member that is accessed by name. -/
def memberType (object : Option Ty) (property : Expr) : Check (Option Ty) := do
  match property.form, object with
  | .identifier name, some (.class_ className _ _ _) =>
    return (← classMember className name).map (·.1)
  | .identifier name, some (.struct fields _) => return fields.lookup name
  | _, _ => return none

/-- The type of an element that is accessed by index. -/
def elementType : Option Ty → Option Ty
  | some (.array t) => some t
  | some (.primitive .string) => some .string
  | _ => none

/-- The type of a new object, after its arguments were checked. -/
def created (className : Ident) (generics : List Ty) (count : Nat) (place : Location) :
    Check (Option Ty) := do
  match ← resolveName className.text className.location with
  | some (.cls c) =>
    match c.constructor with
    | some f => let _ ← call className.text f.type count place
    | none => pure ()
    return some (if generics.isEmpty then c.type else { c.type with generics := generics }).toTy
  | some _ => do
    error (.notAClass className.text) className.location
    return none
  | none => return none

/-- Checks the generic arguments of a new object or a call and gives those that denote types. -/
def genericTypes : List TypeExpr → Check (List Ty)
  | [] => return []
  | t :: ts => do
    let ty ← resolveType t
    return ty.toList ++ (← genericTypes ts)

/-- The type of a property that a variable declares in a scope. -/
def localVariable (name : String) (type : Ty) (place : Location) : VariableEntry :=
  ⟨name, type, false, true, .empty, some place⟩

mutual

/-- Checks an expression and gives its type, if it is known. -/
def expr : Expr → Check (Option Ty)
  | ⟨form, place, _⟩ => exprForm place form

def exprForm (place : Location) : ExprForm → Check (Option Ty)
  | .number _ isFloat => return some (if isFloat then .float else .int)
  | .string _ => return some .string
  | .boolean _ => return some .bool
  | .null => return some .null
  | .undefined => return some .undefined
  | .nan => return some .nan
  | .identifier name => return (← resolveName name place).map (·.valueType)
  | .this => do
    let t ← thisType
    if t.isNone then error .thisOutsideClass place
    return t
  | .binary op left right => do
    let l ← expr left
    let r ← expr right
    match l, r with
    | some l, some r => return op.result l r
    | _, _ => return if op.isComparison then some .bool else none
  | .logical _ left right => do
    let _ ← expr left
    let _ ← expr right
    return some .bool
  | .conditional test yes no => do
    let _ ← expr test
    let y ← expr yes
    let n ← expr no
    return commonType [y, n]
  | .unary op operand => do
    let t ← expr operand
    match op with
    | .not => return some .bool
    | _ => return t.filter (·.isNumeric)
  | .update _ _ operand => do
    let t ← expr operand
    writable operand
    return t
  | .await operand => expr operand
  | .call callee generics args => do
    let _ ← genericTypes generics
    let _ ← exprs args
    match callee.form with
    | .identifier name =>
      match ← readName name with
      | some entry => call name entry.valueType args.length place
      | none => do
        error (.functionNotFound name) callee.location
        return none
    | .member _ property false => do
      match ← expr callee with
      | some t => call (memberName property) t args.length place
      | none => return none
    | _ => do
      let _ ← expr callee
      return none
  | .member object property computed => do
    let o ← expr object
    if computed then
      let _ ← expr property
      return elementType o
    else memberType o property
  | .array items => do
    return (commonType (← exprs items)).map .array
  | .object properties => do
    let fields ← propertyTypes properties
    return fields.map fun fs => .struct (Ty.ofFields fs) []
  | .new className generics args => do
    let gs ← genericTypes generics
    let _ ← exprs args
    created className gs args.length place
  | .match_ value arms => do
    let subject ← expr value
    return commonType (← armTypes subject arms)
  | .is subject _ target => do
    let _ ← expr subject
    let _ ← expr target
    return some .bool

/-- Checks expressions in order. -/
def exprs : List Expr → Check (List (Option Ty))
  | [] => return []
  | e :: es => do
    let t ← expr e
    return t :: (← exprs es)

/-- Checks the values of an object; the fields are known if all types are. -/
def propertyTypes : List Property → Check (Option (List (String × Ty)))
  | [] => return some []
  | ⟨key, value, _⟩ :: ps => do
    let t ← expr value
    let rest ← propertyTypes ps
    return do return (key.text, ← t) :: (← rest)

/-- Checks the arms of a match, each in a scope of its own. -/
def armTypes (subject : Option Ty) : List MatchArm → Check (List (Option Ty))
  | [] => return []
  | ⟨p, body, _⟩ :: arms => do
    enterScope
    pattern subject p
    let t ← expr body
    leaveLocalScope
    return t :: (← armTypes subject arms)

/-- Checks a pattern against the type of the matched value; a binding declares its name. -/
def pattern (subject : Option Ty) : Pattern → Check Unit
  | ⟨form, place⟩ => patternForm subject place form

def patternForm (subject : Option Ty) (place : Location) : PatternForm → Check Unit
  | .literal _ | .range .. | .wildcard => return
  | .identifier name => do
    let _ ← resolveName name place
  | .member path => do
    match path.head? with
    | some name => let _ ← resolveName name place
    | none => return
  | .binding name => declare (.var (localVariable name (subject.getD .inferred) place)) place
  | .guarded p guard => do
    pattern subject p
    let _ ← expr guard

end

end Check
end ScriptFront
