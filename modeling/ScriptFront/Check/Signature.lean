import ScriptFront.Check.TypeName
import ScriptFront.Tree.Statement
import ScriptFront.Typing.Operation

/-!
The entries that declarations make, from what their names stand for at the time. A written type that
denotes nothing counts as `void` here; it is reported when the declaration itself is checked.
-/

namespace ScriptFront

/-- Modifiers that forbid writing outside of a constructor. -/
def Modifiers.isImmutable (ms : Modifiers) : Bool := ms.has .readonly || ms.has .final

namespace Signature

/-- Adds an entry of a new name at the end; the entry of a known name stays. -/
def insertNew {α : Type} (name : α → String) (a : α) (entries : List α) : List α :=
  if entries.any (name · == name a) then entries else entries ++ [a]

/-- The entry of a function, method, operator or constructor. A constructor returns nothing. -/
def functionEntry (m : Meaning) (name : Ident) (generics : List Ident) (params : List Param)
    (returns : Option TypeExpr) (modifiers : Modifiers) : FunctionEntry :=
  let m := m.withGenerics generics
  { name := name.text
    params := params.map fun p => (p.name.text, p.type.resolveOrVoid m)
    returns := (returns.map (·.resolveOrVoid m)).getD .void
    generics := generics.map (·.text)
    isAsync := modifiers.has .async
    hasRest := (params.getLast?.map (·.isRest)).getD false
    modifiers := modifiers
    location := some name.location }

/-- The entry of a function declaration. -/
def ofFunction (m : Meaning) (d : FunctionDeclaration) : FunctionEntry :=
  functionEntry m d.name d.signature.generics d.signature.params (some d.signature.returns)
    d.modifiers

/-- The entry of a structure type. -/
def ofStruct (m : Meaning) (d : TypeDeclaration) : TypeEntry :=
  let m := m.withGenerics d.generics
  let fields := d.fields.map fun f => (f.name.text, f.type.resolveOrVoid m)
  ⟨d.name.text, .struct (Ty.ofFields fields) (Ty.ofGenerics (d.generics.map (·.text))), d.modifiers,
    some d.name.location⟩

/-- The entry of a property; without a written type it has that of its literal initial value. -/
def ofProperty (m : Meaning) (modifiers : Modifiers) (d : PropertyDefinition) : VariableEntry :=
  let type :=
    if d.type.isInfer then (d.init.bind (·.literalType)).getD .inferred else d.type.resolveOrVoid m
  ⟨d.name.text, type, modifiers.isImmutable, d.init.isSome, modifiers, some d.name.location⟩

/-- The name under which a class knows an operator. -/
def operatorName (symbol : String) : String := "operator" ++ symbol

/--
Adds what a member declares to a class. The first one of a name counts, and the first constructor.
-/
def addMember (m : Meaning) (className : Ident) (c : ClassEntry) (member : ClassMember) :
    ClassEntry :=
  match member.form with
  | .property d =>
    { c with fields := insertNew (·.name) (ofProperty m member.modifiers d) c.fields }
  | .method name s _ =>
    let f := functionEntry m name s.generics s.params (some s.returns) member.modifiers
    { c with methods := insertNew (·.name) f c.methods }
  | .operator symbol _ s _ =>
    let name : Ident := ⟨operatorName symbol, member.location⟩
    let f := functionEntry m name s.generics s.params (some s.returns) member.modifiers
    { c with methods := insertNew (·.name) f c.methods }
  | .constructor params _ =>
    let f := functionEntry m className [] params none member.modifiers
    { c with constructor := c.constructor.or (some f) }

/-- The type of a class; what it extends counts only if it is a class. -/
def classTy (m : Meaning) (d : ClassDeclaration) : ClassTy :=
  ⟨d.name.text, (d.superclass.map (·.resolveOrVoid m)).filter Ty.isClass,
    d.interfaces.map (·.resolveOrVoid m), Ty.ofGenerics (d.generics.map (·.text))⟩

/-- The entry of a class. -/
def ofClass (m : Meaning) (d : ClassDeclaration) : ClassEntry :=
  let m := m.withGenerics d.generics
  d.members.foldl (addMember m d.name)
    ⟨d.name.text, classTy m d, [], [], none, d.modifiers, some d.name.location⟩

end Signature

namespace Statement

/--
The entry of a function, class or type before its signature is known, with its name. Other
statements declare nothing ahead.
-/
def provisional? (s : Statement) : Option (Ident × Entry) :=
  match s.form with
  | .structType d =>
    some (d.name, .named ⟨d.name.text, .struct [] [], d.modifiers, some d.name.location⟩)
  | .classType d =>
    some (d.name, .cls ⟨d.name.text, .named d.name.text, [], [], none, d.modifiers,
      some d.name.location⟩)
  | .function d =>
    some (d.name, .func ⟨d.name.text, [], .void, [], d.modifiers.has .async, false, d.modifiers,
      some d.name.location⟩)
  | _ => none

/-- The entry of a function, class or type with its signature. -/
def completed? (m : Meaning) (s : Statement) : Option Entry :=
  match s.form with
  | .structType d => some (.named (Signature.ofStruct m d))
  | .classType d => some (.cls (Signature.ofClass m d))
  | .function d => some (.func (Signature.ofFunction m d))
  | _ => none

def isFunction (s : Statement) : Bool :=
  match s.form with
  | .function _ => true
  | _ => false

end Statement
end ScriptFront
