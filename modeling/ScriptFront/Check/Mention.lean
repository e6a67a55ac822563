import ScriptFront.Tree.Outline

/-!
The names that a program refers to, by its form alone.
-/

namespace ScriptFront

/--
The names that a node itself refers to: identifiers, classes of new objects, names of types, and the
names that patterns match against.
-/
def Node.mentions : Node → List String
  | .expression e =>
    match e.form with
    | .identifier name => [name]
    | .new className _ _ => [className.text]
    | _ => []
  | .type t =>
    match t.form with
    | .reference name _ => [name]
    | _ => []
  | .pattern p =>
    match p.form with
    | .identifier name => [name]
    | .member path => path.take 1
    | _ => []
  | _ => []

/-- The names that an outline refers to anywhere in it. -/
def Outline.mentions (o : Outline) : List String :=
  (o.walk Visit.everything).flatMap Node.mentions

/-- The written types in the declaration of a class member. -/
def ClassMember.signatureTypes (m : ClassMember) : List TypeExpr :=
  match m.form with
  | .property d => [d.type]
  | .method _ signature _ | .operator _ _ signature _ =>
    signature.params.map (·.type) ++ [signature.returns]
  | .constructor params _ => params.map (·.type)

/-- The written types in the declaration of a type or class, bodies left out. -/
def Statement.signatureTypes (s : Statement) : List TypeExpr :=
  match s.form with
  | .structType d => d.fields.map (·.type)
  | .classType d =>
    d.superclass.toList ++ d.interfaces ++ d.members.flatMap ClassMember.signatureTypes
  | _ => []

/-- The names that the declaration of a type or class refers to, bodies left out. -/
def Statement.signatureMentions (s : Statement) : List String :=
  s.signatureTypes.flatMap fun t => t.outline.mentions

end ScriptFront
