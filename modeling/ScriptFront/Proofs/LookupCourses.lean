import ScriptFront.Proofs.Courses

/-!
The names that a check looks up for what is written at a place: names of values and callees, classes
of new objects, names of types, and names that patterns match against, in order and each with what
it stands for at that point. A name that is looked up for another reason stands nowhere in what is
checked: members are looked for from the class of a type upwards, and the body of a class is checked
under the name that its own declaration gave it.
-/

namespace ScriptFront

/-- What a name is looked up for, which decides what is said if it stands for nothing of use. -/
inductive Purpose
  | value
  | callee
  | type
  | quiet
  deriving DecidableEq, Repr, Inhabited

/-- A name that is looked up, with the place of what it is looked up for and what it stands for. -/
structure Lookup where
  name : String
  purpose : Purpose
  place : Location
  found : Option Entry

/-- What is reported of a look-up. -/
def Lookup.complaint? (l : Lookup) : Option Finding :=
  match l.purpose, l.found with
  | .value, none => some (.error ⟨.undefinedReference l.name, l.place⟩)
  | .callee, none => some (.error ⟨.functionNotFound l.name, l.place⟩)
  | .type, some (.named _) | .type, some (.cls _) => none
  | .type, _ => some (.error ⟨.unknownType l.name, l.place⟩)
  | _, _ => none

/-! ### Written types and signatures -/

mutual

/-- The names that are looked up in a written type, up to the first that denotes none. -/
def TypeExpr.lookups (purpose : Purpose) (m : Meaning) : TypeExpr → List Lookup
  | ⟨form, place⟩ => form.lookups purpose m place

def TypeForm.lookups (purpose : Purpose) (m : Meaning) (place : Location) :
    TypeForm → List Lookup
  | .reference name generics =>
    typeLookups purpose m generics
      ++ if (resolveAll m generics).isOk then [⟨name, purpose, place, m name⟩] else []
  | .array t => t.lookups purpose m
  | .union l r | .intersection l r =>
    l.lookups purpose m ++ if (l.resolve m).isOk then r.lookups purpose m else []
  | .infer | .void | .null | .undefined => []

def typeLookups (purpose : Purpose) (m : Meaning) : List TypeExpr → List Lookup
  | [] => []
  | t :: ts =>
    t.lookups purpose m ++ if (t.resolve m).isOk then typeLookups purpose m ts else []

end

/-- The names that are looked up in written types under generic parameters, without a complaint. -/
def lookupsUnder (m : Meaning) (generics : List Ident) (types : List TypeExpr) : List Lookup :=
  types.flatMap (·.lookups .quiet (m.withGenerics generics))

def Signature.types (s : Signature) : List TypeExpr := s.params.map (·.type) ++ [s.returns]

/-- The names that are looked up for the entry of a member. -/
def ClassMember.lookups (m : Meaning) (member : ClassMember) : List Lookup :=
  match member.form with
  | .property d => lookupsUnder m [] [d.type]
  | .method _ s _ | .operator _ _ s _ => lookupsUnder m s.generics s.types
  | .constructor params _ => lookupsUnder m [] (params.map (·.type))

/-- The names that are looked up for the entry of a function, class or type. -/
def Statement.lookups (m : Meaning) (s : Statement) : List Lookup :=
  match s.form with
  | .function d => lookupsUnder m d.signature.generics d.signature.types
  | .structType d => lookupsUnder m d.generics (d.fields.map (·.type))
  | .classType d =>
    lookupsUnder m d.generics (d.superclass.toList ++ d.interfaces)
      ++ d.members.flatMap (·.lookups (m.withGenerics d.generics))
  | _ => []

namespace Check

/-! ### Names, written types and expressions -/

/-- A name is looked up. -/
def named (purpose : Purpose) (name : String) (place : Location) : Checker → List Lookup :=
  fun c => [⟨name, purpose, place, c.scopes.lookup name⟩]

def typeCourse (t : TypeExpr) : Checker → List Lookup := fun c => t.lookups .type c.scopes.lookup

/-- What is looked up by checks that are done one after another. -/
def eachLookups {α : Type} (check : α → Check Unit) (lookups : α → Checker → List Lookup) :
    List α → Checker → List Lookup
  | [] => nothing
  | a :: as => along (check a) (lookups a) fun _ => eachLookups check lookups as

def genericLookups : List TypeExpr → Checker → List Lookup
  | [] => nothing
  | t :: ts => along (resolveType t) (typeCourse t) fun _ => genericLookups ts

/-- A write looks at the name that it changes, or at the name of the object that it changes. -/
def writeLookups (target : Expr) : Checker → List Lookup :=
  match target.form with
  | .identifier name => named .quiet name target.location
  | .member object _ false =>
    match object.form with
    | .identifier name => named .quiet name object.location
    | _ => nothing
  | _ => nothing

mutual

/-- The names that are looked up in an expression. -/
def exprLookups : Expr → Checker → List Lookup
  | ⟨form, place, _⟩ => formLookups place form

def formLookups (place : Location) : ExprForm → Checker → List Lookup
  | .number .. | .string _ | .boolean _ | .null | .undefined | .nan | .this => nothing
  | .identifier name => named .value name place
  | .binary _ left right | .logical _ left right | .is left _ right =>
    along (expr left) (exprLookups left) fun _ => exprLookups right
  | .conditional test yes no =>
    along (expr test) (exprLookups test) fun _ =>
      along (expr yes) (exprLookups yes) fun _ => exprLookups no
  | .unary _ operand | .await operand => exprLookups operand
  | .update _ _ operand =>
    along (expr operand) (exprLookups operand) fun _ => writeLookups operand
  | .call callee generics args =>
    along (genericTypes generics) (genericLookups generics) fun _ =>
      along (exprs args) (exprsLookups args) fun _ =>
        match callee.form with
        | .identifier name => named .callee name callee.location
        | _ => exprLookups callee
  | .member object property computed =>
    along (expr object) (exprLookups object) fun _ =>
      if computed then exprLookups property else nothing
  | .array items => exprsLookups items
  | .object properties => propertiesLookups properties
  | .new className generics args =>
    along (genericTypes generics) (genericLookups generics) fun _ =>
      along (exprs args) (exprsLookups args) fun _ =>
        named .value className.text className.location
  | .match_ value arms =>
    along (expr value) (exprLookups value) fun subject => armsLookups subject arms

def exprsLookups : List Expr → Checker → List Lookup
  | [] => nothing
  | e :: es => along (expr e) (exprLookups e) fun _ => exprsLookups es

def propertiesLookups : List Property → Checker → List Lookup
  | [] => nothing
  | ⟨_, value, _⟩ :: ps => along (expr value) (exprLookups value) fun _ => propertiesLookups ps

def armsLookups (subject : Option Ty) : List MatchArm → Checker → List Lookup
  | [] => nothing
  | ⟨p, body, _⟩ :: arms =>
    after enterScope fun _ =>
      along (pattern subject p) (patternLookups subject p) fun _ =>
        along (expr body) (exprLookups body) fun _ =>
          after leaveLocalScope fun _ => armsLookups subject arms

def patternLookups (subject : Option Ty) : Pattern → Checker → List Lookup
  | ⟨form, place⟩ => patternFormLookups subject place form

def patternFormLookups (subject : Option Ty) (place : Location) :
    PatternForm → Checker → List Lookup
  | .literal _ | .range .. | .wildcard | .binding _ => nothing
  | .identifier name => named .value name place
  | .member path =>
    match path.head? with
    | some name => named .value name place
    | none => nothing
  | .guarded p guard =>
    along (pattern subject p) (patternLookups subject p) fun _ => exprLookups guard

end

/-! ### Statements and classes -/

def optionalLookups : Option Expr → Checker → List Lookup
  | some e => exprLookups e
  | none => nothing

/-- The names that are looked up when the entries of a block are made. -/
def hoistLookups (body : List Statement) : Checker → List Lookup :=
  after (declareAhead body) fun declared =>
    let types := CompletionOrder.of declared
    let functions := declared.filter (·.isFunction)
    eachLookups completeEntry (fun s c => s.lookups c.scopes.lookup) (types ++ types ++ functions)

/-- The initial value of variables, and then their type if it is written. -/
def variableLookups (d : VariableDeclaration) : Checker → List Lookup :=
  along (optionalExpr d.init) (optionalLookups d.init) fun _ =>
    if d.type.isInfer then nothing else typeCourse d.type

/-- The written type of a property, and then its initial value. -/
def propertyLookups (d : PropertyDefinition) : Checker → List Lookup :=
  along (if d.type.isInfer then pure none else resolveType d.type)
    (if d.type.isInfer then nothing else typeCourse d.type) fun _ => optionalLookups d.init

/-- Declares a parameter. -/
def param (p : Param) : Check Unit := do
  let type := (← resolveType p.type).getD .inferred
  declare (.param (localVariable p.name.text type p.name.location)) p.name.location

def paramsLookups : List Param → Checker → List Lookup :=
  eachLookups param fun p => typeCourse p.type

/-- Checks a written type for its own sake. -/
def mentioned (t : TypeExpr) : Check Unit := do
  let _ ← resolveType t

def parentsLookups (superclass : Option TypeExpr) (interfaces : List TypeExpr) :
    Checker → List Lookup :=
  along (parents superclass []) (superclass.elim nothing typeCourse) fun _ =>
    eachLookups mentioned typeCourse interfaces

def structLookups (d : TypeDeclaration) : Checker → List Lookup :=
  after enterScope fun _ => after (declareGenerics d.generics) fun _ =>
    eachLookups (fun f => mentioned f.type) (fun f => typeCourse f.type) d.fields

/-- What is looked up before the members of a class. -/
def classLookups (generics : List Ident) (superclass : Option TypeExpr)
    (interfaces : List TypeExpr) : Checker → List Lookup :=
  after enterScope fun _ => after (declareGenerics generics) fun _ =>
    parentsLookups superclass interfaces

/-- What is looked up before the body of a callable. -/
def signatureLookups (generics : List Ident) (ps : List Param) (returns : Option TypeExpr) :
    Checker → List Lookup :=
  after enterScope fun _ => after (declareGenerics generics) fun _ =>
    along (match returns with
        | some t => mentioned t
        | none => pure ())
      (returns.elim nothing typeCourse) fun _ => paramsLookups ps

mutual

/-- The names that are looked up in a statement. -/
def statementLookups : Statement → Checker → List Lookup
  | ⟨form, _⟩ => statementFormLookups form

def statementFormLookups : StatementForm → Checker → List Lookup
  | .varGroup d => variableLookups d
  | .assignment target value =>
    along (expr value) (exprLookups value) fun _ =>
      along (expr target) (exprLookups target) fun _ => writeLookups target
  | .expression e | .throws e => exprLookups e
  | .block b => blockLookups b
  | .conditional test body elifs otherwise =>
    along (expr test) (exprLookups test) fun _ =>
      along (block body) (blockLookups body) fun _ =>
        along (elifClauses elifs) (elifsLookups elifs) fun _ => optionalBlockLookups otherwise
  | .whileLoop test body =>
    along (expr test) (exprLookups test) fun _ => blockLookups body
  | .forLoop init test update body =>
    after enterScope fun _ =>
      along (optionalStatement init) (optionalStatementLookups init) fun _ =>
        along (optionalExpr test) (optionalLookups test) fun _ =>
          along (optionalStatement update) (optionalStatementLookups update) fun _ =>
            blockLookups body
  | .returns value => optionalLookups value
  | .breaks | .continues => nothing
  | .tryCatch body handlers ⟨last, _⟩ =>
    along (block body) (blockLookups body) fun _ =>
      along (catchClauses handlers) (catchesLookups handlers) fun _ => blockLookups last
  | .switch value cases otherwise =>
    along (expr value) (exprLookups value) fun subject =>
      along (switchCases subject cases) (casesLookups subject cases) fun _ =>
        defaultLookups subject otherwise
  | .function ⟨_, _, signature, body⟩ =>
    callableLookups signature.generics signature.params (some signature.returns) body
  | .classType ⟨_, name, generics, superclass, interfaces, members⟩ => fun c =>
    match c.scopes.lookup name.text with
    | some (.cls known) =>
      along (classHead known generics superclass interfaces members)
        (classLookups generics superclass interfaces)
        (fun _ d => membersLookups members { d with classes := known :: d.classes }) c
    | _ => []
  | .structType d => structLookups d

def statementsLookups (ended warned : Bool) : List Statement → Checker → List Lookup
  | [] => nothing
  | s :: ss =>
    after (alarm ended warned s) fun _ =>
      along (statement s) (statementLookups s) fun _ =>
        statementsLookups (ended || s.isTerminator) (warned || (ended && !warned)) ss

def optionalStatementLookups : Option Statement → Checker → List Lookup
  | none => nothing
  | some s => statementLookups s

def blockLookups : Block → Checker → List Lookup
  | ⟨body, _⟩ =>
    after enterScope fun _ =>
      along (hoist body) (hoistLookups body) fun _ => statementsLookups false false body

def optionalBlockLookups : Option Block → Checker → List Lookup
  | none => nothing
  | some b => blockLookups b

def elifsLookups : List ElifClause → Checker → List Lookup
  | [] => nothing
  | ⟨test, body, _⟩ :: clauses =>
    along (expr test) (exprLookups test) fun _ =>
      along (block body) (blockLookups body) fun _ => elifsLookups clauses

def catchesLookups : List CatchClause → Checker → List Lookup
  | [] => nothing
  | ⟨type, name, body, _⟩ :: clauses =>
    after enterScope fun _ => along (caught type name) (typeCourse type) fun _ =>
      along (block body) (blockLookups body) fun _ =>
        after leaveScope fun _ => catchesLookups clauses

def casesLookups (subject : Option Ty) : List SwitchCase → Checker → List Lookup
  | [] => nothing
  | ⟨patterns, body, _⟩ :: cases =>
    after enterScope fun _ =>
      along (patterns.forM (pattern subject))
          (eachLookups (pattern subject) (patternLookups subject) patterns) fun _ =>
        along (hoist body) (hoistLookups body) fun _ =>
          along (statements false false body) (statementsLookups false false body) fun _ =>
            after leaveLocalScope fun _ => casesLookups subject cases

def defaultLookups (subject : Option Ty) : Option SwitchCase → Checker → List Lookup
  | none => nothing
  | some ⟨patterns, body, _⟩ =>
    after enterScope fun _ =>
      along (patterns.forM (pattern subject))
          (eachLookups (pattern subject) (patternLookups subject) patterns) fun _ =>
        along (hoist body) (hoistLookups body) fun _ => statementsLookups false false body

def callableLookups (generics : List Ident) (ps : List Param) (returns : Option TypeExpr) :
    Block → Checker → List Lookup
  | ⟨body, _⟩ =>
    along (callableHead generics ps returns) (signatureLookups generics ps returns) fun _ =>
      along (hoist body) (hoistLookups body) fun _ => statementsLookups false false body

def membersLookups : List ClassMember → Checker → List Lookup
  | [] => nothing
  | ⟨_, form, _⟩ :: ms =>
    along (memberForm form) (memberLookups form) fun _ => membersLookups ms

def memberLookups : MemberForm → Checker → List Lookup
  | .constructor ps body => fun c =>
    callableLookups [] ps none body { c with inConstructor := true }
  | .method _ signature body | .operator _ _ signature body =>
    callableLookups signature.generics signature.params (some signature.returns) body
  | .property d => propertyLookups d

end

/-- The names that are looked up in the body of a program. -/
def bodyLookups (p : Program) : Checker → List Lookup :=
  along (hoist p.body) (hoistLookups p.body) fun _ => statementsLookups false false p.body

end Check
end ScriptFront
