import ScriptFront.Check.Expr
import ScriptFront.Check.Hoist

/-!
Checks of statements, blocks and classes.
-/

namespace ScriptFront
namespace Check

/-- Whether evaluating an expression can do anything beside producing its value. -/
def hasEffect : Expr → Bool
  | ⟨.call .., _, _⟩ | ⟨.new .., _, _⟩ | ⟨.update .., _, _⟩ | ⟨.await _, _, _⟩
  | ⟨.match_ .., _, _⟩ => true
  | ⟨.conditional _ yes no, _, _⟩ => hasEffect yes || hasEffect no
  | ⟨.logical _ _ right, _, _⟩ => hasEffect right
  | _ => false

/-- Checks an expression that may be missing. -/
def optionalExpr : Option Expr → Check (Option Ty)
  | some e => expr e
  | none => return none

/-- Checks the initial value of variables and declares them. -/
def varGroup (d : VariableDeclaration) : Check Unit := do
  let found ← optionalExpr d.init
  let type ←
    if d.type.isInfer then pure (found.getD .inferred)
    else do
      let declared := (← resolveType d.type).getD .inferred
      match d.init with
      | some init => assignable? found (some declared) init.location
      | none => pure ()
      pure declared
  d.names.forM fun name =>
    declare (.var ⟨name.text, type, d.isConstant || d.modifiers.isImmutable, d.init.isSome,
      d.modifiers, some name.location⟩) name.location

/-- Checks what is assigned, and then what it is assigned to. -/
def assignment (target value : Expr) : Check Unit := do
  let found ← expr value
  let expected ← expr target
  writable target
  assignable? found expected value.location

/-- Checks an expression that stands alone, and whether it does anything. -/
def alone (e : Expr) : Check Unit := do
  let _ ← expr e
  if !hasEffect e then warn .unusedExpression e.location

/-- Declares the parameters of a callable. -/
def params (ps : List Param) : Check Unit :=
  ps.forM fun p => do
    let type := (← resolveType p.type).getD .inferred
    declare (.param (localVariable p.name.text type p.name.location)) p.name.location

/-- Declares the parameter of a catch clause. -/
def caught (type : TypeExpr) (name : Ident) : Check Unit := do
  let ty := (← resolveType type).getD .inferred
  declare (.var (localVariable name.text ty name.location)) name.location

/-- Checks the written type and the initial value of a property. -/
def property (d : PropertyDefinition) : Check Unit := do
  let declared ← if d.type.isInfer then pure none else resolveType d.type
  match d.init with
  | some init => assignable? (← expr init) declared init.location
  | none => return

/-- Checks the fields of a structure type. -/
def structType (d : TypeDeclaration) : Check Unit := do
  enterScope
  declareGenerics d.generics
  d.fields.forM fun f => do
    let _ ← resolveType f.type
  leaveScope

/-- Checks what a class extends and implements. It can only extend a class. -/
def parents (superclass : Option TypeExpr) (interfaces : List TypeExpr) : Check Unit := do
  match superclass with
  | some t =>
    match ← resolveType t with
    | some ty => if !ty.isClass then error (.notAClass ty.display) t.location
    | none => pure ()
  | none => pure ()
  interfaces.forM fun t => do
    let _ ← resolveType t

/-- The entry by which a member is known inside the body of its class. -/
def memberInScope? (c : ClassEntry) (m : ClassMember) : Option (Entry × Location) :=
  match m.form with
  | .property d => (c.field? d.name.text).map fun v =>
    (.var { v with location := some d.name.location }, d.name.location)
  | .method name _ _ => (c.method? name.text).map fun f =>
    (.func { f with location := some name.location }, name.location)
  | _ => none

/-- Declares the fields and methods of a class by name. -/
def bodyEntries (c : ClassEntry) (ms : List ClassMember) : Check Unit :=
  (ms.filterMap (memberInScope? c)).forM fun (e, place) => declare e place

mutual

/-- Checks a statement. -/
def statement : Statement → Check Unit
  | ⟨form, _⟩ => statementForm form

def statementForm : StatementForm → Check Unit
  | .varGroup d => varGroup d
  | .assignment target value => assignment target value
  | .expression e => alone e
  | .block b => block b
  | .conditional test body elifs otherwise => do
    let _ ← expr test
    block body
    elifClauses elifs
    optionalBlock otherwise
  | .whileLoop test body => do
    let _ ← expr test
    block body
  | .forLoop init test update body => do
    enterScope
    optionalStatement init
    let _ ← optionalExpr test
    optionalStatement update
    block body
    leaveLocalScope
  | .returns value => do
    let _ ← optionalExpr value
  | .breaks | .continues => return
  | .throws value => do
    let _ ← expr value
  | .tryCatch body handlers ⟨last, _⟩ => do
    block body
    catchClauses handlers
    block last
  | .switch value cases otherwise => do
    let subject ← expr value
    switchCases subject cases
    defaultCase subject otherwise
  | .function ⟨_, _, signature, body⟩ =>
    callable signature.generics signature.params (some signature.returns) body
  | .classType ⟨_, name, generics, superclass, interfaces, members⟩ => do
    match ← lookup name.text with
    | some (.cls c) =>
      enterScope
      declareGenerics generics
      parents superclass interfaces
      bodyEntries c members
      modify fun s => { s with classes := c :: s.classes }
      classMembers members
      modify fun s => { s with classes := s.classes.tail }
      leaveScope
    | _ => return
  | .structType d => structType d

/--
Checks the statements of a block in order. The first one after a statement that always leaves the
block cannot be reached; it and what follows is checked all the same.
-/
def statements (ended warned : Bool) : List Statement → Check Unit
  | [] => return
  | s :: ss => do
    let alarm := ended && !warned
    if alarm then warn .unreachableCode s.location
    statement s
    statements (ended || s.isTerminator) (warned || alarm) ss

def optionalStatement : Option Statement → Check Unit
  | none => return
  | some s => statement s

/-- Checks a block in a scope of its own. -/
def block : Block → Check Unit
  | ⟨body, _⟩ => do
    enterScope
    hoist body
    statements false false body
    leaveLocalScope

def optionalBlock : Option Block → Check Unit
  | none => return
  | some b => block b

def elifClauses : List ElifClause → Check Unit
  | [] => return
  | ⟨test, body, _⟩ :: clauses => do
    let _ ← expr test
    block body
    elifClauses clauses

def catchClauses : List CatchClause → Check Unit
  | [] => return
  | ⟨type, name, body, _⟩ :: clauses => do
    enterScope
    caught type name
    block body
    leaveScope
    catchClauses clauses

/-- Checks switch cases against the type of the value, each in a scope of its own. -/
def switchCases (subject : Option Ty) : List SwitchCase → Check Unit
  | [] => return
  | ⟨patterns, body, _⟩ :: cases => do
    enterScope
    patterns.forM (pattern subject)
    hoist body
    statements false false body
    leaveLocalScope
    switchCases subject cases

def defaultCase (subject : Option Ty) : Option SwitchCase → Check Unit
  | none => return
  | some ⟨patterns, body, _⟩ => do
    enterScope
    patterns.forM (pattern subject)
    hoist body
    statements false false body
    leaveLocalScope

/-- Checks the body of a callable in a scope with its generic parameters and parameters. -/
def callable (generics : List Ident) (ps : List Param) (returns : Option TypeExpr) :
    Block → Check Unit
  | ⟨body, _⟩ => do
    enterScope
    declareGenerics generics
    match returns with
    | some t => let _ ← resolveType t
    | none => pure ()
    params ps
    hoist body
    statements false false body
    leaveLocalScope

def classMembers : List ClassMember → Check Unit
  | [] => return
  | ⟨_, form, _⟩ :: ms => do
    memberForm form
    classMembers ms

def memberForm : MemberForm → Check Unit
  | .constructor ps body => do
    modify fun s => { s with inConstructor := true }
    callable [] ps none body
    modify fun s => { s with inConstructor := false }
  | .method _ signature body | .operator _ _ signature body =>
    callable signature.generics signature.params (some signature.returns) body
  | .property d => property d

end

end Check
end ScriptFront
