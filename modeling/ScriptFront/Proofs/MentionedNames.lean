import ScriptFront.Proofs.ScopeTrees

/-!
What a program does with names. Each form of the tree mentions and declares names in an order of its
own; functions, classes and types are declared ahead of their block. Only the body of a class asks
for more: it is walked if its name stands for a class, and what it declares then are the members
that this class has. So the tree of scopes is settled from the outside to the inside.
-/

namespace ScriptFront

/-! ### Members and declarations by name -/

namespace ClassMember

/-- The member is a property of a name. -/
def isField (n : String) (member : ClassMember) : Bool :=
  match member.form with
  | .property d => d.name.text == n
  | _ => false

/-- The member is a method, or an operator known by its symbol, of a name. -/
def isMethod (n : String) (member : ClassMember) : Bool := member.methodName? == some n

/-- What a member is known as in the scope of a class that has some fields and methods. -/
def localName? (fields methods : String → Bool) (member : ClassMember) : Option LocalName :=
  match member.form with
  | .property d =>
    bif fields d.name.text then some ⟨d.name.text, .variable d.name.location⟩ else none
  | .method name _ _ => bif methods name.text then some ⟨name.text, .other⟩ else none
  | _ => none

end ClassMember

/-- What a statement declares ahead of its block. -/
def Statement.aheadLocal? (s : Statement) : Option LocalName :=
  match s.form with
  | .function d => some ⟨d.name.text, .other⟩
  | .structType d => some ⟨d.name.text, .other⟩
  | .classType d =>
    some ⟨d.name.text, .cls (fun n => d.members.any (·.isField n)) fun n =>
      d.members.any (·.isMethod n)⟩
  | _ => none

/-- The names of generic parameters. -/
def genericNames (generics : List Ident) : List LocalName := generics.map fun g => ⟨g.text, .other⟩

/-- What the scope of a class declares, if it is known to have some fields and methods. -/
def classNames (fields methods : String → Bool) (generics : List Ident)
    (members : List ClassMember) : List LocalName :=
  genericNames generics ++ members.filterMap (·.localName? fields methods)

/-! ### Acts and their settlement -/

/-- What a part of a program does with names. -/
inductive Act
  | mention (name : String) (use : NameUse)
  | declares (d : LocalName)
  | scope (reports : Bool) (acts : List Act)
  | classBody (name : String) (generics : List Ident) (members : List ClassMember)
      (acts : List Act)

/-- What a name stands for in the scopes around, the innermost first. -/
def nameAmong (around : List (List LocalName)) (n : String) : Option LocalName :=
  around.findSome? (·.find? (·.name == n))

/-- The names around after some items of the innermost scope. -/
def namesAfter (items : List Item) : List (List LocalName) → List (List LocalName)
  | [] => []
  | names :: outer => declaredNames items names :: outer

mutual

/-- What an act comes to among the names around it. -/
def Act.settle (around : List (List LocalName)) : Act → List Item
  | .mention name use => [.mention name use]
  | .declares d => [.declares d]
  | .scope reports acts => [.scope reports (settleAll ([] :: around) acts)]
  | .classBody name generics members acts =>
    match nameAmong around name with
    | some ⟨_, .cls fields methods⟩ =>
      let known := classNames fields methods generics members
      [.scope false (known.map .declares
        ++ settleAll (Signature.insertAll (·.name) known [] :: around) acts)]
    | _ => []

def settleAll (around : List (List LocalName)) : List Act → List Item
  | [] => []
  | a :: acts =>
    let here := a.settle around
    here ++ settleAll (namesAfter here around) acts

end

theorem namesAfter_append (items more : List Item) (around : List (List LocalName)) :
    namesAfter (items ++ more) around = namesAfter more (namesAfter items around) := by
  cases around with
  | nil => rfl
  | cons names outer => rw [namesAfter, declaredNames_append]; rfl

theorem namesAfter_nil (around : List (List LocalName)) : namesAfter [] around = around := by
  cases around <;> rfl

/-- Acts may be settled in parts. -/
theorem settleAll_append (acts more : List Act) (around : List (List LocalName)) :
    settleAll around (acts ++ more)
      = settleAll around acts ++ settleAll (namesAfter (settleAll around acts) around) more := by
  induction acts generalizing around with
  | nil => rw [settleAll, namesAfter_nil]; rfl
  | cons a acts ih =>
      rw [List.cons_append, settleAll, settleAll, ih, List.append_assoc, namesAfter_append]

/-- Declarations are what they are among all names. -/
theorem settleAll_declares (ds : List LocalName) (around : List (List LocalName)) :
    settleAll around (ds.map .declares) = ds.map .declares := by
  induction ds generalizing around with
  | nil => rfl
  | cons d ds ih => rw [List.map_cons, settleAll, ih]; rfl

/-- The names of frames after some items. -/
theorem NameFrame.names_after (items : List Item) (fs : List NameFrame) :
    (after items fs).map names = namesAfter items (fs.map names) := by
  cases fs with
  | nil => rfl
  | cons f fs => rw [after, List.map_cons, names_mark]; rfl

/-! ### The acts of a program -/

mutual

/-- What an expression does with names. -/
def exprActs : Expr → List Act
  | ⟨form, _, _⟩ => formActs form

def formActs : ExprForm → List Act
  | .number .. | .string _ | .boolean _ | .null | .undefined | .nan | .this => []
  | .identifier name => [.mention name .read]
  | .binary _ left right | .logical _ left right | .is left _ right =>
    exprActs left ++ exprActs right
  | .conditional test yes no => exprActs test ++ (exprActs yes ++ exprActs no)
  | .unary _ operand | .update _ _ operand | .await operand => exprActs operand
  | .call callee _ args => exprsActs args ++ exprActs callee
  | .member object property computed =>
    exprActs object ++ if computed then exprActs property else []
  | .array items => exprsActs items
  | .object properties => propertiesActs properties
  | .new className _ args => exprsActs args ++ [.mention className.text .read]
  | .match_ value arms => exprActs value ++ armsActs arms

def exprsActs : List Expr → List Act
  | [] => []
  | e :: es => exprActs e ++ exprsActs es

def propertiesActs : List Property → List Act
  | [] => []
  | ⟨_, value, _⟩ :: ps => exprActs value ++ propertiesActs ps

/-- Each arm of a match is a scope with what its pattern binds. -/
def armsActs : List MatchArm → List Act
  | [] => []
  | ⟨p, body, _⟩ :: arms => .scope true (patternActs p ++ exprActs body) :: armsActs arms

def patternActs : Pattern → List Act
  | ⟨form, place⟩ => patternFormActs place form

def patternFormActs (place : Location) : PatternForm → List Act
  | .literal _ | .range .. | .wildcard => []
  | .identifier name => [.mention name .read]
  | .member path => path.head?.toList.map (.mention · .read)
  | .binding name => [.declares ⟨name, .variable place⟩]
  | .guarded p guard => patternActs p ++ exprActs guard

end

def optionalActs : Option Expr → List Act
  | some e => exprActs e
  | none => []

/-- What an assignment writes to. A name that is the whole target is not mentioned for its value. -/
def targetActs (target : Expr) : List Act :=
  match target.form with
  | .identifier name => [.mention name .target]
  | _ => exprActs target

/-- The functions, classes and types of a block are declared ahead of its statements. -/
def aheadActs (body : List Statement) : List Act :=
  (body.filterMap Statement.aheadLocal?).map .declares

/-- The generic parameters and the parameters of a callable. -/
def headNames (generics : List Ident) (ps : List Param) : List LocalName :=
  genericNames generics ++ ps.map fun p => ⟨p.name.text, .parameter p.name.location⟩

mutual

/-- What a statement does with names. -/
def statementActs : Statement → List Act
  | ⟨form, _⟩ => statementFormActs form

def statementFormActs : StatementForm → List Act
  | .varGroup d =>
    optionalActs d.init
      ++ (d.names.map fun name => (⟨name.text, .variable name.location⟩ : LocalName)).map .declares
  | .assignment target value => exprActs value ++ targetActs target
  | .expression e | .throws e => exprActs e
  | .block b => blockActs b
  | .conditional test body elifs otherwise =>
    exprActs test ++ (blockActs body ++ (elifsActs elifs ++ optionalBlockActs otherwise))
  | .whileLoop test body => exprActs test ++ blockActs body
  | .forLoop init test update body =>
    [.scope true (optionalStatementActs init
      ++ (optionalActs test ++ (optionalStatementActs update ++ blockActs body)))]
  | .returns value => optionalActs value
  | .breaks | .continues => []
  | .tryCatch body handlers ⟨last, _⟩ => blockActs body ++ (catchesActs handlers ++ blockActs last)
  | .switch value cases otherwise =>
    exprActs value ++ (casesActs cases ++ optionalCaseActs otherwise)
  | .function ⟨_, _, signature, body⟩ => callableActs signature.generics signature.params body
  | .classType ⟨_, name, generics, _, _, members⟩ =>
    [.classBody name.text generics members (membersActs members)]
  | .structType d => [.scope false ((genericNames d.generics).map .declares)]

def statementsActs : List Statement → List Act
  | [] => []
  | s :: ss => statementActs s ++ statementsActs ss

def optionalStatementActs : Option Statement → List Act
  | none => []
  | some s => statementActs s

def blockActs : Block → List Act
  | ⟨body, _⟩ => [.scope true (aheadActs body ++ statementsActs body)]

def optionalBlockActs : Option Block → List Act
  | none => []
  | some b => blockActs b

def elifsActs : List ElifClause → List Act
  | [] => []
  | ⟨test, body, _⟩ :: clauses => exprActs test ++ (blockActs body ++ elifsActs clauses)

/-- The parameter of a catch clause has a scope of its own, which reports nothing. -/
def catchesActs : List CatchClause → List Act
  | [] => []
  | ⟨_, name, body, _⟩ :: clauses =>
    .scope false (.declares ⟨name.text, .variable name.location⟩ :: blockActs body)
      :: catchesActs clauses

def casesActs : List SwitchCase → List Act
  | [] => []
  | ⟨patterns, body, _⟩ :: cases =>
    .scope true (patterns.flatMap patternActs ++ (aheadActs body ++ statementsActs body))
      :: casesActs cases

def optionalCaseActs : Option SwitchCase → List Act
  | none => []
  | some ⟨patterns, body, _⟩ =>
    [.scope true (patterns.flatMap patternActs ++ (aheadActs body ++ statementsActs body))]

def callableActs (generics : List Ident) (ps : List Param) : Block → List Act
  | ⟨body, _⟩ =>
    [.scope true ((headNames generics ps).map .declares ++ (aheadActs body ++ statementsActs body))]

def membersActs : List ClassMember → List Act
  | [] => []
  | ⟨_, form, _⟩ :: ms => memberActs form ++ membersActs ms

def memberActs : MemberForm → List Act
  | .constructor ps body => callableActs [] ps body
  | .method _ signature body | .operator _ _ signature body =>
    callableActs signature.generics signature.params body
  | .property d => optionalActs d.init

end

/-- What the body of a program does with names. -/
def programActs (p : Program) : List Act := aheadActs p.body ++ statementsActs p.body

end ScriptFront
