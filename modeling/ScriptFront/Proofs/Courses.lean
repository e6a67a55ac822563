import ScriptFront.Proofs.IsolatedBodies

/-!
The course of a check: the writes that it comes to, each with the state in which it is checked, and
the bodies of classes and the members of classes that it goes through. A course follows the check
from step to step and takes every state from the check itself. What is found along a course is left
open.
-/

namespace ScriptFront

/-! ### What a check comes to -/

/-- A target that is written to, with the state in which the write is checked. -/
structure Write where
  target : Expr
  state : Checker

/-- The statements of a block, with the state in which they are declared ahead. -/
structure Hoisting where
  block : List Statement
  state : Checker

/-- A class whose body is checked: its declaration, its entry, and the block it stands in. -/
structure ClassCheck where
  d : ClassDeclaration
  known : ClassEntry
  within : Hoisting

mutual

/-- What a check comes to: a write, or the body of a class. -/
inductive Encounter
  | write (w : Write)
  | classBody (k : ClassCheck) (members : List Passage)

/-- A member of a class, with what its check comes to. -/
structure Passage where
  isConstructor : Bool
  inside : List Encounter

end

/-- What a check comes to in order, in each state that it may start from. -/
abbrev Course := Checker → List Encounter

/-- What is reported of a write. -/
def Write.refusals (w : Write) : List Finding := Check.reported (Check.writable w.target) w.state

mutual

/-- The writes, in order. -/
def Encounter.writes : Encounter → List Write
  | .write w => [w]
  | .classBody _ members => memberWrites members

def writesOf : List Encounter → List Write
  | [] => []
  | e :: es => e.writes ++ writesOf es

def memberWrites : List Passage → List Write
  | [] => []
  | ⟨_, inside⟩ :: ps => writesOf inside ++ memberWrites ps

end

mutual

/-- Whether there is a constructor in it. -/
def Encounter.constructs : Encounter → Bool
  | .write _ => false
  | .classBody _ members => membersConstruct members

def constructsAny : List Encounter → Bool
  | [] => false
  | e :: es => e.constructs || constructsAny es

def membersConstruct : List Passage → Bool
  | [] => false
  | ⟨isConstructor, inside⟩ :: ps => isConstructor || constructsAny inside || membersConstruct ps

end

mutual

/-- The classes whose bodies are checked, in order. -/
def Encounter.bodies : Encounter → List ClassCheck
  | .write _ => []
  | .classBody k members => k :: memberBodies members

def bodiesOf : List Encounter → List ClassCheck
  | [] => []
  | e :: es => e.bodies ++ bodiesOf es

def memberBodies : List Passage → List ClassCheck
  | [] => []
  | ⟨_, inside⟩ :: ps => bodiesOf inside ++ memberBodies ps

end

mutual

/--
Each write is checked in a state with the classes that are around it, and with the mark of a
constructor as the course has it: a constructor sets it, and clears it in the end.
-/
def Encounter.Marked (classes : List ClassEntry) (mark : Bool) : Encounter → Prop
  | .write w => w.state.classes = classes ∧ w.state.inConstructor = mark
  | .classBody k members => MembersMarked (k.known :: classes) mark members

def MarkedAll (classes : List ClassEntry) (mark : Bool) : List Encounter → Prop
  | [] => True
  | e :: es => e.Marked classes mark ∧ MarkedAll classes (mark && !e.constructs) es

def MembersMarked (classes : List ClassEntry) (mark : Bool) : List Passage → Prop
  | [] => True
  | ⟨isConstructor, inside⟩ :: ps =>
    MarkedAll classes (isConstructor || mark) inside ∧
      MembersMarked classes (mark && !(isConstructor || constructsAny inside)) ps

end

section Append

variable (es fs : List Encounter)

theorem writesOf_append : writesOf (es ++ fs) = writesOf es ++ writesOf fs := by
  induction es with
  | nil => rfl
  | cons e es ih => rw [List.cons_append, writesOf, writesOf, ih, List.append_assoc]

theorem constructsAny_append :
    constructsAny (es ++ fs) = (constructsAny es || constructsAny fs) := by
  induction es with
  | nil => rfl
  | cons e es ih => rw [List.cons_append, constructsAny, constructsAny, ih, Bool.or_assoc]

theorem bodiesOf_append : bodiesOf (es ++ fs) = bodiesOf es ++ bodiesOf fs := by
  induction es with
  | nil => rfl
  | cons e es ih => rw [List.cons_append, bodiesOf, bodiesOf, ih, List.append_assoc]

theorem markedAll_append (classes : List ClassEntry) (mark : Bool) :
    MarkedAll classes mark (es ++ fs) ↔
      MarkedAll classes mark es ∧ MarkedAll classes (mark && !constructsAny es) fs := by
  induction es generalizing mark with
  | nil => simp [MarkedAll, constructsAny]
  | cons e es ih =>
      rw [List.cons_append, MarkedAll, MarkedAll, constructsAny, ih, Bool.not_or, Bool.and_assoc,
        and_assoc]

variable (ps qs : List Passage)

theorem memberWrites_append : memberWrites (ps ++ qs) = memberWrites ps ++ memberWrites qs := by
  induction ps with
  | nil => rfl
  | cons p ps ih =>
      obtain ⟨isConstructor, inside⟩ := p
      rw [List.cons_append, memberWrites, memberWrites, ih, List.append_assoc]

theorem membersConstruct_append :
    membersConstruct (ps ++ qs) = (membersConstruct ps || membersConstruct qs) := by
  induction ps with
  | nil => rfl
  | cons p ps ih =>
      obtain ⟨isConstructor, inside⟩ := p
      rw [List.cons_append, membersConstruct, membersConstruct, ih, ← Bool.or_assoc]

theorem membersMarked_append (classes : List ClassEntry) (mark : Bool) :
    MembersMarked classes mark (ps ++ qs) ↔
      MembersMarked classes mark ps ∧ MembersMarked classes (mark && !membersConstruct ps) qs := by
  induction ps generalizing mark with
  | nil => simp [MembersMarked, membersConstruct]
  | cons p ps ih =>
      obtain ⟨isConstructor, inside⟩ := p
      rw [List.cons_append, MembersMarked, MembersMarked, membersConstruct, ih,
        Bool.not_or (isConstructor || constructsAny inside), Bool.and_assoc, and_assoc]

end Append

/-! ### The course of each check -/

namespace Check

variable {α β γ : Type}

/-- Comes to nothing. -/
def nothing : Checker → List γ := fun _ => []

/-- What a check comes to, and then another one that goes on from its value and its state. -/
def along (m : Check α) (here : Checker → List γ) (rest : α → Checker → List γ) :
    Checker → List γ :=
  fun c => here c ++ rest (m.run c).1 (m.run c).2

/-- As `along`, behind a check that comes to nothing. -/
def after (m : Check α) (rest : α → Checker → List γ) : Checker → List γ :=
  fun c => rest (m.run c).1 (m.run c).2

/-- A course that takes notice of the state it starts in. -/
def starting (course : Checker → Course) : Course := fun c => course c c

mutual

/-- The writes in an expression. -/
def exprWrites : Expr → Checker → List Write
  | ⟨form, _, _⟩ => formWrites form

def formWrites : ExprForm → Checker → List Write
  | .number .. | .string _ | .boolean _ | .null | .undefined | .nan | .identifier _ | .this =>
    nothing
  | .binary _ left right | .logical _ left right | .is left _ right =>
    along (expr left) (exprWrites left) fun _ => exprWrites right
  | .conditional test yes no =>
    along (expr test) (exprWrites test) fun _ =>
      along (expr yes) (exprWrites yes) fun _ => exprWrites no
  | .unary _ operand | .await operand => exprWrites operand
  | .update _ _ operand =>
    along (expr operand) (exprWrites operand) fun _ c => [⟨operand, c⟩]
  | .call callee generics args =>
    after (genericTypes generics) fun _ =>
      along (exprs args) (exprsWrites args) fun _ =>
        match callee.form with
        | .identifier _ => nothing
        | _ => exprWrites callee
  | .member object property computed =>
    along (expr object) (exprWrites object) fun _ =>
      if computed then exprWrites property else nothing
  | .array items => exprsWrites items
  | .object properties => propertiesWrites properties
  | .new _ generics args => after (genericTypes generics) fun _ => exprsWrites args
  | .match_ value arms =>
    along (expr value) (exprWrites value) fun subject => armsWrites subject arms

def exprsWrites : List Expr → Checker → List Write
  | [] => nothing
  | e :: es => along (expr e) (exprWrites e) fun _ => exprsWrites es

def propertiesWrites : List Property → Checker → List Write
  | [] => nothing
  | ⟨_, value, _⟩ :: ps => along (expr value) (exprWrites value) fun _ => propertiesWrites ps

def armsWrites (subject : Option Ty) : List MatchArm → Checker → List Write
  | [] => nothing
  | ⟨p, body, _⟩ :: arms =>
    after enterScope fun _ =>
      along (pattern subject p) (patternWrites subject p) fun _ =>
        along (expr body) (exprWrites body) fun _ =>
          after leaveLocalScope fun _ => armsWrites subject arms

def patternWrites (subject : Option Ty) : Pattern → Checker → List Write
  | ⟨form, _⟩ => patternFormWrites subject form

def patternFormWrites (subject : Option Ty) : PatternForm → Checker → List Write
  | .literal _ | .range .. | .wildcard | .identifier _ | .member _ | .binding _ => nothing
  | .guarded p guard =>
    along (pattern subject p) (patternWrites subject p) fun _ => exprWrites guard

end

/-- Writes as a course. -/
def writing (ws : Checker → List Write) : Course := fun c => (ws c).map .write

def optionalWrites : Option Expr → Course
  | some e => writing (exprWrites e)
  | none => nothing

/-- The writes in alternative patterns. -/
def patternsWrites (subject : Option Ty) : List Pattern → Checker → List Write
  | [] => nothing
  | p :: ps =>
    along (pattern subject p) (patternWrites subject p) fun _ => patternsWrites subject ps

/-- What comes before the members of a class. -/
def classHead (known : ClassEntry) (generics : List Ident) (superclass : Option TypeExpr)
    (interfaces : List TypeExpr) (members : List ClassMember) : Check Unit := do
  enterScope
  declareGenerics generics
  parents superclass interfaces
  bodyEntries known members

/-- The warning in front of a statement that cannot be reached. -/
def alarm (ended warned : Bool) (s : Statement) : Check Unit :=
  if ended && !warned then warn .unreachableCode s.location else pure ()

mutual

/-- What the check of a statement in a block comes to. -/
def statementCourse (within : Hoisting) : Statement → Course
  | ⟨form, _⟩ => statementFormCourse within form

def statementFormCourse (within : Hoisting) : StatementForm → Course
  | .varGroup d => optionalWrites d.init
  | .assignment target value =>
    along (expr value) (writing (exprWrites value)) fun _ =>
      along (expr target) (writing (exprWrites target)) fun _ => writing fun c => [⟨target, c⟩]
  | .expression e | .throws e => writing (exprWrites e)
  | .block b => blockCourse b
  | .conditional test body elifs otherwise =>
    along (expr test) (writing (exprWrites test)) fun _ =>
      along (block body) (blockCourse body) fun _ =>
        along (elifClauses elifs) (elifsCourse elifs) fun _ => optionalBlockCourse otherwise
  | .whileLoop test body =>
    along (expr test) (writing (exprWrites test)) fun _ => blockCourse body
  | .forLoop init test update body =>
    after enterScope fun _ =>
      along (optionalStatement init) (optionalStatementCourse within init) fun _ =>
        along (optionalExpr test) (optionalWrites test) fun _ =>
          along (optionalStatement update) (optionalStatementCourse within update) fun _ =>
            blockCourse body
  | .returns value => optionalWrites value
  | .breaks | .continues | .structType _ => nothing
  | .tryCatch body handlers ⟨last, _⟩ =>
    along (block body) (blockCourse body) fun _ =>
      along (catchClauses handlers) (catchesCourse handlers) fun _ => blockCourse last
  | .switch value cases otherwise =>
    along (expr value) (writing (exprWrites value)) fun subject =>
      along (switchCases subject cases) (casesCourse subject cases) fun _ =>
        optionalCaseCourse subject otherwise
  | .function ⟨_, _, signature, body⟩ =>
    callableCourse signature.generics signature.params (some signature.returns) body
  | .classType ⟨modifiers, name, generics, superclass, interfaces, members⟩ => fun c =>
    match c.scopes.lookup name.text with
    | some (.cls known) =>
      let d := ((classHead known generics superclass interfaces members).run c).2
      [.classBody ⟨⟨modifiers, name, generics, superclass, interfaces, members⟩, known, within⟩
        (membersCourse members { d with classes := known :: d.classes })]
    | _ => []

def statementsCourse (within : Hoisting) (ended warned : Bool) :
    List Statement → Course
  | [] => nothing
  | s :: ss =>
    after (alarm ended warned s) fun _ =>
      along (statement s) (statementCourse within s) fun _ =>
        statementsCourse within (ended || s.isTerminator) (warned || (ended && !warned)) ss

def optionalStatementCourse (within : Hoisting) :
    Option Statement → Course
  | none => nothing
  | some s => statementCourse within s

def blockCourse : Block → Course
  | ⟨body, _⟩ =>
    after enterScope fun _ => starting fun start =>
      after (hoist body) fun _ => statementsCourse ⟨body, start⟩ false false body

def optionalBlockCourse : Option Block → Course
  | none => nothing
  | some b => blockCourse b

def elifsCourse : List ElifClause → Course
  | [] => nothing
  | ⟨test, body, _⟩ :: clauses =>
    along (expr test) (writing (exprWrites test)) fun _ =>
      along (block body) (blockCourse body) fun _ => elifsCourse clauses

def catchesCourse : List CatchClause → Course
  | [] => nothing
  | ⟨type, name, body, _⟩ :: clauses =>
    after enterScope fun _ => after (caught type name) fun _ =>
      along (block body) (blockCourse body) fun _ =>
        after leaveScope fun _ => catchesCourse clauses

def casesCourse (subject : Option Ty) : List SwitchCase → Course
  | [] => nothing
  | ⟨patterns, body, _⟩ :: cases =>
    after enterScope fun _ =>
      along (patterns.forM (pattern subject)) (writing (patternsWrites subject patterns)) fun _ =>
        along (do hoist body; statements false false body)
          (starting fun start =>
            after (hoist body) fun _ => statementsCourse ⟨body, start⟩ false false body)
          fun _ => after leaveLocalScope fun _ => casesCourse subject cases

def optionalCaseCourse (subject : Option Ty) : Option SwitchCase → Course
  | none => nothing
  | some ⟨patterns, body, _⟩ =>
    after enterScope fun _ =>
      along (patterns.forM (pattern subject)) (writing (patternsWrites subject patterns)) fun _ =>
        starting fun start =>
          after (hoist body) fun _ => statementsCourse ⟨body, start⟩ false false body

def callableCourse (generics : List Ident) (ps : List Param) (returns : Option TypeExpr) :
    Block → Course
  | ⟨body, _⟩ =>
    after (callableHead generics ps returns) fun _ => starting fun start =>
      after (hoist body) fun _ => statementsCourse ⟨body, start⟩ false false body

def membersCourse : List ClassMember → Checker → List Passage
  | [] => nothing
  | ⟨_, form, _⟩ :: ms =>
    along (memberForm form) (fun c => [memberPassage form c]) fun _ => membersCourse ms

def memberPassage : MemberForm → Checker → Passage
  | .constructor ps body => fun c =>
    ⟨true, callableCourse [] ps none body { c with inConstructor := true }⟩
  | .method _ signature body | .operator _ _ signature body => fun c =>
    ⟨false, callableCourse signature.generics signature.params (some signature.returns) body c⟩
  | .property d => fun c =>
    ⟨false, after (if d.type.isInfer then pure none else resolveType d.type)
      (fun _ => optionalWrites d.init) c⟩

end

/-- What the check of the body of a program comes to. -/
def bodyCourse (p : Program) : Course := starting fun start =>
  after (hoist p.body) fun _ => statementsCourse ⟨p.body, start⟩ false false p.body

end Check

end ScriptFront
