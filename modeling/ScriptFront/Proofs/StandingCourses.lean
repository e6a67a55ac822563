import ScriptFront.Proofs.Courses
import ScriptFront.Proofs.IdleExpressions
import ScriptFront.Proofs.VisitedStatements

/-!
The expressions that stand alone as statements, and the course of a check along them. A check comes
to those in the body of a class if the name of the class stands for a class, and passes over the
members of the class if not. What is reported along the course is left open.
-/

namespace ScriptFront

/-! ### Expressions that stand alone -/

/-- The expression that a statement is. -/
def Statement.alone? : Statement → Option Expr
  | ⟨.expression e, _⟩ => some e
  | _ => none

/-- The expressions that stand alone in some outlines, in the order of visit. -/
def aloneIn (os : List Outline) : List Expr := (statementsOf os).filterMap Statement.alone?

/--
What a check comes to: an expression that stands alone, or the members of a class that are passed
over, since the name of the class stands for something else.
-/
inductive Standing
  | alone (e : Expr)
  | passedOver (members : List ClassMember)

namespace Standing

/-- The expression that is judged. -/
def judged? : Standing → Option Expr
  | alone e => some e
  | passedOver _ => none

/-- The expressions that stand alone in it, whether they are judged or not. -/
def all : Standing → List Expr
  | alone e => [e]
  | passedOver members => aloneIn (memberOutlines members)

/-- What is reported. -/
def warning? : Standing → Option Finding
  | alone e => if e.Idle then some (.warning .unusedExpression e.location) else none
  | passedOver _ => none

/-- What is reported along a course are the idle ones of the expressions that are judged. -/
theorem filterMap_warning? (course : List Standing) :
    course.filterMap warning? = ((course.filterMap judged?).filter (·.Idle)).map
      fun e => .warning .unusedExpression e.location := by
  induction course with
  | nil => rfl
  | cons x course ih =>
      cases x with
      | passedOver members => exact ih
      | alone e =>
          by_cases idle : e.Idle <;> simp [warning?, judged?, idle, ih]

/-- A course that passes over no class judges all. -/
theorem filterMap_judged? {course : List Standing} (whole : ∀ ms, passedOver ms ∉ course) :
    course.filterMap judged? = course.flatMap all := by
  induction course with
  | nil => rfl
  | cons x course ih =>
      have below := ih fun ms mem => whole ms (List.mem_cons_of_mem x mem)
      cases x with
      | passedOver members => exact absurd List.mem_cons_self (whole members)
      | alone e => exact congrArg (e :: ·) below

end Standing

namespace Check

/-! ### The course of each check -/

mutual

/-- What the check of a statement comes to. -/
def statementStands : Statement → Checker → List Standing
  | ⟨form, _⟩ => statementFormStands form

def statementFormStands : StatementForm → Checker → List Standing
  | .varGroup _ | .assignment .. | .returns _ | .breaks | .continues | .throws _
  | .structType _ => nothing
  | .expression e => fun _ => [.alone e]
  | .block b => blockStands b
  | .conditional test body elifs otherwise =>
    after (expr test) fun _ => along (block body) (blockStands body) fun _ =>
      along (elifClauses elifs) (elifsStands elifs) fun _ => optionalBlockStands otherwise
  | .whileLoop test body => after (expr test) fun _ => blockStands body
  | .forLoop init test update body =>
    after enterScope fun _ =>
      along (optionalStatement init) (optionalStatementStands init) fun _ =>
        after (optionalExpr test) fun _ =>
          along (optionalStatement update) (optionalStatementStands update) fun _ =>
            blockStands body
  | .tryCatch body handlers ⟨last, _⟩ =>
    along (block body) (blockStands body) fun _ =>
      along (catchClauses handlers) (catchesStands handlers) fun _ => blockStands last
  | .switch value cases otherwise =>
    after (expr value) fun subject =>
      along (switchCases subject cases) (casesStands subject cases) fun _ =>
        defaultStands subject otherwise
  | .function ⟨_, _, signature, body⟩ =>
    callableStands signature.generics signature.params (some signature.returns) body
  | .classType ⟨_, name, generics, superclass, interfaces, members⟩ => fun c =>
    match c.scopes.lookup name.text with
    | some (.cls known) =>
      let d := ((classHead known generics superclass interfaces members).run c).2
      membersStands members { d with classes := known :: d.classes }
    | _ => [.passedOver members]

def statementsStands (ended warned : Bool) : List Statement → Checker → List Standing
  | [] => nothing
  | s :: ss =>
    after (alarm ended warned s) fun _ =>
      along (statement s) (statementStands s) fun _ =>
        statementsStands (ended || s.isTerminator) (warned || (ended && !warned)) ss

def optionalStatementStands : Option Statement → Checker → List Standing
  | none => nothing
  | some s => statementStands s

def blockStands : Block → Checker → List Standing
  | ⟨body, _⟩ =>
    after enterScope fun _ => after (hoist body) fun _ => statementsStands false false body

def optionalBlockStands : Option Block → Checker → List Standing
  | none => nothing
  | some b => blockStands b

def elifsStands : List ElifClause → Checker → List Standing
  | [] => nothing
  | ⟨test, body, _⟩ :: clauses =>
    after (expr test) fun _ =>
      along (block body) (blockStands body) fun _ => elifsStands clauses

def catchesStands : List CatchClause → Checker → List Standing
  | [] => nothing
  | ⟨type, name, body, _⟩ :: clauses =>
    after enterScope fun _ => after (caught type name) fun _ =>
      along (block body) (blockStands body) fun _ =>
        after leaveScope fun _ => catchesStands clauses

def casesStands (subject : Option Ty) : List SwitchCase → Checker → List Standing
  | [] => nothing
  | ⟨patterns, body, _⟩ :: cases =>
    after enterScope fun _ => after (patterns.forM (pattern subject)) fun _ =>
      after (hoist body) fun _ =>
        along (statements false false body) (statementsStands false false body) fun _ =>
          after leaveLocalScope fun _ => casesStands subject cases

def defaultStands (subject : Option Ty) : Option SwitchCase → Checker → List Standing
  | none => nothing
  | some ⟨patterns, body, _⟩ =>
    after enterScope fun _ => after (patterns.forM (pattern subject)) fun _ =>
      after (hoist body) fun _ => statementsStands false false body

def callableStands (generics : List Ident) (ps : List Param) (returns : Option TypeExpr) :
    Block → Checker → List Standing
  | ⟨body, _⟩ =>
    after (callableHead generics ps returns) fun _ =>
      after (hoist body) fun _ => statementsStands false false body

def membersStands : List ClassMember → Checker → List Standing
  | [] => nothing
  | ⟨_, form, _⟩ :: ms => along (memberForm form) (memberStands form) fun _ => membersStands ms

def memberStands : MemberForm → Checker → List Standing
  | .constructor ps body => fun c =>
    callableStands [] ps none body { c with inConstructor := true }
  | .method _ signature body | .operator _ _ signature body =>
    callableStands signature.generics signature.params (some signature.returns) body
  | .property _ => nothing

end

/-- What the check of the body of a program comes to. -/
def bodyStands (p : Program) : Checker → List Standing :=
  after (hoist p.body) fun _ => statementsStands false false p.body

end Check
end ScriptFront
