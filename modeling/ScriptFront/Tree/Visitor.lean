import ScriptFront.Tree.Outline

/-!
Visitors of a program. A visitor has one hook for each family of nodes. A hook is given a node and
the walk below it, which it may take up or leave; one that is not overridden takes it up and does
nothing else. Walks reach every node through its hook.
-/

namespace ScriptFront

/-- What is done at a node, given the walk below it. -/
abbrev Hook (α σ : Type) := α → StateM σ Unit → StateM σ Unit

/-- One hook for each family of nodes. A hook that is left out goes on below the node. -/
structure Visitor (σ : Type) where
  program : Hook Program σ := fun _ below => below
  importing : Hook ImportDeclaration σ := fun _ below => below
  statement : Hook Statement σ := fun _ below => below
  block : Hook Block σ := fun _ below => below
  member : Hook ClassMember σ := fun _ below => below
  expression : Hook Expr σ := fun _ below => below
  pattern : Hook Pattern σ := fun _ below => below
  type : Hook TypeExpr σ := fun _ below => below
  parameter : Hook Param σ := fun _ below => below

namespace Visitor

variable {σ : Type} (v : Visitor σ)

/-! ### Types and parameters -/

mutual

def visitType : TypeExpr → StateM σ Unit
  | ⟨form, place⟩ => v.type ⟨form, place⟩ (walkType form)

def walkType : TypeForm → StateM σ Unit
  | .reference _ generics => visitTypes generics
  | .array t => visitType t
  | .union l r | .intersection l r => do
    visitType l
    visitType r
  | .infer | .void | .null | .undefined => return

def visitTypes : List TypeExpr → StateM σ Unit
  | [] => return
  | t :: ts => do
    visitType t
    visitTypes ts

end

def visitParameter (p : Param) : StateM σ Unit := v.parameter p (v.visitType p.type)

/-! ### Expressions and patterns -/

mutual

def visitExpression : Expr → StateM σ Unit
  | ⟨form, place, height⟩ => v.expression ⟨form, place, height⟩ (walkExpression form)

/-- The name after a dot is no reference to anything in scope, and is not visited. -/
def walkExpression : ExprForm → StateM σ Unit
  | .number .. | .string _ | .boolean _ | .null | .undefined | .nan | .identifier _ | .this => return
  | .binary _ l r | .logical _ l r => do
    visitExpression l
    visitExpression r
  | .conditional t y n => do
    visitExpression t
    visitExpression y
    visitExpression n
  | .unary _ e | .update _ _ e | .await e => visitExpression e
  | .call callee generics args => do
    visitExpression callee
    v.visitTypes generics
    visitExpressions args
  | .member object property computed => do
    visitExpression object
    if computed then visitExpression property
  | .array items => visitExpressions items
  | .object properties => visitProperties properties
  | .new _ generics args => do
    v.visitTypes generics
    visitExpressions args
  | .match_ value arms => do
    visitExpression value
    visitArms arms
  | .is subject _ target => do
    visitExpression subject
    visitExpression target

def visitExpressions : List Expr → StateM σ Unit
  | [] => return
  | e :: es => do
    visitExpression e
    visitExpressions es

def visitProperties : List Property → StateM σ Unit
  | [] => return
  | ⟨_, value, _⟩ :: ps => do
    visitExpression value
    visitProperties ps

def visitArms : List MatchArm → StateM σ Unit
  | [] => return
  | ⟨pattern, body, _⟩ :: arms => do
    visitPattern pattern
    visitExpression body
    visitArms arms

def visitPattern : Pattern → StateM σ Unit
  | ⟨form, place⟩ => v.pattern ⟨form, place⟩ (walkPattern form)

def walkPattern : PatternForm → StateM σ Unit
  | .guarded pattern guard => do
    visitPattern pattern
    visitExpression guard
  | .literal _ | .range .. | .identifier _ | .binding _ | .member _ | .wildcard => return

end

def visitInitial : Option Expr → StateM σ Unit
  | some e => v.visitExpression e
  | none => return

/-! ### Statements -/

/-- The parameters of a callable, what it returns if it says so, and the visit of its body. -/
def walkCallable (params : List Param) (returns : Option TypeExpr) (body : StateM σ Unit) :
    StateM σ Unit := do
  params.forM v.visitParameter
  returns.toList.forM v.visitType
  body

mutual

def visitStatement : Statement → StateM σ Unit
  | ⟨form, place⟩ => v.statement ⟨form, place⟩ (walkStatement form)

def walkStatement : StatementForm → StateM σ Unit
  | .varGroup d => do
    v.visitType d.type
    v.visitInitial d.init
  | .assignment target value => do
    v.visitExpression target
    v.visitExpression value
  | .expression e | .throws e => v.visitExpression e
  | .block b => visitBlock b
  | .conditional test body elifs otherwise => do
    v.visitExpression test
    visitBlock body
    visitElifs elifs
    visitOptionalBlock otherwise
  | .whileLoop test body => do
    v.visitExpression test
    visitBlock body
  | .forLoop init test update body => do
    visitOptionalStatement init
    v.visitInitial test
    visitOptionalStatement update
    visitBlock body
  | .returns value => v.visitInitial value
  | .breaks | .continues => return
  | .tryCatch body handlers ⟨last, _⟩ => do
    visitBlock body
    visitHandlers handlers
    visitBlock last
  | .switch value cases otherwise => do
    v.visitExpression value
    visitCases cases
    visitOptionalCase otherwise
  | .function ⟨_, _, signature, body⟩ =>
    v.walkCallable signature.params (some signature.returns) (visitBlock body)
  | .classType ⟨_, _, _, superclass, interfaces, members⟩ => do
    superclass.toList.forM v.visitType
    v.visitTypes interfaces
    visitMembers members
  | .structType d => d.fields.forM fun field => v.visitType field.type

def visitBlock : Block → StateM σ Unit
  | ⟨statements, place⟩ => v.block ⟨statements, place⟩ (visitStatements statements)

def visitOptionalBlock : Option Block → StateM σ Unit
  | none => return
  | some b => visitBlock b

def visitStatements : List Statement → StateM σ Unit
  | [] => return
  | s :: ss => do
    visitStatement s
    visitStatements ss

def visitOptionalStatement : Option Statement → StateM σ Unit
  | none => return
  | some s => visitStatement s

def visitElifs : List ElifClause → StateM σ Unit
  | [] => return
  | ⟨test, body, _⟩ :: clauses => do
    v.visitExpression test
    visitBlock body
    visitElifs clauses

def visitHandlers : List CatchClause → StateM σ Unit
  | [] => return
  | ⟨type, _, body, _⟩ :: clauses => do
    v.visitType type
    visitBlock body
    visitHandlers clauses

def visitCases : List SwitchCase → StateM σ Unit
  | [] => return
  | ⟨patterns, body, _⟩ :: cases => do
    patterns.forM v.visitPattern
    visitStatements body
    visitCases cases

def visitOptionalCase : Option SwitchCase → StateM σ Unit
  | none => return
  | some ⟨patterns, body, _⟩ => do
    patterns.forM v.visitPattern
    visitStatements body

def visitMembers : List ClassMember → StateM σ Unit
  | [] => return
  | m :: ms => do
    visitMember m
    visitMembers ms

def visitMember : ClassMember → StateM σ Unit
  | ⟨modifiers, form, place⟩ => v.member ⟨modifiers, form, place⟩ (walkMember form)

def walkMember : MemberForm → StateM σ Unit
  | .constructor params body => v.walkCallable params none (visitBlock body)
  | .method _ signature body | .operator _ _ signature body =>
    v.walkCallable signature.params (some signature.returns) (visitBlock body)
  | .property d => do
    v.visitType d.type
    v.visitInitial d.init

end

/-! ### Programs -/

def visitImport (i : ImportDeclaration) : StateM σ Unit := v.importing i (pure ())

def visitProgram (p : Program) : StateM σ Unit := v.program p do
  p.imports.forM v.visitImport
  p.body.forM v.visitStatement

/-! ### Visitors that record -/

/-- A visitor that does the same at the nodes of all families. -/
def uniform (hook : Hook Node σ) : Visitor σ where
  program p := hook (.program p)
  importing i := hook (.importing i)
  statement s := hook (.statement s)
  block b := hook (.block b)
  member m := hook (.member m)
  expression e := hook (.expression e)
  pattern p := hook (.pattern p)
  type t := hook (.type t)
  parameter p := hook (.parameter p)

/-- Adds a node to those that were received. -/
def record (n : Node) : StateM (List Node) Unit := modify (· ++ [n])

/-- Records a node and goes on below it. -/
def recordAndGoOn : Hook Node (List Node) := fun n below => do
  record n
  below

/-- Overrides every hook to record the node and go on below it. -/
def recording : Visitor (List Node) := uniform recordAndGoOn

/-- Overrides a single hook, and does not go on below the nodes that it records. -/
def single : Family → Visitor (List Node)
  | .program => { program := fun p _ => record (.program p) }
  | .importing => { importing := fun i _ => record (.importing i) }
  | .statement => { statement := fun s _ => record (.statement s) }
  | .block => { block := fun b _ => record (.block b) }
  | .member => { member := fun m _ => record (.member m) }
  | .expression => { expression := fun e _ => record (.expression e) }
  | .pattern => { pattern := fun p _ => record (.pattern p) }
  | .type => { type := fun t _ => record (.type t) }
  | .parameter => { parameter := fun p _ => record (.parameter p) }

/-- A node that was received, and the nodes whose hooks had not returned by then. -/
structure Event where
  node : Node
  above : List Node

/-- The nodes whose hooks have not returned, the innermost first, and the events so far. -/
structure Trace where
  entered : List Node
  events : List Event

/-- Enters a node, goes on below it, and leaves it. -/
def enter : Hook Node Trace := fun n below => do
  modify fun t => ⟨n :: t.entered, t.events ++ [⟨n, t.entered⟩]⟩
  below
  modify fun t => { t with entered := t.entered.tail }

/-- Overrides every hook as `recording` does, and takes notice of the nodes that it is below. -/
def tracing : Visitor Trace := uniform enter

end Visitor

namespace Program

/-- The nodes that a visitor of a program has recorded in the end. -/
def received (p : Program) (v : Visitor (List Node)) : List Node := ((v.visitProgram p).run []).2

/-- All events of a walk over a program. -/
def events (p : Program) : List Visitor.Event := ((Visitor.tracing.visitProgram p).run ⟨[], []⟩).2.events

end Program
end ScriptFront
