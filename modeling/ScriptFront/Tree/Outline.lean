import ScriptFront.Tree.Statement

/-!
The outline of a program: its nodes as a tree, in the order in which a reader of the program's
structure visits them. Every walk over a program is a walk over its outline.
-/

namespace ScriptFront

/-- A node of a program that can be visited. -/
inductive Node
  | program (p : Program)
  | importing (i : ImportDeclaration)
  | statement (s : Statement)
  | block (b : Block)
  | member (m : ClassMember)
  | expression (e : Expr)
  | pattern (p : Pattern)
  | type (t : TypeExpr)
  | parameter (p : Param)

/-- The families of nodes. -/
inductive Family
  | program | importing | statement | block | member | expression | pattern | type | parameter
  deriving DecidableEq, Repr, Inhabited

namespace Node

def family : Node → Family
  | program _ => .program
  | importing _ => .importing
  | statement _ => .statement
  | block _ => .block
  | member _ => .member
  | expression _ => .expression
  | pattern _ => .pattern
  | type _ => .type
  | parameter _ => .parameter

def location : Node → Location
  | program p => p.location
  | importing i => i.location
  | statement s => s.location
  | block b => b.location
  | member m => m.location
  | expression e => e.location
  | pattern p => p.location
  | type t => t.location
  | parameter p => p.location

end Node

/-- A node with the outlines of its children in the order of visit. -/
inductive Outline
  | node (root : Node) (children : List Outline)

/-! ### Types and parameters -/

mutual

def TypeExpr.outline : TypeExpr → Outline
  | ⟨form, place⟩ => .node (.type ⟨form, place⟩) form.outlines

def TypeForm.outlines : TypeForm → List Outline
  | .reference _ generics => typeOutlines generics
  | .array t => [t.outline]
  | .union l r | .intersection l r => [l.outline, r.outline]
  | .infer | .void | .null | .undefined => []

def typeOutlines : List TypeExpr → List Outline
  | [] => []
  | t :: ts => t.outline :: typeOutlines ts

end

def Param.outline (p : Param) : Outline := .node (.parameter p) [p.type.outline]

/-- The parts of a signature: its parameters and its return type. -/
def Signature.outlines (s : Signature) : List Outline :=
  s.params.map Param.outline ++ [s.returns.outline]

/-! ### Expressions and patterns -/

mutual

def Expr.outline : Expr → Outline
  | ⟨form, place, height⟩ => .node (.expression ⟨form, place, height⟩) form.outlines

/-- The name after a dot is no reference to anything in scope, and no node of its own. -/
def ExprForm.outlines : ExprForm → List Outline
  | .number .. | .string _ | .boolean _ | .null | .undefined | .nan | .identifier _ | .this => []
  | .binary _ l r | .logical _ l r => [l.outline, r.outline]
  | .conditional t y n => [t.outline, y.outline, n.outline]
  | .unary _ e | .update _ _ e | .await e => [e.outline]
  | .call callee generics args =>
    callee.outline :: (typeOutlines generics ++ exprOutlines args)
  | .member object property computed =>
    object.outline :: if computed then [property.outline] else []
  | .array items => exprOutlines items
  | .object properties => propertyOutlines properties
  | .new _ generics args => typeOutlines generics ++ exprOutlines args
  | .match_ value arms => value.outline :: armOutlines arms
  | .is subject _ target => [subject.outline, target.outline]

def exprOutlines : List Expr → List Outline
  | [] => []
  | e :: es => e.outline :: exprOutlines es

def propertyOutlines : List Property → List Outline
  | [] => []
  | ⟨_, value, _⟩ :: ps => value.outline :: propertyOutlines ps

def armOutlines : List MatchArm → List Outline
  | [] => []
  | ⟨pattern, body, _⟩ :: arms => pattern.outline :: body.outline :: armOutlines arms

def Pattern.outline : Pattern → Outline
  | ⟨form, place⟩ => .node (.pattern ⟨form, place⟩) form.outlines

def PatternForm.outlines : PatternForm → List Outline
  | .guarded pattern guard => [pattern.outline, guard.outline]
  | .literal _ | .range .. | .identifier _ | .binding _ | .member _ | .wildcard => []

end

/-- An optional expression, if it is there. -/
def optionalExpr : Option Expr → List Outline
  | none => []
  | some e => [e.outline]

/-! ### Statements -/

mutual

def Statement.outline : Statement → Outline
  | ⟨form, place⟩ => .node (.statement ⟨form, place⟩) form.outlines

def StatementForm.outlines : StatementForm → List Outline
  | .varGroup d => d.type.outline :: optionalExpr d.init
  | .assignment target value => [target.outline, value.outline]
  | .expression e | .throws e => [e.outline]
  | .block b => [b.outline]
  | .conditional test body elifs otherwise =>
    test.outline :: body.outline :: (elifOutlines elifs ++ optionalBlock otherwise)
  | .whileLoop test body => [test.outline, body.outline]
  | .forLoop init test update body =>
    optionalStatement init ++ optionalExpr test ++ optionalStatement update ++ [body.outline]
  | .returns value => optionalExpr value
  | .breaks | .continues => []
  | .tryCatch body handlers ⟨last, _⟩ =>
    body.outline :: (catchOutlines handlers ++ [last.outline])
  | .switch value cases otherwise =>
    value.outline :: (caseOutlines cases ++ optionalCase otherwise)
  | .function ⟨_, _, signature, body⟩ => signature.outlines ++ [body.outline]
  | .classType ⟨_, _, _, superclass, interfaces, members⟩ =>
    superclass.toList.map TypeExpr.outline ++ typeOutlines interfaces ++ memberOutlines members
  | .structType d => d.fields.map (·.type.outline)

def Block.outline : Block → Outline
  | ⟨statements, place⟩ => .node (.block ⟨statements, place⟩) (statementOutlines statements)

def optionalBlock : Option Block → List Outline
  | none => []
  | some b => [b.outline]

def statementOutlines : List Statement → List Outline
  | [] => []
  | s :: ss => s.outline :: statementOutlines ss

def optionalStatement : Option Statement → List Outline
  | none => []
  | some s => [s.outline]

def elifOutlines : List ElifClause → List Outline
  | [] => []
  | ⟨test, body, _⟩ :: es => test.outline :: body.outline :: elifOutlines es

def catchOutlines : List CatchClause → List Outline
  | [] => []
  | ⟨type, _, body, _⟩ :: hs => type.outline :: body.outline :: catchOutlines hs

def caseOutlines : List SwitchCase → List Outline
  | [] => []
  | ⟨patterns, body, _⟩ :: cs =>
    patterns.map Pattern.outline ++ statementOutlines body ++ caseOutlines cs

def optionalCase : Option SwitchCase → List Outline
  | none => []
  | some ⟨patterns, body, _⟩ => patterns.map Pattern.outline ++ statementOutlines body

def memberOutlines : List ClassMember → List Outline
  | [] => []
  | m :: ms => m.outline :: memberOutlines ms

def ClassMember.outline : ClassMember → Outline
  | ⟨modifiers, form, place⟩ => .node (.member ⟨modifiers, form, place⟩) form.outlines

def MemberForm.outlines : MemberForm → List Outline
  | .constructor params body => params.map Param.outline ++ [body.outline]
  | .method _ signature body | .operator _ _ signature body =>
    signature.outlines ++ [body.outline]
  | .property d => d.type.outline :: optionalExpr d.init

end

theorem typeOutlines_eq (ts : List TypeExpr) : typeOutlines ts = ts.map TypeExpr.outline := by
  induction ts with
  | nil => rfl
  | cons t ts ih => rw [typeOutlines, ih, List.map_cons]

theorem exprOutlines_eq (es : List Expr) : exprOutlines es = es.map Expr.outline := by
  induction es with
  | nil => rfl
  | cons e es ih => rw [exprOutlines, ih, List.map_cons]

theorem propertyOutlines_eq (ps : List Property) :
    propertyOutlines ps = ps.map (·.value.outline) := by
  induction ps with
  | nil => rfl
  | cons p ps ih =>
      obtain ⟨key, value, place⟩ := p
      rw [propertyOutlines, ih, List.map_cons]

theorem armOutlines_eq (arms : List MatchArm) :
    armOutlines arms = arms.flatMap fun arm => [arm.pattern.outline, arm.body.outline] := by
  induction arms with
  | nil => rfl
  | cons arm arms ih =>
      obtain ⟨pattern, body, place⟩ := arm
      rw [armOutlines, ih]
      rfl

theorem statementOutlines_eq (ss : List Statement) :
    statementOutlines ss = ss.map Statement.outline := by
  induction ss with
  | nil => rfl
  | cons s ss ih => rw [statementOutlines, ih, List.map_cons]

theorem memberOutlines_eq (ms : List ClassMember) :
    memberOutlines ms = ms.map ClassMember.outline := by
  induction ms with
  | nil => rfl
  | cons m ms ih => rw [memberOutlines, ih, List.map_cons]

/-- Imports have no children of their own. -/
def ImportDeclaration.outline (i : ImportDeclaration) : Outline := .node (.importing i) []

def Program.outline (p : Program) : Outline :=
  .node (.program p) (p.imports.map ImportDeclaration.outline ++ p.body.map Statement.outline)

/-! ### Walks -/

/-- What a walk does at a node: whether it records the node, and whether it goes on below it. -/
structure Visit where
  records : Bool
  descends : Bool
  deriving DecidableEq, Repr, Inhabited

mutual

/-- The nodes that a walk records, in the order of visit: every node comes before those below it. -/
def Outline.walk (visit : Node → Visit) : Outline → List Node
  | .node root children =>
    (if (visit root).records then [root] else [])
      ++ if (visit root).descends then walkAll visit children else []

def walkAll (visit : Node → Visit) : List Outline → List Node
  | [] => []
  | o :: os => o.walk visit ++ walkAll visit os

end

namespace Visit

/-- Records every node and goes on below all but the pruned ones. -/
def pruned (prune : Node → Bool) (n : Node) : Visit := ⟨true, !prune n⟩

/-- Records every node. -/
def everything : Node → Visit := pruned fun _ => false

/-- Records the nodes of one family and does not go on below them. -/
def only (f : Family) (n : Node) : Visit := ⟨n.family == f, n.family != f⟩

end Visit

/-! ### Properties of all nodes -/

section All

variable {P : Node → Prop}

mutual

/-- A property of a node and of all nodes below it. -/
def Outline.All (P : Node → Prop) : Outline → Prop
  | .node root children => P root ∧ AllOf P children

def AllOf (P : Node → Prop) : List Outline → Prop
  | [] => True
  | o :: os => o.All P ∧ AllOf P os

end

theorem allOf_append {os os' : List Outline} : AllOf P (os ++ os') ↔ AllOf P os ∧ AllOf P os' := by
  induction os with
  | nil => exact (true_and _).to_iff.symm
  | cons o os ih => rw [List.cons_append, AllOf, AllOf, ih, and_assoc]

theorem allOf_iff {os : List Outline} : AllOf P os ↔ ∀ o ∈ os, o.All P := by
  induction os with
  | nil => simp [AllOf]
  | cons o os ih => rw [AllOf, ih, List.forall_mem_cons]

theorem allOf_map {α : Type} {f : α → Outline} {as : List α} :
    AllOf P (as.map f) ↔ ∀ a ∈ as, (f a).All P := by
  rw [allOf_iff, List.forall_mem_map]

mutual

theorem Outline.All.imp {Q : Node → Prop} (le : ∀ n, P n → Q n) :
    ∀ {o : Outline}, o.All P → o.All Q
  | .node root _, h => ⟨le root h.1, h.2.imp le⟩

theorem AllOf.imp {Q : Node → Prop} (le : ∀ n, P n → Q n) :
    ∀ {os : List Outline}, AllOf P os → AllOf Q os
  | [], _ => trivial
  | _ :: _, h => ⟨h.1.imp le, h.2.imp le⟩

end

mutual

theorem Outline.all_of_forall (h : ∀ n, P n) : ∀ o : Outline, o.All P
  | .node root children => ⟨h root, allOf_of_forall h children⟩

theorem allOf_of_forall (h : ∀ n, P n) : ∀ os : List Outline, AllOf P os
  | [] => trivial
  | o :: os => ⟨o.all_of_forall h, allOf_of_forall h os⟩

end

end All
end ScriptFront
