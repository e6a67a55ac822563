import ScriptFront.Proofs.TreeHeight
import ScriptFront.Tree.Visitor

/-!
Visitors and outlines. A visitor passes through the outline of a program, and what is recorded on
the way is told by the outline alone: a visitor with a single hook that goes no further receives, of
the nodes that a full walk comes by, those of its family that are below no other one of the family.
-/

namespace ScriptFront
namespace Visitor

variable {σ : Type} (v : Visitor σ)

/-! ### Visitors pass through outlines -/

/-- What a visitor does at a node of any family. -/
def atNode : Hook Node σ
  | .program p => v.program p
  | .importing i => v.importing i
  | .statement s => v.statement s
  | .block b => v.block b
  | .member m => v.member m
  | .expression e => v.expression e
  | .pattern p => v.pattern p
  | .type t => v.type t
  | .parameter p => v.parameter p

mutual

/-- A visitor passes through an outline. -/
def visit : Outline → StateM σ Unit
  | .node root children => v.atNode root (visitAll children)

def visitAll : List Outline → StateM σ Unit
  | [] => return
  | o :: os => do
    visit o
    visitAll os

end

theorem visitAll_append (os os' : List Outline) :
    v.visitAll (os ++ os') = (do v.visitAll os; v.visitAll os') := by
  induction os with
  | nil => rfl
  | cons o os ih => simp only [List.cons_append, visitAll, ih, bind_assoc]

theorem visitAll_single (o : Outline) : v.visitAll [o] = v.visit o := by
  simp only [visitAll, bind_pure_unit]

theorem visitAll_map {α : Type} {f : α → Outline} {walk : α → StateM σ Unit}
    (h : ∀ a, walk a = v.visit (f a)) (as : List α) : as.forM walk = v.visitAll (as.map f) := by
  induction as with
  | nil => rfl
  | cons a as ih =>
      change (do walk a; as.forM walk) = _
      rw [List.map_cons, visitAll, h, ih]

mutual

theorem visitType_eq : ∀ t : TypeExpr, v.visitType t = v.visit t.outline
  | ⟨form, place⟩ => by
      rw [visitType, walkType_eq form]
      rfl

theorem walkType_eq : ∀ form : TypeForm, v.walkType form = v.visitAll form.outlines
  | .reference _ generics => visitTypes_eq generics
  | .array t => by rw [walkType, visitType_eq t, TypeForm.outlines, visitAll_single]
  | .union l r | .intersection l r => by
      rw [walkType, visitType_eq l, visitType_eq r, TypeForm.outlines, visitAll, visitAll_single]
  | .infer | .void | .null | .undefined => rfl

theorem visitTypes_eq : ∀ ts : List TypeExpr, v.visitTypes ts = v.visitAll (typeOutlines ts)
  | [] => rfl
  | t :: ts => by rw [visitTypes, visitType_eq t, visitTypes_eq ts, typeOutlines, visitAll]

end

theorem visitParameter_eq (p : Param) : v.visitParameter p = v.visit p.outline := by
  rw [visitParameter, visitType_eq, ← visitAll_single]
  rfl

mutual

theorem visitExpression_eq : ∀ e : Expr, v.visitExpression e = v.visit e.outline
  | ⟨form, place, height⟩ => by
      rw [visitExpression, walkExpression_eq form]
      rfl

theorem walkExpression_eq : ∀ form : ExprForm, v.walkExpression form = v.visitAll form.outlines
  | .number .. | .string _ | .boolean _ | .null | .undefined | .nan | .identifier _ | .this => rfl
  | .binary _ l r | .logical _ l r | .is l _ r => by
      rw [walkExpression, visitExpression_eq l, visitExpression_eq r, ExprForm.outlines, visitAll,
        visitAll_single]
  | .conditional t y n => by
      rw [walkExpression, visitExpression_eq t, visitExpression_eq y, visitExpression_eq n,
        ExprForm.outlines, visitAll, visitAll, visitAll_single]
  | .unary _ e | .update _ _ e | .await e => by
      rw [walkExpression, visitExpression_eq e, ExprForm.outlines, visitAll_single]
  | .call callee generics args => by
      rw [walkExpression, visitExpression_eq callee, visitTypes_eq, visitExpressions_eq args,
        ExprForm.outlines, visitAll, visitAll_append]
  | .member object property computed => by
      rw [walkExpression, visitExpression_eq object, ExprForm.outlines, visitAll]
      cases computed with
      | true => rw [if_pos rfl, if_pos rfl, visitExpression_eq property, visitAll_single]
      | false => rfl
  | .array items => visitExpressions_eq items
  | .object properties => visitProperties_eq properties
  | .new _ generics args => by
      rw [walkExpression, visitTypes_eq, visitExpressions_eq args, ExprForm.outlines,
        visitAll_append]
  | .match_ value arms => by
      rw [walkExpression, visitExpression_eq value, visitArms_eq arms, ExprForm.outlines, visitAll]

theorem visitExpressions_eq :
    ∀ es : List Expr, v.visitExpressions es = v.visitAll (exprOutlines es)
  | [] => rfl
  | e :: es => by
      rw [visitExpressions, visitExpression_eq e, visitExpressions_eq es, exprOutlines, visitAll]

theorem visitProperties_eq :
    ∀ ps : List Property, v.visitProperties ps = v.visitAll (propertyOutlines ps)
  | [] => rfl
  | ⟨_, value, _⟩ :: ps => by
      rw [visitProperties, visitExpression_eq value, visitProperties_eq ps, propertyOutlines,
        visitAll]

theorem visitArms_eq : ∀ arms : List MatchArm, v.visitArms arms = v.visitAll (armOutlines arms)
  | [] => rfl
  | ⟨pattern, body, _⟩ :: arms => by
      rw [visitArms, visitPattern_eq pattern, visitExpression_eq body, visitArms_eq arms,
        armOutlines, visitAll, visitAll]

theorem visitPattern_eq : ∀ p : Pattern, v.visitPattern p = v.visit p.outline
  | ⟨form, place⟩ => by
      rw [visitPattern, walkPattern_eq form]
      rfl

theorem walkPattern_eq : ∀ form : PatternForm, v.walkPattern form = v.visitAll form.outlines
  | .guarded pattern guard => by
      rw [walkPattern, visitPattern_eq pattern, visitExpression_eq guard, PatternForm.outlines,
        visitAll, visitAll_single]
  | .literal _ | .range .. | .identifier _ | .binding _ | .member _ | .wildcard => rfl

end

theorem walkSignature_eq (signature : Signature) (body : Outline) :
    v.walkCallable signature.params (some signature.returns) (v.visit body)
      = v.visitAll (signature.outlines ++ [body]) := by
  rw [walkCallable, visitAll_map v (visitParameter_eq v), visitAll_map v (visitType_eq v),
    Signature.outlines, visitAll_append, visitAll_append, visitAll_single, bind_assoc]
  rfl

theorem visitInitial_eq : ∀ e : Option Expr, v.visitInitial e = v.visitAll (optionalExpr e)
  | none => rfl
  | some e => by rw [visitInitial, visitExpression_eq, optionalExpr, visitAll_single]

theorem visitPatterns_eq (ps : List Pattern) :
    ps.forM v.visitPattern = v.visitAll (ps.map Pattern.outline) :=
  visitAll_map v (visitPattern_eq v) ps

mutual

theorem visitStatement_eq : ∀ s : Statement, v.visitStatement s = v.visit s.outline
  | ⟨form, place⟩ => by
      rw [visitStatement, walkStatement_eq form]
      rfl

theorem walkStatement_eq : ∀ form : StatementForm, v.walkStatement form = v.visitAll form.outlines
  | .varGroup d => by
      rw [walkStatement, visitType_eq, visitInitial_eq, StatementForm.outlines, visitAll]
  | .assignment target value => by
      rw [walkStatement, visitExpression_eq, visitExpression_eq, StatementForm.outlines, visitAll,
        visitAll_single]
  | .expression e | .throws e => by
      rw [walkStatement, visitExpression_eq, StatementForm.outlines, visitAll_single]
  | .block b => by rw [walkStatement, visitBlock_eq b, StatementForm.outlines, visitAll_single]
  | .conditional test body elifs otherwise => by
      rw [walkStatement, visitExpression_eq, visitBlock_eq body, visitElifs_eq elifs,
        visitOptionalBlock_eq otherwise, StatementForm.outlines, visitAll, visitAll,
        visitAll_append]
  | .whileLoop test body => by
      rw [walkStatement, visitExpression_eq, visitBlock_eq body, StatementForm.outlines, visitAll,
        visitAll_single]
  | .forLoop init test update body => by
      simp only [walkStatement, visitOptionalStatement_eq init, visitInitial_eq,
        visitOptionalStatement_eq update, visitBlock_eq body, StatementForm.outlines,
        visitAll_append, visitAll_single, bind_assoc]
  | .returns value => by rw [walkStatement, visitInitial_eq, StatementForm.outlines]
  | .breaks | .continues => rfl
  | .tryCatch body handlers ⟨last, _⟩ => by
      rw [walkStatement, visitBlock_eq body, visitHandlers_eq handlers, visitBlock_eq last,
        StatementForm.outlines, visitAll, visitAll_append, visitAll_single]
  | .switch value cases otherwise => by
      rw [walkStatement, visitExpression_eq, visitCases_eq cases, visitOptionalCase_eq otherwise,
        StatementForm.outlines, visitAll, visitAll_append]
  | .function ⟨_, _, signature, body⟩ => by
      rw [walkStatement, visitBlock_eq body, walkSignature_eq, StatementForm.outlines]
  | .classType ⟨_, _, _, superclass, interfaces, members⟩ => by
      rw [walkStatement, visitAll_map v (visitType_eq v), visitTypes_eq, visitMembers_eq members,
        StatementForm.outlines, visitAll_append, visitAll_append, bind_assoc]
  | .structType d => by
      rw [walkStatement, StatementForm.outlines]
      exact visitAll_map v (fun field => v.visitType_eq field.type) d.fields

theorem visitBlock_eq : ∀ b : Block, v.visitBlock b = v.visit b.outline
  | ⟨statements, place⟩ => by
      rw [visitBlock, visitStatements_eq statements]
      rfl

theorem visitOptionalBlock_eq :
    ∀ b : Option Block, v.visitOptionalBlock b = v.visitAll (optionalBlock b)
  | none => rfl
  | some b => by rw [visitOptionalBlock, visitBlock_eq b, optionalBlock, visitAll_single]

theorem visitStatements_eq :
    ∀ ss : List Statement, v.visitStatements ss = v.visitAll (statementOutlines ss)
  | [] => rfl
  | s :: ss => by
      rw [visitStatements, visitStatement_eq s, visitStatements_eq ss, statementOutlines, visitAll]

theorem visitOptionalStatement_eq :
    ∀ s : Option Statement, v.visitOptionalStatement s = v.visitAll (optionalStatement s)
  | none => rfl
  | some s => by
      rw [visitOptionalStatement, visitStatement_eq s, optionalStatement, visitAll_single]

theorem visitElifs_eq :
    ∀ clauses : List ElifClause, v.visitElifs clauses = v.visitAll (elifOutlines clauses)
  | [] => rfl
  | ⟨test, body, _⟩ :: clauses => by
      rw [visitElifs, visitExpression_eq, visitBlock_eq body, visitElifs_eq clauses, elifOutlines,
        visitAll, visitAll]

theorem visitHandlers_eq :
    ∀ clauses : List CatchClause, v.visitHandlers clauses = v.visitAll (catchOutlines clauses)
  | [] => rfl
  | ⟨type, _, body, _⟩ :: clauses => by
      rw [visitHandlers, visitType_eq, visitBlock_eq body, visitHandlers_eq clauses, catchOutlines,
        visitAll, visitAll]

theorem visitCases_eq :
    ∀ cases : List SwitchCase, v.visitCases cases = v.visitAll (caseOutlines cases)
  | [] => rfl
  | ⟨patterns, body, _⟩ :: cases => by
      rw [visitCases, visitPatterns_eq, visitStatements_eq body, visitCases_eq cases, caseOutlines,
        visitAll_append, visitAll_append, bind_assoc]

theorem visitOptionalCase_eq :
    ∀ otherwise : Option SwitchCase,
      v.visitOptionalCase otherwise = v.visitAll (optionalCase otherwise)
  | none => rfl
  | some ⟨patterns, body, _⟩ => by
      rw [visitOptionalCase, visitPatterns_eq, visitStatements_eq body, optionalCase,
        visitAll_append]

theorem visitMembers_eq :
    ∀ ms : List ClassMember, v.visitMembers ms = v.visitAll (memberOutlines ms)
  | [] => rfl
  | m :: ms => by
      rw [visitMembers, visitMember_eq m, visitMembers_eq ms, memberOutlines, visitAll]

theorem visitMember_eq : ∀ m : ClassMember, v.visitMember m = v.visit m.outline
  | ⟨modifiers, form, place⟩ => by
      rw [visitMember, walkMember_eq form]
      rfl

theorem walkMember_eq : ∀ form : MemberForm, v.walkMember form = v.visitAll form.outlines
  | .constructor params body => by
      rw [walkMember, walkCallable, visitAll_map v (visitParameter_eq v), visitBlock_eq body,
        MemberForm.outlines, visitAll_append, visitAll_single]
      rfl
  | .method _ signature body | .operator _ _ signature body => by
      rw [walkMember, visitBlock_eq body, walkSignature_eq, MemberForm.outlines]
  | .property d => by
      rw [walkMember, visitType_eq, visitInitial_eq, MemberForm.outlines, visitAll]

end

theorem visitProgram_eq (p : Program) : v.visitProgram p = v.visit p.outline := by
  have one (i : ImportDeclaration) : v.visitImport i = v.visit i.outline := rfl
  rw [visitProgram, visitAll_map v one, visitAll_map v (visitStatement_eq v), ← visitAll_append]
  rfl

/-! ### What is recorded on the way -/

theorem uniform_atNode (hook : Hook Node σ) (root : Node) :
    (uniform hook).atNode root = hook root := by
  cases root <;> rfl

mutual

/-- The events of a full walk over an outline that is below some nodes. -/
def eventsOf (above : List Node) : Outline → List Event
  | .node root children => ⟨root, above⟩ :: eventsBelow (root :: above) children

def eventsBelow (above : List Node) : List Outline → List Event
  | [] => []
  | o :: os => eventsOf above o ++ eventsBelow above os

end

mutual

/-- A full walk comes by its events, and leaves the nodes that it has entered. -/
theorem tracing_run : ∀ (o : Outline) (t : Trace),
    ((tracing.visit o).run t).2 = ⟨t.entered, t.events ++ eventsOf t.entered o⟩
  | .node root children, t => by
      have below := tracing_runAll children ⟨root :: t.entered, t.events ++ [⟨root, t.entered⟩]⟩
      rw [visit, tracing, uniform_atNode, ← tracing]
      change Trace.mk ((tracing.visitAll children).run _).2.entered.tail
        ((tracing.visitAll children).run _).2.events = _
      rw [below, List.append_assoc]
      rfl

theorem tracing_runAll : ∀ (os : List Outline) (t : Trace),
    ((tracing.visitAll os).run t).2 = ⟨t.entered, t.events ++ eventsBelow t.entered os⟩
  | [], t => by
      rw [eventsBelow, List.append_nil]
      rfl
  | o :: os, t => by
      change ((tracing.visitAll os).run ((tracing.visit o).run t).2).2 = _
      rw [tracing_run o t, tracing_runAll os _, eventsBelow, List.append_assoc]

end

theorem events_eq (p : Program) : p.events = eventsOf [] p.outline := by
  rw [Program.events, visitProgram_eq, tracing_run, List.nil_append]

mutual

/-- A visitor that records every node receives the nodes of all events. -/
theorem recording_run : ∀ (o : Outline) (above log : List Node),
    ((recording.visit o).run log).2 = log ++ (eventsOf above o).map (·.node)
  | .node root children, above, log => by
      rw [visit, recording, uniform_atNode, ← recording, eventsOf, List.map_cons]
      change ((recording.visitAll children).run (log ++ [root])).2 = _
      rw [recording_runAll children (root :: above), List.append_assoc, List.singleton_append]

theorem recording_runAll : ∀ (os : List Outline) (above log : List Node),
    ((recording.visitAll os).run log).2 = log ++ (eventsBelow above os).map (·.node)
  | [], _, log => (List.append_nil log).symm
  | o :: os, above, log => by
      change ((recording.visitAll os).run ((recording.visit o).run log).2).2 = _
      rw [recording_run o above, recording_runAll os above, eventsBelow, List.map_append,
        List.append_assoc]

end

/-- The event is at a node of a family, below no other node of the family. -/
def Event.isTopmost (f : Family) (e : Event) : Bool :=
  e.node.family == f && !e.above.any (·.family == f)

section Single

variable {f : Family}

mutual

/-- Nothing is topmost below a node of the family. -/
theorem no_topmost : ∀ (o : Outline) {above : List Node}, above.any (·.family == f) = true →
    (eventsOf above o).filter (·.isTopmost f) = []
  | .node root children, above, covered => by
      have covers : (root :: above).any (·.family == f) = true := by
        rw [List.any_cons, covered, Bool.or_true]
      have below := no_topmostBelow children covers
      rw [eventsOf, List.filter_cons_of_neg, below]
      rw [Event.isTopmost, covered, Bool.not_true, Bool.and_false]
      exact Bool.false_ne_true

theorem no_topmostBelow : ∀ (os : List Outline) {above : List Node},
    above.any (·.family == f) = true → (eventsBelow above os).filter (·.isTopmost f) = []
  | [], _, _ => rfl
  | o :: os, _, covered => by
      rw [eventsBelow, List.filter_append, no_topmost o covered, no_topmostBelow os covered,
        List.nil_append]

end

theorem single_atNode (root : Node) : (single f).atNode root =
    fun below => if root.family == f then record root else below := by
  cases f <;> cases root <;> rfl

mutual

/-- A visitor with a single hook receives what is topmost. -/
theorem single_run : ∀ (o : Outline) {above : List Node} (log : List Node),
    above.any (·.family == f) = false →
    (((single f).visit o).run log).2
      = log ++ ((eventsOf above o).filter (·.isTopmost f)).map (·.node)
  | .node root children, above, log, free => by
      rw [visit, single_atNode, eventsOf]
      cases own : root.family == f with
      | true =>
          have top : Event.isTopmost f ⟨root, above⟩ = true := by
            rw [Event.isTopmost, own, free, Bool.not_false, Bool.true_and]
          have covers : (root :: above).any (·.family == f) = true := by
            rw [List.any_cons, own, Bool.true_or]
          have below := no_topmostBelow children covers
          rw [List.filter_cons_of_pos top, below]
          rfl
      | false =>
          have hidden : Event.isTopmost f ⟨root, above⟩ = false := by
            rw [Event.isTopmost, own, Bool.false_and]
          rw [List.filter_cons_of_neg (Bool.eq_false_iff.mp hidden)]
          exact single_runAll children log (by rw [List.any_cons, own, free, Bool.false_or])

theorem single_runAll : ∀ (os : List Outline) {above : List Node} (log : List Node),
    above.any (·.family == f) = false →
    (((single f).visitAll os).run log).2
      = log ++ ((eventsBelow above os).filter (·.isTopmost f)).map (·.node)
  | [], _, log, _ => (List.append_nil log).symm
  | o :: os, above, log, free => by
      change (((single f).visitAll os).run (((single f).visit o).run log).2).2 = _
      rw [single_run o log free, single_runAll os _ free, eventsBelow, List.filter_append,
        List.map_append, List.append_assoc]

end

end Single

/-! ### Walks of outlines -/

mutual

/-- A visitor that records every node receives what a walk for everything comes by. -/
theorem walk_everything : ∀ (o : Outline) (above : List Node),
    o.walk Visit.everything = (eventsOf above o).map (·.node)
  | .node root children, above => by
      rw [eventsOf, List.map_cons, ← walkAll_everything children]
      rfl

theorem walkAll_everything : ∀ (os : List Outline) (above : List Node),
    walkAll Visit.everything os = (eventsBelow above os).map (·.node)
  | [], _ => rfl
  | o :: os, above => by
      rw [walkAll, walk_everything o above, walkAll_everything os above, eventsBelow,
        List.map_append]

end

section Walk

variable {f : Family}

mutual

theorem walk_only : ∀ (o : Outline) (log : List Node),
    (((single f).visit o).run log).2 = log ++ o.walk (Visit.only f)
  | .node root children, log => by
      rw [visit, single_atNode, Outline.walk, Visit.only, bne]
      cases own : root.family == f with
      | true => exact congrArg (log ++ ·) (List.append_nil [root]).symm
      | false => exact walkAll_only children log

theorem walkAll_only : ∀ (os : List Outline) (log : List Node),
    (((single f).visitAll os).run log).2 = log ++ walkAll (Visit.only f) os
  | [], log => (List.append_nil log).symm
  | o :: os, log => by
      change (((single f).visitAll os).run (((single f).visit o).run log).2).2 = _
      rw [walk_only o log, walkAll_only os, walkAll, List.append_assoc]

end

end Walk

end Visitor

/--
A visitor that overrides a single hook and goes no further receives, in order, those nodes of the
hook's family that a walk over all nodes comes by below no other node of the family.
-/
theorem Program.received_single (p : Program) (f : Family) :
    p.received .recording = p.events.map (·.node) ∧
      p.received (.single f) = (p.events.filter (·.isTopmost f)).map (·.node) ∧
      (p.received (.single f)).Sublist ((p.received .recording).filter (·.family == f)) := by
  have all : p.received .recording = p.events.map (·.node) := by
    rw [Program.received, Visitor.visitProgram_eq, Visitor.events_eq, Visitor.recording_run _ [],
      List.nil_append]
  have topmost : p.received (.single f) = (p.events.filter (·.isTopmost f)).map (·.node) := by
    rw [Program.received, Visitor.visitProgram_eq, Visitor.events_eq,
      Visitor.single_run _ [] List.any_nil, List.nil_append]
  refine ⟨all, topmost, ?_⟩
  -- What is topmost is of the family.
  have family : p.events.filter (·.isTopmost f)
      = (p.events.filter (·.node.family == f)).filter (·.isTopmost f) := by
    rw [List.filter_filter]
    refine List.filter_congr fun e _ => ?_
    rw [Visitor.Event.isTopmost, Bool.and_comm (_ && _), ← Bool.and_assoc, Bool.and_self]
  rw [topmost, all, List.filter_map, family]
  exact List.filter_sublist.map _

/-- Walks over the outline of a program come by what visitors of the program receive. -/
theorem Program.walk_eq_received (p : Program) (f : Family) :
    p.outline.walk Visit.everything = p.received .recording ∧
      p.outline.walk (Visit.only f) = p.received (.single f) := by
  constructor
  · rw [Program.received, Visitor.visitProgram_eq, Visitor.recording_run _ [],
      Visitor.walk_everything _ [], List.nil_append]
  · rw [Program.received, Visitor.visitProgram_eq, Visitor.walk_only, List.nil_append]

/-- A loop that is left in its first round, in a block. -/
def brokenLoop : Program :=
  let stop : Statement := ⟨.breaks, ⟨10, 1, 11⟩⟩
  let always : Expr := ⟨.boolean true, ⟨8, 1, 9⟩, 1⟩
  let loop : Statement := ⟨.whileLoop always ⟨[stop], ⟨9, 1, 10⟩⟩, ⟨2, 1, 3⟩⟩
  { (default : Program) with body := [⟨.block ⟨[loop], .start⟩, .start⟩] }

example :
    (brokenLoop.received (.single .statement)).map (·.location.offset) = [0] ∧
      (brokenLoop.received .recording).map (·.location.offset) = [0, 0, 0, 2, 8, 9, 10] := by
  decide

end ScriptFront
