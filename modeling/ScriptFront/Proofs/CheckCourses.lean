import ScriptFront.Proofs.Courses
import ScriptFront.Proofs.DeclaredNames
import ScriptFront.Proofs.PlainChecks

/-!
Checks go along their courses: a check leaves the classes around it as they were, it refuses writes
along its course and nowhere else, and the course tells at which writes it counts as that of a
constructor. Why a single write is refused is left open.
-/

namespace ScriptFront

/-! ### Checks go along their courses -/

/--
A check came from one state to another one: it met constructors or none, refused the writes that it
met and no others, and what it met was marked.
-/
structure Checker.Gone (c d : Checker) (constructs : Bool) (ws : List Write) (marked : Prop) :
    Prop where
  classes : d.classes = c.classes
  inConstructor : d.inConstructor = (c.inConstructor && !constructs)
  found : ∃ found, d.findings = c.findings ++ found ∧
    found.filter (·.isRefusal) = ws.flatMap Write.refusals
  marked : marked

theorem Checker.Gone.trans {c d e : Checker} {k l : Bool} {ws vs : List Write} {P Q : Prop}
    (h : c.Gone d k ws P) (h' : d.Gone e l vs Q) : c.Gone e (k || l) (ws ++ vs) (P ∧ Q) := by
  obtain ⟨found, first, here⟩ := h.found
  obtain ⟨more, second, there⟩ := h'.found
  refine ⟨h'.classes.trans h.classes, ?_, ⟨found ++ more, ?_, ?_⟩, h.marked, h'.marked⟩
  · rw [h'.inConstructor, h.inConstructor, Bool.not_or, Bool.and_assoc]
  · rw [second, first, List.append_assoc]
  · rw [List.filter_append, here, there, List.flatMap_append]

/-- A check came from one state to another one along some encounters. -/
def Checker.GoneAlong (c d : Checker) (es : List Encounter) : Prop :=
  c.Gone d (constructsAny es) (writesOf es) (MarkedAll c.classes c.inConstructor es)

/-- A check came from one state to another one through some members. -/
def Checker.GoneThrough (c d : Checker) (ps : List Passage) : Prop :=
  c.Gone d (membersConstruct ps) (memberWrites ps) (MembersMarked c.classes c.inConstructor ps)

namespace Checker

variable {c d e : Checker}

theorem GoneAlong.trans {es fs : List Encounter} (h : c.GoneAlong d es) (h' : d.GoneAlong e fs) :
    c.GoneAlong e (es ++ fs) := by
  have both := Gone.trans h h'
  rwa [h.classes, h.inConstructor, ← markedAll_append, ← writesOf_append,
    ← constructsAny_append] at both

theorem GoneThrough.trans {ps qs : List Passage} (h : c.GoneThrough d ps)
    (h' : d.GoneThrough e qs) : c.GoneThrough e (ps ++ qs) := by
  have both := Gone.trans h h'
  rwa [h.classes, h.inConstructor, ← membersMarked_append, ← memberWrites_append,
    ← membersConstruct_append] at both

end Checker

namespace Check

variable {α β : Type}

/-- A check that goes along a course: it keeps the classes around it, and refuses writes there only. -/
def Goes (m : Check α) (course : Course) : Prop :=
  ∀ c : Checker, c.GoneAlong (m.run c).2 (course c)

section Goes

variable {m : Check α} {f : α → Check β} {here : Course} {rest : α → Course}

theorem Goes.along (hm : Goes m here) (hf : ∀ a, Goes (f a) (rest a)) :
    Goes (m >>= f) (along m here rest) :=
  fun c => (hm c).trans (hf (m.run c).1 (m.run c).2)

theorem Goes.after (hm : Goes m nothing) (hf : ∀ a, Goes (f a) (rest a)) :
    Goes (m >>= f) (after m rest) :=
  fun c => (hm c).trans (hf (m.run c).1 (m.run c).2)

/-- What comes last may come to nothing. -/
theorem Goes.last (hm : Goes m here) (hf : ∀ a, Goes (f a) nothing) : Goes (m >>= f) here :=
  fun start => List.append_nil (here start) ▸ (hm start).trans (hf (m.run start).1 _)

/-- A course that takes notice of its start. -/
theorem goes_starting {course : Checker → Course} (h : ∀ start, Goes m (course start)) :
    Goes m (starting course) := fun c => h c c

theorem goes_pure (a : α) : Goes (pure a : Check α) nothing :=
  fun _ => ⟨rfl, (Bool.and_true _).symm, ⟨[], (List.append_nil _).symm, rfl⟩, trivial⟩

/-- Writes one after another. -/
theorem Goes.writing {here : Checker → List Write} {rest : α → Checker → List Write}
    (hm : Goes m (writing here)) (hf : ∀ a, Goes (f a) (Check.writing (rest a))) :
    Goes (m >>= f) (Check.writing (Check.along m here rest)) := by
  intro c
  have both := (hm c).trans (hf (m.run c).1 (m.run c).2)
  rw [Check.writing, Check.writing, ← List.map_append] at both
  exact both

theorem Goes.writingAfter {rest : α → Checker → List Write} (hm : Goes m nothing)
    (hf : ∀ a, Goes (f a) (Check.writing (rest a))) :
    Goes (m >>= f) (Check.writing (Check.after m rest)) := hm.after hf

end Goes

/-! ### Steps that come to nothing -/

/-- A check that may change scopes, and refuses no write. -/
def Scoping (m : Check α) : Prop :=
  ∀ c, ∃ s found, (m.run c).2 = { c with scopes := s, findings := c.findings ++ found } ∧
    ∀ f ∈ found, f.isRefusal = false

theorem Scoping.goes {m : Check α} (h : Scoping m) : Goes m nothing := by
  intro c
  obtain ⟨s, found, run, all⟩ := h c
  rw [run]
  refine ⟨rfl, (Bool.and_true _).symm, ⟨found, rfl, ?_⟩, trivial⟩
  exact List.filter_eq_nil_iff.mpr fun f mem => Bool.not_eq_true _ ▸ all f mem

theorem scoping_of_onlyReports {Q : Finding → Prop} {m : Check α} (h : OnlyReports Q m)
    (plain : ∀ f, Q f → f.isRefusal = false) : Scoping m := by
  intro c
  obtain ⟨found, run, all⟩ := h c
  exact ⟨c.scopes, found, run, fun f mem => plain f (all f mem)⟩

theorem OnlyReports.scoping {m : Check α} (h : OnlyReports Finding.Plain m) : Scoping m :=
  scoping_of_onlyReports h fun _ plain => plain.1

theorem scoping_pure (a : α) : Scoping (pure a : Check α) := (onlyReports_pure a).scoping

theorem Scoping.bind {m : Check α} {f : α → Check β} (hm : Scoping m) (hf : ∀ a, Scoping (f a)) :
    Scoping (m >>= f) := by
  intro c
  obtain ⟨s, found, first, here⟩ := hm c
  obtain ⟨t, more, second, there⟩ := hf (m.run c).1 (m.run c).2
  refine ⟨t, found ++ more, ?_, List.forall_mem_append.mpr ⟨here, there⟩⟩
  change ((f (m.run c).1).run (m.run c).2).2 = _
  rw [second, first, List.append_assoc]

theorem scoping_forM {l : List α} {f : α → Check Unit} (h : ∀ a ∈ l, Scoping (f a)) :
    Scoping (l.forM f) := by
  induction l with
  | nil => exact scoping_pure _
  | cons a l ih =>
      obtain ⟨here, below⟩ := List.forall_mem_cons.mp h
      exact here.bind fun _ => ih below

theorem scoping_modify (change : Checker → Scopes) :
    Scoping (modify fun c => { c with scopes := change c } : Check Unit) :=
  fun c => ⟨change c, [], by rw [List.append_nil]; rfl, nofun⟩

theorem enterScope_scoping : Scoping enterScope := scoping_modify _

theorem leaveScope_scoping : Scoping leaveScope := by
  intro c
  unfold leaveScope
  rw [run_get_bind]
  split
  · exact scoping_modify (fun _ => _) c
  · exact (error_plain (by simp [SemanticFault.kind]) _).scoping c

theorem leaveLocalScope_scoping : Scoping leaveLocalScope := by
  intro c
  unfold leaveLocalScope
  rw [run_get_bind]
  refine ((scoping_forM fun (w, place) _ c => ?_).bind fun _ => leaveScope_scoping) c
  exact ⟨c.scopes, _, rfl, List.forall_mem_singleton.mpr (by cases w <;> rfl)⟩

theorem readName_scoping (name : String) : Scoping (readName name) :=
  (lookup_onlyReports name).scoping.bind fun _ =>
    (scoping_modify fun c => c.scopes.markUsed name).bind fun _ => scoping_pure _

theorem resolveName_scoping (name : String) (place : Location) :
    Scoping (resolveName name place) := by
  refine (readName_scoping name).bind fun entry => ?_
  dsimp only
  split
  · exact (error_plain (by simp [SemanticFault.kind]) _).scoping.bind fun _ => scoping_pure _
  · exact scoping_pure _

theorem declare_scoping (e : Entry) (place : Location) : Scoping (declare e place) := by
  intro c
  unfold declare
  rw [run_get_bind]
  split
  · next s _ => exact ⟨s, [], by rw [List.append_nil]; rfl, nofun⟩
  · exact (error_plain (by simp [SemanticFault.kind]) _).scoping c

theorem declareGenerics_scoping (generics : List Ident) : Scoping (declareGenerics generics) :=
  scoping_forM fun _ _ => declare_scoping _ _

theorem declareAhead_scoping (ss : List Statement) : Scoping (declareAhead ss) := by
  induction ss with
  | nil => exact scoping_pure _
  | cons s ss rest =>
      unfold declareAhead
      split
      · exact rest
      · intro c
        rw [run_get_bind]
        split
        · next scopes _ =>
            have set : Scoping (modify fun c => { c with scopes := scopes } : Check Unit) :=
              scoping_modify _
            exact (set.bind fun _ => rest.bind fun _ => scoping_pure _) c
        · exact ((error_plain (by simp [SemanticFault.kind]) _).scoping.bind fun _ => rest) c

theorem completeEntry_scoping (s : Statement) : Scoping (completeEntry s) := by
  refine meaning_onlyReports.scoping.bind fun m => ?_
  split
  · exact scoping_modify _
  · exact scoping_pure _

theorem hoist_scoping (body : List Statement) : Scoping (hoist body) :=
  (declareAhead_scoping body).bind fun _ => scoping_forM fun s _ => completeEntry_scoping s

theorem created_scoping (className : Ident) (generics : List Ty) (count : Nat) (place : Location) :
    Scoping (created className generics count place) := by
  refine (resolveName_scoping _ _).bind fun entry => ?_
  split
  · dsimp only
    split
    · exact (call_plain _ _ _ _).scoping.bind fun _ => scoping_pure _
    · exact scoping_pure _
  · exact (error_plain (by simp [SemanticFault.kind]) _).scoping.bind fun _ => scoping_pure _
  · exact scoping_pure _

theorem params_scoping (ps : List Param) : Scoping (params ps) :=
  scoping_forM fun _ _ => (resolveType_plain _).scoping.bind fun _ => declare_scoping _ _

theorem caught_scoping (type : TypeExpr) (name : Ident) : Scoping (caught type name) :=
  (resolveType_plain _).scoping.bind fun _ => declare_scoping _ _

theorem structType_scoping (d : TypeDeclaration) : Scoping (structType d) :=
  enterScope_scoping.bind fun _ => (declareGenerics_scoping _).bind fun _ =>
    (scoping_forM fun _ _ => (resolveType_plain _).scoping.bind fun _ => scoping_pure _).bind
      fun _ => leaveScope_scoping

theorem bodyEntries_scoping (known : ClassEntry) (ms : List ClassMember) :
    Scoping (bodyEntries known ms) :=
  scoping_forM fun _ _ => declare_scoping _ _

theorem classHead_scoping (known : ClassEntry) (generics : List Ident)
    (superclass : Option TypeExpr) (interfaces : List TypeExpr) (members : List ClassMember) :
    Scoping (classHead known generics superclass interfaces members) :=
  enterScope_scoping.bind fun _ => (declareGenerics_scoping _).bind fun _ =>
    (parents_plain _ _).scoping.bind fun _ => bodyEntries_scoping _ _

theorem callableHead_scoping (generics : List Ident) (ps : List Param)
    (returns : Option TypeExpr) : Scoping (callableHead generics ps returns) := by
  refine enterScope_scoping.bind fun _ => (declareGenerics_scoping _).bind fun _ => ?_
  split
  · exact (resolveType_plain _).scoping.bind fun _ => params_scoping _
  · exact params_scoping _

theorem alarm_scoping (ended warned : Bool) (s : Statement) : Scoping (alarm ended warned s) := by
  unfold alarm
  split
  · exact (warn_plain rfl _).scoping
  · exact scoping_pure _

/-! ### Expressions -/

/-- A check of a write comes to that write. -/
theorem writable_goes (target : Expr) :
    Goes (writable target) (writing fun c => [⟨target, c⟩]) := by
  have place : AllAt (fun _ => True) target.location := fun _ _ _ => trivial
  intro c
  obtain ⟨found, run, refusals⟩ := writable_refuses target c
  have reports := (writable_balanced place).reports c
  rw [run] at reports ⊢
  refine ⟨rfl, (Bool.and_true _).symm, ⟨found, rfl, ?_⟩, ⟨rfl, rfl⟩, trivial⟩
  rw [List.filter_eq_self.mpr refusals, List.append_cancel_left reports]
  exact (List.flatMap_singleton _ _).symm

mutual

theorem expr_goes : ∀ e : Expr, Goes (expr e) (writing (exprWrites e))
  | ⟨form, place, _⟩ => exprForm_goes place form

theorem exprForm_goes (place : Location) :
    ∀ form : ExprForm, Goes (exprForm place form) (writing (formWrites form))
  | .number .. | .string _ | .boolean _ | .null | .undefined | .nan => goes_pure _
  | .identifier name => ((resolveName_scoping name place).bind fun _ => scoping_pure _).goes
  | .this => by
      refine Scoping.goes (thisType_onlyReports.scoping.bind fun t => ?_)
      dsimp only
      split
      · exact (error_plain (by simp [SemanticFault.kind]) _).scoping.bind fun _ => scoping_pure _
      · exact scoping_pure _
  | .binary op left right => by
      refine (expr_goes left).writing fun l => (expr_goes right).last fun r => ?_
      split
      · exact goes_pure _
      · exact goes_pure _
  | .logical _ left right =>
      (expr_goes left).writing fun _ => (expr_goes right).last fun _ => goes_pure _
  | .conditional test yes no =>
      (expr_goes test).writing fun _ =>
        (expr_goes yes).writing fun _ => (expr_goes no).last fun _ => goes_pure _
  | .unary op operand => by
      refine (expr_goes operand).last fun t => ?_
      split
      · exact goes_pure _
      · exact goes_pure _
  | .update _ _ operand =>
      (expr_goes operand).writing fun _ => (writable_goes operand).last fun _ => goes_pure _
  | .await operand => expr_goes operand
  | .call callee generics args => by
      have inside := expr_goes callee
      unfold exprForm formWrites
      refine (genericTypes_plain generics).scoping.goes.writingAfter fun _ =>
        (exprs_goes args).writing fun _ => ?_
      obtain ⟨form, location, height⟩ := callee
      cases form with
      | identifier name =>
          refine Scoping.goes ((readName_scoping _).bind fun entry => ?_)
          split
          · exact (call_plain _ _ _ _).scoping
          · exact (error_plain (by simp [SemanticFault.kind]) _).scoping.bind fun _ =>
              scoping_pure _
      | member object property computed =>
          cases computed with
          | false =>
              refine inside.last fun t => ?_
              split
              · exact (call_plain _ _ _ _).scoping.goes
              · exact goes_pure _
          | true => exact inside.last fun _ => goes_pure _
      | _ => exact inside.last fun _ => goes_pure _
  | .member object property computed => by
      unfold exprForm formWrites
      refine (expr_goes object).writing fun o => ?_
      cases computed with
      | true => exact (expr_goes property).last fun _ => goes_pure _
      | false => exact (memberType_plain _ _).scoping.goes
  | .array items => (exprs_goes items).last fun _ => goes_pure _
  | .object properties => (propertyTypes_goes properties).last fun _ => goes_pure _
  | .new className generics args =>
      (genericTypes_plain generics).scoping.goes.after fun _ =>
        (exprs_goes args).last fun _ => (created_scoping _ _ _ _).goes
  | .match_ value arms =>
      (expr_goes value).writing fun subject =>
        (armTypes_goes subject arms).last fun _ => goes_pure _
  | .is subject _ target =>
      (expr_goes subject).writing fun _ => (expr_goes target).last fun _ => goes_pure _

theorem exprs_goes : ∀ es : List Expr, Goes (exprs es) (writing (exprsWrites es))
  | [] => goes_pure _
  | e :: es => (expr_goes e).writing fun _ => (exprs_goes es).last fun _ => goes_pure _

theorem propertyTypes_goes :
    ∀ ps : List Property, Goes (propertyTypes ps) (writing (propertiesWrites ps))
  | [] => goes_pure _
  | ⟨_, value, _⟩ :: ps =>
      (expr_goes value).writing fun _ => (propertyTypes_goes ps).last fun _ => goes_pure _

theorem armTypes_goes (subject : Option Ty) :
    ∀ arms : List MatchArm, Goes (armTypes subject arms) (writing (armsWrites subject arms))
  | [] => goes_pure _
  | ⟨p, body, _⟩ :: arms =>
      enterScope_scoping.goes.after fun _ =>
        (pattern_goes subject p).writing fun _ =>
          (expr_goes body).writing fun _ =>
            leaveLocalScope_scoping.goes.after fun _ =>
              (armTypes_goes subject arms).last fun _ => goes_pure _

theorem pattern_goes (subject : Option Ty) :
    ∀ p : Pattern, Goes (pattern subject p) (writing (patternWrites subject p))
  | ⟨form, place⟩ => patternForm_goes subject place form

theorem patternForm_goes (subject : Option Ty) (place : Location) :
    ∀ form : PatternForm,
      Goes (patternForm subject place form) (writing (patternFormWrites subject form))
  | .literal _ | .range .. | .wildcard => goes_pure _
  | .identifier name => ((resolveName_scoping name place).bind fun _ => scoping_pure _).goes
  | .member path => by
      unfold patternForm
      split
      · exact ((resolveName_scoping _ place).bind fun _ => scoping_pure _).goes
      · exact goes_pure _
  | .binding _ => (declare_scoping _ _).goes
  | .guarded p guard =>
      (pattern_goes subject p).writing fun _ => (expr_goes guard).last fun _ => goes_pure _

end

/-! ### Statements and classes -/

theorem optionalExpr_goes : ∀ e : Option Expr, Goes (optionalExpr e) (optionalWrites e)
  | none => goes_pure _
  | some e => expr_goes e

theorem patterns_goes (subject : Option Ty) :
    ∀ ps : List Pattern, Goes (ps.forM (pattern subject)) (writing (patternsWrites subject ps))
  | [] => goes_pure _
  | p :: ps => (pattern_goes subject p).writing fun _ => patterns_goes subject ps

theorem variableType_goes (d : VariableDeclaration) :
    Goes (variableType d) (optionalWrites d.init) := by
  refine (optionalExpr_goes d.init).last fun found => Scoping.goes ?_
  split
  · exact scoping_pure _
  · refine (resolveType_plain _).scoping.bind fun _ => ?_
    dsimp only
    split
    · exact (assignable?_plain _ _ _).scoping.bind fun _ => scoping_pure _
    · exact scoping_pure _

theorem property_goes (d : PropertyDefinition) :
    Goes (property d) (after (if d.type.isInfer then pure none else resolveType d.type) fun _ =>
      optionalWrites d.init) := by
  obtain ⟨name, type, init⟩ := d
  cases init with
  | some init =>
      have value (declared : Option Ty) : Goes (do
          assignable? (← expr init) declared init.location) (writing (exprWrites init)) :=
        (expr_goes init).last fun _ => (assignable?_plain _ _ _).scoping.goes
      unfold property
      dsimp only
      split
      · exact (goes_pure _).after value
      · exact (resolveType_plain type).scoping.goes.after value
  | none =>
      unfold property
      dsimp only
      split
      · exact (goes_pure _).after fun _ => goes_pure _
      · exact (resolveType_plain type).scoping.goes.after fun _ => goes_pure _

theorem statements_cons (ended warned : Bool) (s : Statement) (ss : List Statement) :
    statements ended warned (s :: ss) = (do
      alarm ended warned s
      statement s
      statements (ended || s.isTerminator) (warned || (ended && !warned)) ss) := by
  unfold alarm
  rw [statements]
  dsimp only
  split <;> rfl

theorem run_lookup_bind (name : String) (f : Option Entry → Check β) (c : Checker) :
    (lookup name >>= f).run c = (f (c.scopes.lookup name)).run c := rfl

/-- A check that goes through members of a class. -/
def GoesThrough (m : Check α) (members : Checker → List Passage) : Prop :=
  ∀ c : Checker, c.GoneThrough (m.run c).2 (members c)

/-- Inside the body of a class, the class is the innermost one. -/
theorem classBody_goes (k : ClassCheck) {m : Check Unit} {members : Checker → List Passage}
    (h : GoesThrough m members) :
    Goes (do
        modify fun s => { s with classes := k.known :: s.classes }
        m
        modify fun s => { s with classes := s.classes.tail })
      fun c => [.classBody k (members { c with classes := k.known :: c.classes })] := by
  intro c
  obtain ⟨classes, inConstructor, ⟨found, findings, refusals⟩, marked⟩ :=
    h { c with classes := k.known :: c.classes }
  refine ⟨congrArg List.tail classes, ?_, ⟨found, findings, ?_⟩, marked, trivial⟩
  · rw [constructsAny, constructsAny, Encounter.constructs, Bool.or_false]
    exact inConstructor
  · rw [writesOf, writesOf, List.append_nil, Encounter.writes]
    exact refusals

/-- Inside a constructor the mark is set, and behind it the mark is clear. -/
theorem constructor_goes {m : Check Unit} {inside : Course} (h : Goes m inside) :
    GoesThrough (do
        modify fun s => { s with inConstructor := true }
        m
        modify fun s => { s with inConstructor := false })
      fun c => [⟨true, inside { c with inConstructor := true }⟩] := by
  intro c
  obtain ⟨classes, -, ⟨found, findings, refusals⟩, marked⟩ := h { c with inConstructor := true }
  refine ⟨classes, (Bool.and_false _).symm, ⟨found, findings, ?_⟩, marked, trivial⟩
  rw [memberWrites, memberWrites, List.append_nil]
  exact refusals

/-- Inside any other member the mark is that outside of it. -/
theorem member_goes {m : Check Unit} {inside : Course} (h : Goes m inside) :
    GoesThrough m fun c => [⟨false, inside c⟩] := by
  intro c
  obtain ⟨classes, inConstructor, ⟨found, findings, refusals⟩, marked⟩ := h c
  refine ⟨classes, ?_, ⟨found, findings, ?_⟩, marked, trivial⟩
  · rw [membersConstruct, membersConstruct, Bool.or_false, Bool.false_or]
    exact inConstructor
  · rw [memberWrites, memberWrites, List.append_nil]
    exact refusals

mutual

theorem statement_goes (within : Hoisting) :
    ∀ s : Statement, Goes (statement s) (statementCourse within s)
  | ⟨form, _⟩ => statementForm_goes within form

theorem statementForm_goes (within : Hoisting) :
    ∀ form : StatementForm, Goes (statementForm form) (statementFormCourse within form)
  | .varGroup d => by
      unfold statementForm statementFormCourse
      rw [varGroup_eq]
      exact (variableType_goes d).last fun _ => (scoping_forM fun _ _ => declare_scoping _ _).goes
  | .assignment target value =>
      (expr_goes value).along fun _ => (expr_goes target).along fun _ =>
        (writable_goes target).last fun _ => (assignable?_plain _ _ _).scoping.goes
  | .expression e => by
      refine (expr_goes e).last fun _ => Scoping.goes ?_
      split
      · exact (warn_plain rfl _).scoping
      · exact scoping_pure _
  | .block b => block_goes b
  | .conditional test body elifs otherwise =>
      (expr_goes test).along fun _ => (block_goes body).along fun _ =>
        (elifClauses_goes elifs).along fun _ => optionalBlock_goes otherwise
  | .whileLoop test body => (expr_goes test).along fun _ => block_goes body
  | .forLoop init test update body =>
      enterScope_scoping.goes.after fun _ =>
        (optionalStatement_goes within init).along fun _ => (optionalExpr_goes test).along fun _ =>
          (optionalStatement_goes within update).along fun _ =>
            (block_goes body).last fun _ => leaveLocalScope_scoping.goes
  | .returns value => (optionalExpr_goes value).last fun _ => goes_pure _
  | .breaks | .continues => goes_pure _
  | .throws value => (expr_goes value).last fun _ => goes_pure _
  | .tryCatch body handlers ⟨last, _⟩ =>
      (block_goes body).along fun _ => (catchClauses_goes handlers).along fun _ => block_goes last
  | .switch value cases otherwise =>
      (expr_goes value).along fun subject =>
        (switchCases_goes subject cases).along fun _ => defaultCase_goes subject otherwise
  | .function ⟨_, _, signature, body⟩ => callable_goes _ _ _ body
  | .classType ⟨modifiers, name, generics, superclass, interfaces, members⟩ => by
      intro c
      have entered (known : ClassEntry) :=
        (classHead_scoping known generics superclass interfaces members).goes.after fun _ =>
          (classBody_goes
            ⟨⟨modifiers, name, generics, superclass, interfaces, members⟩, known, within⟩
            (classMembers_goes members)).last fun _ => leaveScope_scoping.goes
      unfold classHead at entered
      simp only [bind_assoc] at entered
      unfold statementForm statementFormCourse
      rw [run_lookup_bind]
      cases c.scopes.lookup name.text with
      | none => exact goes_pure _ c
      | some e =>
          cases e with
          | cls known => exact entered known c
          | _ => exact goes_pure _ c
  | .structType d => (structType_scoping d).goes

theorem statements_goes (within : Hoisting) (ended warned : Bool) :
    ∀ ss : List Statement,
      Goes (statements ended warned ss) (statementsCourse within ended warned ss)
  | [] => goes_pure _
  | s :: ss => by
      rw [statements_cons]
      exact (alarm_scoping _ _ _).goes.after fun _ =>
        (statement_goes within s).along fun _ => statements_goes within _ _ ss

theorem optionalStatement_goes (within : Hoisting) :
    ∀ s : Option Statement, Goes (optionalStatement s) (optionalStatementCourse within s)
  | none => goes_pure _
  | some s => statement_goes within s

theorem block_goes : ∀ b : Block, Goes (block b) (blockCourse b)
  | ⟨body, _⟩ =>
      enterScope_scoping.goes.after fun _ => goes_starting fun start =>
        (hoist_scoping body).goes.after fun _ =>
          (statements_goes ⟨body, start⟩ false false body).last fun _ => leaveLocalScope_scoping.goes

theorem optionalBlock_goes : ∀ b : Option Block, Goes (optionalBlock b) (optionalBlockCourse b)
  | none => goes_pure _
  | some b => block_goes b

theorem elifClauses_goes :
    ∀ clauses : List ElifClause, Goes (elifClauses clauses) (elifsCourse clauses)
  | [] => goes_pure _
  | ⟨test, body, _⟩ :: clauses =>
      (expr_goes test).along fun _ => (block_goes body).along fun _ => elifClauses_goes clauses

theorem catchClauses_goes :
    ∀ clauses : List CatchClause, Goes (catchClauses clauses) (catchesCourse clauses)
  | [] => goes_pure _
  | ⟨type, name, body, _⟩ :: clauses =>
      enterScope_scoping.goes.after fun _ => (caught_scoping type name).goes.after fun _ =>
        (block_goes body).along fun _ => leaveScope_scoping.goes.after fun _ =>
          catchClauses_goes clauses

theorem switchCases_goes (subject : Option Ty) :
    ∀ cases : List SwitchCase, Goes (switchCases subject cases) (casesCourse subject cases)
  | [] => goes_pure _
  | ⟨patterns, body, _⟩ :: cases => by
      have inside : Goes (do hoist body; statements false false body) (starting fun start =>
          after (hoist body) fun _ => statementsCourse ⟨body, start⟩ false false body) :=
        goes_starting fun start =>
          (hoist_scoping body).goes.after fun _ => statements_goes ⟨body, start⟩ false false body
      have whole := enterScope_scoping.goes.after fun _ =>
        (patterns_goes subject patterns).along fun _ => inside.along fun _ =>
          leaveLocalScope_scoping.goes.after fun _ => switchCases_goes subject cases
      simp only [bind_assoc] at whole
      exact whole

theorem defaultCase_goes (subject : Option Ty) :
    ∀ otherwise : Option SwitchCase,
      Goes (defaultCase subject otherwise) (optionalCaseCourse subject otherwise)
  | none => goes_pure _
  | some ⟨patterns, body, _⟩ =>
      enterScope_scoping.goes.after fun _ => (patterns_goes subject patterns).along fun _ =>
        goes_starting fun start => (hoist_scoping body).goes.after fun _ =>
          (statements_goes ⟨body, start⟩ false false body).last fun _ => leaveLocalScope_scoping.goes

theorem callable_goes (generics : List Ident) (ps : List Param) (returns : Option TypeExpr) :
    ∀ b : Block, Goes (callable generics ps returns b) (callableCourse generics ps returns b)
  | ⟨body, place⟩ => by
      rw [callable_eq]
      exact (callableHead_scoping generics ps returns).goes.after fun _ =>
        goes_starting fun start => (hoist_scoping body).goes.after fun _ =>
          (statements_goes ⟨body, start⟩ false false body).last fun _ => leaveLocalScope_scoping.goes

theorem classMembers_goes :
    ∀ ms : List ClassMember, GoesThrough (classMembers ms) (membersCourse ms)
  | [] => fun _ => ⟨rfl, (Bool.and_true _).symm, ⟨[], (List.append_nil _).symm, rfl⟩, trivial⟩
  | ⟨_, form, _⟩ :: ms => fun c => (memberForm_goes form c).trans (classMembers_goes ms _)

theorem memberForm_goes :
    ∀ form : MemberForm, GoesThrough (memberForm form) fun c => [memberPassage form c]
  | .constructor ps body => constructor_goes (callable_goes [] ps none body)
  | .method _ _ body | .operator _ _ _ body => member_goes (callable_goes _ _ (some _) body)
  | .property d => member_goes (property_goes d)

end

/-- The body of a program goes along its course. -/
theorem body_goes (p : Program) : Goes (body p) (bodyCourse p) :=
  goes_starting fun start =>
    (hoist_scoping p.body).goes.after fun _ => statements_goes ⟨p.body, start⟩ false false p.body

end Check
end ScriptFront
