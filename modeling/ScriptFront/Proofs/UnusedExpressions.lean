import ScriptFront.Proofs.DeclaredClasses
import ScriptFront.Proofs.FilledSlots
import ScriptFront.Proofs.RepeatedSlots
import ScriptFront.Proofs.StandingCourses

/-!
What is reported of expressions that stand alone as statements. A check judges those that it comes
to, and reports exactly the idle ones; nothing else is reported to be of no use. If the analysis of
a program succeeds, all expressions that stand alone in it are judged. An expression without effects
is idle; an idle one may have effects where its value does not come from.
-/

namespace ScriptFront

/-- The finding is about an expression whose value is not used. -/
def Finding.isOfValue (f : Finding) : Bool := f.kind == .unusedExpression

/-- A clause of a loop declares no class; what the grammar reads there is no declaration of one. -/
def Node.PlainClauses : Node → Prop
  | .statement ⟨.forLoop init _ update _, _⟩ =>
    ∀ d place, init ≠ some ⟨.classType d, place⟩ ∧ update ≠ some ⟨.classType d, place⟩
  | _ => True

/-- A node of a statement in which no statement stands. -/
def Node.IsPart : Node → Prop
  | .expression _ | .pattern _ | .type _ | .parameter _ => True
  | _ => False

theorem ofParts_isPart : OfParts Node.IsPart :=
  ⟨fun _ => trivial, fun _ => trivial, fun _ => trivial⟩

theorem Node.IsPart.statement? : ∀ {n : Node}, n.IsPart → n.statement? = none
  | .expression _, _ | .pattern _, _ | .type _, _ | .parameter _, _ => rfl

theorem AllOf.aloneIn {os : List Outline} (h : AllOf Node.IsPart os) : aloneIn os = [] := by
  rw [ScriptFront.aloneIn, (h.imp fun _ => Node.IsPart.statement?).statements]
  rfl

theorem aloneIn_append (os os' : List Outline) : aloneIn (os ++ os') = aloneIn os ++ aloneIn os' := by
  rw [aloneIn, statementsOf_append, List.filterMap_append]
  rfl

/-- A part has no slot for a value that is not used. -/
theorem Node.IsPart.kind_of_slot : ∀ {n : Node}, n.IsPart → ∀ x ∈ n.slots, x.1 ≠ .unusedExpression
  | .expression ⟨form, place, height⟩, _ => fun x mem own => by
      have other := Expr.slot_not_of_statement ⟨form, place, height⟩ x (List.mem_append_left _ mem)
      rw [own] at other
      cases other
  | .pattern ⟨form, place⟩, _ => by
      cases form <;> simp [Node.slots, PatternForm.slots, Ident.slots, Ident.taken]
  | .type ⟨form, place⟩, _ => by cases form <;> simp [Node.slots, TypeForm.slots]
  | .parameter p, _ => by simp [Node.slots, Ident.slots, Ident.taken]

theorem Ident.kind_of_slot (i : Ident) :
    ∀ x ∈ i.slots .unusedDeclaration, x.1 ≠ .unusedExpression := by
  simp [slots, taken]

section Parts

theorem no_parts : AllOf Node.IsPart [] := trivial

theorem expr_part (e : Expr) : AllOf Node.IsPart [e.outline] :=
  ⟨e.all_parts ofParts_isPart, trivial⟩

theorem optional_parts : ∀ e : Option Expr, AllOf Node.IsPart (optionalExpr e)
  | none => trivial
  | some e => expr_part e

theorem pattern_parts (ps : List Pattern) : AllOf Node.IsPart (ps.map Pattern.outline) :=
  allOf_map.mpr fun p _ => p.all_parts ofParts_isPart

theorem type_parts (ts : List TypeExpr) : AllOf Node.IsPart (ts.map TypeExpr.outline) :=
  allOf_map.mpr fun t _ => t.all_parts ofParts_isPart.type

theorem param_parts (ps : List Param) : AllOf Node.IsPart (ps.map Param.outline) :=
  allOf_map.mpr fun p _ => ⟨trivial, p.type.all_parts ofParts_isPart.type, trivial⟩

theorem Signature.parts (s : Signature) : AllOf Node.IsPart s.outlines :=
  allOf_append.mpr ⟨param_parts s.params, type_parts [s.returns]⟩

/-- What a class extends and implements. -/
theorem parent_parts (superclass : Option TypeExpr) (interfaces : List TypeExpr) :
    AllOf Node.IsPart (superclass.toList.map TypeExpr.outline ++ typeOutlines interfaces) :=
  allOf_append.mpr ⟨type_parts superclass.toList, typeOutlines_eq interfaces ▸ type_parts interfaces⟩

end Parts

namespace Check

variable {α β : Type}

/-! ### Checks that report no unused value -/

/-- A check that reports no value that is not used. -/
def Passive (m : Check α) : Prop :=
  ∀ c, ∃ found, (m.run c).2.findings = c.findings ++ found ∧ found.filter (·.isOfValue) = []

section Passive

variable {m : Check α} {f : α → Check β}

theorem passive_of_same (h : ∀ c, (m.run c).2.findings = c.findings) : Passive m :=
  fun c => ⟨[], by rw [h c, List.append_nil], rfl⟩

theorem passive_pure (a : α) : Passive (pure a : Check α) := passive_of_same fun _ => rfl

theorem Passive.bind (hm : Passive m) (hf : ∀ a, Passive (f a)) : Passive (m >>= f) := by
  intro c
  obtain ⟨found, first, here⟩ := hm c
  obtain ⟨more, second, there⟩ := hf (m.run c).1 (m.run c).2
  refine ⟨found ++ more, ?_, ?_⟩
  · rw [← List.append_assoc, ← first]
    exact second
  · rw [List.filter_append, here, there]
    rfl

theorem passive_forM {as : List α} {check : α → Check Unit} (h : ∀ a ∈ as, Passive (check a)) :
    Passive (as.forM check) := by
  induction as with
  | nil => exact passive_pure _
  | cons a as ih =>
      obtain ⟨first, others⟩ := List.forall_mem_cons.mp h
      exact first.bind fun _ => ih others

/-- What a name that is not read yet has a slot for is no value. -/
theorem kind_of_pending (s : Scopes) : ∀ x ∈ s.pending, x.1 ≠ .unusedExpression := by
  intro x mem own
  obtain ⟨frame, -, mem⟩ := List.mem_flatMap.mp mem
  obtain ⟨e, -, mem⟩ := List.mem_flatMap.mp mem
  unfold Entry.pending unusedWarning? at mem
  split at mem
  · split at mem
    · cases mem
    · dsimp only at mem
      split at mem <;> cases List.mem_singleton.mp mem <;> cases own
  · cases mem

/-- A check without a slot for a value that is not used reports none. -/
theorem Fills.passive {slots : List Slot} {course : Course} (fills : Fills slots m)
    (goes : Goes m course) (kinds : ∀ x ∈ slots, x.1 ≠ .unusedExpression) : Passive m := by
  intro c
  obtain ⟨found, findings, -⟩ := (goes c).found
  refine ⟨found, findings, List.filter_eq_nil_iff.mpr fun f mem own => ?_⟩
  have kind : f.slot.1 = .unusedExpression := beq_iff_eq.mp own
  have absent {l : List Slot} (h : ∀ x ∈ l, x.1 ≠ .unusedExpression) : l.count f.slot = 0 :=
    List.count_eq_zero.mpr fun mem => h _ mem kind
  have imports (d : Checker) :
      ∀ x ∈ d.imported.map fun i => ((.unusedImport, i.2) : Slot), x.1 ≠ .unusedExpression :=
    List.forall_mem_map.mpr fun _ _ => nofun
  have here : 0 < (found.map Finding.slot).count f.slot :=
    List.count_pos_iff.mpr (List.mem_map_of_mem mem)
  have count := (fills c).count f.slot
  rw [absent kinds, Checker.filled, Checker.filled, findings] at count
  simp only [List.map_append, List.count_append, absent (kind_of_pending _), absent (imports _)]
    at count
  omega

theorem enterScope_passive : Passive enterScope := passive_of_same fun _ => rfl

theorem leaveScope_passive : Passive leaveScope := by
  intro c
  unfold leaveScope
  rw [run_get_bind]
  split
  · exact ⟨[], (List.append_nil _).symm, rfl⟩
  · exact ⟨_, rfl, rfl⟩

theorem leaveLocalScope_passive : Passive leaveLocalScope := by
  intro c
  unfold leaveLocalScope
  rw [run_get_bind]
  refine ((passive_forM fun (w, place) mem => ?_).bind fun _ => leaveScope_passive) c
  obtain ⟨e, -, warned⟩ := List.mem_filterMap.mp mem
  unfold unusedWarning? at warned
  split at warned
  · cases warned
  · dsimp only at warned
    split at warned <;> cases warned <;> exact fun _ => ⟨_, rfl, rfl⟩

end Passive

theorem expr_passive (e : Expr) : Passive (expr e) :=
  (expr_fills e).passive (expr_goes e) fun x mem own => by
    have other := e.slot_not_of_statement x mem
    rw [own] at other
    cases other

theorem optionalExpr_passive : ∀ e : Option Expr, Passive (optionalExpr e)
  | none => passive_pure _
  | some e => expr_passive e

theorem patterns_passive (subject : Option Ty) (ps : List Pattern) :
    Passive (ps.forM (pattern subject)) := by
  refine (patterns_fills subject ps).passive (patterns_goes subject ps) ?_
  exact (pattern_parts ps).slots fun _ => Node.IsPart.kind_of_slot

theorem hoist_passive (body : List Statement) : Passive (hoist body) := by
  refine (hoist_fills body).passive (hoist_scoping body).goes fun x mem => ?_
  obtain ⟨⟨form, place⟩, -, mem⟩ := List.mem_flatMap.mp mem
  cases form <;> simp_all [StatementForm.aheadSlots, Ident.taken]

theorem alarm_passive (ended warned : Bool) (s : Statement) : Passive (alarm ended warned s) :=
  (alarm_fills ended warned s).passive (alarm_scoping ended warned s).goes (by simp)

theorem caught_passive (type : TypeExpr) (name : Ident) : Passive (caught type name) := by
  refine (caught_fills type name).passive (caught_scoping type name).goes ?_
  refine List.forall_mem_append.mpr ⟨fun x mem => ?_, name.kind_of_slot⟩
  rw [type.kind_of_slot x mem]
  decide

theorem declareGenerics_passive (generics : List Ident) : Passive (declareGenerics generics) :=
  (declareGenerics_fills generics).passive (declareGenerics_scoping generics).goes
    (List.forall_mem_map.mpr fun _ _ => nofun)

theorem params_passive (ps : List Param) : Passive (params ps) :=
  (params_fills ps).passive (params_scoping ps).goes
    ((param_parts ps).slots fun _ => Node.IsPart.kind_of_slot)

theorem resolveType_passive (t : TypeExpr) : Passive (resolveType t) :=
  (resolveType_fills t).passive (resolveType_plain t).scoping.goes fun x mem => by
    rw [t.kind_of_slot x mem]
    decide

theorem callableHead_passive (generics : List Ident) (ps : List Param)
    (returns : Option TypeExpr) : Passive (callableHead generics ps returns) := by
  refine enterScope_passive.bind fun _ => (declareGenerics_passive generics).bind fun _ => ?_
  split
  · exact (resolveType_passive _).bind fun _ => params_passive ps
  · exact params_passive ps

theorem classHead_passive (known : ClassEntry) (generics : List Ident)
    (superclass : Option TypeExpr) (interfaces : List TypeExpr) (members : List ClassMember) :
    Passive (classHead known generics superclass interfaces members) := by
  have parents : Passive (parents superclass interfaces) := by
    refine (parents_fills superclass interfaces).passive (parents_plain _ _).scoping.goes ?_
    refine List.forall_mem_append.mpr ⟨by simp, ?_⟩
    exact (parent_parts superclass interfaces).slots fun _ => Node.IsPart.kind_of_slot
  have entries : Passive (bodyEntries known members) := by
    refine (bodyEntries_fills known members).passive (bodyEntries_scoping _ _).goes fun x mem => ?_
    obtain ⟨⟨modifiers, form, place⟩, -, mem⟩ := List.mem_flatMap.mp mem
    cases form with
    | method name signature body =>
        obtain rfl := List.mem_singleton.mp mem
        simp [Ident.taken]
    | property d =>
        exact d.name.kind_of_slot x mem
    | _ => cases mem
  exact enterScope_passive.bind fun _ => (declareGenerics_passive generics).bind fun _ =>
    parents.bind fun _ => entries

/-! ### Checks judge along their courses -/

/--
A check that judges the expressions that stand alone in some outlines, from any state of a kind:
it reports the idle ones of those on its course, and the course has all of them, or the members of
classes that they are among. Where nothing is an error, it passes over no class.
-/
structure JudgesFrom (P : Checker → Prop) (m : Check α) (course : Checker → List Standing)
    (os : List Outline) : Prop where
  found : ∀ c, ∃ found, (m.run c).2.findings = c.findings ++ found ∧
    found.filter (·.isOfValue) = (course c).filterMap Standing.warning?
  all : ∀ c, (course c).flatMap Standing.all = aloneIn os
  whole : AllOf Node.PlainClauses os → ∀ c, P c → (m.run c).2.Clean →
    ∀ ms, .passedOver ms ∉ course c

/-- A check that judges the expressions that stand alone in some outlines, from any state. -/
abbrev Judges (m : Check α) (course : Checker → List Standing) (os : List Outline) : Prop :=
  JudgesFrom (fun _ => True) m course os

section Judges

variable {P R : Checker → Prop} {m : Check α} {f : α → Check β} {here : Checker → List Standing}
  {rest : α → Checker → List Standing} {os os' : List Outline}

theorem JudgesFrom.clean (h : JudgesFrom P m here os) {c : Checker} (clean : (m.run c).2.Clean) :
    c.Clean := by
  obtain ⟨found, findings, -⟩ := h.found c
  rw [Checker.Clean, findings] at clean
  exact (List.forall_mem_append.mp clean).1

theorem Passive.judges (h : Passive m) (parts : AllOf Node.IsPart os) :
    JudgesFrom P m nothing os where
  found := h
  all _ := parts.aloneIn.symm
  whole _ _ _ _ _ := List.not_mem_nil

theorem JudgesFrom.then (hm : JudgesFrom P m here os) (keeps : ∀ c, P c → R (m.run c).2)
    (hf : ∀ a, JudgesFrom R (f a) (rest a) os') :
    JudgesFrom P (m >>= f) (along m here rest) (os ++ os') where
  found c := by
    obtain ⟨found, first, here⟩ := hm.found c
    obtain ⟨more, second, there⟩ := (hf (m.run c).1).found (m.run c).2
    refine ⟨found ++ more, ?_, ?_⟩
    · rw [← List.append_assoc, ← first]
      exact second
    · rw [List.filter_append, here, there, along, List.filterMap_append]
  all c := by
    rw [along, List.flatMap_append, hm.all, (hf _).all, aloneIn_append]
  whole plain c known clean ms mem := by
    obtain ⟨plain, plain'⟩ := allOf_append.mp plain
    have last : ((f (m.run c).1).run (m.run c).2).2.Clean := clean
    rcases List.mem_append.mp mem with mem | mem
    · exact hm.whole plain c known ((hf _).clean last) ms mem
    · exact (hf _).whole plain' _ (keeps c known) last ms mem

theorem JudgesFrom.along (hm : JudgesFrom P m here os) (hf : ∀ a, Judges (f a) (rest a) os') :
    JudgesFrom P (m >>= f) (along m here rest) (os ++ os') :=
  hm.then (fun _ _ => trivial) hf

/-- What comes last may judge nothing. -/
theorem JudgesFrom.last (hm : JudgesFrom P m here os) (hf : ∀ a, Passive (f a)) :
    JudgesFrom P (m >>= f) here os := by
  have silent (a : α) : Judges (f a) nothing [] := (hf a).judges trivial
  have whole := hm.along silent
  have same : Check.along m here (fun _ => nothing) = here := funext fun c => List.append_nil _
  rwa [same, List.append_nil] at whole

theorem JudgesFrom.weaken (h : JudgesFrom P m here os) (weaker : ∀ c, R c → P c) :
    JudgesFrom R m here os :=
  ⟨h.found, h.all, fun plain c known => h.whole plain c (weaker c known)⟩

/-- What comes first may judge nothing in some parts. -/
theorem Passive.judgesThen (hm : Passive m) (parts : AllOf Node.IsPart os)
    (keeps : ∀ c, P c → R (m.run c).2) (hf : ∀ a, JudgesFrom R (f a) (rest a) os') :
    JudgesFrom P (m >>= f) (after m rest) (os ++ os') :=
  (hm.judges parts).then keeps hf

theorem Passive.judgesAfter (hm : Passive m) (parts : AllOf Node.IsPart os)
    (hf : ∀ a, Judges (f a) (rest a) os') :
    JudgesFrom P (m >>= f) (after m rest) (os ++ os') :=
  hm.judgesThen parts (fun _ _ => trivial) hf

/-- Behind the declarations ahead of a block its classes are known. -/
theorem judges_hoisted {body : List Statement} {m : Check Unit} (course : Checker → List Standing)
    (h : ∀ start, JudgesFrom (fun c => ∀ s ∈ body, c.Knows ⟨body, start⟩ s.form) m course os) :
    Judges (do hoist body; m) (after (hoist body) fun _ => course) os where
  found := ((hoist_passive body).judgesThen no_parts (fun _ => id) fun _ =>
    (h default).weaken fun _ => False.elim).found
  all c := (h c).all _
  whole plain c _ clean := (h c).whole plain _ (hoist_knows ((h c).clean clean)) clean

/-- What stands alone in a node that is no such expression stands below it. -/
theorem JudgesFrom.below {root : Node} (h : JudgesFrom P m here os)
    (other : root.statement?.bind Statement.alone? = none) :
    JudgesFrom P m here [.node root os] where
  found := h.found
  all c := by
    rw [h.all, aloneIn, aloneIn, statementsOf_single, Outline.statements, List.filterMap_append]
    cases statement : root.statement? with
    | none => rfl
    | some s =>
        rw [statement, Option.bind_some] at other
        rw [Option.toList_some, List.filterMap_cons_none other]
        rfl
  whole plain := h.whole plain.1.2

/-- A statement with nothing but expressions and types in it. -/
theorem judges_leaf {form : StatementForm} (place : Location)
    (parts : AllOf Node.IsPart form.outlines)
    (kinds : ∀ x ∈ form.slots, x.1 ≠ .unusedExpression)
    (other : Statement.alone? ⟨form, place⟩ = none) :
    JudgesFrom P (statementForm form) nothing [(⟨form, place⟩ : Statement).outline] := by
  have slots := List.forall_mem_append.mpr
    ⟨kinds, parts.slots (Q := (·.1 ≠ .unusedExpression)) fun _ => Node.IsPart.kind_of_slot⟩
  have passive := (statementForm_fills form).passive (statementForm_goes ⟨[], default⟩ form) slots
  exact (passive.judges parts).below other

/-- An expression that stands alone is reported if it is idle. -/
theorem alone_judges (e : Expr) (place : Location) :
    JudgesFrom P (alone e) (fun _ => [.alone e])
      [(⟨.expression e, place⟩ : Statement).outline] where
  found c := by
    obtain ⟨found, findings, none⟩ := expr_passive e c
    by_cases idle : e.Idle
    · have warned : Standing.warning? (.alone e) = some (.warning .unusedExpression e.location) :=
        if_pos idle
      refine ⟨found ++ [.warning .unusedExpression e.location], ?_, ?_⟩
      · unfold alone
        rw [(not_hasEffect_iff e).mpr idle, ← List.append_assoc, ← findings]
        rfl
      · rw [List.filter_append, none, List.filterMap_cons, warned]
        rfl
    · have silent : Standing.warning? (.alone e) = Option.none := if_neg idle
      have effect : hasEffect e = true :=
        eq_true_of_ne_false fun free => idle ((not_hasEffect_iff e).mp free)
      refine ⟨found, ?_, ?_⟩
      · unfold alone
        rw [effect, ← findings]
        rfl
      · rw [none, List.filterMap_cons_none silent]
        rfl
  all c := by
    have parts := (expr_part e).aloneIn
    rw [aloneIn] at parts
    rw [aloneIn, statementsOf_statement, List.filterMap_cons]
    exact congrArg (e :: ·) parts.symm
  whole _ _ _ _ ms mem := by cases List.mem_singleton.mp mem

end Judges

theorem kind_of_variableSlot (d : VariableDeclaration) :
    ∀ x ∈ (StatementForm.varGroup d).slots, x.1 ≠ .unusedExpression := by
  refine List.forall_mem_append.mpr ⟨List.forall_mem_map.mpr fun _ _ => nofun, fun x mem => ?_⟩
  obtain ⟨name, -, mem⟩ := List.mem_flatMap.mp mem
  exact name.kind_of_slot x mem

theorem kind_of_assignmentSlot (target value : Expr) :
    ∀ x ∈ (StatementForm.assignment target value).slots, x.1 ≠ .unusedExpression := by
  refine List.forall_mem_append.mpr ⟨fun x mem => ?_, by simp [Expr.valueSlot]⟩
  rw [target.kind_of_writeSlot x mem]
  decide

theorem kind_of_propertySlot (d : PropertyDefinition) :
    ∀ x ∈ (MemberForm.property d).slots, x.1 ≠ .unusedExpression :=
  List.forall_mem_map.mpr fun _ _ => nofun

/-- A change of the mark of a constructor. -/
theorem mark_passive (inside : Bool) :
    Passive (modify fun s => { s with inConstructor := inside } : Check Unit) :=
  passive_of_same fun _ => rfl

theorem expr_judges {P : Checker → Prop} (e : Expr) :
    JudgesFrom P (expr e) nothing [e.outline] :=
  (expr_passive e).judges (expr_part e)

mutual

theorem statement_judges (h : Hoisting) : ∀ s : Statement,
    JudgesFrom (fun c => c.Knows h s.form) (statement s) (statementStands s) [s.outline]
  | ⟨form, place⟩ => statementForm_judges h place form

theorem statementForm_judges (h : Hoisting) (place : Location) : ∀ form : StatementForm,
    JudgesFrom (fun c => c.Knows h form) (statementForm form) (statementFormStands form)
      [(⟨form, place⟩ : Statement).outline]
  | .varGroup d =>
      judges_leaf place ⟨d.type.all_parts ofParts_isPart.type, optional_parts d.init⟩
        (kind_of_variableSlot d) rfl
  | .assignment target value =>
      judges_leaf place ⟨target.all_parts ofParts_isPart, expr_part value⟩
        (kind_of_assignmentSlot target value) rfl
  | .expression e => alone_judges e place
  | .block b => ((block_judges b).weaken fun _ _ => trivial).below rfl
  | .conditional test body elifs otherwise =>
      JudgesFrom.below ((expr_judges test).along fun _ => (block_judges body).along fun _ =>
        (elifClauses_judges elifs).along fun _ => optionalBlock_judges otherwise) rfl
  | .whileLoop test body =>
      JudgesFrom.below ((expr_judges test).along fun _ => block_judges body) rfl
  | .forLoop init test update body => by
      let plain (s : Option Statement) : Prop := ∀ d place, s ≠ some ⟨.classType d, place⟩
      have clauses := enterScope_passive.judgesThen (P := fun _ => plain init ∧ plain update)
        no_parts (fun _ => id) fun _ =>
          ((clause_judges init).weaken fun _ => And.left).then (fun _ => id) fun _ =>
            (optionalExpr_passive test).judgesThen (optional_parts test) (fun _ => id) fun _ =>
              ((clause_judges update).weaken fun _ => And.right).along fun _ =>
                (block_judges body).last fun _ => leaveLocalScope_passive
      have parts : StatementForm.outlines (.forLoop init test update body)
          = [] ++ (ScriptFront.optionalStatement init ++ (ScriptFront.optionalExpr test ++
            (ScriptFront.optionalStatement update ++ [body.outline]))) := by
        simp only [StatementForm.outlines, List.append_assoc, List.nil_append]
      rw [← parts] at clauses
      have whole : JudgesFrom (fun _ => plain init ∧ plain update) _ _
          [(⟨.forLoop init test update body, place⟩ : Statement).outline] := clauses.below rfl
      refine ⟨whole.found, whole.all, fun given c _ => ?_⟩
      have own : Node.PlainClauses (.statement ⟨.forLoop init test update body, place⟩) := given.1.1
      exact whole.whole given c ⟨fun d l => (own d l).1, fun d l => (own d l).2⟩
  | .returns value => judges_leaf place (optional_parts value) nofun rfl
  | .breaks | .continues => judges_leaf place trivial nofun rfl
  | .throws value => judges_leaf place (expr_part value) nofun rfl
  | .tryCatch body handlers ⟨last, _⟩ =>
      JudgesFrom.below (((block_judges body).along fun _ => (catchClauses_judges handlers).along
        fun _ => block_judges last).weaken fun _ _ => trivial) rfl
  | .switch value cases otherwise =>
      JudgesFrom.below ((expr_judges value).along fun subject =>
        (switchCases_judges subject cases).along fun _ => defaultCase_judges subject otherwise) rfl
  | .function ⟨_, _, signature, body⟩ =>
      JudgesFrom.below ((callable_judges signature.generics signature.params
        (some signature.returns) signature.parts body).weaken fun _ _ => trivial) rfl
  | .classType ⟨modifiers, name, generics, superclass, interfaces, members⟩ => by
      let types := superclass.toList.map TypeExpr.outline ++ typeOutlines interfaces
      have parts : AllOf Node.IsPart types := parent_parts superclass interfaces
      have push (known : ClassEntry) : Passive
          (modify fun s => { s with classes := known :: s.classes } : Check Unit) :=
        passive_of_same fun _ => rfl
      have pop : Passive (modify fun s => { s with classes := s.classes.tail } : Check Unit) :=
        passive_of_same fun _ => rfl
      have entered (known : ClassEntry) :=
        (classHead_passive known generics superclass interfaces members).judgesAfter
          (P := fun _ => True) parts fun _ => (push known).judgesAfter no_parts fun _ =>
            (classMembers_judges members).last fun _ => pop.bind fun _ => leaveScope_passive
      unfold classHead at entered
      simp only [bind_assoc] at entered
      suffices whole : JudgesFrom _ _ _ (types ++ memberOutlines members) from whole.below rfl
      refine ⟨fun c => ?found, fun c => ?all, fun plain c knows clean => ?whole⟩
      case found =>
        unfold statementForm statementFormStands
        rw [run_lookup_bind]
        cases c.scopes.lookup name.text with
        | none => exact passive_pure () c
        | some e =>
            cases e with
            | cls known => exact (entered known).found c
            | _ => exact passive_pure () c
      case all =>
        have skipped : [Standing.passedOver members].flatMap Standing.all
            = aloneIn (types ++ memberOutlines members) := by
          rw [aloneIn_append, parts.aloneIn]
          exact List.append_nil _
        unfold statementFormStands
        cases c.scopes.lookup name.text with
        | none => exact skipped
        | some e =>
            cases e with
            | cls known => exact (entered known).all c
            | _ => exact skipped
      case whole =>
        have known := Scopes.lookup_of_current (knows _ rfl)
        unfold statementForm at clean
        unfold statementFormStands
        rw [run_lookup_bind, known] at clean
        rw [known]
        exact (entered _).whole plain c trivial clean
  | .structType d =>
      judges_leaf place
        (allOf_map.mpr fun f _ => f.type.all_parts ofParts_isPart.type)
        (List.forall_mem_map.mpr fun _ _ => nofun) rfl

theorem statements_judges (h : Hoisting) (ended warned : Bool) : ∀ ss : List Statement,
    JudgesFrom (fun c => ∀ s ∈ ss, c.Knows h s.form) (statements ended warned ss)
      (statementsStands ended warned ss) (statementOutlines ss)
  | [] => (passive_pure _).judges trivial
  | s :: ss => by
      rw [statements_cons]
      have first := (statement_judges h s).weaken
        fun c (knows : ∀ t ∈ s :: ss, c.Knows h t.form) => knows s List.mem_cons_self
      exact (alarm_passive _ _ _).judgesThen no_parts
        (fun c knows t mem => Knows.back (knows t mem) (alarm_nests _ _ _ c)) fun _ =>
          first.then (fun c knows t mem => Knows.back (knows t (List.mem_cons_of_mem _ mem))
            (statement_declares s c)) fun _ => statements_judges h _ _ ss

theorem clause_judges : ∀ s : Option Statement,
    JudgesFrom (fun _ => ∀ d place, s ≠ some ⟨.classType d, place⟩) (optionalStatement s)
      (optionalStatementStands s) (ScriptFront.optionalStatement s)
  | none => (passive_pure _).judges trivial
  | some ⟨form, place⟩ =>
      (statementForm_judges ⟨[], default⟩ place form).weaken fun _ plain d isClass =>
        absurd (congrArg (fun form => some (⟨form, place⟩ : Statement)) isClass) (plain d place)

theorem block_judges : ∀ b : Block, Judges (block b) (blockStands b) [b.outline]
  | ⟨body, place⟩ => by
      have inside := judges_hoisted _ fun start => statements_judges ⟨body, start⟩ false false body
      have whole := enterScope_passive.judgesAfter (P := fun _ => True) no_parts fun _ =>
        inside.last fun _ => leaveLocalScope_passive
      simp only [bind_assoc] at whole
      exact whole.below rfl

theorem optionalBlock_judges : ∀ b : Option Block,
    Judges (optionalBlock b) (optionalBlockStands b) (ScriptFront.optionalBlock b)
  | none => (passive_pure _).judges trivial
  | some b => block_judges b

theorem elifClauses_judges : ∀ clauses : List ElifClause,
    Judges (elifClauses clauses) (elifsStands clauses) (elifOutlines clauses)
  | [] => (passive_pure _).judges trivial
  | ⟨test, body, _⟩ :: clauses =>
      (expr_judges test).along fun _ => (block_judges body).along fun _ =>
        elifClauses_judges clauses

theorem catchClauses_judges : ∀ clauses : List CatchClause,
    Judges (catchClauses clauses) (catchesStands clauses) (catchOutlines clauses)
  | [] => (passive_pure _).judges trivial
  | ⟨type, name, body, _⟩ :: clauses =>
      enterScope_passive.judgesAfter no_parts fun _ =>
        (caught_passive type name).judgesAfter
          (type_parts [type]) fun _ =>
          (block_judges body).along fun _ =>
            leaveScope_passive.judgesAfter no_parts fun _ => catchClauses_judges clauses

theorem switchCases_judges (subject : Option Ty) : ∀ cases : List SwitchCase,
    Judges (switchCases subject cases) (casesStands subject cases) (caseOutlines cases)
  | [] => (passive_pure _).judges trivial
  | ⟨patterns, body, _⟩ :: cases => by
      have inside := judges_hoisted _ fun start => statements_judges ⟨body, start⟩ false false body
      have whole := enterScope_passive.judgesAfter (P := fun _ => True) no_parts fun _ =>
        (patterns_passive subject patterns).judgesAfter (pattern_parts patterns) fun _ =>
          inside.along fun _ => leaveLocalScope_passive.judgesAfter no_parts fun _ =>
            switchCases_judges subject cases
      simp only [bind_assoc] at whole
      rw [caseOutlines, List.append_assoc]
      exact whole

theorem defaultCase_judges (subject : Option Ty) : ∀ otherwise : Option SwitchCase,
    Judges (defaultCase subject otherwise) (defaultStands subject otherwise)
      (optionalCase otherwise)
  | none => (passive_pure _).judges trivial
  | some ⟨patterns, body, _⟩ => by
      have inside := judges_hoisted _ fun start => statements_judges ⟨body, start⟩ false false body
      have whole := enterScope_passive.judgesAfter (P := fun _ => True) no_parts fun _ =>
        (patterns_passive subject patterns).judgesAfter (pattern_parts patterns) fun _ =>
          inside.last fun _ => leaveLocalScope_passive
      simp only [bind_assoc] at whole
      exact whole

theorem callable_judges (generics : List Ident) (ps : List Param) (returns : Option TypeExpr)
    {os : List Outline} (parts : AllOf Node.IsPart os) :
    ∀ b : Block, Judges (callable generics ps returns b) (callableStands generics ps returns b)
      (os ++ [b.outline])
  | ⟨body, place⟩ => by
      have inside := judges_hoisted _ fun start => statements_judges ⟨body, start⟩ false false body
      have left : Judges _ _ [(⟨body, place⟩ : Block).outline] :=
        (inside.last fun _ => leaveLocalScope_passive).below rfl
      have whole := (callableHead_passive generics ps returns).judgesAfter (P := fun _ => True) parts
        fun _ => left
      simp only [bind_assoc] at whole
      rw [callable_eq]
      exact whole

theorem classMembers_judges : ∀ ms : List ClassMember,
    Judges (classMembers ms) (membersStands ms) (memberOutlines ms)
  | [] => (passive_pure _).judges trivial
  | ⟨modifiers, form, place⟩ :: ms =>
      (memberForm_judges modifiers place form).along fun _ => classMembers_judges ms

theorem memberForm_judges (modifiers : Modifiers) (place : Location) : ∀ form : MemberForm,
    Judges (memberForm form) (memberStands form)
      [(⟨modifiers, form, place⟩ : ClassMember).outline]
  | .constructor ps body => by
      have whole := (mark_passive true).judgesAfter (P := fun _ => True) no_parts fun _ =>
        (callable_judges [] ps none (param_parts ps) body).last fun _ => mark_passive false
      exact whole.below rfl
  | .method _ signature body | .operator _ _ signature body =>
      JudgesFrom.below (callable_judges signature.generics signature.params
        (some signature.returns) signature.parts body) rfl
  | .property d => by
      have parts : AllOf Node.IsPart (MemberForm.property d).outlines :=
        ⟨d.type.all_parts ofParts_isPart.type, optional_parts d.init⟩
      have slots := List.forall_mem_append.mpr ⟨kind_of_propertySlot d,
        parts.slots (Q := (·.1 ≠ .unusedExpression)) fun _ => Node.IsPart.kind_of_slot⟩
      exact (((property_fills d).passive (property_goes d) slots).judges parts).below rfl

end

theorem body_judges (p : Program) : Judges (body p) (bodyStands p) (statementOutlines p.body) :=
  judges_hoisted _ fun start => statements_judges ⟨p.body, start⟩ false false p.body

end Check

/-- What stands alone in a program stands in its body. -/
theorem Program.alone_eq (p : Program) :
    p.visited.filterMap Statement.alone? = aloneIn (statementOutlines p.body) := by
  have imports : AllOf (·.statement? = none) (p.imports.map ImportDeclaration.outline) :=
    allOf_map.mpr fun _ _ => ⟨rfl, trivial⟩
  rw [p.visited_eq, outline, statementsOf_node rfl, statementsOf_append, imports.statements,
    statementOutlines_eq]
  rfl

/--
An analysis judges expressions that stand alone, in the order of visit: all that are not in a class
whose name stands for something else, and if it succeeds, all. It reports exactly the idle ones, each
at its place. These are the ones without effects, and those whose effects stand where their value
does not come from.
-/
theorem unused_expressions_reported (importer : Importer) (file : Path) (p : Program)
    (state : FileState) (session : Session) :
    let analyzed := analyzeWith importer file p state session
    let bound := p.imports.foldl (Workspace.bind importer file) (.opening file state session)
    let course := Check.bodyStands p { bound.checker with findings := [] }
    let judged := course.filterMap Standing.judged?
    (∃ (found : List Finding) (tail : List Diagnostic),
      analyzed.session.log.items
        = bound.session.log.items ++ found.map (·.toDiagnostic file) ++ tail ∧
      found.filter (·.isOfValue)
        = (judged.filter (·.Idle)).map (fun e => .warning .unusedExpression e.location) ∧
      ∀ d ∈ tail, d.kind ≠ .unusedExpression) ∧
    course.flatMap Standing.all = p.visited.filterMap Statement.alone? ∧
    ((∃ m, analyzed.result = .ok m) → p.outline.All Node.PlainClauses →
      judged = p.visited.filterMap Statement.alone?) ∧
    ∀ e : Expr, e.Idle ↔ e.EffectFree ∨ (∃ d ∈ e.evaluated, d.acts = true) ∧
      ∀ d ∈ e.evaluated, d.acts = true → ¬ e.Yields d := by
  rw [Workspace.analyzeWith_eq]
  intro analyzed bound course judged
  have judges := Check.body_judges p
  have alone : course.flatMap Standing.all = p.visited.filterMap Statement.alone? :=
    (judges.all _).trans p.alone_eq.symm
  refine ⟨?_, alone, ?_, Expr.idle_iff⟩
  · obtain ⟨found, findings, values⟩ := judges.found { bound.checker with findings := [] }
    obtain ⟨tail, last, log⟩ := Workspace.log_closing file p bound
    rw [Check.reported, findings] at log
    have closed : analyzed = Workspace.closing file p bound := rfl
    refine ⟨found, tail, by rw [closed, log]; rfl,
      values.trans (Standing.filterMap_warning? course), fun d mem => ?_⟩
    rcases (last d mem).2 with kind | kind <;> simp [kind]
  · rintro ⟨m, ok⟩ plain
    obtain ⟨-, -, clean⟩ := Workspace.closing_ok ok
    have clauses : AllOf Node.PlainClauses (statementOutlines p.body) := by
      rw [statementOutlines_eq]
      exact (allOf_append.mp plain.2).2
    exact (Standing.filterMap_judged? (judges.whole clauses _ trivial clean)).trans alone

end ScriptFront
