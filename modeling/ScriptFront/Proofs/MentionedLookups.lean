import ScriptFront.Proofs.LookupFindings

/-!
Statements, classes and programs look names up along their courses, and every name that is looked up
is mentioned in the program. So an imported name that anything in the program stands for is never
reported as unused.
-/

namespace ScriptFront
namespace Check

variable {N : String → Prop}

/-! ### Declarations -/

theorem optionalExpr_looks :
    ∀ e : Option Expr, AllOf (Node.Names N) (ScriptFront.optionalExpr e) →
      Looks N (optionalExpr e) (optionalLookups e)
  | none, _ => looks_pure _
  | some e, h => expr_looks e h.1

theorem variableType_looks {d : VariableDeclaration} (type : d.type.outline.All (Node.Names N))
    (init : AllOf (Node.Names N) (ScriptFront.optionalExpr d.init)) :
    Looks N (variableType d) (variableLookups d) := by
  refine (optionalExpr_looks d.init init).along fun found => ?_
  split
  · exact looks_pure _
  · refine (resolveType_looks type).last fun _ => Silent.looks ?_
    dsimp only
    split
    · exact (assignable?_silent _ _ _).bind fun _ => silent_pure _
    · exact silent_pure _

theorem property_looks {d : PropertyDefinition} (type : d.type.outline.All (Node.Names N))
    (init : AllOf (Node.Names N) (ScriptFront.optionalExpr d.init)) :
    Looks N (property d) (propertyLookups d) := by
  obtain ⟨name, written, value⟩ := d
  unfold property propertyLookups
  dsimp only
  cases value with
  | none =>
      split
      · exact (looks_pure _).along fun _ => looks_pure _
      · exact (resolveType_looks type).along fun _ => looks_pure _
  | some init' =>
      have rest (declared : Option Ty) : Looks N (do
          assignable? (← expr init') declared init'.location) (optionalLookups (some init')) :=
        (expr_looks init' init.1).last fun _ => (assignable?_silent _ _ _).looks
      split
      · exact (looks_pure _).along rest
      · exact (resolveType_looks type).along rest

theorem params_looks {ps : List Param} (h : AllOf (Node.Names N) (ps.map Param.outline)) :
    Looks N (params ps) (paramsLookups ps) :=
  looks_each fun p mem =>
    (resolveType_looks (allOf_map.mp h p mem).2.1).last fun _ => (declare_silent _ _).looks

theorem caught_looks {type : TypeExpr} (h : type.outline.All (Node.Names N)) (name : Ident) :
    Looks N (caught type name) (typeCourse type) :=
  (resolveType_looks h).last fun _ => (declare_silent _ _).looks

theorem structType_looks {d : TypeDeclaration}
    (h : AllOf (Node.Names N) (d.fields.map (·.type.outline))) :
    Looks N (structType d) (structLookups d) :=
  enterScope_silent.looks.after fun _ => (declareGenerics_silent _).looks.after fun _ =>
    Looks.last (looks_each fun f mem => mentioned_looks (allOf_map.mp h f mem))
      fun _ => leaveScope_silent.looks

theorem parents_eq (superclass : Option TypeExpr) (interfaces : List TypeExpr) :
    parents superclass interfaces = (do
      parents superclass []
      interfaces.forM mentioned) := by
  cases superclass with
  | none => rfl
  | some t =>
      unfold parents
      simp only [bind_assoc]
      refine bind_congr fun ty => ?_
      cases ty with
      | none => rfl
      | some ty =>
          dsimp only
          cases ty.isClass <;> rfl

theorem parents_looks {superclass : Option TypeExpr} {interfaces : List TypeExpr}
    (hsuperclass : AllOf (Node.Names N) (superclass.toList.map TypeExpr.outline))
    (hinterfaces : AllOf (Node.Names N) (typeOutlines interfaces)) :
    Looks N (parents superclass interfaces) (parentsLookups superclass interfaces) := by
  rw [typeOutlines_eq] at hinterfaces
  rw [parents_eq]
  refine Looks.along ?_ fun _ => looks_each fun t mem =>
    mentioned_looks (allOf_map.mp hinterfaces t mem)
  cases superclass with
  | none => exact looks_pure _
  | some t =>
      refine (resolveType_looks hsuperclass.1).last fun ty => Silent.looks ?_
      cases ty with
      | none => exact silent_pure _
      | some ty =>
          dsimp only
          split
          · exact (error_silent rfl).bind fun _ => silent_pure _
          · exact silent_pure _

theorem classHead_looks (known : ClassEntry) (generics : List Ident) {superclass : Option TypeExpr}
    {interfaces : List TypeExpr} (members : List ClassMember)
    (hsuperclass : AllOf (Node.Names N) (superclass.toList.map TypeExpr.outline))
    (hinterfaces : AllOf (Node.Names N) (typeOutlines interfaces)) :
    Looks N (classHead known generics superclass interfaces members)
      (classLookups generics superclass interfaces) :=
  enterScope_silent.looks.after fun _ => (declareGenerics_silent _).looks.after fun _ =>
    (parents_looks hsuperclass hinterfaces).last fun _ =>
      (silent_forM fun _ _ => declare_silent _ _).looks

theorem callableHead_looks (generics : List Ident) {ps : List Param} {returns : Option TypeExpr}
    (hps : AllOf (Node.Names N) (ps.map Param.outline))
    (hreturns : ∀ t ∈ returns, t.outline.All (Node.Names N)) :
    Looks N (callableHead generics ps returns) (signatureLookups generics ps returns) := by
  refine enterScope_silent.looks.after fun _ => (declareGenerics_silent _).looks.after fun _ => ?_
  cases returns with
  | none => exact (looks_pure _).along fun _ => params_looks hps
  | some t => exact (mentioned_looks (hreturns t rfl)).along fun _ => params_looks hps

theorem completeEntry_looks {s : Statement} (h : s.outline.All (Node.Names N)) :
    Looks N (completeEntry s) fun c => s.lookups c.scopes.lookup := by
  intro c
  refine Checker.looked_of_uncomplaining (Statement.uncomplaining_lookups h) ⟨[], ?_, rfl⟩
  unfold completeEntry
  rw [run_meaning_bind, List.append_nil]
  split <;> rfl

/-- The entries that are made in a block are those of statements in it. -/
theorem hoist_looks {body : List Statement} (h : AllOf (Node.Names N) (statementOutlines body)) :
    Looks N (hoist body) (hoistLookups body) := by
  rw [statementOutlines_eq] at h
  intro c
  have declared := declareAhead_subset body c
  refine ((declareAhead_silent body).looks c).trans (looks_each (fun s mem => ?_) _)
  refine completeEntry_looks (allOf_map.mp h s (declared ?_))
  rcases List.mem_append.mp mem with types | function
  · rcases List.mem_append.mp types with type | type
    · exact CompletionOrder.mem_of_mem_of type
    · exact CompletionOrder.mem_of_mem_of type
  · exact (List.mem_filter.mp function).1

/-! ### Statements and classes -/

theorem patterns_looks (subject : Option Ty) {ps : List Pattern}
    (h : AllOf (Node.Names N) (ps.map Pattern.outline)) :
    Looks N (ps.forM (pattern subject))
      (eachLookups (pattern subject) (patternLookups subject) ps) :=
  looks_each fun p mem => pattern_looks subject p (allOf_map.mp h p mem)

/-- The body of a class is checked as in a class of its own. -/
theorem classBody_looks (known : ClassEntry) {m : Check Unit} {inside : Checker → List Lookup}
    (h : Looks N m inside) :
    Looks N (do
        modify fun s => { s with classes := known :: s.classes }
        m
        modify fun s => { s with classes := s.classes.tail })
      fun c => inside { c with classes := known :: c.classes } :=
  fun c => ⟨(h { c with classes := known :: c.classes }).found,
    (h { c with classes := known :: c.classes }).named⟩

theorem constructor_looks {m : Check Unit} {inside : Checker → List Lookup} (h : Looks N m inside) :
    Looks N (do
        modify fun s => { s with inConstructor := true }
        m
        modify fun s => { s with inConstructor := false })
      fun c => inside { c with inConstructor := true } :=
  fun c => ⟨(h { c with inConstructor := true }).found, (h { c with inConstructor := true }).named⟩

mutual

theorem statement_looks :
    ∀ s : Statement, s.outline.All (Node.Names N) → Looks N (statement s) (statementLookups s)
  | ⟨form, _⟩, h => statementForm_looks form h.2

theorem statementForm_looks :
    ∀ form : StatementForm, AllOf (Node.Names N) form.outlines →
      Looks N (statementForm form) (statementFormLookups form)
  | .varGroup d, ⟨type, init⟩ => by
      unfold statementForm statementFormLookups
      rw [varGroup_eq]
      exact (variableType_looks type init).last fun _ =>
        (silent_forM fun _ _ => declare_silent _ _).looks
  | .assignment target value, ⟨htarget, hvalue, _⟩ =>
      (expr_looks value hvalue).along fun _ => (expr_looks target htarget).along fun _ =>
        (writable_looks htarget).last fun _ => (assignable?_silent _ _ _).looks
  | .expression e, ⟨h, _⟩ => by
      refine (expr_looks e h).last fun _ => Silent.looks ?_
      split
      · exact warn_silent rfl
      · exact silent_pure _
  | .block b, ⟨h, _⟩ => block_looks b h
  | .conditional test body elifs otherwise, ⟨htest, hbody, below⟩ =>
      have hrest := allOf_append.mp below
      (expr_looks test htest).along fun _ => (block_looks body hbody).along fun _ =>
        (elifClauses_looks elifs hrest.1).along fun _ => optionalBlock_looks otherwise hrest.2
  | .whileLoop test body, ⟨htest, hbody, _⟩ =>
      (expr_looks test htest).along fun _ => block_looks body hbody
  | .forLoop init test update body, h => by
      unfold StatementForm.outlines at h
      simp only [allOf_append] at h
      obtain ⟨⟨⟨hinit, htest⟩, hupdate⟩, hbody, -⟩ := h
      exact enterScope_silent.looks.after fun _ =>
        (optionalStatement_looks init hinit).along fun _ =>
          (optionalExpr_looks test htest).along fun _ =>
            (optionalStatement_looks update hupdate).along fun _ =>
              (block_looks body hbody).last fun _ => leaveLocalScope_silent.looks
  | .returns value, h => (optionalExpr_looks value h).last fun _ => looks_pure _
  | .breaks, _ | .continues, _ => looks_pure _
  | .throws value, ⟨h, _⟩ => (expr_looks value h).last fun _ => looks_pure _
  | .tryCatch body handlers ⟨last, _⟩, ⟨hbody, below⟩ =>
      have hrest := allOf_append.mp below
      (block_looks body hbody).along fun _ =>
        (catchClauses_looks handlers hrest.1).along fun _ => block_looks last hrest.2.1
  | .switch value cases otherwise, ⟨hvalue, below⟩ =>
      have hrest := allOf_append.mp below
      (expr_looks value hvalue).along fun subject =>
        (switchCases_looks subject cases hrest.1).along fun _ =>
          defaultCase_looks subject otherwise hrest.2
  | .function ⟨_, _, signature, body⟩, h =>
      have hparts := allOf_append.mp h
      have hsignature := allOf_append.mp hparts.1
      callable_looks _ body hsignature.1
        (fun t mem => Option.mem_some_iff.mp mem ▸ hsignature.2.1) hparts.2.1
  | .classType ⟨modifiers, name, generics, superclass, interfaces, members⟩, h => by
      obtain ⟨parents, hmembers⟩ := allOf_append.mp h
      obtain ⟨hsuperclass, hinterfaces⟩ := allOf_append.mp parents
      intro c
      have entered (known : ClassEntry) :=
        (classHead_looks known generics members hsuperclass hinterfaces).along fun _ =>
          (classBody_looks known (classMembers_looks members hmembers)).last fun _ =>
            leaveScope_silent.looks
      unfold classHead at entered
      simp only [bind_assoc] at entered
      unfold statementForm statementFormLookups
      rw [run_lookup_bind]
      cases c.scopes.lookup name.text with
      | none => exact looks_pure _ c
      | some e =>
          cases e with
          | cls known => exact entered known c
          | _ => exact looks_pure _ c
  | .structType d, h => structType_looks h

theorem statements_looks (ended warned : Bool) :
    ∀ ss : List Statement, AllOf (Node.Names N) (statementOutlines ss) →
      Looks N (statements ended warned ss) (statementsLookups ended warned ss)
  | [], _ => looks_pure _
  | s :: ss, ⟨hs, hss⟩ => by
      rw [statements_cons]
      exact (alarm_silent _ _ _).looks.after fun _ =>
        (statement_looks s hs).along fun _ => statements_looks _ _ ss hss

theorem optionalStatement_looks :
    ∀ s : Option Statement, AllOf (Node.Names N) (ScriptFront.optionalStatement s) →
      Looks N (optionalStatement s) (optionalStatementLookups s)
  | none, _ => looks_pure _
  | some s, h => statement_looks s h.1

theorem block_looks :
    ∀ b : Block, b.outline.All (Node.Names N) → Looks N (block b) (blockLookups b)
  | ⟨body, _⟩, h =>
      enterScope_silent.looks.after fun _ => (hoist_looks h.2).along fun _ =>
        (statements_looks false false body h.2).last fun _ => leaveLocalScope_silent.looks

theorem optionalBlock_looks :
    ∀ b : Option Block, AllOf (Node.Names N) (ScriptFront.optionalBlock b) →
      Looks N (optionalBlock b) (optionalBlockLookups b)
  | none, _ => looks_pure _
  | some b, h => block_looks b h.1

theorem elifClauses_looks :
    ∀ clauses : List ElifClause, AllOf (Node.Names N) (elifOutlines clauses) →
      Looks N (elifClauses clauses) (elifsLookups clauses)
  | [], _ => looks_pure _
  | ⟨test, body, _⟩ :: clauses, ⟨htest, hbody, hclauses⟩ =>
      (expr_looks test htest).along fun _ => (block_looks body hbody).along fun _ =>
        elifClauses_looks clauses hclauses

theorem catchClauses_looks :
    ∀ clauses : List CatchClause, AllOf (Node.Names N) (catchOutlines clauses) →
      Looks N (catchClauses clauses) (catchesLookups clauses)
  | [], _ => looks_pure _
  | ⟨_, name, body, _⟩ :: clauses, ⟨htype, hbody, hclauses⟩ =>
      enterScope_silent.looks.after fun _ => (caught_looks htype name).along fun _ =>
        (block_looks body hbody).along fun _ => leaveScope_silent.looks.after fun _ =>
          catchClauses_looks clauses hclauses

theorem switchCases_looks (subject : Option Ty) :
    ∀ cases : List SwitchCase, AllOf (Node.Names N) (caseOutlines cases) →
      Looks N (switchCases subject cases) (casesLookups subject cases)
  | [], _ => looks_pure _
  | ⟨_, body, _⟩ :: cases, h =>
      have hparts := allOf_append.mp h
      have hcase := allOf_append.mp hparts.1
      enterScope_silent.looks.after fun _ => (patterns_looks subject hcase.1).along fun _ =>
        (hoist_looks hcase.2).along fun _ => (statements_looks false false body hcase.2).along
          fun _ => leaveLocalScope_silent.looks.after fun _ =>
            switchCases_looks subject cases hparts.2

theorem defaultCase_looks (subject : Option Ty) :
    ∀ otherwise : Option SwitchCase, AllOf (Node.Names N) (optionalCase otherwise) →
      Looks N (defaultCase subject otherwise) (defaultLookups subject otherwise)
  | none, _ => looks_pure _
  | some ⟨_, body, _⟩, h =>
      have hparts := allOf_append.mp h
      enterScope_silent.looks.after fun _ => (patterns_looks subject hparts.1).along fun _ =>
        (hoist_looks hparts.2).along fun _ =>
          (statements_looks false false body hparts.2).last fun _ => leaveLocalScope_silent.looks

theorem callable_looks (generics : List Ident) {ps : List Param} {returns : Option TypeExpr} :
    ∀ b : Block, AllOf (Node.Names N) (ps.map Param.outline) →
      (∀ t ∈ returns, t.outline.All (Node.Names N)) → b.outline.All (Node.Names N) →
        Looks N (callable generics ps returns b) (callableLookups generics ps returns b)
  | ⟨body, place⟩, hps, hreturns, h => by
      rw [callable_eq]
      exact (callableHead_looks generics hps hreturns).along fun _ =>
        (hoist_looks h.2).along fun _ =>
          (statements_looks false false body h.2).last fun _ => leaveLocalScope_silent.looks

theorem classMembers_looks :
    ∀ ms : List ClassMember, AllOf (Node.Names N) (memberOutlines ms) →
      Looks N (classMembers ms) (membersLookups ms)
  | [], _ => looks_pure _
  | ⟨_, form, _⟩ :: ms, ⟨hform, hms⟩ =>
      (memberForm_looks form hform.2).along fun _ => classMembers_looks ms hms

theorem memberForm_looks :
    ∀ form : MemberForm, AllOf (Node.Names N) form.outlines →
      Looks N (memberForm form) (memberLookups form)
  | .constructor _ body, h =>
      have hparts := allOf_append.mp h
      constructor_looks (callable_looks [] body hparts.1 nofun hparts.2.1)
  | .method _ _ body, h | .operator _ _ _ body, h =>
      have hparts := allOf_append.mp h
      have hsignature := allOf_append.mp hparts.1
      callable_looks _ body hsignature.1
        (fun _ mem => Option.mem_some_iff.mp mem ▸ hsignature.2.1) hparts.2.1
  | .property _, ⟨type, init⟩ => property_looks type init

end

/-- The body of a program looks names up that the program mentions. -/
theorem body_looks {p : Program} (h : p.outline.All (Node.Names N)) :
    Looks N (body p) (bodyLookups p) := by
  have statements := (allOf_append.mp h.2).2
  rw [← statementOutlines_eq] at statements
  exact (hoist_looks statements).along fun _ => statements_looks false false p.body statements

end Check

/-! ### Unused imports -/

/-- The warnings about imported names that a program does not mention. -/
def Program.unmentioned (p : Program) (imported : List (String × Location)) : List Finding :=
  (imported.filter fun i => !p.outline.mentions.contains i.1).map fun i =>
    .warning (.unusedImport i.1) i.2

theorem Check.reported_unusedImports (p : Program) (c : Checker) :
    reported (unusedImports p) c = p.unmentioned c.imported := by
  let warned (i : String × Location) : Check Unit :=
    if !p.outline.mentions.contains i.1 then warn (.unusedImport i.1) i.2 else pure ()
  have each (imported : List (String × Location)) (d : Checker) :
      ((imported.forM warned).run d).2.findings = d.findings ++ p.unmentioned imported := by
    induction imported generalizing d with
    | nil => exact (List.append_nil _).symm
    | cons i imported ih =>
        have first : p.unmentioned (i :: imported) =
            (if !p.outline.mentions.contains i.1 then [.warning (.unusedImport i.1) i.2] else [])
              ++ p.unmentioned imported := by
          unfold Program.unmentioned
          rw [List.filter_cons]
          split <;> rfl
        rw [first]
        change (((if !p.outline.mentions.contains i.1 then warn (.unusedImport i.1) i.2
          else pure ()) >>= fun _ => imported.forM warned).run d).2.findings = _
        cases p.outline.mentions.contains i.1 with
        | true => exact ih d
        | false => exact (ih _).trans (List.append_assoc _ _ _)
  unfold reported unusedImports
  rw [run_get_bind]
  dsimp only
  split
  · next none_ => rw [List.isEmpty_iff.mp none_]; rfl
  · exact (each c.imported { c with findings := [] }).trans (List.nil_append _)

/-- Behind what is found in the body stand the warnings about imports, and a failure at most. -/
theorem Workspace.items_failing (file : Path) (p : Program) (w : Workspace) :
    let left := ((Check.body p).run { w.checker with findings := [] }).2
    ∃ failure : Option PhaseFailure, (∀ f ∈ failure, f.phase = .analysis) ∧
      (w.closing file p).session.log.items = w.session.log.items
        ++ (left.findings ++ p.unmentioned left.imported).map (·.toDiagnostic file)
        ++ failure.toList.map PhaseFailure.toDiagnostic := by
  intro left
  let v := w.perform file (Check.body p)
  let last := { v with session := v.session.finish file }.perform file (Check.unusedImports p)
  have unused : last.checker.findings = p.unmentioned left.imported :=
    Check.reported_unusedImports p left
  have items : last.session.log.items = w.session.log.items
      ++ (left.findings ++ p.unmentioned left.imported).map (·.toDiagnostic file) := by
    rw [List.map_append, ← List.append_assoc, ← unused]
    change (((w.session.report (left.findings.map _)).finish file).report _).log.items = _
    rw [Session.items_report, Session.log_finish, Session.items_report]
    rfl
  have closed : (w.closing file p).session =
      if last.errors = 0 then last.session
      else last.session.report [PhaseFailure.toDiagnostic ⟨.analysis, file, last.errors⟩] := by
    change (if last.errors = 0 then _ else _ : Analyzed).session = _
    split <;> rfl
  rw [closed]
  split
  · exact ⟨none, nofun, by rw [items, Option.toList_none, List.map_nil, List.append_nil]⟩
  · refine ⟨some _, ?_, by rw [Session.items_report, items]; rfl⟩
    rintro _ ⟨⟩
    rfl

/-- Behind what is found in the body stand the warnings about imports, and the aggregate at most. -/
theorem Workspace.items_closing (file : Path) (p : Program) (w : Workspace) :
    let left := ((Check.body p).run { w.checker with findings := [] }).2
    ∃ aggregate : List Diagnostic, (∀ d ∈ aggregate, d.kind = .programAnalysis) ∧
      (w.closing file p).session.log.items = w.session.log.items
        ++ (left.findings ++ p.unmentioned left.imported).map (·.toDiagnostic file)
        ++ aggregate := by
  obtain ⟨failure, phase, items⟩ := w.items_failing file p
  refine ⟨_, fun d mem => ?_, items⟩
  obtain ⟨f, failed, rfl⟩ := List.mem_map.mp mem
  have kind := phase f (Option.mem_toList.mp failed)
  rw [PhaseFailure.toDiagnostic, PhaseFailure.kind, kind]

/--
No import that is used is reported as unused. In the body of a program every name that is looked up,
whatever it is found to stand for, is one that the program mentions, and of an import of this name
nothing is reported. The names that do not resolve are those that are reported as such; behind the
findings in the body stand the warnings about the imports that are not mentioned, and the aggregate.
-/
theorem looked_up_imports_unreported (importer : Importer) (file : Path) (p : Program)
    (state : FileState) (session : Session) :
    let bound := p.imports.foldl (Workspace.bind importer file)
      (Workspace.opening file state session)
    let start := { bound.checker with findings := [] }
    let left := ((Check.body p).run start).2
    let lookups := Check.bodyLookups p start
    let findings := left.findings ++ p.unmentioned left.imported
    (∃ aggregate : List Diagnostic, (∀ d ∈ aggregate, d.kind = .programAnalysis) ∧
      (analyzeWith importer file p state session).session.log.items
        = bound.session.log.items ++ findings.map (·.toDiagnostic file) ++ aggregate) ∧
    left.findings.filter (·.isOfName) = lookups.filterMap Lookup.complaint? ∧
    ∀ l ∈ lookups, l.name ∈ p.outline.mentions ∧
      ∀ place, Finding.warning (.unusedImport l.name) place ∉ findings := by
  intro bound start left lookups findings
  have names : p.outline.All (Node.Names (· ∈ p.outline.mentions)) :=
    p.outline.all_of_walk fun n visited x mentioned =>
      List.mem_flatMap.mpr ⟨n, visited, mentioned⟩
  obtain ⟨⟨found, begun, complaints⟩, mentioned⟩ := Check.body_looks names start
  have all : left.findings = found := begun
  rw [Workspace.analyzeWith_eq]
  refine ⟨bound.items_closing file p, by rw [all, complaints], fun l mem => ?_⟩
  refine ⟨mentioned l mem, fun place warned => ?_⟩
  rcases List.mem_append.mp warned with inside | behind
  · -- A warning in the body would be a complaint, and these are errors.
    rw [all] at inside
    have complaint : Finding.warning (.unusedImport l.name) place ∈ found.filter (·.isOfName) :=
      List.mem_filter.mpr ⟨inside, rfl⟩
    rw [complaints] at complaint
    obtain ⟨l', -, complained⟩ := List.mem_filterMap.mp complaint
    unfold Lookup.complaint? at complained
    split at complained <;> cases complained
  · obtain ⟨i, unmentioned, same⟩ := List.mem_map.mp behind
    obtain ⟨-, absent⟩ := List.mem_filter.mp unmentioned
    injection same with warning
    injection warning with name
    simp [name, mentioned l mem] at absent

end ScriptFront
