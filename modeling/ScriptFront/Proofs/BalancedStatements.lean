import ScriptFront.Proofs.BalancedChecks

/-!
Statements are balanced: every statement but the declaration of variables leaves the frame that it
stands in as it was, and variables are declared in the innermost frame. Declarations ahead and their
completions reach no frame but the innermost one either.
-/

namespace ScriptFront
namespace Check

variable {Q : Finding → Prop} {i : Nat}

/-! ### Declarations ahead -/

theorem provisional_within {s : Statement} {name : Ident} {e : Entry}
    (ahead : s.provisional? = some (name, e)) :
    name ∈ (Node.statement s).idents ∧ e.isTracked = false := by
  obtain ⟨form, place⟩ := s
  unfold Statement.provisional? at ahead
  split at ahead <;> cases ahead
  all_goals
    next kind =>
      obtain rfl := kind
      exact ⟨List.mem_cons_self .., rfl⟩

theorem completed_untracked {s : Statement} {m : Meaning} {e : Entry}
    (known : s.completed? m = some e) : e.isTracked = false := by
  unfold Statement.completed? at known
  split at known <;> cases known <;> rfl

theorem within_of_untracked {e : Entry} (h : e.isTracked = false) : e.Within Q :=
  fun tracked => absurd (h.symm.trans tracked) Bool.false_ne_true

theorem declareAhead_balanced :
    ∀ ss : List Statement, (∀ s ∈ ss, (Node.statement s).Within (AllAt Q)) →
      Balanced Q (i + 1) (i + 1) (declareAhead ss)
  | [], _ => balanced_pure _
  | s :: ss, h => by
      obtain ⟨here, below⟩ := List.forall_mem_cons.mp h
      have rest := declareAhead_balanced ss below
      unfold declareAhead
      split
      · exact rest
      · next name entry ahead =>
          obtain ⟨named, untracked⟩ := provisional_within ahead
          intro c d twin within
          rw [run_get_bind, run_get_bind]
          obtain ⟨existing, taken, taken'⟩ | ⟨s, t, free, free', step⟩ :=
            define_inStep (within_of_untracked untracked) twin within
          · simp only [taken, taken']
            have reported : Balanced Q (i + 1) (i + 1) (error (.redeclaration name.text) name.location) :=
              error_balanced (here.ident named) (by simp [SemanticFault.kind])
            exact (reported.bind fun _ => rest) c d twin within
          · simp only [free, free']
            exact step.next (rest.bind fun _ => balanced_pure _)

theorem complete_balanced {e : Entry} (he : e.Within Q) :
    Balanced Q (i + 1) (i + 1)
      (modify fun c => { c with scopes := c.scopes.complete e } : Check Unit) := by
  intro c d twin within
  obtain ⟨current, outer⟩ := twin.current
  rw [Scopes.frames_eq, framesWithin_cons] at within
  have completed : ∀ old ∈ (c.scopes.current.complete e).entries, old.Within Q := by
    intro entry mem
    obtain ⟨old, inside, rfl⟩ := List.mem_map.mp mem
    split
    · exact he
    · exact within.1 old inside
  refine ⟨rfl, ⟨?_, twin.classes, twin.inConstructor, twin.imported⟩, ?_, ⟨?_, rfl, id, rfl⟩,
    [], (List.append_nil _).symm, (List.append_nil _).symm, nofun⟩
  · change FramesTwin (i + 1) (c.scopes.complete e).frames (d.scopes.complete e).frames
    rw [Scopes.frames_complete, Scopes.frames_complete, current]
    exact .inner _ outer
  · change FramesWithin Q (i + 1) (c.scopes.complete e).frames
    rw [Scopes.frames_complete, framesWithin_cons]
    exact ⟨completed, within.2⟩
  · change ((c.scopes.complete e).frames.map Frame.entries).drop (i + 1) = _
    rw [Scopes.frames_complete, Scopes.frames_eq c.scopes]
    rfl

theorem completeEntry_balanced (s : Statement) : Balanced Q (i + 1) (i + 1) (completeEntry s) := by
  refine meaning_balanced.bind fun m => ?_
  split
  · next known => exact complete_balanced (within_of_untracked (completed_untracked known))
  · exact balanced_pure _

theorem hoist_balanced {body : List Statement} (h : ∀ s ∈ body, (Node.statement s).Within (AllAt Q)) :
    Balanced Q (i + 1) (i + 1) (hoist body) :=
  (declareAhead_balanced body h).bind fun _ => balanced_forM fun s _ => completeEntry_balanced s

/-! ### Parts of statements -/

theorem optionalExpr_balanced :
    ∀ e : Option Expr, AllOf (Node.Within (AllAt Q)) (ScriptFront.optionalExpr e) →
      Balanced Q i i (optionalExpr e)
  | none, _ => balanced_pure _
  | some e, h => expr_balanced e h.1

/-- The type of the variables of a declaration, whose initial value is checked. -/
def variableType (d : VariableDeclaration) : Check Ty := do
  let found ← optionalExpr d.init
  if d.type.isInfer then return found.getD .inferred
  else
    let declared := (← resolveType d.type).getD .inferred
    match d.init with
    | some init => assignable? found (some declared) init.location
    | none => pure ()
    return declared

/-- The entry of a variable that has a type. -/
def variableEntry (d : VariableDeclaration) (name : Ident) (type : Ty) : Entry :=
  .var ⟨name.text, type, d.isConstant || d.modifiers.isImmutable, d.init.isSome, d.modifiers,
    some name.location⟩

/-- Variables are declared once their type is known. -/
theorem varGroup_eq (d : VariableDeclaration) :
    varGroup d = (do
      let type ← variableType d
      d.names.forM fun name => declare (variableEntry d name type) name.location) := by
  unfold varGroup variableType
  simp only [bind_assoc]
  refine bind_congr fun found => ?_
  split
  · rfl
  · simp only [bind_assoc]
    refine bind_congr fun type => ?_
    unfold variableEntry
    cases d.init <;> simp only [bind_assoc, pure_bind]

theorem variableType_balanced {d : VariableDeclaration}
    (type : d.type.outline.All (Node.Within (AllAt Q)))
    (init : AllOf (Node.Within (AllAt Q)) (ScriptFront.optionalExpr d.init)) :
    Balanced Q i i (variableType d) := by
  refine (optionalExpr_balanced d.init init).bind fun found => ?_
  split
  · exact balanced_pure _
  · refine (resolveType_balanced type).bind fun _ => ?_
    dsimp only
    split
    · next given =>
        rw [given] at init
        exact (assignable?_balanced _ _ (within_location init.1)).bind fun _ => balanced_pure _
    · exact balanced_pure _

theorem varGroup_balanced {d : VariableDeclaration} (named : ∀ x ∈ d.names, AllAt Q x.location)
    (type : d.type.outline.All (Node.Within (AllAt Q)))
    (init : AllOf (Node.Within (AllAt Q)) (ScriptFront.optionalExpr d.init)) :
    Balanced Q (i + 1) (i + 1) (varGroup d) := by
  rw [varGroup_eq]
  exact (variableType_balanced type init).bind fun _ => balanced_forM fun x mem =>
    declare_balanced (named x mem) (Entry.within_of_place fun _ => named x mem)

theorem assignment_balanced {target value : Expr} (ht : target.outline.All (Node.Within (AllAt Q)))
    (hv : value.outline.All (Node.Within (AllAt Q))) : Balanced Q i i (assignment target value) :=
  (expr_balanced value hv).bind fun _ =>
    (expr_balanced target ht).bind fun _ =>
      (writable_balanced (within_location ht)).bind fun _ =>
        assignable?_balanced _ _ (within_location hv)

theorem alone_balanced {e : Expr} (h : e.outline.All (Node.Within (AllAt Q))) :
    Balanced Q i i (alone e) := by
  refine (expr_balanced e h).bind fun _ => ?_
  split
  · exact warn_balanced _ (within_location h)
  · exact balanced_pure _

theorem params_balanced {ps : List Param} (h : AllOf (Node.Within (AllAt Q)) (ps.map Param.outline)) :
    Balanced Q (i + 1) (i + 1) (params ps) := by
  refine balanced_forM fun p mem => ?_
  obtain ⟨here, type, -⟩ := allOf_iff.mp h _ (List.mem_map_of_mem mem)
  have place : AllAt Q p.name.location := here.ident (List.mem_singleton.mpr rfl)
  exact (resolveType_balanced type).bind fun _ =>
    declare_balanced place (Entry.within_of_place fun _ => place)

theorem caught_balanced {type : TypeExpr} {name : Ident} (h : type.outline.All (Node.Within (AllAt Q)))
    (place : AllAt Q name.location) : Balanced Q (i + 1) (i + 1) (caught type name) :=
  (resolveType_balanced h).bind fun _ =>
    declare_balanced place (localVariable_within _ _ place)

theorem property_balanced {d : PropertyDefinition} (type : d.type.outline.All (Node.Within (AllAt Q)))
    (init : AllOf (Node.Within (AllAt Q)) (ScriptFront.optionalExpr d.init)) :
    Balanced Q i i (property d) := by
  unfold property
  extract_lets next
  have initial (declared : Option Ty) : Balanced Q i i (next declared) := by
    dsimp only [next]
    split
    · next given =>
        rw [given] at init
        exact (expr_balanced _ init.1).bind fun _ =>
          assignable?_balanced _ _ (within_location init.1)
    · exact balanced_pure _
  split
  · exact (balanced_pure _).bind fun _ => initial _
  · exact (resolveType_balanced type).bind fun _ => initial _

theorem resolveTypes_balanced {ts : List TypeExpr} (h : AllOf (Node.Within (AllAt Q)) (typeOutlines ts)) :
    Balanced Q i i (ts.forM fun t => do let _ ← resolveType t) := by
  refine balanced_forM fun t mem => ?_
  have inside : t.outline.All (Node.Within (AllAt Q)) := by
    induction ts with
    | nil => cases mem
    | cons u ts ih =>
        obtain rfl | mem := List.mem_cons.mp mem
        · exact h.1
        · exact ih h.2 mem
  exact (resolveType_balanced inside).bind fun _ => balanced_pure _

theorem structType_balanced {d : TypeDeclaration} (generics : ∀ g ∈ d.generics, AllAt Q g.location)
    (fields : AllOf (Node.Within (AllAt Q)) (d.fields.map (·.type.outline))) :
    Balanced Q i i (structType d) := by
  refine enterScope_balanced.bind fun _ =>
    (declareGenerics_balanced generics).bind fun _ =>
      (balanced_forM fun f mem => ?_).bind fun _ => leaveScope_balanced
  have type := allOf_iff.mp fields _ (List.mem_map_of_mem mem)
  exact (resolveType_balanced type).bind fun _ => balanced_pure _

theorem parents_balanced {superclass : Option TypeExpr} {interfaces : List TypeExpr}
    (h : AllOf (Node.Within (AllAt Q)) (superclass.toList.map TypeExpr.outline))
    (h' : AllOf (Node.Within (AllAt Q)) (typeOutlines interfaces)) :
    Balanced Q i i (parents superclass interfaces) := by
  have resolved := resolveTypes_balanced (i := i) h'
  unfold parents
  dsimp only
  split
  · next t =>
      have type : t.outline.All (Node.Within (AllAt Q)) := h.1
      obtain ⟨form, place⟩ := t
      refine (resolveType_balanced type).bind fun _ => ?_
      split
      · split
        · exact (error_balanced type.1.location (by simp [SemanticFault.kind])).bind fun _ => resolved
        · exact resolved
      · exact resolved
  · exact resolved

theorem mem_idents_of_memberInScope {c : ClassEntry} {m : ClassMember} {e : Entry}
    {place : Location} (h : memberInScope? c m = some (e, place)) :
    (∃ x ∈ (Node.member m).idents, place = x.location) ∧
      (e.isTracked = true → e.location = some place) := by
  obtain ⟨modifiers, form, at_⟩ := m
  unfold memberInScope? at h
  split at h
  · next d isProperty =>
      obtain ⟨_, -, same⟩ := Option.map_eq_some_iff.mp h
      cases same
      subst isProperty
      exact ⟨⟨d.name, List.mem_singleton.mpr rfl, rfl⟩, fun _ => rfl⟩
  · next name signature body isMethod =>
      obtain ⟨_, -, same⟩ := Option.map_eq_some_iff.mp h
      cases same
      subst isMethod
      exact ⟨⟨name, List.mem_cons_self .., rfl⟩, fun _ => rfl⟩
  · cases h

theorem bodyEntries_balanced (c : ClassEntry) {ms : List ClassMember}
    (h : ∀ m ∈ ms, (Node.member m).Within (AllAt Q)) :
    Balanced Q (i + 1) (i + 1) (bodyEntries c ms) :=
  balanced_forM fun (e, place) inside => by
    obtain ⟨m, mem, declared⟩ := List.mem_filterMap.mp inside
    obtain ⟨⟨x, named, rfl⟩, located⟩ := mem_idents_of_memberInScope declared
    have at_ : AllAt Q x.location := (h m mem).ident named
    refine declare_balanced at_ (Entry.within_of_place fun tracked => ?_)
    rw [located tracked]
    exact at_

/-- The members of a class are checked with the class around them. -/
theorem insideClass_balanced (e : ClassEntry) {m : Check Unit} (hm : Balanced Q i i m) :
    Balanced Q i i (do
      modify fun s => { s with classes := e :: s.classes }
      m
      modify fun s => { s with classes := s.classes.tail }) := by
  intro c d twin within
  obtain ⟨-, twin', within', keeps, found⟩ := hm { c with classes := e :: c.classes }
    { d with classes := e :: d.classes }
    ⟨twin.frames, congrArg (e :: ·) twin.classes, twin.inConstructor, twin.imported⟩ within
  exact ⟨rfl, ⟨twin'.frames, congrArg List.tail twin'.classes, twin'.inConstructor, twin'.imported⟩,
    within', ⟨keeps.entries, congrArg List.tail keeps.classes, keeps.inConstructor, keeps.imported⟩,
    found⟩

/-- Outside of its constructors a class may not write what is read-only. -/
theorem insideConstructor_balanced {m : Check Unit} (hm : Balanced Q i i m) :
    Balanced Q i i (do
      modify fun s => { s with inConstructor := true }
      m
      modify fun s => { s with inConstructor := false }) := by
  intro c d twin within
  obtain ⟨-, twin', within', keeps, found⟩ := hm { c with inConstructor := true }
    { d with inConstructor := true } ⟨twin.frames, twin.classes, rfl, twin.imported⟩ within
  exact ⟨rfl, ⟨twin'.frames, twin'.classes, rfl, twin'.imported⟩, within',
    ⟨keeps.entries, keeps.classes, fun _ => rfl, keeps.imported⟩, found⟩

/-! ### Statements -/

theorem within_of_statementOutlines {body : List Statement}
    (h : AllOf (Node.Within (AllAt Q)) (statementOutlines body)) :
    ∀ s ∈ body, (Node.statement s).Within (AllAt Q) := by
  rw [statementOutlines_eq] at h
  intro s mem
  have all := allOf_iff.mp h _ (List.mem_map_of_mem mem)
  cases s with
  | mk form place => exact all.1

theorem within_of_memberOutlines :
    ∀ {ms : List ClassMember}, AllOf (Node.Within (AllAt Q)) (memberOutlines ms) →
      ∀ m ∈ ms, (Node.member m).Within (AllAt Q)
  | [], _ => nofun
  | ⟨_, _, _⟩ :: _, h => List.forall_mem_cons.mpr ⟨h.1.1, within_of_memberOutlines h.2⟩

theorem patterns_balanced (subject : Option Ty) {ps : List Pattern}
    (h : AllOf (Node.Within (AllAt Q)) (ps.map Pattern.outline)) :
    Balanced Q (i + 1) (i + 1) (ps.forM (pattern subject)) :=
  balanced_forM fun p mem => pattern_balanced subject p (allOf_iff.mp h _ (List.mem_map_of_mem mem))

mutual

/-- A statement, at the top level of a file any but the declaration of variables. -/
theorem statement_balanced {i : Nat} :
    ∀ s : Statement, s.outline.All (Node.Within (AllAt Q)) → (∀ d, s.form = .varGroup d → 0 < i) →
      Balanced Q i i (statement s)
  | ⟨form, _⟩, h, inner => statementForm_balanced form (fun _ => h.1.ident) h.2 inner

theorem statementForm_balanced {i : Nat} :
    ∀ form : StatementForm,
      (∀ x, x ∈ (Node.statement ⟨form, .nowhere⟩).idents → AllAt Q x.location) →
      AllOf (Node.Within (AllAt Q)) form.outlines → (∀ d, form = .varGroup d → 0 < i) →
      Balanced Q i i (statementForm form)
  | .varGroup d, names, h, inner => by
      obtain ⟨k, rfl⟩ := Nat.exists_eq_add_one_of_ne_zero (Nat.ne_of_gt (inner d rfl))
      exact varGroup_balanced names h.1 h.2
  | .assignment _ _, _, h, _ => assignment_balanced h.1 h.2.1
  | .expression _, _, h, _ => alone_balanced h.1
  | .block b, _, h, _ => block_balanced b h.1
  | .conditional test body elifs otherwise, _, h, _ => by
      obtain ⟨condition, first, more⟩ := h
      obtain ⟨middle, last⟩ := allOf_append.mp more
      exact (expr_balanced test condition).bind fun _ =>
        (block_balanced body first).bind fun _ =>
          (elifClauses_balanced elifs middle).bind fun _ => optionalBlock_balanced otherwise last
  | .whileLoop test body, _, h, _ =>
      (expr_balanced test h.1).bind fun _ => block_balanced body h.2.1
  | .forLoop init test update body, _, h, _ => by
      obtain ⟨head, inside⟩ := allOf_append.mp h
      obtain ⟨head, after⟩ := allOf_append.mp head
      obtain ⟨before, condition⟩ := allOf_append.mp head
      exact enterScope_balanced.bind fun _ =>
        (optionalStatement_balanced init before).bind fun _ =>
          (optionalExpr_balanced test condition).bind fun _ =>
            (optionalStatement_balanced update after).bind fun _ =>
              (block_balanced body inside.1).bind fun _ => leaveLocalScope_balanced
  | .returns value, _, h, _ => (optionalExpr_balanced value h).bind fun _ => balanced_pure _
  | .breaks, _, _, _ | .continues, _, _, _ => balanced_pure _
  | .throws value, _, h, _ => (expr_balanced value h.1).bind fun _ => balanced_pure _
  | .tryCatch body handlers ⟨last, _⟩, names, h, _ => by
      obtain ⟨middle, final⟩ := allOf_append.mp h.2
      have caught : ∀ c ∈ handlers, AllAt Q c.name.location :=
        fun _ mem => names _ (List.mem_map_of_mem mem)
      exact (block_balanced body h.1).bind fun _ =>
        (catchClauses_balanced handlers caught middle).bind fun _ => block_balanced last final.1
  | .switch value cases otherwise, _, h, _ => by
      obtain ⟨arms, last⟩ := allOf_append.mp h.2
      exact (expr_balanced value h.1).bind fun subject =>
        (switchCases_balanced subject cases arms).bind fun _ =>
          defaultCase_balanced subject otherwise last
  | .function ⟨_, _, signature, body⟩, names, h, _ => by
      obtain ⟨outlines, inside⟩ := allOf_append.mp h
      obtain ⟨params, returns⟩ := allOf_append.mp outlines
      exact callable_balanced _ _ (some _) (fun g mem => names g (List.mem_cons_of_mem _ mem)) params
        returns body inside.1
  | .classType ⟨_, name, generics, superclass, interfaces, members⟩, names, h, _ => by
      obtain ⟨above, inside⟩ := allOf_append.mp h
      obtain ⟨superclasses, types⟩ := allOf_append.mp above
      have named : ∀ g ∈ generics, AllAt Q g.location :=
        fun g mem => names g (List.mem_cons_of_mem _ mem)
      refine (lookup_balanced _).bind fun entry => ?_
      split
      · next c =>
          have checked := insideClass_balanced c (classMembers_balanced (i := i + 1) members inside)
          have whole := enterScope_balanced.bind fun _ =>
            (declareGenerics_balanced named).bind fun _ =>
              (parents_balanced superclasses types).bind fun _ =>
                (bodyEntries_balanced c (within_of_memberOutlines inside)).bind fun _ =>
                  checked.bind fun _ => leaveScope_balanced
          simp only [bind_assoc] at whole
          exact whole
      · exact balanced_pure _
  | .structType d, names, h, _ =>
      structType_balanced (fun g mem => names g (List.mem_cons_of_mem _ mem)) h

/-- Statements inside of a block. -/
theorem statements_balanced {i : Nat} (ended warned : Bool) :
    ∀ ss : List Statement, AllOf (Node.Within (AllAt Q)) (statementOutlines ss) →
      Balanced Q (i + 1) (i + 1) (statements ended warned ss)
  | [], _ => balanced_pure _
  | ⟨form, place⟩ :: ss, h => by
      have first := statement_balanced ⟨form, place⟩ h.1 fun _ _ => Nat.succ_pos i
      unfold statements
      dsimp only
      split
      · exact (warn_balanced _ h.1.1.location).bind fun _ =>
          first.bind fun _ => statements_balanced _ _ ss h.2
      · exact first.bind fun _ => statements_balanced _ _ ss h.2

theorem optionalStatement_balanced {i : Nat} :
    ∀ s : Option Statement, AllOf (Node.Within (AllAt Q)) (ScriptFront.optionalStatement s) →
      Balanced Q (i + 1) (i + 1) (optionalStatement s)
  | none, _ => balanced_pure _
  | some s, h => statement_balanced s h.1 fun _ _ => Nat.succ_pos i

theorem block_balanced {i : Nat} :
    ∀ b : Block, b.outline.All (Node.Within (AllAt Q)) → Balanced Q i i (block b)
  | ⟨body, _⟩, h =>
      enterScope_balanced.bind fun _ =>
        (hoist_balanced (within_of_statementOutlines h.2)).bind fun _ =>
          (statements_balanced false false body h.2).bind fun _ => leaveLocalScope_balanced

theorem optionalBlock_balanced {i : Nat} :
    ∀ b : Option Block, AllOf (Node.Within (AllAt Q)) (ScriptFront.optionalBlock b) →
      Balanced Q i i (optionalBlock b)
  | none, _ => balanced_pure _
  | some b, h => block_balanced b h.1

theorem elifClauses_balanced {i : Nat} :
    ∀ clauses : List ElifClause, AllOf (Node.Within (AllAt Q)) (elifOutlines clauses) →
      Balanced Q i i (elifClauses clauses)
  | [], _ => balanced_pure _
  | ⟨test, body, _⟩ :: clauses, h =>
      (expr_balanced test h.1).bind fun _ =>
        (block_balanced body h.2.1).bind fun _ => elifClauses_balanced clauses h.2.2

theorem catchClauses_balanced {i : Nat} :
    ∀ clauses : List CatchClause, (∀ c ∈ clauses, AllAt Q c.name.location) →
      AllOf (Node.Within (AllAt Q)) (catchOutlines clauses) → Balanced Q i i (catchClauses clauses)
  | [], _, _ => balanced_pure _
  | ⟨_, _, body, _⟩ :: clauses, names, h =>
      enterScope_balanced.bind fun _ =>
        (caught_balanced h.1 (names _ (List.mem_cons_self ..))).bind fun _ =>
          (block_balanced body h.2.1).bind fun _ =>
            leaveScope_balanced.bind fun _ =>
              catchClauses_balanced clauses (fun c mem => names c (List.mem_cons_of_mem _ mem)) h.2.2

theorem switchCases_balanced {i : Nat} (subject : Option Ty) :
    ∀ cases : List SwitchCase, AllOf (Node.Within (AllAt Q)) (caseOutlines cases) →
      Balanced Q i i (switchCases subject cases)
  | [], _ => balanced_pure _
  | ⟨_, body, _⟩ :: cases, h => by
      obtain ⟨arm, more⟩ := allOf_append.mp h
      obtain ⟨patterns, inside⟩ := allOf_append.mp arm
      exact enterScope_balanced.bind fun _ =>
        (patterns_balanced subject patterns).bind fun _ =>
          (hoist_balanced (within_of_statementOutlines inside)).bind fun _ =>
            (statements_balanced false false body inside).bind fun _ =>
              leaveLocalScope_balanced.bind fun _ => switchCases_balanced subject cases more

theorem defaultCase_balanced {i : Nat} (subject : Option Ty) :
    ∀ otherwise : Option SwitchCase, AllOf (Node.Within (AllAt Q)) (optionalCase otherwise) →
      Balanced Q i i (defaultCase subject otherwise)
  | none, _ => balanced_pure _
  | some ⟨_, body, _⟩, h => by
      obtain ⟨patterns, inside⟩ := allOf_append.mp h
      exact enterScope_balanced.bind fun _ =>
        (patterns_balanced subject patterns).bind fun _ =>
          (hoist_balanced (within_of_statementOutlines inside)).bind fun _ =>
            (statements_balanced false false body inside).bind fun _ => leaveLocalScope_balanced

theorem callable_balanced {i : Nat} (generics : List Ident) (ps : List Param)
    (returns : Option TypeExpr) (hg : ∀ g ∈ generics, AllAt Q g.location)
    (hp : AllOf (Node.Within (AllAt Q)) (ps.map Param.outline))
    (hr : AllOf (Node.Within (AllAt Q)) (returns.toList.map TypeExpr.outline)) :
    ∀ b : Block, b.outline.All (Node.Within (AllAt Q)) → Balanced Q i i (callable generics ps returns b)
  | ⟨body, _⟩, h => by
      have rest : Balanced Q (i + 1) i
          (do params ps; hoist body; statements false false body; leaveLocalScope) :=
        (params_balanced hp).bind fun _ =>
          (hoist_balanced (within_of_statementOutlines h.2)).bind fun _ =>
            (statements_balanced false false body h.2).bind fun _ => leaveLocalScope_balanced
      refine enterScope_balanced.bind fun _ => (declareGenerics_balanced hg).bind fun _ => ?_
      split
      · exact (resolveType_balanced hr.1).bind fun _ => rest
      · exact rest

theorem classMembers_balanced {i : Nat} :
    ∀ ms : List ClassMember, AllOf (Node.Within (AllAt Q)) (memberOutlines ms) →
      Balanced Q i i (classMembers ms)
  | [], _ => balanced_pure _
  | ⟨_, form, _⟩ :: ms, h =>
      (memberForm_balanced form (fun _ => h.1.1.ident) h.1.2).bind fun _ =>
        classMembers_balanced ms h.2

theorem memberForm_balanced {i : Nat} :
    ∀ form : MemberForm,
      (∀ x, x ∈ (Node.member ⟨.empty, form, .nowhere⟩).idents → AllAt Q x.location) →
      AllOf (Node.Within (AllAt Q)) form.outlines → Balanced Q i i (memberForm form)
  | .constructor ps body, _, h => by
      obtain ⟨params, inside⟩ := allOf_append.mp h
      exact insideConstructor_balanced (callable_balanced [] ps none nofun params trivial body inside.1)
  | .method _ _ body, names, h => by
      obtain ⟨outlines, inside⟩ := allOf_append.mp h
      obtain ⟨params, returns⟩ := allOf_append.mp outlines
      exact callable_balanced _ _ (some _) (fun g mem => names g (List.mem_cons_of_mem _ mem)) params
        returns body inside.1
  | .operator _ _ _ body, names, h => by
      obtain ⟨outlines, inside⟩ := allOf_append.mp h
      obtain ⟨params, returns⟩ := allOf_append.mp outlines
      exact callable_balanced _ _ (some _) names params returns body inside.1
  | .property _, _, h => property_balanced h.1 h.2

end

/-- Any outline, where all findings are welcome. -/
theorem within_anything (o : Outline) : o.All (Node.Within (AllAt fun _ => True)) :=
  o.all_of_forall fun _ _ _ _ _ _ => trivial

end Check
end ScriptFront
