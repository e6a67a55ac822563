import ScriptFront.Proofs.Concatenation
import ScriptFront.Proofs.TreeHeight

/-!
The heights of statements and whole programs. Every level of the grammar adds at most two nodes to a
path, and there are as many levels as the limit allows, so that the height of a program is bounded
by its limit as long as array, union and intersection types do not count. With these it is not
bounded.
-/

namespace ScriptFront

/-! ### Lists of outlines -/

theorem elifOutlines_append (es es' : List ElifClause) :
    elifOutlines (es ++ es') = elifOutlines es ++ elifOutlines es' := by
  induction es with
  | nil => rfl
  | cons e es ih =>
      obtain ⟨test, body, place⟩ := e
      simp [elifOutlines, ih]

theorem catchOutlines_append (hs hs' : List CatchClause) :
    catchOutlines (hs ++ hs') = catchOutlines hs ++ catchOutlines hs' := by
  induction hs with
  | nil => rfl
  | cons h hs ih =>
      obtain ⟨type, name, body, place⟩ := h
      simp [catchOutlines, ih]

theorem caseOutlines_append (cs cs' : List SwitchCase) :
    caseOutlines (cs ++ cs') = caseOutlines cs ++ caseOutlines cs' := by
  induction cs with
  | nil => rfl
  | cons c cs ih =>
      obtain ⟨patterns, body, place⟩ := c
      simp [caseOutlines, ih]

namespace Grammar

open ScriptFront.Parser

variable {limit n : Nat} {g : Grammar} (h : Bounded limit n g)

theorem reach_succ (limit n : Nat) : reach limit (n + 1) = reach limit n + 2 := by
  simp only [reach]
  omega

include h

/-! ### What is no statement -/

omit h in
theorem expr_le_reach {e : Expr} (he : e.Bounded limit) : e.outline.nesting ≤ reach limit n := by
  have height := he.height
  have tight : e.outline.nesting ≤ 2 * e.height + (limit + 1) := he.tight
  simp only [reach]
  omega

theorem Bounded.type_le {t : TypeExpr} (ht : t.outline.nesting ≤ n) :
    t.outline.nesting ≤ reach limit n := by
  have levels := h.levels
  simp only [reach]
  omega

omit h in
theorem pattern_le_reach {p : Pattern} (hp : p.Bounded limit) :
    p.outline.nesting ≤ reach limit n := by
  refine Nat.le_trans (Pattern.nesting_le limit hp fun inner guard form => ?_) ?_
  · obtain ⟨_, place⟩ := p
    cases form
    exact hp.2.height
  · simp only [reach]
    omega

theorem nesting_param : Yields (fun p => p.outline.nesting ≤ reach limit n) (param g) := by
  refine yields_bind fun place => yields_bind fun isRest => yields_bind fun ident => ?_
  refine yields_bind fun _ => yields_bind_of h.typeExpr fun type htype => yields_pure ?_
  have levels := h.levels
  have node := nesting_node (.parameter ⟨ident, type, isRest, place⟩)
    (shallow_cons.mpr ⟨htype, shallow_nil⟩)
  exact Nat.le_trans node (by simp only [reach]; omega)

theorem nesting_params :
    Yields (fun ps => ∀ p ∈ ps, p.outline.nesting ≤ reach limit n) (params g) := by
  refine yields_bind fun _ => ?_
  refine yields_bind_of (Q := fun ps => ∀ p ∈ ps, p.outline.nesting ≤ reach limit n)
    (yields_iterate_of (fun ps hps => ?_) nofun) fun ps hps => yields_bind fun _ => yields_pure hps
  refine yields_bind fun closed => ?_
  split
  · exact yields_pure hps
  · have tail : Yields (fun r => ∀ p ∈ r.value, p.outline.nesting ≤ reach limit n) (do
        let ps := ps ++ [← param g]
        if ← accept .comma then return ForInStep.yield ps else return .done ps) := by
      refine yields_bind_of (nesting_param h) fun p hp => yields_bind fun comma => ?_
      have more : ∀ q ∈ ps ++ [p], q.outline.nesting ≤ reach limit n :=
        List.forall_mem_append.mpr ⟨hps, List.forall_mem_singleton.mpr hp⟩
      split
      · exact yields_pure more
      · exact yields_pure more
    extract_lets next
    split
    · split
      · exact yields_bind fun _ => tail
      · exact tail
    · exact tail

theorem nesting_signature :
    Yields (fun s => Shallow (reach limit n) s.outlines) (signature g) := by
  refine yields_bind fun generics => yields_bind_of (nesting_params h) fun ps hps => ?_
  refine yields_bind_of (Q := fun t => t.outline.nesting ≤ n) (yields_bind fun _ => h.typeExpr)
    fun returns hreturns => yields_pure ?_
  refine shallow_append.mpr ⟨shallow_map.mpr hps, ?_⟩
  exact shallow_cons.mpr ⟨h.type_le hreturns, shallow_nil⟩

theorem nesting_initializer :
    Yields (fun init => Shallow (reach limit n) (optionalExpr init)) (initializer g) := by
  refine yields_bind fun equal => ?_
  split
  · refine yields_bind_of h.expression fun e he => yields_pure ?_
    exact shallow_cons.mpr ⟨expr_le_reach he, shallow_nil⟩
  · exact yields_pure shallow_nil

theorem nesting_variableType (isConstant : Bool) :
    Yields (fun t => t.outline.nesting ≤ reach limit n) (variableType g isConstant) := by
  have inferred (place : Location) : (TypeExpr.outline ⟨.infer, place⟩).nesting ≤ reach limit n :=
    Nat.le_trans (nesting_type (k := 0) shallow_nil) (by simp only [reach]; omega)
  refine yields_bind fun t => yields_bind fun next => ?_
  split
  · exact yields_bind fun _ => yields_pure (inferred _)
  · split
    · exact yields_pure (inferred _)
    · exact h.typeExpr.imp fun _ ht => h.type_le ht

theorem nesting_varGroup (ms : Modifiers) :
    Yields (fun d => Shallow (reach limit n) (StatementForm.varGroup d).outlines)
      (varGroup g ms) := by
  refine yields_bind fun isConstant => ?_
  refine yields_bind_of (nesting_variableType h isConstant) fun type htype => ?_
  refine yields_bind fun names => yields_bind_of (nesting_initializer h) fun init hinit => ?_
  exact yields_pure (shallow_cons.mpr ⟨htype, hinit⟩)

/-! ### Declarations -/

theorem shallow_function (ms : Modifiers) :
    Yields (fun d => Shallow (reach limit n) (StatementForm.function d).outlines)
      (function g ms) := by
  refine yields_bind fun _ => yields_bind fun ident => ?_
  refine yields_bind_of (nesting_signature h) fun sig hsig => ?_
  refine yields_bind_of h.block fun body hbody => yields_pure ?_
  exact shallow_append.mpr ⟨hsig, shallow_cons.mpr ⟨hbody, shallow_nil⟩⟩

theorem shallow_structType (ms : Modifiers) :
    Yields (fun d => Shallow (reach limit n) (StatementForm.structType d).outlines)
      (structType g ms) := by
  refine yields_bind fun _ => yields_bind fun ident => yields_bind fun generics => ?_
  refine yields_bind fun _ => ?_
  refine yields_bind_of (Q := fun fields => ∀ f ∈ fields, f.type.outline.nesting ≤ reach limit n)
    (yields_iterate_of (fun fields hfields => ?_) nofun) fun fields hfields => ?_
  · refine yields_bind fun closed => yields_bind fun done => ?_
    split
    · exact yields_pure hfields
    · refine yields_bind fun field => yields_bind fun _ => ?_
      refine yields_bind_of h.typeExpr fun type htype => yields_bind fun semicolon => ?_
      have more : ∀ f ∈ fields ++ [⟨field, type, field.location⟩],
          f.type.outline.nesting ≤ reach limit n :=
        List.forall_mem_append.mpr ⟨hfields, List.forall_mem_singleton.mpr (h.type_le htype)⟩
      split
      · exact yields_pure more
      · refine yields_bind fun comma => ?_
        split
        · exact yields_pure more
        · exact yields_pure more
  · exact yields_bind fun _ => yields_pure (shallow_map.mpr hfields)

/-! ### Class bodies -/

theorem shallow_operatorMember :
    Yields (fun form => Shallow (reach limit n) form.outlines) (operatorMember g) := by
  refine yields_bind fun t => ?_
  split
  · refine yields_bind fun generics => yields_bind_of (nesting_params h) fun ps hps => ?_
    split
    · exact yields_fail
    · refine yields_bind_of (Q := fun t => t.outline.nesting ≤ n) (yields_bind fun _ => h.typeExpr)
        fun returns hreturns => yields_bind_of h.block fun body hbody => yields_pure ?_
      refine shallow_append.mpr ⟨?_, shallow_cons.mpr ⟨hbody, shallow_nil⟩⟩
      refine shallow_append.mpr ⟨shallow_map.mpr hps, ?_⟩
      exact shallow_cons.mpr ⟨h.type_le hreturns, shallow_nil⟩
  · exact yields_fail

theorem shallow_constructorMember :
    Yields (fun form => Shallow (reach limit n) form.outlines) (constructorMember g) := by
  refine yields_bind_of (nesting_params h) fun ps hps => yields_bind fun typed => ?_
  split
  · exact yields_bind fun _ => yields_fail
  · refine yields_bind_of h.block fun body hbody => yields_pure ?_
    exact shallow_append.mpr ⟨shallow_map.mpr hps, shallow_cons.mpr ⟨hbody, shallow_nil⟩⟩

theorem shallow_methodMember (className : String) (ms : Modifiers) (place : Location) :
    Yields (fun form => Shallow (reach limit n) form.outlines)
      (methodMember g className ms place) := by
  refine yields_bind fun _ => yields_bind fun ident => ?_
  split
  · exact yields_bind fun _ => shallow_constructorMember h
  · refine yields_bind_of (nesting_signature h) fun sig hsig => ?_
    refine yields_bind_of h.block fun body hbody => yields_pure ?_
    exact shallow_append.mpr ⟨hsig, shallow_cons.mpr ⟨hbody, shallow_nil⟩⟩

theorem shallow_propertyMember :
    Yields (fun form => Shallow (reach limit n) form.outlines) (propertyMember g) := by
  refine yields_bind_of h.typeExpr fun type htype => yields_bind fun ident => ?_
  refine yields_bind_of (nesting_initializer h) fun init hinit => ?_
  exact yields_bind fun _ => yields_pure (shallow_cons.mpr ⟨h.type_le htype, hinit⟩)

theorem nesting_member (className : String) :
    Yields (fun m => m.outline.nesting ≤ reach limit n + 1) (member g className) := by
  refine yields_bind fun place => yields_bind fun ms => ?_
  refine yields_bind fun named => yields_bind fun method => ?_
  have member : ∀ form : MemberForm, Shallow (reach limit n) form.outlines →
      Yields (fun m => m.outline.nesting ≤ reach limit n + 1)
        (pure ⟨ms, form, place⟩ : Parser ClassMember) := by
    intro form hform
    refine yields_pure ?_
    rw [ClassMember.outline]
    exact nesting_node _ hform
  split
  · exact yields_bind fun _ => yields_bind_of (shallow_operatorMember h) member
  · split
    · exact yields_bind_of (shallow_methodMember h className ms place) member
    · exact yields_bind_of (shallow_propertyMember h) member

theorem nesting_members (className : String) :
    Yields (fun ms => ∀ m ∈ ms, m.outline.nesting ≤ reach limit n + 1) (members g className) := by
  refine yields_iterate_of
    (fun ms hms => yields_bind fun closed => yields_bind fun done => ?_) nofun
  split
  · exact yields_pure hms
  · refine yields_bind fun stray => ?_
    split
    · exact yields_pure hms
    · refine yields_bind_of (nesting_member h className) fun m hm => ?_
      have more : ∀ q ∈ ms ++ [m], q.outline.nesting ≤ reach limit n + 1 :=
        List.forall_mem_append.mpr ⟨hms, List.forall_mem_singleton.mpr hm⟩
      split
      · exact yields_bind fun _ => yields_pure more
      · exact yields_pure more

theorem shallow_classType (ms : Modifiers) :
    Yields (fun d => Shallow (reach limit n + 1) (StatementForm.classType d).outlines)
      (classType g ms) := by
  refine yields_bind fun _ => yields_bind fun ident => yields_bind fun generics => ?_
  refine yields_bind fun extending => ?_
  extract_lets rest
  have tail : ∀ superclass : Option TypeExpr, (∀ t ∈ superclass, t.outline.nesting ≤ n) →
      Yields (fun d => Shallow (reach limit n + 1) (StatementForm.classType d).outlines)
        (rest superclass) := by
    intro superclass hsuperclass
    refine yields_bind fun implementing => ?_
    extract_lets body
    have tail : ∀ interfaces : List TypeExpr, (∀ t ∈ interfaces, t.outline.nesting ≤ n) →
        Yields (fun d => Shallow (reach limit n + 1) (StatementForm.classType d).outlines)
          (body interfaces) := by
      intro interfaces hinterfaces
      refine yields_bind fun _ => yields_bind_of (nesting_members h _) fun members hmembers => ?_
      refine yields_bind fun _ => yields_pure ?_
      have one : ∀ {t : TypeExpr}, t.outline.nesting ≤ n → t.outline.nesting ≤ reach limit n + 1 :=
        fun ht => Nat.le_succ_of_le (h.type_le ht)
      simp only [StatementForm.outlines, shallow_append, shallow_map, typeOutlines_eq,
        memberOutlines_eq]
      exact ⟨⟨fun t mem => one (hsuperclass t (Option.mem_toList.mp mem)),
        fun t mem => one (hinterfaces t mem)⟩, hmembers⟩
    split
    · exact yields_bind_of (yields_items h.typeExpr) tail
    · exact yields_bind_of (yields_pure (List.forall_mem_nil _)) tail
  split
  · refine yields_bind_of (h.typeExpr.map fun t ht => ?_) tail
    intro t' mem
    cases mem
    exact ht
  · exact yields_bind_of (yields_pure (by rintro t ⟨⟩)) tail

omit h in
theorem nesting_statement {form : StatementForm} {place : Location}
    (shallow : Shallow (reach limit n + 1) form.outlines) :
    (Statement.outline ⟨form, place⟩).nesting ≤ reach limit (n + 1) := by
  rw [Statement.outline, reach_succ]
  exact nesting_node _ shallow

theorem nesting_declaration :
    Yields (fun s => s.outline.nesting ≤ reach limit (n + 1)) (declaration g) := by
  refine yields_bind fun place => yields_bind fun ms => yields_bind fun t => ?_
  split
  · exact yields_bind_of (shallow_function h ms) fun d hd => yields_pure (nesting_statement hd.succ)
  · exact yields_bind_of (shallow_classType h ms) fun d hd => yields_pure (nesting_statement hd)
  · exact yields_bind_of (shallow_structType h ms) fun d hd =>
      yields_pure (nesting_statement hd.succ)
  · refine yields_bind_of (nesting_varGroup h ms) fun d hd => ?_
    exact yields_bind fun _ => yields_pure (nesting_statement hd.succ)

/-! ### Statements -/

/-- An assignment or expression is no higher than what it is made of. -/
theorem nesting_simple :
    Yields (fun s => s.outline.nesting ≤ reach limit n + 1) (simple g) := by
  have statement : ∀ {form : StatementForm} {place : Location},
      Shallow (reach limit n) form.outlines →
      (Statement.outline ⟨form, place⟩).nesting ≤ reach limit n + 1 := by
    intro form place shallow
    rw [Statement.outline]
    exact nesting_node _ shallow
  refine yields_bind fun place => yields_bind_of h.expression fun target htarget => ?_
  refine yields_bind fun t => ?_
  split
  · exact yields_pure (statement (shallow_cons.mpr ⟨expr_le_reach htarget, shallow_nil⟩))
  · refine yields_bind fun operator => ?_
    split
    · refine yields_bind_of h.expression fun right hright => ?_
      have assigned : ∀ value : Expr, value.Bounded limit →
          Yields (fun s => s.outline.nesting ≤ reach limit n + 1)
            (pure ⟨.assignment target value, place⟩ : Parser Statement) := fun value hvalue =>
        yields_pure <| statement <| shallow_cons.mpr ⟨expr_le_reach htarget,
          shallow_cons.mpr ⟨expr_le_reach hvalue, shallow_nil⟩⟩
      split
      · refine yields_bind_of (bounded_node h ?_) assigned
        exact shallow_cons.mpr ⟨htarget.below (Nat.le_max_left ..),
          shallow_cons.mpr ⟨hright.below (Nat.le_max_right ..), shallow_nil⟩⟩
      · exact yields_bind_of (yields_pure hright) assigned
    · exact yields_fail

theorem nesting_terminated :
    Yields (fun s => s.outline.nesting ≤ reach limit (n + 1)) (terminated g) := by
  refine yields_bind_of (nesting_simple h) fun s hs => yields_bind fun _ => yields_pure ?_
  rw [reach_succ]
  exact Nat.le_succ_of_le hs

theorem nesting_statementsUntil (stop : TokenKind → Bool) :
    Yields (fun body => ∀ s ∈ body, s.outline.nesting ≤ reach limit n)
      (statementsUntil g stop) := by
  refine yields_iterate_of (fun body hbody => yields_bind fun t => yields_bind fun done => ?_) nofun
  split
  · exact yields_pure hbody
  · refine yields_bind fun stray => ?_
    split
    · exact yields_pure hbody
    · exact yields_bind_of h.statement fun s hs => yields_pure
        (List.forall_mem_append.mpr ⟨hbody, List.forall_mem_singleton.mpr hs⟩)

theorem nesting_blockForm :
    Yields (fun b => b.outline.nesting ≤ reach limit (n + 1)) (blockForm g) := by
  refine yields_bind fun opener => yields_bind_of (nesting_statementsUntil h _) fun body hbody => ?_
  refine yields_bind fun _ => yields_pure ?_
  rw [Block.outline, reach_succ, statementOutlines_eq]
  exact Nat.le_succ_of_le (nesting_node _ (shallow_map.mpr hbody))

theorem shallow_ifForm :
    Yields (fun form => Shallow (reach limit n) form.outlines) (ifForm g) := by
  refine yields_bind fun _ => yields_bind_of h.expression fun test htest => ?_
  refine yields_bind_of h.block fun body hbody => ?_
  refine yields_bind_of (Q := fun elifs => Shallow (reach limit n) (elifOutlines elifs))
    (yields_iterate_of (fun elifs helifs => yields_bind fun t => ?_) shallow_nil)
    fun elifs helifs => ?_
  · split
    · refine yields_bind fun _ => yields_bind_of h.expression fun test htest => ?_
      refine yields_bind_of h.block fun body hbody => yields_pure ?_
      simp only [ForInStep.value, elifOutlines_append, elifOutlines, shallow_append, shallow_cons]
      exact ⟨helifs, expr_le_reach htest, hbody, shallow_nil⟩
    · exact yields_pure helifs
  · have whole : ∀ otherwise : Option Block, Shallow (reach limit n) (optionalBlock otherwise) →
        Yields (fun form => Shallow (reach limit n) form.outlines)
          (pure (.conditional test body elifs otherwise) : Parser StatementForm) := by
      intro otherwise hotherwise
      refine yields_pure (shallow_cons.mpr ⟨expr_le_reach htest, shallow_cons.mpr ⟨hbody, ?_⟩⟩)
      exact shallow_append.mpr ⟨helifs, hotherwise⟩
    refine yields_bind fun else_ => ?_
    split
    · exact yields_bind_of (h.block.map fun b hb => shallow_cons.mpr ⟨hb, shallow_nil⟩) whole
    · exact yields_bind_of (yields_pure shallow_nil) whole

theorem shallow_whileForm :
    Yields (fun form => Shallow (reach limit n) form.outlines) (whileForm g) := by
  refine yields_bind fun _ => yields_bind_of h.expression fun test htest => ?_
  refine yields_bind_of h.block fun body hbody => yields_pure ?_
  exact shallow_cons.mpr ⟨expr_le_reach htest, shallow_cons.mpr ⟨hbody, shallow_nil⟩⟩

theorem nesting_forInit :
    Yields (fun s => s.outline.nesting ≤ reach limit n + 1) (forInit g) := by
  refine yields_bind fun place => yields_bind fun starts => ?_
  split
  · refine yields_bind_of (nesting_varGroup h _) fun d hd => yields_pure ?_
    rw [Statement.outline]
    exact nesting_node _ hd
  · exact nesting_simple h

/-- An optional expression of bounded height. -/
theorem shallow_optionalExpr {limit' : Nat} (le : reach limit n ≤ limit') :
    Yields (fun e => Shallow limit' (optionalExpr e)) (some <$> g.expression) :=
  h.expression.map fun _ he =>
    shallow_cons.mpr ⟨Nat.le_trans (expr_le_reach he) le, shallow_nil⟩

theorem shallow_forForm :
    Yields (fun form => Shallow (reach limit n + 1) form.outlines) (forForm g) := by
  have one : ∀ {p : Parser Statement}, Yields (fun s => s.outline.nesting ≤ reach limit n + 1) p →
      Yields (fun s => Shallow (reach limit n + 1) (optionalStatement s)) (some <$> p) := fun hp =>
    hp.map fun _ hs => shallow_cons.mpr ⟨hs, shallow_nil⟩
  refine yields_bind fun _ => yields_bind fun _ => yields_bind fun noInit => ?_
  extract_lets afterInit
  have init : ∀ init, Shallow (reach limit n + 1) (optionalStatement init) →
      Yields (fun form => Shallow (reach limit n + 1) form.outlines) (afterInit init) := by
    intro init hinit
    refine yields_bind fun _ => yields_bind fun noTest => ?_
    extract_lets afterTest
    have test : ∀ test, Shallow (reach limit n + 1) (optionalExpr test) →
        Yields (fun form => Shallow (reach limit n + 1) form.outlines) (afterTest test) := by
      intro test htest
      refine yields_bind fun _ => yields_bind fun noUpdate => ?_
      extract_lets afterUpdate
      have update : ∀ update, Shallow (reach limit n + 1) (optionalStatement update) →
          Yields (fun form => Shallow (reach limit n + 1) form.outlines) (afterUpdate update) := by
        intro update hupdate
        refine yields_bind fun _ => yields_bind_of h.block fun body hbody => yields_pure ?_
        simp only [StatementForm.outlines, shallow_append]
        refine ⟨⟨⟨hinit, htest⟩, hupdate⟩, ?_⟩
        exact shallow_cons.mpr ⟨Nat.le_succ_of_le hbody, shallow_nil⟩
      split
      · exact yields_bind_of (yields_pure shallow_nil) update
      · exact yields_bind_of (one (nesting_simple h)) update
    split
    · exact yields_bind_of (yields_pure shallow_nil) test
    · exact yields_bind_of (shallow_optionalExpr h (Nat.le_succ _)) test
  split
  · exact yields_bind_of (yields_pure shallow_nil) init
  · exact yields_bind_of (one (nesting_forInit h)) init

theorem shallow_tryForm :
    Yields (fun form => Shallow (reach limit n) form.outlines) (tryForm g) := by
  refine yields_bind fun _ => yields_bind_of h.block fun body hbody => ?_
  refine yields_bind_of (Q := fun handlers => Shallow (reach limit n) (catchOutlines handlers))
    (yields_iterate_of (fun handlers hhandlers => yields_bind fun t => ?_) shallow_nil)
    fun handlers hhandlers => ?_
  · split
    · refine yields_bind fun _ => yields_bind fun _ => ?_
      refine yields_bind_of h.typeExpr fun type htype => yields_bind fun ident => ?_
      refine yields_bind fun _ => yields_bind_of h.block fun body hbody => yields_pure ?_
      simp only [ForInStep.value, catchOutlines_append, catchOutlines, shallow_append, shallow_cons]
      exact ⟨hhandlers, h.type_le htype, hbody, shallow_nil⟩
    · exact yields_pure hhandlers
  · extract_lets next
    have tail : ∀ r, Yields (fun form => Shallow (reach limit n) form.outlines) (next r) := by
      intro r
      refine yields_bind fun opener => yields_bind_of h.block fun last hlast => yields_pure ?_
      refine shallow_cons.mpr ⟨hbody, shallow_append.mpr ⟨hhandlers, ?_⟩⟩
      exact shallow_cons.mpr ⟨hlast, shallow_nil⟩
    split
    · exact yields_bind fun _ => yields_bind tail
    · exact tail ()

theorem nesting_caseBody :
    Yields (fun body => ∀ s ∈ body, s.outline.nesting ≤ reach limit n + 1) (caseBody g) := by
  refine yields_bind fun place => yields_bind fun opened => ?_
  split
  · refine yields_bind_of h.block fun body hbody => yields_pure (List.forall_mem_singleton.mpr ?_)
    rw [Statement.outline]
    exact nesting_node _ (shallow_cons.mpr ⟨hbody, shallow_nil⟩)
  · exact (nesting_statementsUntil h _).imp fun body hbody s mem => Nat.le_succ_of_le (hbody s mem)

theorem shallow_caseStep {cases : Cases}
    (hcases : Shallow (reach limit n + 1) (caseOutlines cases.1 ++ optionalCase cases.2)) :
    Yields (fun r => Shallow (reach limit n + 1)
      (caseOutlines r.value.1 ++ optionalCase r.value.2)) (caseStep g cases) := by
  obtain ⟨hcases', hdefault⟩ := shallow_append.mp hcases
  refine yields_bind fun closed => yields_bind fun done => ?_
  split
  · exact yields_pure hcases
  · refine yields_bind fun place => yields_bind fun isDefault => ?_
    split
    · have tail : Yields (fun r => Shallow (reach limit n + 1)
            (caseOutlines r.value.1 ++ optionalCase r.value.2)) (do
          let _ ← expect .colon "':' after default"
          let body ← caseBody g
          return ForInStep.yield
            (cases.1, some (⟨[⟨.wildcard, place⟩], body, place⟩ : SwitchCase))) := by
        refine yields_bind fun _ => yields_bind_of (nesting_caseBody h) fun body hbody => ?_
        have statements : Shallow (reach limit n + 1) (statementOutlines body) := by
          rw [statementOutlines_eq]
          exact shallow_map.mpr hbody
        have wildcard : (Pattern.outline ⟨.wildcard, place⟩).nesting ≤ reach limit n + 1 :=
          Nat.le_trans (nesting_node (k := 0) _ shallow_nil) (by omega)
        refine yields_pure (shallow_append.mpr ⟨hcases', ?_⟩)
        exact shallow_append.mpr
            ⟨shallow_map.mpr (List.forall_mem_singleton.mpr wildcard), statements⟩
      split
      · exact yields_bind fun _ => tail
      · exact tail
    · refine yields_bind fun _ => yields_bind_of (bounded_pattern h false) fun first hfirst => ?_
      refine yields_bind_of (Q := fun ps => ∀ p ∈ ps, p.Bounded limit)
        (yields_iterate_of (fun ps hps => yields_bind fun more => ?_) nofun)
        fun others hothers => ?_
      · split
        · exact yields_bind_of (bounded_pattern h false) fun p hp => yields_pure
            (List.forall_mem_append.mpr ⟨hps, List.forall_mem_singleton.mpr hp⟩)
        · exact yields_pure hps
      · refine yields_bind fun _ => yields_bind_of (nesting_caseBody h) fun body hbody => ?_
        refine yields_pure ?_
        simp only [ForInStep.value, caseOutlines_append, caseOutlines, statementOutlines_eq,
          shallow_append, shallow_map, shallow_nil, and_true]
        refine ⟨⟨hcases', fun p mem => ?_, hbody⟩, hdefault⟩
        exact Nat.le_succ_of_le
          (pattern_le_reach (List.forall_mem_cons.mpr ⟨hfirst, hothers⟩ p mem))

theorem shallow_switchForm :
    Yields (fun form => Shallow (reach limit n + 1) form.outlines) (switchForm g) := by
  refine yields_bind fun _ => yields_bind_of h.expression fun value hvalue => ?_
  refine yields_bind fun _ => yields_bind_of
    (yields_iterate_of (fun cases hcases => shallow_caseStep h hcases) shallow_nil)
    fun cases hcases => ?_
  refine yields_bind fun _ => yields_pure (shallow_cons.mpr ⟨?_, hcases⟩)
  exact Nat.le_succ_of_le (expr_le_reach hvalue)

theorem shallow_returnForm :
    Yields (fun form => Shallow (reach limit n) form.outlines) (returnForm g) := by
  refine yields_bind fun _ => yields_bind fun empty => ?_
  extract_lets next
  have tail : ∀ value, Shallow (reach limit n) (optionalExpr value) →
      Yields (fun form => Shallow (reach limit n) form.outlines) (next value) := fun value hvalue =>
    yields_bind fun _ => yields_pure hvalue
  split
  · exact yields_bind_of (yields_pure shallow_nil) tail
  · exact yields_bind_of (shallow_optionalExpr h (Nat.le_refl _)) tail

theorem shallow_throwForm :
    Yields (fun form => Shallow (reach limit n) form.outlines) (throwForm g) := by
  refine yields_bind fun _ => yields_bind_of h.expression fun value hvalue => ?_
  split
  · refine yields_bind fun _ => yields_pure ?_
    exact shallow_cons.mpr ⟨expr_le_reach hvalue, shallow_nil⟩
  · exact yields_fail

omit h in
theorem shallow_jump {form : StatementForm} (none_ : form.outlines = []) :
    Yields (fun form => Shallow (reach limit n) form.outlines) (jump form) := by
  refine yields_bind fun _ => yields_bind fun _ => yields_pure ?_
  rw [none_]
  exact shallow_nil

theorem nesting_keywordStatement (t : Token) (k : Keyword) :
    Yields (fun s => s.outline.nesting ≤ reach limit (n + 1)) (keywordStatement g t k) := by
  have located : ∀ {form : Parser StatementForm},
      Yields (fun form => Shallow (reach limit n + 1) form.outlines) form →
      Yields (fun s => s.outline.nesting ≤ reach limit (n + 1))
        (do return (⟨← form, t.location⟩ : Statement)) := fun hform =>
    yields_bind_of hform fun form shallow => yields_pure (nesting_statement shallow)
  have lower : ∀ {form : Parser StatementForm},
      Yields (fun form => Shallow (reach limit n) form.outlines) form →
      Yields (fun s => s.outline.nesting ≤ reach limit (n + 1))
        (do return (⟨← form, t.location⟩ : Statement)) := fun hform =>
    located (hform.imp fun _ shallow => shallow.succ)
  simp only [keywordStatement]
  split
  case h_1 => exact lower (shallow_ifForm h)
  case h_2 => exact lower (shallow_whileForm h)
  case h_3 => exact located (shallow_forForm h)
  case h_4 => exact lower (shallow_tryForm h)
  case h_5 => exact located (shallow_switchForm h)
  case h_6 => exact lower (shallow_returnForm h)
  case h_7 | h_8 => exact lower (shallow_jump (by rw [StatementForm.outlines]))
  case h_9 => exact lower (shallow_throwForm h)
  case h_10 | h_11 | h_12 | h_13 | h_14 => exact nesting_declaration h
  case h_15 | h_16 | h_17 | h_18 => exact nesting_terminated h
  case h_19 =>
    split
    · exact nesting_declaration h
    · exact yields_fail

theorem nesting_statementForm :
    Yields (fun s => s.outline.nesting ≤ reach limit (n + 1)) (statementForm g) := by
  refine yields_bind fun t => ?_
  split
  · refine yields_bind_of h.block fun body hbody => yields_pure (nesting_statement ?_)
    exact shallow_cons.mpr ⟨Nat.le_succ_of_le hbody, shallow_nil⟩
  · exact nesting_keywordStatement h _ _
  · refine yields_bind fun declares => ?_
    split
    · exact nesting_declaration h
    · exact nesting_terminated h
  · exact nesting_terminated h

/-! ### Levels -/

theorem Bounded.above (room : n ≤ limit) : Bounded limit (n + 1) g.above where
  bound := h.bound
  levels := Nat.succ_le_succ room
  expression := yields_nested _ (bounded_conditional h)
  operand := yields_nested _ (bounded_operandForm h)
  primary := yields_nested _ (bounded_primaryForm h)
  typeExpr := yields_nested _ (nesting_unionType h.typeExpr)
  block := yields_nested _ (nesting_blockForm h)
  statement := yields_nested _ (nesting_statementForm h)

omit h in
theorem bounded_ofLevels (room : n ≤ limit + 1) : Bounded limit n (ofLevels limit n) := by
  induction n with
  | zero =>
      exact {
        bound := rfl
        levels := room
        expression := fun _ _ _ run => nomatch run
        operand := fun _ _ _ run => nomatch run
        primary := fun _ _ _ run => nomatch run
        typeExpr := fun _ _ _ run => nomatch run
        block := fun _ _ _ run => nomatch run
        statement := fun _ _ _ run => nomatch run }
  | succ n ih => exact (ih (Nat.le_of_succ_le room)).above (Nat.le_of_succ_le_succ room)

end Grammar

/-! ### Programs -/

open ScriptFront.Parser

theorem Reads.body_of {P : Statement → Prop} {g : Grammar} {d d' : Draft} {s s' : Cursor}
    (reads : Reads g d s d' s') (h : Yields P g.statement) (hd : ∀ st ∈ d.body, P st) :
    ∀ st ∈ d'.body, P st := by
  induction reads with
  | done _ => exact hd
  | stray _ _ ih => exact ih hd
  | statement _ _ first _ _ ih =>
      obtain ⟨_, st, read, added⟩ := readStatement_eq_ok.mp first
      apply ih
      rw [Draft.body_addStatement added]
      exact List.forall_mem_append.mpr ⟨hd, List.forall_mem_singleton.mpr (h _ _ _ read)⟩

namespace Program

variable {limit : Nat}

theorem nesting_of_parse {tokens : List Token} {p : Program} (h : parse limit tokens = .ok p) :
    p.outline.nesting ≤ 5 * limit + 5 := by
  obtain ⟨_, s, reads⟩ := parse_eq_ok.mp h
  have bounded : Grammar.Bounded limit (limit + 1) (.ofLimit limit) :=
    Grammar.bounded_ofLevels (Nat.le_refl _)
  have empty : (Draft.afterImports tokens).1.body = [] := (readImports_grows _ _).1
  have body := reads.body_of bounded.statement (by rw [empty]; exact nofun)
  refine nesting_node (k := 5 * limit + 4) _
    (shallow_append.mpr ⟨shallow_map.mpr ?_, shallow_map.mpr ?_⟩)
  · intro i _
    exact Nat.le_trans (nesting_node (k := 0) _ shallow_nil) (by omega)
  · intro st mem
    exact Nat.le_trans (body st mem) (by simp only [Grammar.reach]; omega)

end Program

/-! ### Array types without bound -/

namespace Outline

variable {counts : Node → Bool}

theorem height_node (root : Node) (os : List Outline) :
    (Outline.node root os).height = 1 + greatestHeight (fun _ => true) os := by
  simp [height, heightOf]

theorem height_child {o : Outline} {os : List Outline} (mem : o ∈ os) (root : Node) :
    o.height < (Outline.node root os).height := by
  have below := greatestHeight_le_iff.mp (Nat.le_refl (greatestHeight (fun _ => true) os)) o mem
  rw [height_node]
  simp only [height]
  omega

end Outline

/-- Pairs of square brackets, a name and a semicolon. -/
def suffixesOf : Nat → List Token
  | 0 => [⟨.identifier, "x", .start⟩, ⟨.semicolon, ";", .start⟩]
  | n + 1 => ⟨.openSquare, "[", .start⟩ :: ⟨.closeSquare, "]", .start⟩ :: suffixesOf n

/-- The declaration of a variable whose type is an array type, as often as wanted. -/
def arrayDeclaration (n : Nat) : List Token := ⟨.keyword .kwInt, "int", .start⟩ :: suffixesOf n

/-- Array types around a type. -/
def TypeExpr.arrays : Nat → TypeExpr → TypeExpr
  | 0, t => t
  | n + 1, t => arrays n ⟨.array t, t.location⟩

/-- The statement that declares a variable of an array type. -/
def arrayStatement (n : Nat) : Statement :=
  ⟨.varGroup ⟨.empty, false, (TypeExpr.named "int" .start).arrays n, [⟨"x", .start⟩], none⟩, .start⟩

theorem TypeExpr.le_height_arrays (n : Nat) (t : TypeExpr) :
    n + t.outline.height ≤ (t.arrays n).outline.height := by
  induction n generalizing t with
  | zero => exact Nat.le_of_eq (Nat.zero_add _)
  | succ n ih =>
      have wrapped := ih ⟨.array t, t.location⟩
      have child : t.outline.height < (TypeExpr.outline ⟨.array t, t.location⟩).height := by
        rw [TypeExpr.outline.eq_def ⟨.array t, t.location⟩]
        exact Outline.height_child (List.mem_singleton_self _) _
      rw [TypeExpr.arrays]
      omega

namespace Grammar

variable {g : Grammar} {stop : Ending} {depth : Nat}

theorem arrayType_suffixes (n : Nat) :
    arrayType g ⟨arrayDeclaration n, stop, depth⟩
      = .ok ((TypeExpr.named "int" .start).arrays n) ⟨suffixesOf 0, stop, depth⟩ := by
  have base : baseType g ⟨arrayDeclaration n, stop, depth⟩
      = .ok (TypeExpr.named "int" .start) ⟨suffixesOf n, stop, depth⟩ := rfl
  refine (bind_of_ok base).trans ?_
  clear base
  generalize TypeExpr.named "int" .start = t
  induction n generalizing t with
  | zero => exact iterate_of_done rfl
  | succ n ih =>
      exact (iterate_of_round rfl (Nat.lt_succ_of_lt (Nat.lt_succ_self _))).trans (ih _)

theorem unionType_suffixes (n : Nat) :
    unionType g ⟨arrayDeclaration n, stop, depth⟩
      = .ok ((TypeExpr.named "int" .start).arrays n) ⟨suffixesOf 0, stop, depth⟩ := by
  have intersection : intersectionType g ⟨arrayDeclaration n, stop, depth⟩
      = .ok ((TypeExpr.named "int" .start).arrays n) ⟨suffixesOf 0, stop, depth⟩ :=
    (bind_of_ok (arrayType_suffixes n)).trans (iterate_of_done rfl)
  exact (bind_of_ok intersection).trans (iterate_of_done rfl)

theorem declaration_suffixes {n : Nat} (type : g.typeExpr ⟨arrayDeclaration n, stop, depth⟩
      = .ok ((TypeExpr.named "int" .start).arrays n) ⟨suffixesOf 0, stop, depth⟩) :
    declaration g ⟨arrayDeclaration n, stop, depth⟩
      = .ok (arrayStatement n) ⟨[], stop, depth⟩ := by
  have ms : modifiers ⟨arrayDeclaration n, stop, depth⟩
      = .ok .empty ⟨arrayDeclaration n, stop, depth⟩ := iterate_of_done rfl
  have const : acceptKeyword .kwConst ⟨arrayDeclaration n, stop, depth⟩
      = .ok false ⟨arrayDeclaration n, stop, depth⟩ := rfl
  have variableType : variableType g false ⟨arrayDeclaration n, stop, depth⟩
      = .ok ((TypeExpr.named "int" .start).arrays n) ⟨suffixesOf 0, stop, depth⟩ := type
  have first : name "a variable name" ⟨suffixesOf 0, stop, depth⟩
      = .ok ⟨"x", .start⟩ ⟨(suffixesOf 0).tail, stop, depth⟩ := rfl
  have names : commaSeparated (name "a variable name") ⟨suffixesOf 0, stop, depth⟩
      = .ok [⟨"x", .start⟩] ⟨(suffixesOf 0).tail, stop, depth⟩ :=
    (bind_of_ok first).trans ((bind_of_ok (iterate_of_done rfl)).trans rfl)
  have group : varGroup g .empty ⟨arrayDeclaration n, stop, depth⟩
      = .ok ⟨.empty, false, (TypeExpr.named "int" .start).arrays n, [⟨"x", .start⟩], none⟩
        ⟨(suffixesOf 0).tail, stop, depth⟩ :=
    (bind_of_ok const).trans ((bind_of_ok variableType).trans ((bind_of_ok names).trans rfl))
  have start : here ⟨arrayDeclaration n, stop, depth⟩
      = .ok .start ⟨arrayDeclaration n, stop, depth⟩ := rfl
  refine (bind_of_ok start).trans ((bind_of_ok ms).trans ?_)
  exact (bind_of_ok group).trans rfl

theorem statement_suffixes (limit n : Nat) (stop : Ending) :
    (ofLimit (limit + 2)).statement ⟨arrayDeclaration n, stop, 0⟩
      = .ok (arrayStatement n) ⟨[], stop, 0⟩ := by
  have type : (ofLevels (limit + 2) (limit + 2)).typeExpr ⟨arrayDeclaration n, stop, 1⟩
      = .ok ((TypeExpr.named "int" .start).arrays n) ⟨suffixesOf 0, stop, 1⟩ := by
    change nested (ofLevels (limit + 2) (limit + 1)).limit _ _ = _
    rw [limit_ofLevels]
    simp only [nested, if_neg (show ¬limit + 2 ≤ 1 by omega), unionType_suffixes]
  have form : statementForm (ofLevels (limit + 2) (limit + 2)) ⟨arrayDeclaration n, stop, 1⟩
      = .ok (arrayStatement n) ⟨[], stop, 1⟩ := declaration_suffixes type
  change nested (ofLevels (limit + 2) (limit + 2)).limit (statementForm _) _ = _
  rw [limit_ofLevels]
  simp only [nested, if_neg (show ¬limit + 2 ≤ 0 by omega), form]

end Grammar

namespace Program

theorem parse_arrayDeclaration (limit n : Nat) :
    parse (limit + 2) (arrayDeclaration n) = .ok ⟨[], [arrayStatement n], none, [], .start⟩ := by
  have endless : ∀ t ∈ arrayDeclaration n, (t.kind != .eof) = true := by
    refine List.forall_mem_cons.mpr ⟨rfl, ?_⟩
    induction n with
    | zero => decide
    | succ n ih => exact List.forall_mem_cons.mpr ⟨rfl, List.forall_mem_cons.mpr ⟨rfl, ih⟩⟩
  have rest : (Cursor.ofTokens (arrayDeclaration n)).rest = arrayDeclaration n :=
    List.takeWhile_eq_self_iff.mpr endless
  obtain ⟨stop, start⟩ : ∃ stop, Cursor.ofTokens (arrayDeclaration n)
      = ⟨arrayDeclaration n, stop, 0⟩ := ⟨_, congrArg (fun rest => Cursor.mk rest _ 0) rest⟩
  have imports : Draft.afterImports (arrayDeclaration n)
      = (.empty, ⟨arrayDeclaration n, stop, 0⟩) := by
    rw [Draft.afterImports, readImports, start]
    rfl
  refine parse_eq_ok.mpr ⟨rfl, ⟨[], stop, 0⟩, ?_⟩
  rw [imports]
  have added : Draft.empty.addStatement (arrayStatement n)
      = .ok ⟨[], [arrayStatement n], none, [], []⟩ := by
    have plain : ∀ m, (arrayStatement n).modifiers.has m = false := Modifiers.has_empty
    simp only [Draft.addStatement, plain]
    rfl
  have read := readStatement_eq_ok.mpr
    ⟨rfl, arrayStatement n, Grammar.statement_suffixes limit n stop, added⟩
  exact .statement (List.cons_ne_nil _ _) (by rintro ⟨⟩) read (Nat.succ_pos _) (.done rfl)

/--
The height of a program is bounded by the limit alone if array, union and intersection types do not
count. With array types it is not.
-/
theorem parse_height (limit : Nat) :
    (∀ tokens p, parse limit tokens = .ok p → p.outline.nesting ≤ 5 * limit + 5) ∧
      (2 ≤ limit → ∀ n, ∃ tokens p, parse limit tokens = .ok p ∧ n < p.outline.height) := by
  refine ⟨fun tokens p h => nesting_of_parse h, fun enough n => ?_⟩
  obtain ⟨limit, rfl⟩ := Nat.exists_eq_add_of_le' enough
  refine ⟨_, _, parse_arrayDeclaration limit n, ?_⟩
  have type := TypeExpr.le_height_arrays n (.named "int" .start)
  have statement : ((TypeExpr.named "int" .start).arrays n).outline.height
      < (Statement.outline (arrayStatement n)).height := by
    rw [arrayStatement, Statement.outline]
    exact Outline.height_child (List.mem_cons_self ..) _
  have program : (Statement.outline (arrayStatement n)).height
      < (Program.outline ⟨[], [arrayStatement n], none, [], .start⟩).height := by
    exact Outline.height_child (List.mem_singleton_self _) _
  omega

theorem parse_height_of_arrays :
    (∃ p, parse nestingLimit (arrayDeclaration 3) = .ok p ∧ p.outline.nesting ≤ 505) ∧
      2 ≤ nestingLimit ∧
      ∃ tokens p, parse nestingLimit tokens = .ok p ∧ 1000000 < p.outline.height := by
  have accepted := parse_arrayDeclaration 98 3
  have enough : 2 ≤ nestingLimit := by decide
  exact ⟨⟨_, accepted, (parse_height nestingLimit).1 _ _ accepted⟩, enough,
    (parse_height nestingLimit).2 enough 1000000⟩

end Program
end ScriptFront
