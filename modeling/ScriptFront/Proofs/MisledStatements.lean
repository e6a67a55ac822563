import ScriptFront.Proofs.LimitedStatements
import ScriptFront.Proofs.MisledReading

/-!
A statement that is misled by the nesting limit is read as another statement than without a limit,
whatever is around it.
-/

namespace ScriptFront
namespace Grammar

open ScriptFront.Parser

/-- The grammar that differs from another one only in how it reads statements. -/
def misled (w l : Grammar) : Grammar :=
  { w with statement := l.statement, block := l.block, declares := l.declares }

/-- A level of a watchful grammar, of one that may be misled and of one without a limit. -/
structure Misleads (b : Bounds) (w l g : Grammar) : Prop where
  limited : Limited b w g
  statement : Departs b 4 (· ≠ ·) w.statement l.statement g.statement
  block : Departs b 1 (· ≠ ·) w.block l.block g.block
  declares : Departs b 1 (· ≠ ·) w.declares l.declares g.declares

/-! ### What is not a statement is read alike -/

theorem fold_misled (w l : Grammar) (precedence : Nat) (pending : Pending) (right : Expr) :
    fold (w.misled l) precedence pending right = fold w precedence pending right := by
  induction pending generalizing right with
  | nil => rfl
  | cons first pending ih =>
      unfold fold
      split
      · exact congrArg (w.node _ _ >>= ·) (funext fun joined => ih joined)
      · rfl

theorem conditional_misled (w l : Grammar) : conditional (w.misled l) = conditional w := by
  unfold conditional chain chainStep
  simp only [fold_misled]
  rfl

theorem above_misled (w l : Grammar) (test : Parser Bool) :
    (w.misled l).above = { w.above with declares := test }.misled (w.misled l).above := by
  unfold above
  rw [conditional_misled]
  rfl

variable {b : Bounds} {w l g : Grammar}

/-! ### Declarations tell themselves from other statements -/

theorem yields_commaSeparated {α : Type} (p : Parser α) : Yields (· ≠ []) (commaSeparated p) :=
  yields_bind fun _ => yields_bind fun _ => yields_pure (List.cons_ne_nil _ _)

theorem yields_varGroup (g : Grammar) (ms : Modifiers) :
    Yields (fun d => d.names ≠ []) (varGroup g ms) :=
  yields_bind fun _ => yields_bind fun _ => yields_bind_of (yields_commaSeparated _) fun _ some =>
    yields_bind fun _ => yields_pure some

theorem yields_declaration (g : Grammar) :
    Yields (fun s => s.declaredNames ≠ []) (declaration g) := by
  refine yields_bind fun place => yields_bind fun ms => yields_bind fun t => ?_
  split
  · exact yields_bind fun d => yields_pure (List.cons_ne_nil _ _)
  · exact yields_bind fun d => yields_pure (List.cons_ne_nil _ _)
  · exact yields_bind fun d => yields_pure (List.cons_ne_nil _ _)
  · exact yields_bind_of (yields_varGroup g ms) fun d some => yields_bind fun _ => yields_pure some

theorem yields_simple (g : Grammar) : Yields (fun s => s.declaredNames = []) (simple g) := by
  refine yields_bind fun place => yields_bind fun target => yields_bind fun t => ?_
  split
  · exact yields_pure rfl
  · refine yields_bind fun operator => ?_
    split
    · refine yields_bind fun right => ?_
      split
      · exact yields_bind fun value => yields_pure rfl
      · exact yields_bind fun value => yields_pure rfl
    · exact yields_fail

theorem yields_terminated (g : Grammar) : Yields (fun s => s.declaredNames = []) (terminated g) :=
  yields_bind_of (yields_simple g) fun _ none => yields_bind fun _ => yields_pure none

variable (h : Misleads b w l g)

include h

theorem departs_startsVariable :
    Departs b 1 (· ≠ ·) (startsVariable w) (startsVariable (w.misled l)) (startsVariable g) := by
  refine .of fun credit s enough => .peek ?_
  split
  · exact parts_pure (by omega)
  · exact parts_pure (by omega)
  · exact parts_pure (by omega)
  · exact h.declares credit s enough
  · exact parts_pure (by omega)

theorem departs_function (ms : Modifiers) :
    Departs b 0 (· ≠ ·) (function w ms) (function (w.misled l) ms) (function g ms) := by
  refine .of fun credit s enough => (gains_expectKeyword _ _).parts (Nat.zero_le _) fun _ s => ?_
  refine (gains_name _).parts (Nat.zero_le _) fun ident s => ?_
  refine (gains_signature h.limited.typeExpr).parts (Nat.zero_le _) fun sig s => ?_
  exact h.block.bind_ne (by omega) (fun body s => parts_pure (by omega))
    (fun body d => d.body = body) (fun body => keeps_pure rfl)
    fun same same' => same.symm.trans same'

/-! ### Classes -/

theorem departs_operatorMember :
    Departs b 1 (· ≠ ·) (operatorMember w) (operatorMember (w.misled l)) (operatorMember g) := by
  refine .of fun credit s enough => gains_advance.parts (Nat.zero_le _) fun t s => ?_
  split
  · refine gains_genericParams.parts (Nat.zero_le _) fun generics s => ?_
    refine (gains_params h.limited.typeExpr).parts (Nat.zero_le _) fun ps s => ?_
    split
    · exact fun _ _ => .failed
    · refine (gains_returnType h.limited.typeExpr).parts (Nat.zero_le _) fun returns s => ?_
      refine h.block.bind_ne (by omega) (fun body s => parts_pure (by omega))
        (fun body m => ∃ symbol unary sig, m = .operator symbol unary sig body)
        (fun body => keeps_pure ⟨_, _, _, rfl⟩) ?_
      rintro body body' m ⟨_, _, _, rfl⟩ ⟨_, _, _, same⟩
      cases same
      rfl
  · exact fun _ _ => .failed

theorem departs_constructorMember :
    Departs b 1 (· ≠ ·) (constructorMember w) (constructorMember (w.misled l))
      (constructorMember g) := by
  refine .of fun credit s enough => ?_
  refine (gains_params h.limited.typeExpr).parts (Nat.zero_le _) fun ps s => .check ?_
  split
  · exact fun _ _ => .failed
  · refine h.block.bind_ne (by omega) (fun body s => parts_pure (by omega))
      (fun body m => ∃ ps, m = .constructor ps body) (fun body => keeps_pure ⟨_, rfl⟩) ?_
    rintro body body' m ⟨_, rfl⟩ ⟨_, same⟩
    cases same
    rfl

theorem departs_methodMember (className : String) (ms : Modifiers) (place : Location) :
    Departs b 0 (· ≠ ·) (methodMember w className ms place)
      (methodMember (w.misled l) className ms place) (methodMember g className ms place) := by
  refine .of fun credit s enough => (gains_reject _ _ _).parts (Nat.zero_le _) fun _ s => ?_
  refine (gains_name _).parts (Nat.zero_le _) fun ident s => ?_
  split
  · refine (gains_reject _ _ _).parts (Nat.zero_le _) fun _ s => ?_
    exact (departs_constructorMember h).last (by omega) fun _ => by omega
  · refine (gains_signature h.limited.typeExpr).parts (Nat.zero_le _) fun sig s => ?_
    refine h.block.bind_ne (by omega) (fun body s => parts_pure (by omega))
      (fun body m => ∃ ident sig, m = .method ident sig body)
      (fun body => keeps_pure ⟨_, _, rfl⟩) ?_
    rintro body body' m ⟨_, _, rfl⟩ ⟨_, _, same⟩
    cases same
    rfl

theorem departs_member (className : String) :
    Departs b 1 (· ≠ ·) (member w className) (member (w.misled l) className)
      (member g className) := by
  have located : ∀ {form form' form'' : Parser MemberForm} {need credit : Nat} {s : Cursor}
      {ms : Modifiers} {place : Location}, need ≤ credit →
      Departs b need (· ≠ ·) form form' form'' →
      Parts b credit (fun _ => credit) (· ≠ ·) s (do return (⟨ms, ← form, place⟩ : ClassMember))
        (do return ⟨ms, ← form', place⟩) (do return ⟨ms, ← form'', place⟩) := fun less hf =>
    hf.bind_ne less (fun form s => parts_pure (by omega)) (fun form m => m.form = form)
      (fun form => keeps_pure rfl) fun same same' => same.symm.trans same'
  refine .of fun credit s enough => .here ?_
  refine gains_modifiers.parts (Nat.zero_le _) fun ms s => .check ?_
  refine (gains_foresee _).parts (Nat.zero_le _) fun ahead s => ?_
  split
  · refine (gains_reject _ _ _).parts (Nat.zero_le _) fun _ s => ?_
    exact located (by omega) (departs_operatorMember h)
  · split
    · exact located (by omega) (departs_methodMember h className ms _)
    · exact (gains_propertyMember h.limited).parts (by omega) fun form s => parts_pure (by omega)

theorem departs_members (className : String) :
    Departs b 1 (· ≠ ·) (members w className) (members (w.misled l) className)
      (members g className) := by
  refine departs_iterate_append (fun ms => .of fun credit s enough => .check (.atEnd ?_)) ?_ _
  · split
    · exact parts_pure (by omega)
    · refine (gains_accept _).parts (Nat.zero_le _) fun skipped s => ?_
      split
      · exact parts_pure (by omega)
      · refine (departs_member h className).append ms (by omega) id id ?_ ?_
        · intro m s
          split
          · exact fun _ _ => .failed
          · exact parts_pure (by omega)
        · intro m
          split
          · exact keeps_bind fun _ => keeps_pure rfl
          · exact keeps_pure rfl
  · intro ms
    refine keeps_bind fun closing => keeps_bind fun ended => ?_
    split
    · exact keeps_pure List.prefix_rfl
    · refine keeps_bind fun skipped => ?_
      split
      · exact keeps_pure List.prefix_rfl
      · refine keeps_bind fun m => ?_
        split
        · exact keeps_bind fun _ => keeps_pure (List.prefix_append _ _)
        · exact keeps_pure (List.prefix_append _ _)

theorem departs_classType (ms : Modifiers) :
    Departs b 0 (· ≠ ·) (classType w ms) (classType (w.misled l) ms) (classType g ms) := by
  refine .of fun credit s enough => (gains_expectKeyword _ _).parts (Nat.zero_le _) fun _ s => ?_
  refine (gains_name _).parts (Nat.zero_le _) fun ident s => ?_
  refine gains_genericParams.parts (Nat.zero_le _) fun generics s => ?_
  refine (gains_accept _).parts (Nat.zero_le _) fun extending s => ?_
  extract_lets next next' next''
  have tail : ∀ superclass s, Parts b (credit + 8) (fun _ => credit) (· ≠ ·) s (next superclass)
      (next' superclass) (next'' superclass) := by
    intro superclass s
    refine (gains_accept _).parts (Nat.zero_le _) fun implementing s => ?_
    extract_lets body body' body''
    have rest : ∀ interfaces s, Parts b (credit + 8) (fun _ => credit) (· ≠ ·) s (body interfaces)
        (body' interfaces) (body'' interfaces) := by
      intro interfaces s
      refine (gains_expect (by simp) _).parts (Nat.zero_le _) fun _ s => ?_
      refine (departs_members h ident.text).bind_ne (by omega) (fun members s => ?_)
        (fun members d => d.members = members)
        (fun members => keeps_bind fun _ => keeps_pure rfl) fun same same' => same.symm.trans same'
      exact (gains_expect (by simp) _).parts (Nat.zero_le _) fun _ s => parts_pure (by omega)
    split
    · refine (gains_commaSeparated h.limited.typeExpr).parts (by omega) fun interfaces s => ?_
      exact (rest interfaces s).more (by omega)
    · exact rest [] s
  split
  · exact h.limited.typeExpr.some.parts (by omega) fun superclass s => tail superclass s
  · exact tail none s

/-! ### Statements -/

theorem departs_declaration :
    Departs b 1 (· ≠ ·) (declaration w) (declaration (w.misled l)) (declaration g) := by
  refine .of fun credit s enough => .here ?_
  refine gains_modifiers.parts (Nat.zero_le _) fun ms s => .peek ?_
  split
  · refine (departs_function h ms).bind_ne (Nat.zero_le _) (fun d s => parts_pure (by omega))
      (fun d s => s.form = .function d) (fun d => keeps_pure rfl) fun same same' => ?_
    exact StatementForm.function.inj (same.symm.trans same')
  · refine (departs_classType h ms).bind_ne (Nat.zero_le _) (fun d s => parts_pure (by omega))
      (fun d s => s.form = .classType d) (fun d => keeps_pure rfl) fun same same' => ?_
    exact StatementForm.classType.inj (same.symm.trans same')
  · exact (gains_structType h.limited.typeExpr ms).parts (Nat.zero_le _) fun d s =>
      parts_pure (by omega)
  · refine (gains_varGroup h.limited ms).parts (by omega) fun d s => ?_
    exact (gains_expect (by simp) _).parts (Nat.zero_le _) fun _ s => parts_pure (by omega)

theorem departs_statementsUntil (stop : TokenKind → Bool) :
    Departs b 4 (· ≠ ·) (statementsUntil w stop) (statementsUntil (w.misled l) stop)
      (statementsUntil g stop) := by
  refine departs_iterate_append (fun body => .of fun credit s enough => .peek (.atEnd ?_)) ?_ _
  · split
    · exact parts_pure (by omega)
    · refine (gains_accept _).parts (Nat.zero_le _) fun skipped s => ?_
      split
      · exact parts_pure (by omega)
      · exact h.statement.append body enough id id (fun statement s => parts_pure (by omega))
          fun statement => keeps_pure rfl
  · intro body
    refine keeps_bind fun t => keeps_bind fun ended => ?_
    split
    · exact keeps_pure List.prefix_rfl
    · refine keeps_bind fun skipped => ?_
      split
      · exact keeps_pure List.prefix_rfl
      · exact keeps_bind fun statement => keeps_pure (List.prefix_append _ _)

theorem departs_blockForm :
    Departs b 0 (· ≠ ·) (blockForm w) (blockForm (w.misled l)) (blockForm g) := by
  refine .of fun credit s enough => (gains_expect (by simp) _).parts (Nat.zero_le _) fun _ s => ?_
  refine (departs_statementsUntil h _).bind_ne (by omega) (fun body s => ?_)
    (fun body block => block.statements = body) (fun body => keeps_bind fun _ => keeps_pure rfl)
    fun same same' => same.symm.trans same'
  exact (gains_expect (by simp) _).parts (Nat.zero_le _) fun _ s => parts_pure (by omega)

theorem departs_ifForm : Departs b 0 (· ≠ ·) (ifForm w) (ifForm (w.misled l)) (ifForm g) := by
  refine .of fun credit s enough => (gains_expectKeyword _ _).parts (Nat.zero_le _) fun _ s => ?_
  refine h.limited.expression.parts (by omega) fun test s => ?_
  refine h.block.bind_ne (by omega) (fun body s => ?_)
    (fun body form => ∃ test elifs otherwise, form = .conditional test body elifs otherwise)
    (fun body => keeps_bind fun elifs => keeps_bind fun more => ?_) ?_
  · refine (departs_iterate_append (fun elifs => .of fun credit s enough => .peek ?_)
      (fun elifs => keeps_bind fun t => ?_) []).bind_ne (by omega : 3 ≤ _) (fun elifs s => ?_)
      (fun elifs form => ∃ test body otherwise, form = .conditional test body elifs otherwise)
      (fun elifs => keeps_bind fun more => ?_) ?_
    · split
      · refine gains_advance.parts (Nat.zero_le _) fun _ s => ?_
        refine h.limited.expression.parts (by omega) fun test s => ?_
        refine h.block.append elifs (by omega) (fun body => ⟨test, body, _⟩) ?_
          (fun body s => parts_pure (by omega)) fun body => keeps_pure rfl
        intro body body' same
        exact (ElifClause.mk.inj same).2.1
      · exact parts_pure (by omega)
    · split
      · refine keeps_bind fun _ => keeps_bind fun test => keeps_bind fun body => ?_
        exact keeps_pure (List.prefix_append _ _)
      · exact keeps_pure List.prefix_rfl
    · refine (gains_accept _).parts (Nat.zero_le _) fun more s => ?_
      split
      · refine h.block.some.bind_ne (by omega) (fun otherwise s => parts_pure (by omega))
          (fun otherwise form => ∃ test body elifs, form = .conditional test body elifs otherwise)
          (fun otherwise => keeps_pure ⟨_, _, _, rfl⟩) ?_
        rintro otherwise otherwise' form ⟨_, _, _, rfl⟩ ⟨_, _, _, same⟩
        cases same
        rfl
      · exact parts_pure (by omega)
    · split
      · exact keeps_bind fun otherwise => keeps_pure ⟨_, _, _, rfl⟩
      · exact keeps_bind fun otherwise => keeps_pure ⟨_, _, _, rfl⟩
    · rintro elifs elifs' form ⟨_, _, _, rfl⟩ ⟨_, _, _, same⟩
      cases same
      rfl
  · split
    · exact keeps_bind fun otherwise => keeps_pure ⟨_, _, _, rfl⟩
    · exact keeps_bind fun otherwise => keeps_pure ⟨_, _, _, rfl⟩
  · rintro body body' form ⟨_, _, _, rfl⟩ ⟨_, _, _, same⟩
    cases same
    rfl

theorem departs_whileForm :
    Departs b 0 (· ≠ ·) (whileForm w) (whileForm (w.misled l)) (whileForm g) := by
  refine .of fun credit s enough => (gains_expectKeyword _ _).parts (Nat.zero_le _) fun _ s => ?_
  refine h.limited.expression.parts (by omega) fun test s => ?_
  refine h.block.bind_ne (by omega) (fun body s => parts_pure (by omega))
    (fun body form => ∃ test, form = .whileLoop test body) (fun body => keeps_pure ⟨_, rfl⟩) ?_
  rintro body body' form ⟨_, rfl⟩ ⟨_, same⟩
  cases same
  rfl

theorem departs_forInit : Departs b 3 (· ≠ ·) (forInit w) (forInit (w.misled l)) (forInit g) := by
  refine .of fun credit s enough => .here ?_
  refine (departs_startsVariable h).bind_ne (by omega) (fun starts s => ?_)
    (fun starts s => s.declaredNames.isEmpty = !starts) (fun starts => ?_) fun same same' => ?_
  · split
    · exact (gains_varGroup h.limited _).parts (by omega) fun d s => parts_pure (by omega)
    · exact (gains_simple h.limited).departs.last (by omega) fun _ => by omega
  · cases starts with
    | true =>
        have some : ∀ g : Grammar, ∀ place : Location,
            Yields (fun s => s.declaredNames.isEmpty = !true)
              (do return (⟨.varGroup (← varGroup g .empty), place⟩ : Statement)) := fun g place =>
          yields_bind_of (yields_varGroup g .empty) fun d some =>
            yields_pure (List.isEmpty_eq_false_iff.mpr some)
        exact ⟨some _ _, some _ _⟩
    | false =>
        have none : ∀ g, Yields (fun s => s.declaredNames.isEmpty = !false) (simple g) :=
          fun g s statement s' run => List.isEmpty_iff.mpr (yields_simple g s statement s' run)
        exact ⟨none _, none _⟩
  · exact Bool.not_inj (same.symm.trans same')

theorem departs_forForm : Departs b 0 (· ≠ ·) (forForm w) (forForm (w.misled l)) (forForm g) := by
  refine .of fun credit s enough => (gains_expectKeyword _ _).parts (Nat.zero_le _) fun _ s => ?_
  refine (gains_expect (by simp) _).parts (Nat.zero_le _) fun _ s => .check ?_
  extract_lets afterInit afterInit' afterInit''
  -- Each clause may be missing, so that what follows it is read from two places.
  have init : ∀ init s, Parts b (credit + 4) (fun _ => credit) (· ≠ ·) s (afterInit init)
      (afterInit' init) (afterInit'' init) := by
    intro init s
    refine (gains_expect (by simp) _).parts (Nat.zero_le _) fun _ s => .check ?_
    extract_lets afterTest afterTest' afterTest''
    have test : ∀ test s, Parts b (credit + 4) (fun _ => credit) (· ≠ ·) s (afterTest test)
        (afterTest' test) (afterTest'' test) := by
      intro test s
      refine (gains_expect (by simp) _).parts (Nat.zero_le _) fun _ s => .check ?_
      extract_lets afterUpdate afterUpdate' afterUpdate''
      have update : ∀ update s, Parts b (credit + 4) (fun _ => credit) (· ≠ ·) s
          (afterUpdate update) (afterUpdate' update) (afterUpdate'' update) := by
        intro update s
        refine (gains_expect (by simp) _).parts (Nat.zero_le _) fun _ s => ?_
        refine h.block.bind_ne (by omega) (fun body s => parts_pure (by omega))
          (fun body form => ∃ init test update, form = .forLoop init test update body)
          (fun body => keeps_pure ⟨_, _, _, rfl⟩) ?_
        rintro body body' form ⟨_, _, _, rfl⟩ ⟨_, _, _, same⟩
        cases same
        rfl
      split
      · exact (update none s).more (by omega)
      · refine (gains_simple h.limited).some.parts (by omega) fun u s => ?_
        exact (update u s).more (by omega)
    split
    · exact (test none s).more (by omega)
    · refine h.limited.expression.some.parts (by omega) fun t s => ?_
      exact (test t s).more (by omega)
  split
  · exact (init none s).more (by omega)
  · refine (departs_forInit h).some.bind_ne (by omega) (fun i s => (init i s).more (by omega))
      (fun init form => ∃ test update body, form = .forLoop init test update body)
      (fun init => ?_) ?_
    · -- The first clause can be told from the loop whichever of the other clauses are there.
      refine keeps_bind fun _ => keeps_bind fun _ => ?_
      extract_lets afterTest' afterTest''
      have test : ∀ test, Keeps (fun form => ∃ test update body,
          form = .forLoop init test update body) (afterTest' test) (afterTest'' test) := by
        refine fun test => keeps_bind fun _ => keeps_bind fun _ => ?_
        extract_lets afterUpdate' afterUpdate''
        have update : ∀ update, Keeps (fun form => ∃ test update body,
            form = .forLoop init test update body) (afterUpdate' update) (afterUpdate'' update) :=
          fun update => keeps_bind fun _ => keeps_bind fun body => keeps_pure ⟨_, _, _, rfl⟩
        split
        · exact update none
        · exact keeps_bind fun u => update u
      split
      · exact test none
      · exact keeps_bind fun t => test t
    · rintro init init' form ⟨_, _, _, rfl⟩ ⟨_, _, _, same⟩
      cases same
      rfl

theorem departs_tryForm : Departs b 0 (· ≠ ·) (tryForm w) (tryForm (w.misled l)) (tryForm g) := by
  refine .of fun credit s enough => (gains_expectKeyword _ _).parts (Nat.zero_le _) fun _ s => ?_
  refine h.block.bind_ne (by omega) (fun body s => ?_)
    (fun body form => ∃ handlers finalizer, form = .tryCatch body handlers finalizer)
    (fun body => keeps_bind fun handlers => ?_) ?_
  · refine (departs_iterate_append (fun handlers => .of fun credit s enough => .peek ?_)
      (fun handlers => keeps_bind fun t => ?_) []).bind_ne (Nat.zero_le _) (fun handlers s => ?_)
      (fun handlers form => ∃ body finalizer, form = .tryCatch body handlers finalizer)
      (fun handlers => ?_) ?_
    · split
      · refine gains_advance.parts (Nat.zero_le _) fun _ s => ?_
        refine (gains_expect (by simp) _).parts (Nat.zero_le _) fun _ s => ?_
        refine h.limited.typeExpr.parts (by omega) fun type s => ?_
        refine (gains_name _).parts (Nat.zero_le _) fun ident s => ?_
        refine (gains_expect (by simp) _).parts (Nat.zero_le _) fun _ s => ?_
        refine h.block.append handlers (by omega) (fun body => ⟨type, ident, body, _⟩) ?_
          (fun body s => parts_pure (by omega)) fun body => keeps_pure rfl
        intro body body' same
        exact (CatchClause.mk.inj same).2.2.1
      · exact parts_pure (by omega)
    · split
      · refine keeps_bind fun _ => keeps_bind fun _ => keeps_bind fun type => ?_
        refine keeps_bind fun ident => keeps_bind fun _ => keeps_bind fun body => ?_
        exact keeps_pure (List.prefix_append _ _)
      · exact keeps_pure List.prefix_rfl
    · extract_lets next next' next''
      have tail : ∀ r, Parts b (credit + 4) (fun _ => credit) (· ≠ ·) s (next r) (next' r)
          (next'' r) := by
        intro r
        refine (gains_expectKeyword _ _).parts (Nat.zero_le _) fun opener s => ?_
        refine h.block.bind_ne (by omega) (fun body s => parts_pure (by omega))
          (fun final form => ∃ body handlers place, form = .tryCatch body handlers ⟨final, place⟩)
          (fun final => keeps_pure ⟨_, _, _, rfl⟩) ?_
        rintro final final' form ⟨_, _, _, rfl⟩ ⟨_, _, _, same⟩
        cases same
        rfl
      split
      · exact fun _ _ => .failed
      · exact tail ()
    · split
      · exact keeps_bind fun place => keeps_fail_bind
      · exact keeps_bind fun opener => keeps_bind fun final => keeps_pure ⟨_, _, rfl⟩
    · rintro handlers handlers' form ⟨_, _, rfl⟩ ⟨_, _, same⟩
      cases same
      rfl
  · split
    · exact keeps_bind fun place => keeps_fail_bind
    · exact keeps_bind fun opener => keeps_bind fun final => keeps_pure ⟨_, _, rfl⟩
  · rintro body body' form ⟨_, _, rfl⟩ ⟨_, _, same⟩
    cases same
    rfl

theorem departs_caseBody :
    Departs b 4 (· ≠ ·) (caseBody w) (caseBody (w.misled l)) (caseBody g) := by
  refine .of fun credit s enough => .here (.check ?_)
  split
  · refine h.block.bind_ne (by omega) (fun body s => parts_pure (by omega))
      (fun body statements => ∃ place, statements = [⟨.block body, place⟩])
      (fun body => keeps_pure ⟨_, rfl⟩) ?_
    rintro body body' statements ⟨_, rfl⟩ ⟨_, same⟩
    cases same
    rfl
  · exact departs_statementsUntil h _ credit s enough

/-- How the cases of a switch grow: by more cases, and by a default case where there is none. -/
def Cases.Grows (cases later : Cases) : Prop :=
  cases.1 <+: later.1 ∧ ∀ d, cases.2 = some d → later.2 = some d

omit h in
theorem Cases.Grows.refl (cases : Cases) : cases.Grows cases := ⟨List.prefix_rfl, fun _ h => h⟩

omit h in
theorem Cases.Grows.trans {cases later last : Cases} (h : cases.Grows later)
    (h' : later.Grows last) : cases.Grows last :=
  ⟨h.1.trans h'.1, fun d some => h'.2 d (h.2 d some)⟩

omit h in
theorem keeps_caseStep (cases : Cases) :
    Keeps (fun r => cases.Grows r.value) (caseStep (w.misled l) cases) (caseStep g cases) := by
  refine keeps_bind fun closing => keeps_bind fun ended => ?_
  split
  · exact keeps_pure (.refl cases)
  · refine keeps_bind fun place => keeps_bind fun isDefault => ?_
    split
    · split
      · exact keeps_fail_bind
      · next none =>
          refine keeps_bind fun _ => keeps_bind fun body => keeps_pure ⟨List.prefix_rfl, ?_⟩
          intro d some
          rw [some] at none
          exact absurd rfl none
    · refine keeps_bind fun _ => keeps_bind fun first => keeps_bind fun others => ?_
      exact keeps_bind fun _ => keeps_bind fun body =>
        keeps_pure ⟨List.prefix_append _ _, fun _ h => h⟩

theorem departs_caseStep (cases : Cases) :
    Departs b 0 (fun r r' => Apart Cases.Grows r.value r'.value) (caseStep w cases)
      (caseStep (w.misled l) cases) (caseStep g cases) := by
  refine .of fun credit s enough => .check (.atEnd ?_)
  split
  · exact parts_pure (by omega)
  · refine .here ((gains_accept _).parts (Nat.zero_le _) fun isDefault s => ?_)
    split
    · split
      · exact fun _ _ => .failed
      · refine (gains_expect (by simp) _).parts (Nat.zero_le _) fun _ s => ?_
        refine (departs_caseBody h).bind (by omega) (fun body s => parts_pure (by omega))
          (fun body r => ∃ patterns place, r.value = (cases.1, some ⟨patterns, body, place⟩))
          (fun body => keeps_pure ⟨_, _, rfl⟩) ?_
        rintro body body' r r' ne ⟨_, _, value⟩ ⟨_, _, value'⟩ later grown grown'
        -- A default case is never replaced, so both would have to be the one in the end.
        rw [value] at grown
        rw [value'] at grown'
        have same := (grown.2 _ rfl).symm.trans (grown'.2 _ rfl)
        exact ne (SwitchCase.mk.inj (Option.some.inj same)).2.1
    · refine (gains_expectKeyword _ _).parts (Nat.zero_le _) fun _ s => ?_
      refine (gains_pattern h.limited false).parts (Nat.zero_le _) fun first s => ?_
      refine (gains_iterate (fun ps => .of fun credit s enough => accept_bind (by simp) ?_
        (follows_pure (by omega))) []).parts (Nat.zero_le _) fun others s => ?_
      · exact (gains_pattern h.limited false).bind (Nat.zero_le _) fun p s =>
          follows_pure (by omega)
      · refine (gains_expect (by simp) _).parts (Nat.zero_le _) fun _ s => ?_
        refine (departs_caseBody h).bind (by omega) (fun body s => parts_pure (by omega))
          (fun body r => ∃ place, r.value = (cases.1 ++ [⟨first :: others, body, place⟩], cases.2))
          (fun body => keeps_pure ⟨_, rfl⟩) ?_
        rintro body body' r r' ne ⟨_, value⟩ ⟨_, value'⟩ later grown grown'
        rw [value] at grown
        rw [value'] at grown'
        refine apart_append (fun same => ne ?_) later.1 grown.1 grown'.1
        exact (SwitchCase.mk.inj same).2.1

theorem departs_switchForm :
    Departs b 0 (· ≠ ·) (switchForm w) (switchForm (w.misled l)) (switchForm g) := by
  refine .of fun credit s enough => (gains_expectKeyword _ _).parts (Nat.zero_le _) fun _ s => ?_
  refine h.limited.expression.parts (by omega) fun value s => ?_
  refine (gains_expect (by simp) _).parts (Nat.zero_le _) fun _ s => ?_
  refine (departs_iterate Cases.Grows.refl Cases.Grows.trans (departs_caseStep h)
    keeps_caseStep _).bind (Nat.zero_le _) (fun cases s => ?_)
    (fun cases form => ∃ value, form = .switch value cases.1 cases.2)
    (fun cases => keeps_bind fun _ => keeps_pure ⟨_, rfl⟩) ?_
  · exact (gains_expect (by simp) _).parts (Nat.zero_le _) fun _ s => parts_pure (by omega)
  · rintro cases cases' form form' ways ⟨_, rfl⟩ ⟨_, rfl⟩ same
    have same : cases = cases' :=
      Prod.ext (StatementForm.switch.inj same).2.1 (StatementForm.switch.inj same).2.2
    exact ways cases (.refl cases) (same ▸ .refl cases)

theorem departs_keywordStatement (t : Token) (k : Keyword) :
    Departs b 3 (· ≠ ·) (keywordStatement w t k) (keywordStatement (w.misled l) t k)
      (keywordStatement g t k) := by
  have located : ∀ {form form' form'' : Parser StatementForm} {need : Nat}, need ≤ 3 →
      Departs b need (· ≠ ·) form form' form'' →
      Departs b 3 (· ≠ ·) (do return (⟨← form, t.location⟩ : Statement))
        (do return ⟨← form', t.location⟩) (do return ⟨← form'', t.location⟩) := fun less hf =>
    .of fun credit s enough => hf.bind_ne (by omega) (fun form s => parts_pure (by omega))
      (fun form s => s.form = form) (fun form => keeps_pure rfl) fun same same' =>
        same.symm.trans same'
  unfold keywordStatement
  split
  case h_1 => exact located (by omega) (departs_ifForm h)
  case h_2 => exact located (by omega) (departs_whileForm h)
  case h_3 => exact located (by omega) (departs_forForm h)
  case h_4 => exact located (by omega) (departs_tryForm h)
  case h_5 => exact located (by omega) (departs_switchForm h)
  case h_6 => exact located (by omega) (gains_returnForm h.limited).departs
  case h_7 | h_8 => exact located (by omega) (gains_jump _).departs
  case h_9 => exact located (by omega) (gains_throwForm h.limited).departs
  case h_10 | h_11 | h_12 | h_13 | h_14 =>
    exact .of fun credit s enough => (departs_declaration h).last (by omega) fun _ => by omega
  case h_15 | h_16 | h_17 | h_18 => exact (gains_terminated h.limited).departs
  case h_19 =>
    refine .of fun credit s enough => ?_
    extract_lets
    split
    · exact (departs_declaration h).last (by omega) fun _ => by omega
    · exact fun _ _ => .failed

theorem departs_statementForm :
    Departs b 3 (· ≠ ·) (statementForm w) (statementForm (w.misled l)) (statementForm g) := by
  refine .of fun credit s enough => .peek ?_
  split
  · refine h.block.bind_ne (by omega) (fun body s => parts_pure (by omega))
      (fun body s => s.form = .block body) (fun body => keeps_pure rfl) fun same same' => ?_
    exact StatementForm.block.inj (same.symm.trans same')
  · exact departs_keywordStatement h _ _ credit s enough
  · -- The answer of the test is seen in the statement: what is declared has a name.
    refine h.declares.bind_ne (by omega) (fun declares s => ?_)
      (fun declares s => s.declaredNames.isEmpty = !declares) (fun declares => ?_) ?_
    · split
      · exact (departs_declaration h).last (by omega) fun _ => by omega
      · exact (gains_terminated h.limited).departs.last (by omega) fun _ => by omega
    · cases declares with
      | true =>
          have some : ∀ g, Yields (fun s => s.declaredNames.isEmpty = !true) (declaration g) :=
            fun g s d s' run => List.isEmpty_eq_false_iff.mpr (yields_declaration g s d s' run)
          exact ⟨some _, some _⟩
      | false =>
          have none : ∀ g, Yields (fun s => s.declaredNames.isEmpty = !false) (terminated g) :=
            fun g s d s' run => List.isEmpty_iff.mpr (yields_terminated g s d s' run)
          exact ⟨none _, none _⟩
    · exact fun same same' => Bool.not_inj (same.symm.trans same')
  · exact (gains_terminated h.limited).departs.last (by omega) fun _ => by omega

/-! ### Levels -/

omit h in
/-- What is misled inside a level is misled on it. -/
theorem Misleads.above {test test' : Parser Bool}
    (limited : Limited b { w.above with declares := test } g.above)
    (limit : w.limit = b.limit) (limit_le : b.limit ≤ g.limit)
    (deeper : b.depth < b.limit → Misleads b.deeper w l g)
    (declares : Departs b 1 (· ≠ ·) test test' g.above.declares) :
    Misleads b { w.above with declares := test } { (w.misled l).above with declares := test' }
      g.above where
  limited := limited
  statement := departs_nested limit limit_le fun room => departs_statementForm (deeper room)
  block := departs_nested limit limit_le fun room => departs_blockForm (deeper room)
  declares := declares

end Grammar
end ScriptFront
