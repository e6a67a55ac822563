import ScriptFront.Grammar.Statement
import ScriptFront.Proofs.LimitedExpressions

/-!
Statements on a limited level read like those on another one.
-/

namespace ScriptFront
namespace Grammar

open ScriptFront.Parser

variable {b : Bounds} {l g : Grammar} (h : Limited b l g)

/-! ### Declarations -/

theorem gains_modifiers : Gains b 0 (fun _ => 0) modifiers modifiers := by
  refine gains_iterate (fun ms => .of fun credit s enough => peek_bind ?_) _
  split
  · split
    · refine advance_any_bind fun _ s => ?_
      extract_lets next
      have tail : ∀ r, Follows b credit (fun _ => credit + 0) s (next r) (next r) := by
        intro r
        dsimp only [next]
        split
        · exact follows_fail fun _ h => by cases h
        · exact follows_pure (by omega)
      split
      · exact fail_bind fun _ h => by cases h
      · exact tail ()
    · exact follows_pure (by omega)
  · exact follows_pure (by omega)

include h

theorem gains_startsVariable : Gains b 1 (fun _ => 0) (startsVariable l) (startsVariable g) := by
  refine .of fun credit s enough => peek_bind ?_
  split
  · exact follows_pure (by omega)
  · exact follows_pure (by omega)
  · exact follows_pure (by omega)
  · exact h.declares credit s enough
  · exact follows_pure (by omega)

theorem gains_initializer : Gains b 0 (fun _ => 0) (initializer l) (initializer g) := by
  refine .of fun credit s enough => accept_bind (by simp) ?_ (follows_pure (by omega))
  exact h.expression.bind (by omega) fun value s => follows_pure (by omega)

theorem gains_varGroup (ms : Modifiers) :
    Gains b 1 (fun _ => 0) (varGroup l ms) (varGroup g ms) := by
  refine .of fun credit s enough => (gains_accept _).bind (Nat.zero_le _) fun isConstant s => ?_
  refine (gains_variableType h.typeExpr isConstant).bind (by omega) fun type s => ?_
  refine (gains_commaSeparated (gains_name _)).bind (Nat.zero_le _) fun names s => ?_
  exact (gains_initializer h).bind (Nat.zero_le _) fun init s => follows_pure (by omega)

theorem gains_function (ms : Modifiers) :
    Gains b 0 (fun _ => 0) (function l ms) (function g ms) := by
  refine .of fun credit s enough => (gains_expectKeyword _ _).bind (Nat.zero_le _) fun _ s => ?_
  refine (gains_name _).bind (Nat.zero_le _) fun ident s => ?_
  refine (gains_signature h.typeExpr).bind (Nat.zero_le _) fun sig s => ?_
  exact h.block.bind (by omega) fun body s => follows_pure (by omega)

/-! ### Classes -/

omit h in
theorem gains_reject (ms : Modifiers) (forbidden : List (Modifier × GrammarRule))
    (place : Location) :
    Gains b 0 (fun _ => 0) (reject ms forbidden place) (reject ms forbidden place) := by
  refine .of fun credit s enough => ?_
  unfold reject
  split
  · exact follows_broken
  · exact follows_pure (by omega)

theorem gains_operatorMember : Gains b 1 (fun _ => 0) (operatorMember l) (operatorMember g) := by
  refine .of fun credit s enough => advance_any_bind fun t s => ?_
  split
  · refine gains_genericParams.bind (Nat.zero_le _) fun generics s => ?_
    refine (gains_params h.typeExpr).bind (Nat.zero_le _) fun ps s => ?_
    split
    · exact follows_broken
    · refine (gains_returnType h.typeExpr).bind (Nat.zero_le _) fun returns s => ?_
      exact h.block.bind (by omega) fun body s => follows_pure (by omega)
  · exact follows_unexpected

theorem gains_constructorMember :
    Gains b 1 (fun _ => 0) (constructorMember l) (constructorMember g) := by
  refine .of fun credit s enough => (gains_params h.typeExpr).bind (Nat.zero_le _) fun ps s => ?_
  apply check_bind
  split
  · exact here_bind follows_broken
  · exact h.block.bind (by omega) fun body s => follows_pure (by omega)

theorem gains_methodMember (className : String) (ms : Modifiers) (place : Location) :
    Gains b 0 (fun _ => 0) (methodMember l className ms place)
      (methodMember g className ms place) := by
  refine .of fun credit s enough => (gains_reject _ _ _).bind (Nat.zero_le _) fun _ s => ?_
  refine (gains_name _).bind (Nat.zero_le _) fun ident s => ?_
  split
  · refine (gains_reject _ _ _).bind (Nat.zero_le _) fun _ s => ?_
    exact (gains_constructorMember h).last (by omega) fun _ => by omega
  · refine (gains_signature h.typeExpr).bind (Nat.zero_le _) fun sig s => ?_
    exact h.block.bind (by omega) fun body s => follows_pure (by omega)

theorem gains_propertyMember : Gains b 1 (fun _ => 0) (propertyMember l) (propertyMember g) := by
  refine .of fun credit s enough => h.typeExpr.bind enough fun type s => ?_
  refine (gains_name _).bind (Nat.zero_le _) fun ident s => ?_
  refine (gains_initializer h).bind (Nat.zero_le _) fun init s => ?_
  exact (gains_expect (by simp) _).bind (Nat.zero_le _) fun _ s => follows_pure (by omega)

theorem gains_member (className : String) :
    Gains b 1 (fun _ => 0) (member l className) (member g className) := by
  refine .of fun credit s enough => here_bind ?_
  refine gains_modifiers.bind (Nat.zero_le _) fun ms s => check_bind ?_
  refine (gains_foresee _).bind (Nat.zero_le _) fun ahead s => ?_
  split
  · refine (gains_reject _ _ _).bind (Nat.zero_le _) fun _ s => ?_
    exact (gains_operatorMember h).bind (by omega) fun form s => follows_pure (by omega)
  · split
    · refine (gains_methodMember h className ms _).bind (Nat.zero_le _) fun form s => ?_
      exact follows_pure (by omega)
    · exact (gains_propertyMember h).bind (by omega) fun form s => follows_pure (by omega)

theorem gains_members (className : String) :
    Gains b 1 (fun _ => 0) (members l className) (members g className) := by
  refine gains_iterate (fun ms => .of fun credit s enough => check_bind (atEnd_bind ?_)) _
  split
  · exact follows_pure (by omega)
  · refine accept_bind (by simp) (follows_pure (by omega)) ?_
    refine (gains_member h className).bind enough fun m s => ?_
    split
    · exact broken_bind
    · exact follows_pure (by omega)

theorem gains_classType (ms : Modifiers) :
    Gains b 0 (fun _ => 0) (classType l ms) (classType g ms) := by
  refine .of fun credit s enough => (gains_expectKeyword _ _).bind (Nat.zero_le _) fun _ s => ?_
  refine (gains_name _).bind (Nat.zero_le _) fun ident s => ?_
  refine gains_genericParams.bind (Nat.zero_le _) fun generics s => ?_
  refine (gains_accept _).bind (Nat.zero_le _) fun extending s => ?_
  extract_lets next next'
  have tail : ∀ superclass s, Follows b (credit + 8) (fun _ => credit + 0) s (next superclass)
      (next' superclass) := by
    intro superclass s
    refine (gains_accept _).bind (Nat.zero_le _) fun implementing s => ?_
    extract_lets body body'
    have rest : ∀ interfaces s, Follows b (credit + 8) (fun _ => credit + 0) s (body interfaces)
        (body' interfaces) := by
      intro interfaces s
      refine (gains_expect (by simp) _).bind (Nat.zero_le _) fun _ s => ?_
      refine (gains_members h ident.text).bind (by omega) fun members s => ?_
      exact (gains_expect (by simp) _).bind (Nat.zero_le _) fun _ s => follows_pure (by omega)
    split
    · refine (gains_commaSeparated h.typeExpr).bind (by omega) fun interfaces s => ?_
      exact follows_more (rest interfaces s) (by omega)
    · exact follows_pure_bind (rest [] s)
  split
  · exact h.typeExpr.some.bind (by omega) fun superclass s => tail superclass s
  · exact follows_pure_bind (tail none s)

/-! ### Statements -/

theorem gains_declaration : Gains b 1 (fun _ => 0) (declaration l) (declaration g) := by
  refine .of fun credit s enough => here_bind ?_
  refine gains_modifiers.bind (Nat.zero_le _) fun ms s => peek_bind ?_
  split
  · exact (gains_function h ms).bind (Nat.zero_le _) fun d s => follows_pure (by omega)
  · exact (gains_classType h ms).bind (Nat.zero_le _) fun d s => follows_pure (by omega)
  · exact (gains_structType h.typeExpr ms).bind (Nat.zero_le _) fun d s => follows_pure (by omega)
  · refine (gains_varGroup h ms).bind (by omega) fun d s => ?_
    exact (gains_expect (by simp) _).bind (Nat.zero_le _) fun _ s => follows_pure (by omega)

theorem gains_simple : Gains b 3 (fun _ => 0) (simple l) (simple g) := by
  refine .of fun credit s enough => here_bind (h.expression.bind enough fun target s => ?_)
  apply peek_bind
  split
  · exact follows_pure (by omega)
  · refine advance_any_bind fun operator s => ?_
    split
    · refine h.expression.bind (by omega) fun right s => ?_
      split
      · have targetWeight := target.height_le_weight
        have targetPos := target.weight_pos
        have rightWeight := right.height_le_weight
        have rightPos := right.weight_pos
        have height : ∀ op, (ExprForm.binary op target right).childHeight
            = max target.height right.height := fun _ => rfl
        refine follows_bind (h.node (w := fun _ => credit) (by rw [height]; omega) (by omega))
          fun value s => follows_pure (by omega)
      · exact follows_pure_bind (follows_pure (by omega))
    · exact follows_broken

theorem gains_terminated : Gains b 3 (fun _ => 0) (terminated l) (terminated g) := by
  refine .of fun credit s enough => (gains_simple h).bind enough fun statement s => ?_
  exact (gains_expect (by simp) _).bind (Nat.zero_le _) fun _ s => follows_pure (by omega)

theorem gains_statementsUntil (stop : TokenKind → Bool) :
    Gains b 4 (fun _ => 0) (statementsUntil l stop) (statementsUntil g stop) := by
  refine gains_iterate (fun body => .of fun credit s enough => peek_bind (atEnd_bind ?_)) _
  split
  · exact follows_pure (by omega)
  · refine accept_bind (by simp) (follows_pure (by omega)) ?_
    exact h.statement.bind enough fun statement s => follows_pure (by omega)

theorem gains_blockForm : Gains b 0 (fun _ => 0) (blockForm l) (blockForm g) := by
  refine .of fun credit s enough => (gains_expect (by simp) _).bind (Nat.zero_le _) fun _ s => ?_
  refine (gains_statementsUntil h _).bind (by omega) fun body s => ?_
  exact (gains_expect (by simp) _).bind (Nat.zero_le _) fun _ s => follows_pure (by omega)

theorem gains_ifForm : Gains b 0 (fun _ => 0) (ifForm l) (ifForm g) := by
  refine .of fun credit s enough => (gains_expectKeyword _ _).bind (Nat.zero_le _) fun _ s => ?_
  refine h.expression.bind (by omega) fun test s => h.block.bind (by omega) fun body s => ?_
  refine (gains_iterate (fun elifs => .of fun credit s enough => peek_bind ?_) []).bind
    (by omega : 3 ≤ _) fun elifs s => ?_
  · split
    · refine advance_any_bind fun _ s => h.expression.bind (by omega) fun test s => ?_
      exact h.block.bind (by omega) fun body s => follows_pure (by omega)
    · exact follows_pure (by omega)
  · refine accept_bind (by simp) ?_ (follows_pure_bind (follows_pure (by omega)))
    exact h.block.some.bind (by omega) fun otherwise s => follows_pure (by omega)

theorem gains_whileForm : Gains b 0 (fun _ => 0) (whileForm l) (whileForm g) := by
  refine .of fun credit s enough => (gains_expectKeyword _ _).bind (Nat.zero_le _) fun _ s => ?_
  refine h.expression.bind (by omega) fun test s => ?_
  exact h.block.bind (by omega) fun body s => follows_pure (by omega)

theorem gains_forInit : Gains b 3 (fun _ => 0) (forInit l) (forInit g) := by
  refine .of fun credit s enough => here_bind ?_
  refine (gains_startsVariable h).bind (by omega) fun starts s => ?_
  split
  · exact (gains_varGroup h _).bind (by omega) fun d s => follows_pure (by omega)
  · exact (gains_simple h).last (by omega) fun _ => by omega

theorem gains_forForm : Gains b 0 (fun _ => 0) (forForm l) (forForm g) := by
  refine .of fun credit s enough => (gains_expectKeyword _ _).bind (Nat.zero_le _) fun _ s => ?_
  refine (gains_expect (by simp) _).bind (Nat.zero_le _) fun _ s => check_bind ?_
  extract_lets afterInit afterInit'
  have init : ∀ init s, Follows b (credit + 4) (fun _ => credit + 0) s (afterInit init)
      (afterInit' init) := by
    intro init s
    refine (gains_expect (by simp) _).bind (Nat.zero_le _) fun _ s => check_bind ?_
    extract_lets afterTest afterTest'
    have test : ∀ test s, Follows b (credit + 4) (fun _ => credit + 0) s (afterTest test)
        (afterTest' test) := by
      intro test s
      refine (gains_expect (by simp) _).bind (Nat.zero_le _) fun _ s => check_bind ?_
      extract_lets afterUpdate afterUpdate'
      have update : ∀ update s, Follows b (credit + 4) (fun _ => credit + 0) s
          (afterUpdate update) (afterUpdate' update) := by
        intro update s
        refine (gains_expect (by simp) _).bind (Nat.zero_le _) fun _ s => ?_
        exact h.block.bind (by omega) fun body s => follows_pure (by omega)
      split
      · exact follows_pure_bind (follows_more (update none s) (by omega))
      · refine (gains_simple h).some.bind (by omega) fun u s => ?_
        exact follows_more (update u s) (by omega)
    split
    · exact follows_pure_bind (follows_more (test none s) (by omega))
    · refine h.expression.some.bind (by omega) fun t s => ?_
      exact follows_more (test t s) (by omega)
  split
  · exact follows_pure_bind (follows_more (init none s) (by omega))
  · refine (gains_forInit h).some.bind (by omega) fun i s => ?_
    exact follows_more (init i s) (by omega)

theorem gains_tryForm : Gains b 0 (fun _ => 0) (tryForm l) (tryForm g) := by
  refine .of fun credit s enough => (gains_expectKeyword _ _).bind (Nat.zero_le _) fun _ s => ?_
  refine h.block.bind (by omega) fun body s => ?_
  refine (gains_iterate (fun handlers => .of fun credit s enough => peek_bind ?_) []).bind
    (Nat.zero_le _) fun handlers s => ?_
  · split
    · refine advance_any_bind fun _ s => ?_
      refine (gains_expect (by simp) _).bind (Nat.zero_le _) fun _ s => ?_
      refine h.typeExpr.bind (by omega) fun type s => ?_
      refine (gains_name _).bind (Nat.zero_le _) fun ident s => ?_
      refine (gains_expect (by simp) _).bind (Nat.zero_le _) fun _ s => ?_
      exact h.block.bind (by omega) fun body s => follows_pure (by omega)
    · exact follows_pure (by omega)
  · extract_lets next next'
    have tail : ∀ r, Follows b (credit + 4) (fun _ => credit + 0) s (next r) (next' r) := by
      intro r
      refine (gains_expectKeyword _ _).bind (Nat.zero_le _) fun opener s => ?_
      exact h.block.bind (by omega) fun body s => follows_pure (by omega)
    split
    · exact here_bind broken_bind
    · exact tail ()

theorem gains_caseBody : Gains b 4 (fun _ => 0) (caseBody l) (caseBody g) := by
  refine .of fun credit s enough => here_bind (check_bind ?_)
  split
  · exact h.block.bind (by omega) fun body s => follows_pure (by omega)
  · exact gains_statementsUntil h _ credit s enough

theorem gains_caseStep (cases : Cases) :
    Gains b 0 (fun _ => 0) (caseStep l cases) (caseStep g cases) := by
  refine .of fun credit s enough => check_bind (atEnd_bind ?_)
  split
  · exact follows_pure (by omega)
  · apply here_bind
    refine accept_bind (by simp) ?_ ?_
    · rw [if_pos rfl, if_pos rfl]
      split
      · exact broken_bind
      · refine (gains_expect (by simp) _).bind (Nat.zero_le _) fun _ s => ?_
        exact (gains_caseBody h).bind (by omega) fun body s => follows_pure (by omega)
    · refine (gains_expectKeyword _ _).bind (Nat.zero_le _) fun _ s => ?_
      refine (gains_pattern h false).bind (Nat.zero_le _) fun first s => ?_
      refine (gains_iterate (fun ps => .of fun credit s enough => accept_bind (by simp) ?_
        (follows_pure (by omega))) []).bind (Nat.zero_le _) fun others s => ?_
      · exact (gains_pattern h false).bind (Nat.zero_le _) fun p s => follows_pure (by omega)
      · refine (gains_expect (by simp) _).bind (Nat.zero_le _) fun _ s => ?_
        exact (gains_caseBody h).bind (by omega) fun body s => follows_pure (by omega)

theorem gains_switchForm : Gains b 0 (fun _ => 0) (switchForm l) (switchForm g) := by
  refine .of fun credit s enough => (gains_expectKeyword _ _).bind (Nat.zero_le _) fun _ s => ?_
  refine h.expression.bind (by omega) fun value s => ?_
  refine (gains_expect (by simp) _).bind (Nat.zero_le _) fun _ s => ?_
  refine (gains_iterate (gains_caseStep h) _).bind (Nat.zero_le _) fun cases s => ?_
  exact (gains_expect (by simp) _).bind (Nat.zero_le _) fun _ s => follows_pure (by omega)

theorem gains_returnForm : Gains b 3 (fun _ => 0) (returnForm l) (returnForm g) := by
  refine .of fun credit s enough => advance_any_bind fun _ s => check_bind ?_
  extract_lets next
  have tail : ∀ value s, Follows b credit (fun _ => credit + 0) s (next value) (next value) := by
    intro value s
    exact (gains_expect (by simp) _).bind (Nat.zero_le _) fun _ s => follows_pure (by omega)
  split
  · exact follows_pure_bind (tail none s)
  · exact h.expression.some.bind enough fun value s => tail value s

theorem gains_throwForm : Gains b 3 (fun _ => 0) (throwForm l) (throwForm g) := by
  refine .of fun credit s enough => advance_any_bind fun _ s => ?_
  refine h.expression.bind enough fun value s => ?_
  split
  · exact (gains_expect (by simp) _).bind (Nat.zero_le _) fun _ s => follows_pure (by omega)
  · exact follows_broken

omit h in
theorem gains_jump (form : StatementForm) : Gains b 0 (fun _ => 0) (jump form) (jump form) := by
  refine .of fun credit s enough => advance_any_bind fun _ s => ?_
  exact (gains_expect (by simp) _).bind (Nat.zero_le _) fun _ s => follows_pure (by omega)

theorem gains_keywordStatement (t : Token) (k : Keyword) :
    Gains b 3 (fun _ => 0) (keywordStatement l t k) (keywordStatement g t k) := by
  have located : ∀ {form form' : Parser StatementForm} {need : Nat}, need ≤ 3 →
      Gains b need (fun _ => 0) form form' →
      Gains b 3 (fun _ => 0) (do return (⟨← form, t.location⟩ : Statement))
        (do return ⟨← form', t.location⟩) := fun less hf =>
    .of fun credit s enough => hf.bind (by omega) fun form s => follows_pure (by omega)
  unfold keywordStatement
  split
  case h_1 => exact located (by omega) (gains_ifForm h)
  case h_2 => exact located (by omega) (gains_whileForm h)
  case h_3 => exact located (by omega) (gains_forForm h)
  case h_4 => exact located (by omega) (gains_tryForm h)
  case h_5 => exact located (by omega) (gains_switchForm h)
  case h_6 => exact located (by omega) (gains_returnForm h)
  case h_7 | h_8 => exact located (by omega) (gains_jump _)
  case h_9 => exact located (by omega) (gains_throwForm h)
  case h_10 | h_11 | h_12 | h_13 | h_14 =>
    exact .of fun credit s enough => (gains_declaration h).last (by omega) fun _ => by omega
  case h_15 | h_16 | h_17 | h_18 => exact gains_terminated h
  case h_19 =>
    refine .of fun credit s enough => ?_
    extract_lets
    split
    · exact (gains_declaration h).last (by omega) fun _ => by omega
    · exact follows_unexpected

theorem gains_statementForm : Gains b 3 (fun _ => 0) (statementForm l) (statementForm g) := by
  refine .of fun credit s enough => peek_bind ?_
  split
  · exact h.block.bind (by omega) fun body s => follows_pure (by omega)
  · exact gains_keywordStatement h _ _ credit s enough
  · refine h.declares.bind (by omega) fun declares s => ?_
    split
    · exact (gains_declaration h).last (by omega) fun _ => by omega
    · exact (gains_terminated h).last (by omega) fun _ => by omega
  · exact gains_terminated h credit s enough

/-! ### Levels -/

omit h in
/-- The constructs inside those of a level are one level deeper, unless the limit is reached. -/
theorem Limited.above {test : Parser Bool}
    (limit : l.limit = b.limit) (limit_le : b.limit ≤ g.limit)
    (deeper : b.depth < b.limit → Limited b.deeper l g)
    (declares : Gains b 1 (fun _ => 0) test g.above.declares) :
    Limited b { l.above with declares := test } g.above where
  limit := limit
  limit_le := limit_le
  statement := gains_nested limit limit_le fun room => gains_statementForm (deeper room)
  block := gains_nested limit limit_le fun room => gains_blockForm (deeper room)
  expression := gains_nested limit limit_le fun room => gains_conditional (deeper room)
  operand := gains_nested limit limit_le fun room => gains_operandForm (deeper room)
  primary := gains_nested limit limit_le fun room => gains_primaryForm (deeper room)
  typeExpr := gains_nested limit limit_le fun room => gains_unionType (deeper room).typeExpr
  declares := declares

end Grammar
end ScriptFront
