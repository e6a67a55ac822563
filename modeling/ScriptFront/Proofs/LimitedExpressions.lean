import ScriptFront.Grammar.Declaration
import ScriptFront.Grammar.Operand
import ScriptFront.Proofs.LimitedReading

/-!
Every construct of the grammar reads alike on a limited level and on another one if the constructs
inside it do. What a construct needs is the number of levels that it can go down without reading a
token: four for a statement, three for an expression, two for an operand and one for a type, a block
or a primary expression.
-/

namespace ScriptFront

/-! ### Heights -/

/-- What is paid for an expression: its height, and something for each one. -/
def Expr.weight (e : Expr) : Nat := max 1 e.height

/-- What is paid for the guard of a pattern. -/
def PatternForm.weight : PatternForm → Nat
  | .guarded _ guard => guard.weight
  | _ => 0

theorem Expr.height_le_weight (e : Expr) : e.height ≤ e.weight := Nat.le_max_right ..

theorem Expr.weight_pos (e : Expr) : 1 ≤ e.weight := Nat.le_max_left ..

theorem Expr.weight_of (form : ExprForm) (place : Location) :
    (Expr.of form place).weight = form.childHeight + 1 := by
  simp [Expr.weight, Expr.of]

theorem foldl_max_le {α : Type} {f w : α → Nat} (h : ∀ a, f a ≤ w a) (as : List α) (n : Nat) :
    as.foldl (fun m a => max m (f a)) n ≤ n + Parser.total w as := by
  induction as generalizing n with
  | nil => simp
  | cons a as ih =>
      have first := h a
      have rest := ih (max n (f a))
      simp only [List.foldl_cons, Parser.total_cons]
      omega

theorem Expr.maxHeight_le (es : List Expr) : Expr.maxHeight es ≤ Parser.total Expr.weight es := by
  simpa [Expr.maxHeight] using foldl_max_le Expr.height_le_weight es 0

/-- What is paid for an arm of a match. -/
def MatchArm.weight (arm : MatchArm) : Nat := arm.pattern.form.weight + arm.body.weight

theorem MatchArm.height_le_weight (arm : MatchArm) : arm.height ≤ arm.weight := by
  obtain ⟨⟨form, _⟩, body, _⟩ := arm
  have := body.height_le_weight
  unfold MatchArm.height MatchArm.weight PatternForm.weight
  cases form with
  | guarded p guard =>
      have := guard.height_le_weight
      simp only
      omega
  | _ =>
      simp only
      omega

/-- What waits for its right-hand side is paid for until it is joined. -/
def Grammar.Pending.weight (pending : Grammar.Pending) : Nat :=
  Parser.total (fun p => p.1.weight) pending

theorem ChainOp.childHeight_join (op : ChainOp) (left right : Expr) :
    (op.join left right).childHeight = max left.height right.height := by
  cases op <;> rfl

namespace Grammar

open ScriptFront.Parser

variable {b : Bounds} {l g : Grammar}

/-! ### Types -/

section Types

variable (h : Gains b 1 (fun _ => 0) l.typeExpr g.typeExpr)

include h

theorem gains_genericArguments :
    Gains b 0 (fun _ => 0) (genericArguments l) (genericArguments g) := by
  refine .of fun credit s enough => ?_
  refine (gains_expect (by simp) _).bind enough fun _ s => ?_
  refine (gains_commaSeparated h).bind (by omega) fun args s => ?_
  refine (gains_expect (by simp) _).bind (by omega) fun _ s => ?_
  exact follows_pure (by omega)

theorem gains_optionalGenerics :
    Gains b 0 (fun _ => 0) (optionalGenerics l) (optionalGenerics g) := by
  refine .of fun credit s enough => check_bind ?_
  split
  · exact gains_genericArguments h credit s enough
  · exact follows_pure (by omega)

theorem gains_baseType :
    Gains b 0 (fun _ => 0) (baseType l) (baseType g) := by
  refine .of fun credit s enough => peek_bind ?_
  dsimp only
  split
  · exact advance_any_bind fun _ s => follows_pure (by omega)
  · exact advance_any_bind fun _ s => follows_pure (by omega)
  · split
    · exact advance_any_bind fun _ s => follows_pure (by omega)
    · exact follows_unexpected
  · exact advance_any_bind fun _ s => follows_pure (by omega)
  · exact advance_any_bind fun _ s => follows_pure (by omega)
  · refine advance_any_bind fun _ s => ?_
    exact (gains_optionalGenerics h).bind (by omega) fun _ s => follows_pure (by omega)
  · refine advance_any_bind fun _ s => ?_
    exact (gains_optionalGenerics h).bind (by omega) fun _ s => follows_pure (by omega)
  · next kind =>
      refine advance_bind (by simp [kind]) (h.bind (by omega) fun inner s => ?_)
      exact (gains_expect (by simp) _).bind (by omega) fun _ s => follows_pure (by omega)
  · exact follows_unexpected

theorem gains_arrayType :
    Gains b 0 (fun _ => 0) (arrayType l) (arrayType g) := by
  refine .of fun credit s enough => (gains_baseType h).bind enough fun base s => ?_
  refine gains_iterate (fun t => .of fun credit s enough => ?_) base _ s enough
  refine check_bind (peekAt_bind ?_)
  split
  · exact advance_any_bind fun _ s => advance_any_bind fun _ s => follows_pure (by omega)
  · exact follows_pure (by omega)

theorem gains_intersectionType :
    Gains b 0 (fun _ => 0) (intersectionType l) (intersectionType g) := by
  refine .of fun credit s enough => (gains_arrayType h).bind enough fun first s => ?_
  refine gains_iterate (fun t => .of fun credit s enough => ?_) first _ s enough
  refine accept_bind (by simp) ?_ (follows_pure (by omega))
  exact (gains_arrayType h).bind (by omega) fun _ s => follows_pure (by omega)

theorem gains_unionType :
    Gains b 0 (fun _ => 0) (unionType l) (unionType g) := by
  refine .of fun credit s enough => (gains_intersectionType h).bind enough fun first s => ?_
  refine gains_iterate (fun t => .of fun credit s enough => ?_) first _ s enough
  refine accept_bind (by simp) ?_ (follows_pure (by omega))
  exact (gains_intersectionType h).bind (by omega) fun _ s => follows_pure (by omega)

omit h in
theorem gains_genericParams : Gains b 0 (fun _ => 0) genericParams genericParams := by
  refine .of fun credit s enough => accept_bind (by simp) ?_ (follows_pure (by omega))
  refine (gains_commaSeparated (gains_name _)).bind (by omega) fun params s => ?_
  exact (gains_expect (by simp) _).bind (by omega) fun _ s => follows_pure (by omega)

theorem gains_param :
    Gains b 0 (fun _ => 0) (param l) (param g) := by
  refine .of fun credit s enough => here_bind ?_
  refine (gains_accept _).bind (by omega) fun isRest s => ?_
  refine (gains_name _).bind (by omega) fun ident s => ?_
  refine (gains_expect (by simp) _).bind (by omega) fun _ s => ?_
  exact h.bind (by omega) fun type s => follows_pure (by omega)

theorem gains_params : Gains b 0 (fun _ => 0) (params l) (params g) := by
  refine .of fun credit s enough => (gains_expect (by simp) _).bind enough fun _ s => ?_
  refine (gains_iterate (fun ps => .of fun credit s enough => check_bind ?_) []).bind
    (Nat.zero_le _) fun ps s => ?_
  · split
    · exact follows_pure (by omega)
    · extract_lets next next'
      have tail : ∀ r, Follows b credit (fun _ => credit + 0) s (next r) (next' r) := by
        intro r
        refine (gains_param h).bind (by omega) fun p s => accept_bind (by simp) ?_ ?_
        · exact follows_pure (by omega)
        · exact follows_pure (by omega)
      split
      · split
        · exact broken_bind
        · exact tail ()
      · exact tail ()
  · exact (gains_expect (by simp) _).bind (by omega) fun _ s => follows_pure (by omega)

theorem gains_typeAndName : Gains b 1 (fun _ => 0) (typeAndName l.typeExpr)
    (typeAndName g.typeExpr) := by
  refine .of fun credit s enough => h.bind enough fun t s => ?_
  exact fun depth _ => .read depth (by omega)

theorem gains_variableType (isConstant : Bool) :
    Gains b 1 (fun _ => 0) (variableType l isConstant) (variableType g isConstant) := by
  refine .of fun credit s enough => peek_bind (peekAt_bind ?_)
  split
  · exact advance_any_bind fun _ s => follows_pure (by omega)
  · split
    · exact follows_pure (by omega)
    · exact h credit s enough

theorem gains_returnType : Gains b 0 (fun _ => 0) (returnType l) (returnType g) := by
  refine .of fun credit s enough => (gains_expect (by simp) _).bind enough fun _ s => ?_
  exact h.last (by omega) fun _ => by omega

theorem gains_signature : Gains b 0 (fun _ => 0) (signature l) (signature g) := by
  refine .of fun credit s enough => gains_genericParams.bind enough fun generics s => ?_
  refine (gains_params h).bind (by omega) fun ps s => ?_
  exact (gains_returnType h).bind (by omega) fun returns s => follows_pure (by omega)

theorem gains_structType (ms : Modifiers) :
    Gains b 0 (fun _ => 0) (structType l ms) (structType g ms) := by
  refine .of fun credit s enough => (gains_expectKeyword _ _).bind enough fun _ s => ?_
  refine (gains_name _).bind (by omega) fun ident s => ?_
  refine gains_genericParams.bind (by omega) fun generics s => ?_
  refine (gains_expect (by simp) _).bind (by omega) fun _ s => ?_
  refine (gains_iterate (fun fields => .of fun credit s enough => ?_) []).bind (Nat.zero_le _)
    fun fields s => ?_
  · refine check_bind (atEnd_bind ?_)
    split
    · exact follows_pure (by omega)
    · refine (gains_name _).bind (by omega) fun field s => ?_
      refine (gains_expect (by simp) _).bind (by omega) fun _ s => ?_
      refine h.bind (by omega) fun type s => accept_bind (by simp) (follows_pure (by omega)) ?_
      exact accept_bind (by simp) (follows_pure (by omega)) (follows_pure (by omega))
  · exact (gains_expect (by simp) _).bind (by omega) fun _ s => follows_pure (by omega)

end Types

/-- A limited level beside another one, with constructs that read alike. -/
structure Limited (b : Bounds) (l g : Grammar) : Prop where
  limit : l.limit = b.limit
  limit_le : b.limit ≤ g.limit
  statement : Gains b 4 (fun _ => 0) l.statement g.statement
  block : Gains b 1 (fun _ => 0) l.block g.block
  expression : Gains b 3 Expr.weight l.expression g.expression
  operand : Gains b 2 Expr.weight l.operand g.operand
  primary : Gains b 1 Expr.weight l.primary g.primary
  typeExpr : Gains b 1 (fun _ => 0) l.typeExpr g.typeExpr
  declares : Gains b 1 (fun _ => 0) l.declares g.declares

variable (h : Limited b l g)

include h

theorem Limited.node {credit : Nat} {s : Cursor} {w : Expr → Nat} {form : ExprForm}
    {place : Location} (paid : form.childHeight + 1 ≤ credit)
    (rest : w (Expr.of form place) ≤ credit) :
    Follows b credit w s (l.node form place) (g.node form place) := by
  intro depth enough
  have limit := h.limit
  have limit_le := h.limit_le
  have height : (Expr.of form place).height = form.childHeight + 1 := rfl
  unfold Grammar.node
  by_cases high : l.limit < (Expr.of form place).height
  · rw [if_pos high]
    exact .limited (by rw [limit]) (by omega)
  · rw [if_neg high, if_neg (by omega)]
    exact .read depth (by omega)

omit h in
theorem gains_numberValue (t : Token) :
    Gains b 0 (fun _ => 0) (numberValue t) (numberValue t) := by
  refine .of fun credit s enough => ?_
  unfold numberValue
  split
  · exact follows_pure (by omega)
  · exact follows_broken

theorem follows_fold {credit : Nat} {s : Cursor} (precedence : Nat) (pending : Pending)
    (right : Expr) :
    Follows b (credit + Pending.weight pending + right.weight)
      (fun r => credit + Pending.weight r.1 + r.2.weight) s (fold l precedence pending right)
      (fold g precedence pending right) := by
  induction pending generalizing right s with
  | nil => exact follows_pure (Nat.le_refl _)
  | cons first pending ih =>
      obtain ⟨left, op⟩ := first
      unfold fold
      split
      · have height := op.childHeight_join left right
        have leftWeight := left.height_le_weight
        have leftPos := left.weight_pos
        have rightWeight := right.height_le_weight
        have rightPos := right.weight_pos
        have weight : Pending.weight ((left, op) :: pending)
            = left.weight + Pending.weight pending := by
          simp [Pending.weight]
        refine follows_bind (h.node (w := fun e => credit + Pending.weight pending + e.weight) ?_
          ?_) fun joined s => ih joined
        · omega
        · rw [Expr.weight_of]
          omega
      · exact follows_pure (Nat.le_refl _)

theorem gains_isTarget : Gains b 1 Expr.weight (isTarget l) (isTarget g) := by
  refine .of fun credit s enough => peek_bind ?_
  split
  · refine (gains_name _).bind (Nat.zero_le _) fun ident s => follows_pure ?_
    simp [Expr.weight_of, ExprForm.childHeight]
  · exact h.primary credit s enough
  · exact follows_unexpected

theorem follows_isTest {credit : Nat} {s : Cursor} (subject : Expr) :
    Follows b (credit + subject.weight) (fun e => credit + e.weight) s (isTest l subject)
      (isTest g subject) := by
  have subjectWeight := subject.height_le_weight
  have subjectPos := subject.weight_pos
  refine advance_any_bind fun t s => ?_
  extract_lets next next'
  have tail : ∀ q s, Follows b (credit + subject.weight) (fun e => credit + e.weight) s (next q)
      (next' q) := by
    intro q s
    refine (gains_expectKeyword _ _).bind (Nat.zero_le _) fun _ s => ?_
    refine (gains_isTarget h).bind (by omega) fun target s => ?_
    have targetWeight := target.height_le_weight
    have targetPos := target.weight_pos
    have height : (ExprForm.is subject q target).childHeight
        = max subject.height target.height := rfl
    apply h.node (by omega)
    rw [Expr.weight_of]
    omega
  split
  · exact tail _ s
  · exact tail _ s
  · exact tail _ s
  · exact unexpected_bind

theorem follows_chainStep {credit : Nat} {s : Cursor} (enough : 2 ≤ credit) (c : Pending × Expr) :
    Follows b (credit + Pending.weight c.1 + c.2.weight)
      (fun r => credit + Pending.weight r.value.1 + r.value.2.weight) s (chainStep l c)
      (chainStep g c) := by
  apply checkKeyword_bind
  split
  · refine follows_bind (follows_fold h _ _ _) fun r s => ?_
    refine advance_any_bind fun _ s => ?_
    exact follows_bind (follows_isTest h r.2) fun e s => follows_pure (Nat.le_refl _)
  · apply get_bind
    split
    · exact follows_pure (Nat.le_refl _)
    · refine follows_bind (follows_fold h _ _ _) fun r s => ?_
      refine (gains_advances _).bind (Nat.zero_le _) fun _ s => ?_
      refine h.operand.bind (by omega) fun e s => follows_pure ?_
      simp [Pending.weight]
      omega

theorem gains_chain : Gains b 2 Expr.weight (chain l) (chain g) := by
  refine .of fun credit s enough => h.operand.bind enough fun first s => ?_
  have steps := follows_iterate
    (w := fun c : Pending × Expr => credit + Pending.weight c.1 + c.2.weight)
    (fun c s => follows_chainStep h enough c) ([], first) s
  refine follows_bind (follows_more steps (by simp [Pending.weight])) fun r s => ?_
  refine follows_bind (follows_fold h _ _ _) fun r s => follows_pure ?_
  omega

theorem gains_conditional : Gains b 2 Expr.weight (conditional l) (conditional g) := by
  refine .of fun credit s enough => (gains_chain h).bind enough fun test s => ?_
  refine accept_bind (by simp) ?_ (follows_pure (Nat.le_refl _))
  refine h.expression.bind (by omega) fun yes s => ?_
  refine (gains_expect (by simp) _).bind (by omega) fun _ s => ?_
  refine h.expression.bind (by omega) fun no s => ?_
  have testWeight := test.height_le_weight
  have yesWeight := yes.height_le_weight
  have noWeight := no.height_le_weight
  have height : (ExprForm.conditional test yes no).childHeight
      = max (max test.height yes.height) no.height := rfl
  apply h.node (by omega)
  rw [Expr.weight_of]
  omega

/-- An update is paid for by its operator. -/
theorem follows_update {credit : Nat} {s : Cursor} (operator : Token) (before : Bool)
    (operand : Expr) (place : Location) :
    Follows b (credit + operand.weight + 1) (fun e => credit + e.weight) s
      (update l operator before operand place) (update g operator before operand place) := by
  unfold update
  split
  · have weight := operand.height_le_weight
    have height : ∀ op, (ExprForm.update op before operand).childHeight = operand.height :=
      fun _ => rfl
    refine h.node (by rw [height]; omega) ?_
    rw [Expr.weight_of, height]
    omega
  · exact follows_broken

/-- Arguments are worth one more than the expressions, for their parentheses. -/
theorem gains_arguments :
    Gains b 0 (fun args => total Expr.weight args + 1) (arguments l) (arguments g) := by
  refine .of fun credit s enough => (gains_expect (by simp) _).bind enough fun _ s => ?_
  apply check_bind
  extract_lets next
  have tail : ∀ args s, Follows b (credit + total Expr.weight args + 1)
      (fun args => credit + (total Expr.weight args + 1)) s (next args) (next args) := by
    intro args s
    exact (gains_expect (by simp) _).bind (Nat.zero_le _) fun _ s => follows_pure (by omega)
  split
  · exact follows_pure_bind (follows_more (tail [] s) (by simp))
  · refine (gains_commaSeparated h.expression).bind (by omega) fun args s => ?_
    exact follows_more (tail args s) (by omega)

/-- What is called is paid for with its arguments. -/
theorem follows_call {credit : Nat} {s : Cursor} (e : Expr) (generics : List TypeExpr) :
    Follows b (credit + e.weight) (fun r => credit + r.value.weight) s
      (do
        let args ← arguments l
        return ForInStep.yield (← l.node (.call e generics args) e.location))
      (do
        let args ← arguments g
        return ForInStep.yield (← g.node (.call e generics args) e.location)) := by
  refine (gains_arguments h).bind (Nat.zero_le _) fun args s => ?_
  have weight := e.height_le_weight
  have argsWeight := Expr.maxHeight_le args
  have height : (ExprForm.call e generics args).childHeight
      = max e.height (Expr.maxHeight args) := rfl
  refine follows_bind (h.node (w := fun e => credit + e.weight) (by omega) ?_) fun r s =>
    follows_pure (Nat.le_refl _)
  rw [Expr.weight_of]
  omega

/-- A member is paid for with what stands between it and its object. -/
theorem follows_member {credit : Nat} {s : Cursor} (e index : Expr) (computed : Bool) :
    Follows b (credit + e.weight + index.weight + 1) (fun r => credit + r.value.weight) s
      (do return ForInStep.yield (← l.node (.member e index computed) e.location))
      (do return ForInStep.yield (← g.node (.member e index computed) e.location)) := by
  have weight := e.height_le_weight
  have indexWeight := index.height_le_weight
  have height : (ExprForm.member e index computed).childHeight = max e.height index.height := rfl
  refine follows_bind (h.node (w := fun e => credit + e.weight) (by omega) ?_) fun r s =>
    follows_pure (Nat.le_refl _)
  rw [Expr.weight_of]
  omega

theorem follows_suffixStep {credit : Nat} {s : Cursor} (e : Expr) :
    Follows b (credit + e.weight) (fun r => credit + r.value.weight) s (suffixStep l e)
      (suffixStep g e) := by
  apply get_bind
  split
  · refine advance_any_bind fun _ s => (gains_name _).bind (Nat.zero_le _) fun ident s => ?_
    refine follows_more (follows_member h e _ false) ?_
    rw [Expr.weight_of]
    simp [ExprForm.childHeight]
  · next kind =>
      refine advance_bind (by simp [kind]) (h.expression.bind (by omega) fun index s => ?_)
      refine (gains_expect (by simp) _).bind (Nat.zero_le _) fun _ s => ?_
      exact follows_more (follows_member h e index true) (by omega)
  · split
    · refine (gains_genericArguments h.typeExpr).bind (Nat.zero_le _) fun generics s => ?_
      exact follows_call h e generics
    · exact follows_pure (Nat.le_refl _)
  · exact follows_call h e []
  · next kind =>
      apply advance_bind (by simp [kind])
      refine follows_bind (follows_more (follows_update h _ false e _) ?_) fun r s =>
        follows_pure (Nat.le_refl _)
      omega
  · next kind =>
      apply advance_bind (by simp [kind])
      refine follows_bind (follows_more (follows_update h _ false e _) ?_) fun r s =>
        follows_pure (Nat.le_refl _)
      omega
  · exact follows_pure (Nat.le_refl _)

theorem gains_suffixed : Gains b 1 Expr.weight (suffixed l) (suffixed g) :=
  .of fun credit _ enough => h.primary.bind enough fun e s =>
    follows_iterate (w := fun e => credit + e.weight) (fun e _ => follows_suffixStep h e) e s

theorem gains_operandForm : Gains b 1 Expr.weight (operandForm l) (operandForm g) := by
  refine .of fun credit s enough => peek_bind ?_
  have operator : ∀ (form : Expr → ExprForm) (place : Location) (s : Cursor),
      (∀ e, (form e).childHeight = e.height) → s.peek.kind ≠ .eof →
      Follows b credit (fun e => credit + e.weight) s
        (do
          let _ ← advance
          l.node (form (← l.operand)) place)
        (do
          let _ ← advance
          g.node (form (← g.operand)) place) := by
    intro form place s height notEnd
    refine advance_bind notEnd (h.operand.bind (by omega) fun e s => ?_)
    have weight := e.height_le_weight
    refine h.node (by rw [height]; omega) ?_
    rw [Expr.weight_of, height]
    omega
  have update : ∀ (t : Token) (place : Location) (s : Cursor), s.peek.kind ≠ .eof →
      Follows b credit (fun e => credit + e.weight) s
        (do
          let _ ← advance
          update l t true (← l.operand) place)
        (do
          let _ ← advance
          update g t true (← g.operand) place) := by
    intro t place s notEnd
    refine advance_bind notEnd (h.operand.bind (by omega) fun e s => ?_)
    exact follows_more (follows_update h t true e place) (by omega)
  split
  · next kind => exact operator _ _ s (fun _ => rfl) (by simp [kind])
  · next kind => exact operator _ _ s (fun _ => rfl) (by simp [kind])
  · next kind => exact operator _ _ s (fun _ => rfl) (by simp [kind])
  · next kind => exact update _ _ s (by simp [kind])
  · next kind => exact update _ _ s (by simp [kind])
  · next kind => exact operator _ _ s (fun _ => rfl) (by simp [kind])
  · exact gains_suffixed h credit s enough

theorem gains_objectProperties :
    Gains b 0 (fun ps => total (fun p => p.value.weight) ps) (objectProperties l)
      (objectProperties g) := by
  refine .of fun credit s enough => ?_
  refine follows_bind (follows_more (follows_iterate
    (w := fun ps => credit + total (fun p : Property => p.value.weight) ps)
    (fun ps s => check_bind ?_) [] s) (by simp)) fun ps s => ?_
  · split
    · exact follows_pure (Nat.le_refl _)
    · have one : ∀ (t : Token) (s : Cursor),
          Follows b (credit + total (fun p => p.value.weight) ps)
            (fun r => credit + total (fun p => p.value.weight) r.value) s
            (do
              let _ ← expect .colon "':' after property name"
              let value ← l.expression
              let ps := ps ++ [(⟨⟨t.lexeme, t.location⟩, value, t.location⟩ : Property)]
              if ← accept .comma then return ForInStep.yield ps else return .done ps)
            (do
              let _ ← expect .colon "':' after property name"
              let value ← g.expression
              let ps := ps ++ [(⟨⟨t.lexeme, t.location⟩, value, t.location⟩ : Property)]
              if ← accept .comma then return ForInStep.yield ps else return .done ps) := by
        intro t s
        refine (gains_expect (by simp) _).bind (Nat.zero_le _) fun _ s => ?_
        refine h.expression.bind (by omega) fun value s => accept_bind (by simp) ?_ ?_
        · apply follows_pure
          simp
          omega
        · apply follows_pure
          simp
          omega
      refine advance_any_bind fun t s => ?_
      split
      · exact one t s
      · exact one t s
      · exact follows_unexpected
  · exact (gains_expect (by simp) _).bind (Nat.zero_le _) fun _ s => follows_pure (by omega)

theorem gains_newForm : Gains b 0 (fun form => form.childHeight + 1) (newForm l) (newForm g) := by
  refine .of fun credit s enough => (gains_name _).bind enough fun className s => ?_
  refine (gains_optionalGenerics h.typeExpr).bind (Nat.zero_le _) fun generics s => ?_
  refine (gains_arguments h).bind (Nat.zero_le _) fun args s => follows_pure ?_
  have weight := Expr.maxHeight_le args
  have height : (ExprForm.new className generics args).childHeight = Expr.maxHeight args := rfl
  omega

theorem gains_arrayForm : Gains b 3 (fun form => form.childHeight) (arrayForm l) (arrayForm g) := by
  refine .of fun credit s enough => check_bind ?_
  extract_lets next
  have tail : ∀ items s, Follows b (credit + total Expr.weight items)
      (fun form => credit + form.childHeight) s (next items) (next items) := by
    intro items s
    refine (gains_expect (by simp) _).bind (Nat.zero_le _) fun _ s => follows_pure ?_
    have weight := Expr.maxHeight_le items
    have height : (ExprForm.array items).childHeight = Expr.maxHeight items := rfl
    omega
  split
  · exact follows_pure_bind (follows_more (tail [] s) (by simp))
  · exact (gains_commaSeparated h.expression).bind (by omega) fun items s => tail items s

omit h in
theorem gains_signedNumber : Gains b 0 (fun _ => 0) signedNumber signedNumber := by
  refine .of fun credit s enough => (gains_accept _).bind enough fun negative s => ?_
  refine (gains_expect (by simp) _).bind (Nat.zero_le _) fun t s => ?_
  exact (gains_numberValue t).bind (Nat.zero_le _) fun _ s => follows_pure (by omega)

omit h in
theorem gains_memberPath (first : String) :
    Gains b 0 (fun _ => 0) (memberPath first) (memberPath first) := by
  refine gains_iterate (fun path => .of fun credit s enough => accept_bind (by simp) ?_ ?_) _
  · exact (gains_name _).bind (Nat.zero_le _) fun _ s => follows_pure (by omega)
  · exact follows_pure (by omega)

omit h in
theorem gains_numberPattern : Gains b 0 PatternForm.weight numberPattern numberPattern := by
  refine .of fun credit s enough => gains_signedNumber.bind enough fun first s => ?_
  refine accept_bind (by simp) ?_ (follows_pure (by simp [PatternForm.weight]))
  exact gains_signedNumber.bind (Nat.zero_le _) fun last s =>
    follows_pure (by simp [PatternForm.weight])

omit h in
theorem gains_simplePattern : Gains b 0 PatternForm.weight simplePattern simplePattern := by
  refine .of fun credit s enough => peek_bind ?_
  split
  case h_2 =>
    refine advance_any_bind fun _ s => (gains_name _).bind (Nat.zero_le _) fun _ s => ?_
    exact follows_pure (by simp [PatternForm.weight])
  case h_3 | h_4 => exact gains_numberPattern credit s enough
  case h_8 =>
    refine advance_any_bind fun _ s => (gains_memberPath _).bind (Nat.zero_le _) fun path s => ?_
    split
    · exact follows_pure (by simp [PatternForm.weight])
    · exact follows_pure (by simp [PatternForm.weight])
  case h_9 => exact follows_unexpected
  all_goals exact advance_any_bind fun _ s => follows_pure (by simp [PatternForm.weight])

theorem gains_pattern (guards : Bool) :
    Gains b 0 (fun p => p.form.weight) (pattern l guards) (pattern g guards) := by
  refine .of fun credit s enough => here_bind ?_
  refine gains_simplePattern.bind enough fun form s => ?_
  split
  · refine accept_bind (by simp) ?_ (follows_pure (Nat.le_refl _))
    refine h.expression.bind (by omega) fun guard s => follows_pure ?_
    simp only [PatternForm.weight]
    omega
  · exact follows_pure (Nat.le_refl _)

theorem gains_matchForm :
    Gains b 3 (fun form => form.childHeight) (matchForm l) (matchForm g) := by
  refine .of fun credit s enough => h.expression.bind enough fun value s => ?_
  refine (gains_expect (by simp) _).bind (Nat.zero_le _) fun _ s => ?_
  refine follows_bind (follows_more (follows_iterate
    (w := fun arms => credit + value.weight + total MatchArm.weight arms)
    (fun arms s => check_bind (atEnd_bind ?_)) [] s) (by simp)) fun arms s => ?_
  · split
    · exact follows_pure (Nat.le_refl _)
    · refine (gains_pattern h true).bind (Nat.zero_le _) fun p s => ?_
      extract_lets next next'
      have tail : ∀ r, Follows b
          (credit + value.weight + total MatchArm.weight arms + p.form.weight)
          (fun r => credit + value.weight + total MatchArm.weight r.value) s (next r)
          (next' r) := by
        intro r
        refine (gains_expect (by simp) _).bind (Nat.zero_le _) fun _ s => ?_
        refine h.expression.bind (by omega) fun body s => ?_
        have weight : total MatchArm.weight (arms ++ [⟨p, body, p.location⟩])
            = total MatchArm.weight arms + (p.form.weight + body.weight) := by
          simp [MatchArm.weight]
        refine accept_bind (by simp) (follows_pure ?_) (accept_bind (by simp) (follows_pure ?_)
          (follows_pure ?_))
        all_goals
          simp only [ForInStep.value, weight]
          omega
      split
      · exact broken_bind
      · exact tail ()
  · refine (gains_expect (by simp) _).bind (Nat.zero_le _) fun _ s => follows_pure ?_
    have armsWeight := foldl_max_le MatchArm.height_le_weight arms value.height
    have weight := value.height_le_weight
    have height : (ExprForm.match_ value arms).childHeight
        = arms.foldl (fun n arm => max n arm.height) value.height := rfl
    omega

theorem gains_primaryForm : Gains b 0 Expr.weight (primaryForm l) (primaryForm g) := by
  refine .of fun credit s enough => ?_
  by_cases atEnd : s.peek.kind = .eof
  · apply advance_peek_bind
    rw [atEnd]
    exact follows_unexpected
  · have node : ∀ form place s', Follows b (credit + 4 + form.childHeight)
        (fun e => credit + e.weight) s' (l.node form place) (g.node form place) := by
      intro form place s'
      apply h.node (by omega)
      rw [Expr.weight_of]
      omega
    have leaf : ∀ form place s', form.childHeight = 0 → Follows b (credit + 4)
        (fun e => credit + e.weight) s' (l.node form place) (g.node form place) :=
      fun form place s' height => follows_more (node form place s') (by omega)
    apply advance_bind atEnd
    split
    case h_1 => exact (gains_numberValue _).bind (Nat.zero_le _) fun value s => leaf _ _ s rfl
    case h_9 =>
      refine (gains_newForm h).bind (Nat.zero_le _) fun form s => ?_
      exact follows_more (node _ _ s) (by omega)
    case h_10 => exact (gains_matchForm h).bind (by omega) fun form s => node _ _ s
    case h_11 => exact (gains_arrayForm h).bind (by omega) fun form s => node _ _ s
    case h_12 =>
      refine (gains_objectProperties h).bind (Nat.zero_le _) fun ps s => ?_
      have weights := Expr.maxHeight_le (ps.map (·.value))
      rw [total_map] at weights
      have height : (ExprForm.object ps).childHeight = Expr.maxHeight (ps.map (·.value)) := rfl
      refine follows_more (node _ _ s) (Nat.add_le_add_left ?_ _)
      rw [height]
      exact weights
    case h_13 =>
      refine h.expression.bind (by omega) fun inner s => ?_
      exact (gains_expect (by simp) _).bind (Nat.zero_le _) fun _ s => follows_pure (by omega)
    case h_14 => exact follows_unexpected
    all_goals exact leaf _ _ _ rfl

end Grammar
end ScriptFront
