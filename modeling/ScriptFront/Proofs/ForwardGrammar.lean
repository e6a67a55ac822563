import ScriptFront.Grammar.Program
import ScriptFront.Proofs.ForwardReading

/-!
The constructs of the grammar go forward, and every level of it. Each statement, block and
expression reads a token, and so does each round of a loop that has another one. Where a construct
looks further than the next token, it does so only behind a token that is not the end of file.
-/

namespace ScriptFront

namespace Cursor

variable {s : Cursor} {us : List Token}

theorem adjacentRun_trailing {k : TokenKind} (token : k ≠ .eof) (n : Nat) :
    (s.trailing us).adjacentRun k n = s.adjacentRun k n := by
  induction n with
  | zero => rfl
  | succ n ih =>
      rw [adjacentRun_succ, adjacentRun_succ, ih]
      cases run : s.adjacentRun k n with
      | false => rfl
      | true =>
          have length : n ≤ s.rest.length := by
            refine length_of_kinds fun i less => ?_
            have kind := List.all_eq_true.mp run i (List.mem_range.mpr less)
            rwa [beq_iff_eq.mp (Bool.and_eq_true_iff.mp kind).1]
          rw [peekAt_trailing length, peekAt_trailing (Nat.le_trans (Nat.sub_le n 1) length)]

theorem chainOp?_trailing : (s.trailing us).chainOp? = s.chainOp? := by
  simp only [chainOp?, adjacentRun_trailing (k := .leftArrow) nofun,
    adjacentRun_trailing (k := .rightArrow) nofun, peek_trailing]

end Cursor

namespace Grammar

open ScriptFront.Parser

variable {us : List Token} {g : Grammar} {s : Cursor}

/-- The parsers of a level go forward. -/
structure GoesForward (us : List Token) (g : Grammar) : Prop where
  statement : ∀ s, Consumes us g.statement s
  block : ∀ s, Consumes us g.block s
  expression : ∀ s, Consumes us g.expression s
  operand : ∀ s, Consumes us g.operand s
  primary : ∀ s, Consumes us g.primary s
  typeExpr : ∀ s, Inside us g.typeExpr s
  declares : ∀ s, Inside us g.declares s

/-! ### Types -/

section Types

variable (h : ∀ s, Inside us g.typeExpr s)

include h

theorem consumes_genericArguments (s : Cursor) : Consumes us (genericArguments g) s := by
  refine (consumes_expect rfl _).bind fun _ s => ?_
  refine (inside_commaSeparated h).bind fun args s => ?_
  exact (consumes_expect rfl _).bind fun _ s => inside_pure _

theorem inside_optionalGenerics (s : Cursor) : Inside us (optionalGenerics g) s := by
  refine forward_check ?_
  split
  · exact (consumes_genericArguments h s).inside
  · exact inside_pure _

theorem inside_baseType (s : Cursor) : Inside us (baseType g) s := by
  refine forward_peek ?_
  have one : ∀ type : TypeExpr, Inside us (do let _ ← advance; return type) s := fun type =>
    inside_advance.bind fun _ s => inside_pure _
  have named : ∀ name place, Inside us (do
      let _ ← advance
      let generics ← optionalGenerics g
      return (⟨.reference name generics, place⟩ : TypeExpr)) s := fun name place =>
    inside_advance.bind fun _ s => (inside_optionalGenerics h s).bind fun _ s => inside_pure _
  dsimp only
  split
  · exact one _
  · exact one _
  · split
    · exact one _
    · exact forward_unexpected _ _
  · exact one _
  · exact one _
  · exact named _ _
  · exact named _ _
  · refine inside_advance.bind fun _ s => (h s).bind fun inner s => ?_
    exact (consumes_expect rfl _).bind fun _ s => inside_pure _
  · exact forward_unexpected _ _

omit h in
/-- The token behind a bracket is looked at only where there is a bracket. -/
theorem forward_arrayStep (t : TypeExpr) (s : Cursor) : Forward us GoesOn (arrayStep t) s := by
  refine forward_check (forward_peekAt ?_ ?_)
  · cases opened : s.peek.kind == .openSquare with
    | false => rfl
    | true =>
        have more : s.rest ≠ [] := Cursor.rest_ne_nil (by rw [beq_iff_eq.mp opened]; decide)
        rw [Cursor.peekAt_trailing (List.length_pos_iff.mpr more)]
  · split
    · next brackets =>
        have opened := beq_iff_eq.mp (Bool.and_eq_true_iff.mp brackets).1
        refine (consumes_advance (by rw [opened]; decide)).bind fun _ s => ?_
        exact inside_advance.bind fun _ s => inside_pure _
    · exact forward_done _

theorem inside_arrayType (s : Cursor) : Inside us (arrayType g) s :=
  (inside_baseType h s).bind fun base _ => inside_iterate forward_arrayStep base

theorem forward_intersectionStep (left : TypeExpr) (s : Cursor) :
    Forward us GoesOn (intersectionStep g left) s :=
  forward_accept rfl (fun s => (inside_arrayType h s).bind fun _ _ => inside_pure _)
    (forward_done _)

theorem inside_intersectionType (s : Cursor) : Inside us (intersectionType g) s :=
  (inside_arrayType h s).bind fun first _ => inside_iterate (forward_intersectionStep h) first

theorem forward_unionStep (left : TypeExpr) (s : Cursor) :
    Forward us GoesOn (unionStep g left) s :=
  forward_accept rfl (fun s => (inside_intersectionType h s).bind fun _ _ => inside_pure _)
    (forward_done _)

theorem inside_unionType (s : Cursor) : Inside us (unionType g) s :=
  (inside_intersectionType h s).bind fun first _ => inside_iterate (forward_unionStep h) first

omit h in
theorem inside_genericParams (s : Cursor) : Inside us genericParams s := by
  refine forward_accept rfl (fun s => ?_) (inside_pure _)
  refine (inside_commaSeparated fun s => (consumes_name _).inside).bind fun params s => ?_
  exact (consumes_expect rfl _).bind fun _ s => inside_pure _

theorem consumes_param (s : Cursor) : Consumes us (param g) s := by
  refine forward_here ((inside_accept _).bind fun isRest s => ?_)
  refine (consumes_name _).bind fun ident s => (consumes_expect rfl _).bind fun _ s => ?_
  exact (h s).bind fun type s => inside_pure _

theorem forward_paramStep (ps : List Param) (s : Cursor) :
    Forward us GoesOn (paramStep g ps) s := by
  refine forward_check ?_
  extract_lets next
  have one : ∀ r s, Forward us GoesOn (next r) s := by
    refine fun _ s => (consumes_param h s).bind fun p s => ?_
    exact forward_accept rfl (fun s => inside_pure _) (inside_pure _)
  split
  · exact forward_done _
  · split
    · split
      · exact (forward_broken _ _).bind one
      · exact one () s
    · exact one () s

theorem consumes_params (s : Cursor) : Consumes us (params g) s := by
  refine (consumes_expect rfl _).bind fun _ s => ?_
  refine (inside_iterate (forward_paramStep h) []).bind fun ps s => ?_
  exact (consumes_expect rfl _).bind fun _ s => inside_pure _

omit h in
theorem inside_typeAndName {p : Parser TypeExpr} (hp : ∀ s, Inside us p s) (s : Cursor) :
    Inside us (typeAndName p) s :=
  (hp s).bind fun _ _ => inside_check _

/-- The token behind a name is looked at only where there is a name. -/
theorem inside_variableType (isConstant : Bool) (s : Cursor) :
    Inside us (variableType g isConstant) s := by
  refine forward_peek (forward_peekAt ?_ ?_)
  · cases named : s.peek.kind == .identifier with
    | false => simp only [Bool.and_false, Bool.false_and]
    | true =>
        have more : s.rest ≠ [] := Cursor.rest_ne_nil (by rw [beq_iff_eq.mp named]; decide)
        rw [Cursor.peekAt_trailing (List.length_pos_iff.mpr more)]
  · split
    · exact inside_advance.bind fun _ s => inside_pure _
    · split
      · exact inside_pure _
      · exact h s

theorem consumes_returnType (s : Cursor) : Consumes us (returnType g) s :=
  (consumes_expect rfl _).bind fun _ s => h s

theorem consumes_signature (s : Cursor) : Consumes us (signature g) s := by
  refine (inside_genericParams s).bind fun generics s => (consumes_params h s).bind fun ps s => ?_
  exact (consumes_returnType h s).bind fun returns s => inside_pure _

end Types

theorem inside_node (form : ExprForm) (place : Location) : Inside us (g.node form place) s := by
  simp only [node]
  split
  · exact forward_fail _ _
  · exact inside_pure _

/-! ### Patterns -/

theorem inside_numberValue (t : Token) : Inside us (numberValue t) s := by
  simp only [numberValue]
  split
  · exact inside_pure _
  · exact forward_broken _ _

theorem consumes_signedNumber (s : Cursor) : Consumes us signedNumber s := by
  refine (inside_accept _).bind fun negative s => (consumes_expect rfl _).bind fun t s => ?_
  exact (inside_numberValue t).bind fun _ s => inside_pure _

theorem forward_pathStep (path : List String) (s : Cursor) :
    Forward us GoesOn (pathStep path) s :=
  forward_accept rfl (fun _ => (consumes_name _).bind fun _ _ => inside_pure _) (forward_done _)

theorem inside_memberPath (first : String) (s : Cursor) : Inside us (memberPath first) s :=
  inside_iterate forward_pathStep _

theorem inside_numberPattern (s : Cursor) : Inside us numberPattern s := by
  refine (consumes_signedNumber s).bind fun first s => ?_
  exact forward_accept rfl
    (fun s => (consumes_signedNumber s).bind fun last s => inside_pure _) (inside_pure _)

theorem inside_simplePattern (s : Cursor) : Inside us simplePattern s := by
  refine forward_peek ?_
  have one : ∀ form : PatternForm, Inside us (do let _ ← advance; return form) s :=
    fun form => inside_advance.bind fun _ s => inside_pure _
  split
  · exact one _
  · exact inside_advance.bind fun _ s => (consumes_name _).bind fun _ s => inside_pure _
  · exact inside_numberPattern s
  · exact inside_numberPattern s
  · exact one _
  · exact one _
  · exact one _
  · refine inside_advance.bind fun _ s => (inside_memberPath _ s).bind fun path s => ?_
    split
    · exact inside_pure _
    · exact inside_pure _
  · exact forward_unexpected _ _

variable (h : GoesForward us g)

include h

theorem inside_pattern (guards : Bool) (s : Cursor) : Inside us (pattern g guards) s := by
  refine forward_here ((inside_simplePattern s).bind fun form s => ?_)
  split
  · exact forward_accept rfl
      (fun s => (h.expression s).bind fun guard s => inside_pure _) (inside_pure _)
  · exact inside_pure _

/-! ### Chains of operands -/

omit h in
theorem inside_fold (precedence : Nat) (pending : Pending) (right : Expr) (s : Cursor) :
    Inside us (fold g precedence pending right) s := by
  induction pending generalizing right s with
  | nil => exact inside_pure _
  | cons first pending ih =>
      simp only [fold]
      split
      · exact (inside_node _ _).bind fun joined s => ih joined s
      · exact inside_pure _

theorem inside_isTarget (s : Cursor) : Inside us (isTarget g) s := by
  refine forward_peek ?_
  split
  · exact (consumes_name _).bind fun ident s => inside_pure _
  · exact (h.primary s).inside
  · exact forward_unexpected _ _

theorem consumes_isTest (subject : Expr) (s : Cursor) : Consumes us (isTest g subject) s := by
  refine inside_advance.bind fun t s => ?_
  extract_lets next
  have rest : ∀ q s, Consumes us (next q) s := fun q s =>
    (consumes_expect rfl _).bind fun _ s => (inside_isTarget h s).bind fun target s =>
      inside_node _ _
  split
  · exact (inside_pure _).bind rest
  · exact (inside_pure _).bind rest
  · exact (inside_pure _).bind rest
  · exact (forward_unexpected _ _).bind rest

theorem forward_chainStep (c : Pending × Expr) (s : Cursor) :
    Forward us GoesOn (chainStep g c) s := by
  refine forward_check ?_
  split
  · refine (inside_fold _ _ _ s).bind fun r s => inside_advance.bind fun _ s => ?_
    exact (consumes_isTest h r.2 s).bind fun e s => inside_pure _
  · refine forward_get (by rw [Cursor.chainOp?_trailing]) ?_
    split
    · exact forward_done _
    · refine (inside_fold _ _ _ s).bind fun r s => (inside_advances _).bind fun _ s => ?_
      exact (h.operand s).bind fun e s => inside_pure _

theorem consumes_chain (s : Cursor) : Consumes us (chain g) s := by
  refine (h.operand s).bind fun first s => ?_
  refine (inside_iterate (forward_chainStep h) _).bind fun r s => ?_
  exact (inside_fold _ _ _ s).bind fun r s => inside_pure _

theorem consumes_conditional (s : Cursor) : Consumes us (conditional g) s := by
  refine (consumes_chain h s).bind fun test s => forward_accept rfl (fun s => ?_) (inside_pure _)
  refine (h.expression s).bind fun yes s => (consumes_expect rfl _).bind fun _ s => ?_
  exact (h.expression s).bind fun no s => inside_node _ _

/-! ### Operands -/

omit h in
theorem inside_update (operator : Token) (before : Bool) (operand : Expr) (place : Location) :
    Inside us (update g operator before operand place) s := by
  simp only [update]
  split
  · exact inside_node _ _
  · exact forward_broken _ _

theorem consumes_arguments (s : Cursor) : Consumes us (arguments g) s := by
  refine (consumes_expect rfl _).bind fun _ s => forward_check ?_
  extract_lets next
  have close : ∀ args s, Inside us (next args) s := fun args s =>
    (consumes_expect rfl _).bind fun _ s => inside_pure _
  split
  · exact (inside_pure _).bind close
  · exact (inside_commaSeparated fun s => (h.expression s).inside).bind close

omit h in
/-- Each of the tokens looked at is behind one that is not the end of file. -/
theorem opensGenerics_trailing : opensGenerics (s.trailing us) = opensGenerics s := by
  simp only [opensGenerics, Cursor.peek_trailing]
  cases opened : s.peek.kind == .leftArrow with
  | false => rfl
  | true =>
      have here : s.peek.kind ≠ .eof := by rw [beq_iff_eq.mp opened]; decide
      have length := List.length_pos_iff.mpr (Cursor.rest_ne_nil here)
      rw [Cursor.peekAt_trailing length]
      by_cases ended : (s.peekAt 1).kind = .eof
      · simp only [ended, Bool.and_false, Bool.false_and]
      · have length : 2 ≤ s.rest.length := Cursor.length_of_kinds fun i less => by
          match i, less with
          | 0, _ => exact here
          | 1, _ => exact ended
        rw [Cursor.peekAt_trailing length]

theorem forward_suffixStep (e : Expr) (s : Cursor) : Forward us GoesOn (suffixStep g e) s := by
  have call : ∀ generics s, Forward us GoesOn (do
      let args ← arguments g
      return ForInStep.yield (← g.node (.call e generics args) e.location)) s := fun generics s =>
    (consumes_arguments h s).bind fun args s => (inside_node _ _).bind fun _ s => inside_pure _
  have updated : s.peek.kind ≠ .eof → Forward us GoesOn (do
      let operator ← advance
      return ForInStep.yield (← update g operator false e e.location)) s := fun here =>
    (consumes_advance here).bind fun operator s =>
      (inside_update _ _ _ _).bind fun _ s => inside_pure _
  refine forward_get ?_ ?_
  · rw [Cursor.peek_trailing, opensGenerics_trailing]
  · split
    · refine inside_advance.bind fun _ s => (consumes_name _).bind fun ident s => ?_
      exact (inside_node _ _).bind fun _ s => inside_pure _
    · refine inside_advance.bind fun _ s => (h.expression s).bind fun index s => ?_
      refine (consumes_expect rfl _).bind fun _ s => ?_
      exact (inside_node _ _).bind fun _ s => inside_pure _
    · split
      · exact (consumes_genericArguments h.typeExpr s).inside.bind call
      · exact forward_done _
    · exact call [] s
    · next kind => exact updated (by rw [kind]; decide)
    · next kind => exact updated (by rw [kind]; decide)
    · exact forward_done _

theorem consumes_suffixed (s : Cursor) : Consumes us (suffixed g) s :=
  (h.primary s).bind fun e _ => inside_iterate (forward_suffixStep h) e

theorem consumes_operandForm (s : Cursor) : Consumes us (operandForm g) s := by
  refine forward_peek ?_
  have operator : ∀ (form : Expr → ExprForm) place, Consumes us (do
      let _ ← advance
      g.node (form (← g.operand)) place) s := fun form place =>
    inside_advance.bind fun _ s => (h.operand s).bind fun e s => inside_node _ _
  have updated : Consumes us (do
      let _ ← advance
      update g s.peek true (← g.operand) s.peek.location) s :=
    inside_advance.bind fun _ s => (h.operand s).bind fun e s => inside_update _ _ _ _
  dsimp only
  split
  · exact operator _ _
  · exact operator _ _
  · exact operator _ _
  · exact updated
  · exact updated
  · exact operator _ _
  · exact consumes_suffixed h s

theorem forward_propertyStep (ps : List Property) (s : Cursor) :
    Forward us GoesOn (propertyStep g ps) s := by
  have one : ∀ (t : Token) s, Forward us GoesOn (do
      let _ ← expect .colon "':' after property name"
      let value ← g.expression
      let ps := ps ++ [(⟨⟨t.lexeme, t.location⟩, value, t.location⟩ : Property)]
      if ← accept .comma then return ForInStep.yield ps else return .done ps) s := by
    intro t s
    refine (consumes_expect rfl _).bind fun _ s => (h.expression s).bind fun value s => ?_
    exact forward_accept rfl (fun s => inside_pure _) (inside_pure _)
  refine forward_check ?_
  split
  · exact forward_done _
  · refine inside_advance.bind fun t s => ?_
    split
    · exact one t s
    · exact one t s
    · exact forward_unexpected _ _

theorem inside_objectProperties (s : Cursor) : Inside us (objectProperties g) s :=
  (inside_iterate (forward_propertyStep h) []).bind fun _ _ =>
    (consumes_expect rfl _).bind fun _ _ => inside_pure _

theorem inside_newForm (s : Cursor) : Inside us (newForm g) s := by
  refine (consumes_name _).bind fun className s => ?_
  refine (inside_optionalGenerics h.typeExpr s).bind fun generics s => ?_
  exact (consumes_arguments h s).bind fun args s => inside_pure _

theorem forward_armStep (arms : List MatchArm) (s : Cursor) :
    Forward us GoesOn (armStep g arms) s := by
  refine forward_check (forward_atEnd ?_)
  split
  · exact forward_done _
  · refine (inside_pattern h true s).bind fun p s => ?_
    extract_lets next
    have rest : ∀ r s, Forward us GoesOn (next r) s := by
      refine fun _ s => (consumes_expect rfl _).bind fun _ s => ?_
      refine (h.expression s).bind fun body s => ?_
      refine forward_accept rfl (fun s => inside_pure _) ?_
      exact forward_accept rfl (fun s => inside_pure _) (inside_pure _)
    split
    · exact (forward_broken _ _).bind rest
    · exact rest () s

theorem inside_matchForm (s : Cursor) : Inside us (matchForm g) s := by
  refine (h.expression s).bind fun value s => (consumes_expect rfl _).bind fun _ s => ?_
  refine (inside_iterate (forward_armStep h) []).bind fun arms s => ?_
  exact (consumes_expect rfl _).bind fun _ s => inside_pure _

theorem inside_arrayForm (s : Cursor) : Inside us (arrayForm g) s := by
  refine forward_check ?_
  extract_lets next
  have close : ∀ items s, Inside us (next items) s := fun items s =>
    (consumes_expect rfl _).bind fun _ s => inside_pure _
  split
  · exact (inside_pure _).bind close
  · exact (inside_commaSeparated fun s => (h.expression s).inside).bind close

theorem consumes_primaryForm (s : Cursor) : Consumes us (primaryForm g) s := by
  refine forward_advance (fun t s _ => ?_) fun t s kind => ?_
  · have composed : ∀ {form : Parser ExprForm}, Inside us form s →
        Inside us (do g.node (← form) t.location) s := fun inside =>
      inside.bind fun _ s => inside_node _ _
    dsimp only
    split
    case h_1 => exact (inside_numberValue t).bind fun _ s => inside_node _ _
    case h_9 => exact composed (inside_newForm h s)
    case h_10 => exact composed (inside_matchForm h s)
    case h_11 => exact composed (inside_arrayForm h s)
    case h_12 => exact (inside_objectProperties h s).bind fun _ s => inside_node _ _
    case h_13 =>
      refine (h.expression s).bind fun inner s => ?_
      exact (consumes_expect rfl _).bind fun _ s => inside_pure _
    case h_14 => exact forward_unexpected _ _
    all_goals exact inside_node _ _
  · simp only [kind]
    exact forward_unexpected _ _

/-! ### Declarations -/

omit h in
theorem forward_modifierStep (ms : Modifiers) (s : Cursor) :
    Forward us GoesOn (modifierStep ms) s := by
  refine forward_peek ?_
  split
  · next k kind =>
      split
      · next modifier _ =>
          refine (consumes_advance (by rw [kind]; exact nofun)).bind fun _ s => ?_
          extract_lets next
          have rest : ∀ r s, Inside us (next r) s := by
            intro _ s
            dsimp only [next]
            split
            · exact forward_fail _ _
            · exact inside_pure _
          split
          · exact (forward_fail _ _).bind rest
          · exact rest () s
      · exact forward_done _
  · exact forward_done _

omit h in
theorem inside_modifiers (s : Cursor) : Inside us modifiers s :=
  inside_iterate forward_modifierStep _

theorem inside_startsVariable (s : Cursor) : Inside us (startsVariable g) s := by
  refine forward_peek ?_
  split
  · exact inside_pure _
  · exact inside_pure _
  · exact inside_pure _
  · exact h.declares s
  · exact inside_pure _

theorem inside_initializer (s : Cursor) : Inside us (initializer g) s :=
  forward_accept rfl (fun s => (h.expression s).bind fun _ _ => inside_pure _) (inside_pure _)

theorem inside_varGroup (ms : Modifiers) (s : Cursor) : Inside us (varGroup g ms) s := by
  refine (inside_accept _).bind fun isConstant s => ?_
  refine (inside_variableType h.typeExpr isConstant s).bind fun type s => ?_
  refine (inside_commaSeparated fun s => (consumes_name _).inside).bind fun names s => ?_
  exact (inside_initializer h s).bind fun init s => inside_pure _

theorem consumes_function (ms : Modifiers) (s : Cursor) : Consumes us (function g ms) s := by
  refine (consumes_expect rfl _).bind fun _ s => (consumes_name _).bind fun ident s => ?_
  refine (consumes_signature h.typeExpr s).bind fun sig s => ?_
  exact (h.block s).bind fun body s => inside_pure _

theorem forward_fieldStep (fields : List TypeField) (s : Cursor) :
    Forward us GoesOn (fieldStep g fields) s := by
  refine forward_check (forward_atEnd ?_)
  split
  · exact forward_done _
  · refine (consumes_name _).bind fun field s => (consumes_expect rfl _).bind fun _ s => ?_
    refine (h.typeExpr s).bind fun type s => forward_accept rfl (fun s => inside_pure _) ?_
    exact forward_accept rfl (fun s => inside_pure _) (inside_pure _)

theorem consumes_structType (ms : Modifiers) (s : Cursor) : Consumes us (structType g ms) s := by
  refine (consumes_expect rfl _).bind fun _ s => (consumes_name _).bind fun ident s => ?_
  refine (inside_genericParams s).bind fun generics s => ?_
  refine (consumes_expect rfl _).bind fun _ s => ?_
  refine (inside_iterate (forward_fieldStep h) []).bind fun fields s => ?_
  exact (consumes_expect rfl _).bind fun _ s => inside_pure _

/-! ### Class bodies -/

omit h in
theorem inside_reject (ms : Modifiers) (forbidden : List (Modifier × GrammarRule))
    (place : Location) : Inside us (reject ms forbidden place) s := by
  simp only [reject]
  split
  · exact forward_broken _ _
  · exact inside_pure _

theorem consumes_operatorMember (s : Cursor) : Consumes us (operatorMember g) s := by
  refine inside_advance.bind fun t s => ?_
  split
  · refine (inside_genericParams s).bind fun generics s => ?_
    refine (consumes_params h.typeExpr s).bind fun ps s => ?_
    split
    · exact forward_broken _ _
    · refine (consumes_returnType h.typeExpr s).bind fun returns s => ?_
      exact (h.block s).bind fun body s => inside_pure _
  · exact forward_unexpected _ _

theorem inside_constructorMember (s : Cursor) : Inside us (constructorMember g) s := by
  refine (consumes_params h.typeExpr s).bind fun ps s => forward_check ?_
  split
  · exact forward_here (forward_broken _ _)
  · exact (h.block s).bind fun body s => inside_pure _

theorem consumes_methodMember (className : String) (ms : Modifiers) (place : Location)
    (s : Cursor) : Consumes us (methodMember g className ms place) s := by
  refine (inside_reject _ _ _).bind fun _ s => (consumes_name _).bind fun ident s => ?_
  split
  · exact (inside_reject _ _ _).bind fun _ s => inside_constructorMember h s
  · refine (consumes_signature h.typeExpr s).bind fun sig s => ?_
    exact (h.block s).bind fun body s => inside_pure _

theorem consumes_propertyMember (s : Cursor) : Consumes us (propertyMember g) s := by
  refine (h.typeExpr s).bind fun type s => (consumes_name _).bind fun ident s => ?_
  refine (inside_initializer h s).bind fun init s => ?_
  exact (consumes_expect rfl _).bind fun _ s => inside_pure _

omit h in
theorem inside_foreseesMethod (s : Cursor) : Inside us foreseesMethod s :=
  inside_foresee (inside_advance.bind fun _ s => (inside_genericParams s).bind fun _ _ =>
    inside_check _)

theorem consumes_member (className : String) (s : Cursor) :
    Consumes us (member g className) s := by
  refine forward_here ((inside_modifiers s).bind fun ms s => forward_check ?_)
  refine (inside_foreseesMethod s).bind fun method s => ?_
  split
  · refine (inside_reject _ _ _).bind fun _ s => ?_
    exact (consumes_operatorMember h s).bind fun form s => inside_pure _
  · split
    · exact (consumes_methodMember h className ms _ s).bind fun form s => inside_pure _
    · exact (consumes_propertyMember h s).bind fun form s => inside_pure _

theorem forward_memberStep (className : String) (ms : List ClassMember) (s : Cursor) :
    Forward us GoesOn (memberStep g className ms) s := by
  refine forward_check (forward_atEnd ?_)
  split
  · exact forward_done _
  · refine forward_accept rfl (fun s => inside_pure _) ?_
    refine (consumes_member h className s).bind fun member s => ?_
    split
    · exact (forward_broken _ _).bind fun _ s => inside_pure _
    · exact inside_pure _

theorem inside_members (className : String) (s : Cursor) : Inside us (members g className) s :=
  inside_iterate (forward_memberStep h className) _

theorem consumes_classType (ms : Modifiers) (s : Cursor) : Consumes us (classType g ms) s := by
  refine (consumes_expect rfl _).bind fun _ s => (consumes_name _).bind fun ident s => ?_
  refine (inside_genericParams s).bind fun generics s => ?_
  refine (inside_accept _).bind fun extending s => ?_
  extract_lets rest
  have rest_inside : ∀ superclass s, Inside us (rest superclass) s := by
    refine fun superclass s => (inside_accept _).bind fun implementing s => ?_
    extract_lets body
    have body_inside : ∀ interfaces s, Inside us (body interfaces) s := by
      refine fun interfaces s => (consumes_expect rfl _).bind fun _ s => ?_
      refine (inside_members h _ s).bind fun members s => ?_
      exact (consumes_expect rfl _).bind fun _ s => inside_pure _
    split
    · exact (inside_commaSeparated h.typeExpr).bind body_inside
    · exact (inside_pure _).bind body_inside
  split
  · exact ((h.typeExpr s).map some).bind rest_inside
  · exact (inside_pure _).bind rest_inside

theorem consumes_declaration (s : Cursor) : Consumes us (declaration g) s := by
  refine forward_here ((inside_modifiers s).bind fun ms s => forward_peek ?_)
  split
  · exact (consumes_function h ms s).bind fun d s => inside_pure _
  · exact (consumes_classType h ms s).bind fun d s => inside_pure _
  · exact (consumes_structType h ms s).bind fun d s => inside_pure _
  · refine (inside_varGroup h ms s).bind fun d s => ?_
    exact (consumes_expect rfl _).bind fun _ s => inside_pure _

/-! ### Statements -/

theorem consumes_simple (s : Cursor) : Consumes us (simple g) s := by
  refine forward_here ((h.expression s).bind fun target s => forward_peek ?_)
  split
  · exact inside_pure _
  · refine inside_advance.bind fun operator s => ?_
    split
    · refine (h.expression s).bind fun right s => ?_
      split
      · exact (inside_node _ _).bind fun value s => inside_pure _
      · exact (inside_pure _).bind fun value s => inside_pure _
    · exact forward_broken _ _

theorem consumes_terminated (s : Cursor) : Consumes us (terminated g) s :=
  (consumes_simple h s).bind fun _ _ => (consumes_expect rfl _).bind fun _ _ => inside_pure _

theorem forward_statementStep (stop : TokenKind → Bool) (body : List Statement) (s : Cursor) :
    Forward us GoesOn (statementStep g stop body) s := by
  refine forward_peek (forward_atEnd ?_)
  split
  · exact forward_done _
  · refine forward_accept rfl (fun s => inside_pure _) ?_
    exact (h.statement s).bind fun statement s => inside_pure _

theorem inside_statementsUntil (stop : TokenKind → Bool) (s : Cursor) :
    Inside us (statementsUntil g stop) s :=
  inside_iterate (forward_statementStep h stop) _

theorem consumes_blockForm (s : Cursor) : Consumes us (blockForm g) s := by
  refine (consumes_expect rfl _).bind fun opener s => ?_
  refine (inside_statementsUntil h _ s).bind fun body s => ?_
  exact (consumes_expect rfl _).bind fun _ s => inside_pure _

theorem forward_elifStep (elifs : List ElifClause) (s : Cursor) :
    Forward us GoesOn (elifStep g elifs) s := by
  refine forward_peek ?_
  split
  · refine inside_advance.bind fun _ s => (h.expression s).bind fun test s => ?_
    exact (h.block s).bind fun body s => inside_pure _
  · exact forward_done _

theorem consumes_ifForm (s : Cursor) : Consumes us (ifForm g) s := by
  refine (consumes_expect rfl _).bind fun _ s => (h.expression s).bind fun test s => ?_
  refine (h.block s).bind fun body s => ?_
  refine (inside_iterate (forward_elifStep h) []).bind fun elifs s => ?_
  refine (inside_accept _).bind fun found s => ?_
  split
  · exact ((h.block s).inside.map some).bind fun _ s => inside_pure _
  · exact (inside_pure _).bind fun _ s => inside_pure _

theorem consumes_whileForm (s : Cursor) : Consumes us (whileForm g) s := by
  refine (consumes_expect rfl _).bind fun _ s => (h.expression s).bind fun test s => ?_
  exact (h.block s).bind fun body s => inside_pure _

theorem inside_forInit (s : Cursor) : Inside us (forInit g) s := by
  refine forward_here ((inside_startsVariable h s).bind fun declares s => ?_)
  split
  · exact (inside_varGroup h _ s).bind fun d s => inside_pure _
  · exact (consumes_simple h s).inside

theorem consumes_forForm (s : Cursor) : Consumes us (forForm g) s := by
  refine (consumes_expect rfl _).bind fun _ s => (consumes_expect rfl _).bind fun _ s => ?_
  refine forward_check ?_
  extract_lets afterInit
  have init : ∀ init s, Inside us (afterInit init) s := by
    refine fun init s => (consumes_expect rfl _).bind fun _ s => forward_check ?_
    extract_lets afterTest
    have test : ∀ test s, Inside us (afterTest test) s := by
      refine fun test s => (consumes_expect rfl _).bind fun _ s => forward_check ?_
      extract_lets afterUpdate
      have update : ∀ update s, Inside us (afterUpdate update) s := fun update s =>
        (consumes_expect rfl _).bind fun _ s => (h.block s).bind fun body s => inside_pure _
      split
      · exact (inside_pure _).bind update
      · exact ((consumes_simple h s).inside.map some).bind update
    split
    · exact (inside_pure _).bind test
    · exact ((h.expression s).inside.map some).bind test
  split
  · exact (inside_pure _).bind init
  · exact ((inside_forInit h s).map some).bind init

theorem forward_catchStep (handlers : List CatchClause) (s : Cursor) :
    Forward us GoesOn (catchStep g handlers) s := by
  refine forward_peek ?_
  split
  · refine inside_advance.bind fun _ s => (consumes_expect rfl _).bind fun _ s => ?_
    refine (h.typeExpr s).bind fun type s => (consumes_name _).bind fun ident s => ?_
    refine (consumes_expect rfl _).bind fun _ s => ?_
    exact (h.block s).bind fun body s => inside_pure _
  · exact forward_done _

theorem consumes_tryForm (s : Cursor) : Consumes us (tryForm g) s := by
  refine (consumes_expect rfl _).bind fun _ s => (h.block s).bind fun body s => ?_
  refine (inside_iterate (forward_catchStep h) []).bind fun handlers s => ?_
  extract_lets next
  have rest : ∀ r s, Inside us (next r) s := fun _ s =>
    (consumes_expect rfl _).bind fun opener s => (h.block s).bind fun last s => inside_pure _
  split
  · exact forward_here ((forward_broken _ _).bind rest)
  · exact rest () s

theorem inside_caseBody (s : Cursor) : Inside us (caseBody g) s := by
  refine forward_here (forward_check ?_)
  split
  · exact (h.block s).bind fun body s => inside_pure _
  · exact inside_statementsUntil h _ s

theorem forward_alternativeStep (ps : List Pattern) (s : Cursor) :
    Forward us GoesOn (alternativeStep g ps) s :=
  forward_accept rfl (fun s => (inside_pattern h false s).bind fun _ _ => inside_pure _)
    (forward_done _)

theorem forward_caseStep (cases : Cases) (s : Cursor) :
    Forward us GoesOn (caseStep g cases) s := by
  refine forward_check (forward_atEnd ?_)
  split
  · exact forward_done _
  · refine forward_here (forward_accept rfl (fun s => ?_) ?_)
    · rw [if_pos rfl]
      extract_lets next
      have rest : ∀ r s, Inside us (next r) s := fun _ s =>
        (consumes_expect rfl _).bind fun _ s => (inside_caseBody h s).bind fun body s =>
          inside_pure _
      split
      · exact (forward_broken _ _).bind rest
      · exact rest () s
    · refine (consumes_expect rfl _).bind fun _ s => ?_
      refine (inside_pattern h false s).bind fun first s => ?_
      refine (inside_iterate (forward_alternativeStep h) []).bind fun others s => ?_
      refine (consumes_expect rfl _).bind fun _ s => ?_
      exact (inside_caseBody h s).bind fun body s => inside_pure _

theorem consumes_switchForm (s : Cursor) : Consumes us (switchForm g) s := by
  refine (consumes_expect rfl _).bind fun _ s => (h.expression s).bind fun value s => ?_
  refine (consumes_expect rfl _).bind fun _ s => ?_
  refine (inside_iterate (forward_caseStep h) _).bind fun cases s => ?_
  exact (consumes_expect rfl _).bind fun _ s => inside_pure _

theorem consumes_returnForm (s : Cursor) : Consumes us (returnForm g) s := by
  refine inside_advance.bind fun _ s => forward_check ?_
  extract_lets next
  have close : ∀ value s, Consumes us (next value) s := fun value s =>
    (consumes_expect rfl _).bind fun _ s => inside_pure _
  split
  · exact (inside_pure _).bind close
  · exact ((h.expression s).inside.map some).bind close

theorem consumes_throwForm (s : Cursor) : Consumes us (throwForm g) s := by
  refine inside_advance.bind fun _ s => (h.expression s).bind fun value s => ?_
  split
  · exact (consumes_expect rfl _).bind fun _ s => inside_pure _
  · exact forward_broken _ _

omit h in
theorem consumes_jump (form : StatementForm) (s : Cursor) : Consumes us (jump form) s :=
  inside_advance.bind fun _ _ => (consumes_expect rfl _).bind fun _ _ => inside_pure _

theorem consumes_keywordStatement (t : Token) (k : Keyword) (s : Cursor) :
    Consumes us (keywordStatement g t k) s := by
  have located : ∀ {form : Parser StatementForm}, Consumes us form s →
      Consumes us (do return (⟨← form, t.location⟩ : Statement)) s := fun consumes =>
    consumes.bind fun _ s => inside_pure _
  simp only [keywordStatement]
  split
  case h_1 => exact located (consumes_ifForm h s)
  case h_2 => exact located (consumes_whileForm h s)
  case h_3 => exact located (consumes_forForm h s)
  case h_4 => exact located (consumes_tryForm h s)
  case h_5 => exact located (consumes_switchForm h s)
  case h_6 => exact located (consumes_returnForm h s)
  case h_7 => exact located (consumes_jump _ s)
  case h_8 => exact located (consumes_jump _ s)
  case h_9 => exact located (consumes_throwForm h s)
  case h_19 =>
    split
    · exact consumes_declaration h s
    · exact forward_unexpected _ _
  all_goals first
    | exact consumes_declaration h s
    | exact consumes_terminated h s

theorem consumes_statementForm (s : Cursor) : Consumes us (statementForm g) s := by
  refine forward_peek ?_
  split
  · exact (h.block s).bind fun body s => inside_pure _
  · exact consumes_keywordStatement h _ _ s
  · refine (h.declares s).bind fun declares s => ?_
    split
    · exact consumes_declaration h s
    · exact consumes_terminated h s
  · exact consumes_terminated h s

/-! ### Levels -/

theorem goesForward_above : GoesForward us g.above where
  statement _ := forward_nested _ (consumes_statementForm h)
  block _ := forward_nested _ (consumes_blockForm h)
  expression _ := forward_nested _ (consumes_conditional h)
  operand _ := forward_nested _ (consumes_operandForm h)
  primary _ := forward_nested _ (consumes_primaryForm h)
  typeExpr _ := forward_nested _ (inside_unionType h.typeExpr)
  declares s := inside_foresee
    (inside_typeAndName (fun _ => forward_nested _ (inside_unionType h.typeExpr)) s)

omit h

theorem forward_tooDeep {α : Type} {due : α → Prop} (limit : Nat) (s : Cursor) :
    Forward us due (tooDeep limit) s := by
  change Stops us due s (tooDeep limit s) (tooDeep limit (s.trailing us))
  simp only [tooDeep, Cursor.peek_trailing]
  exact .failed (.refl s)

theorem goesForward_ofLevels (limit n : Nat) : GoesForward us (ofLevels limit n) := by
  induction n with
  | zero =>
      exact ⟨forward_tooDeep limit, forward_tooDeep limit, forward_tooDeep limit,
        forward_tooDeep limit, forward_tooDeep limit, forward_tooDeep limit, fun _ => inside_pure _⟩
  | succ n ih => exact goesForward_above ih

/-! ### Imports -/

theorem consumes_importSpecifier (s : Cursor) : Consumes us importSpecifier s := by
  refine (consumes_name _).bind fun imported s => (inside_accept _).bind fun renamed s => ?_
  split
  · exact (consumes_name _).bind fun binding s => inside_pure _
  · exact (inside_pure _).bind fun binding s => inside_pure _

theorem forward_specifierStep (specifiers : List ImportSpecifier) (s : Cursor) :
    Forward us GoesOn (specifierStep specifiers) s := by
  refine forward_check ?_
  split
  · exact forward_done _
  · refine (consumes_importSpecifier s).bind fun specifier s => ?_
    exact forward_accept rfl (fun s => inside_pure _) (inside_pure _)

theorem inside_importSpecifiers (s : Cursor) : Inside us importSpecifiers s :=
  (inside_iterate forward_specifierStep []).bind fun _ _ =>
    (consumes_expect rfl _).bind fun _ _ => inside_pure _

theorem inside_importDefault (s : Cursor) : Inside us importDefault s := by
  refine forward_check ?_
  split
  · refine (consumes_name _).bind fun ident s => (inside_accept _).bind fun comma s => ?_
    have last : ∀ s, Inside us (pure (some ident) : Parser (Option Ident)) s :=
      fun s => inside_pure _
    split
    · refine forward_peek ?_
      split
      · exact (forward_unexpected _ _).bind fun _ => last
      · exact last s
    · exact last s
  · exact inside_pure _

theorem inside_importClause (s : Cursor) : Inside us importClause s := by
  refine (inside_accept _).bind fun wildcard s => ?_
  split
  · exact inside_pure _
  · refine (inside_importDefault s).bind fun whole s => (inside_accept _).bind fun opened s => ?_
    extract_lets next
    have rest : ∀ named s, Inside us (next named) s := by
      intro named s
      dsimp only [next]
      split
      · exact forward_peek ((forward_unexpected _ _).bind fun _ s => inside_pure _)
      · exact inside_pure _
    split
    · exact (inside_importSpecifiers s).bind rest
    · exact (inside_pure _).bind rest

theorem consumes_importDeclaration (s : Cursor) : Consumes us importDeclaration s := by
  refine (consumes_expect rfl _).bind fun opener s => (inside_accept _).bind fun isNative s => ?_
  refine (inside_importClause s).bind fun clause s => (consumes_expect rfl _).bind fun _ s => ?_
  refine (consumes_expect rfl _).bind fun source s => ?_
  exact (consumes_expect rfl _).bind fun _ s => inside_pure _

end Grammar
end ScriptFront
