import ScriptFront.Grammar.Nesting
import ScriptFront.Proofs.RelatedReading

/-!
The parsers of the grammar over two levels. Where the parsers of nested constructs are related, so are
all parsers that are made from them, whatever relation it is, as long as it is kept where parsers are
put together.
-/

namespace ScriptFront
namespace Grammar

open ScriptFront.Parser

/-- The parsers of two levels are related. -/
structure Relates (R : Congruence) (w g : Grammar) : Prop where
  limit : w.limit = g.limit
  statement : R.Rel w.statement g.statement
  block : R.Rel w.block g.block
  expression : R.Rel w.expression g.expression
  operand : R.Rel w.operand g.operand
  primary : R.Rel w.primary g.primary
  typeExpr : R.Rel w.typeExpr g.typeExpr
  declares : R.Rel w.declares g.declares

variable {R : Congruence} {w g : Grammar} (h : Relates R w g)

/-! ### Types -/

include h

theorem rel_genericArguments : R.Rel (genericArguments w) (genericArguments g) := by
  refine (rel_expect _ _).bind fun _ => (rel_commaSeparated h.typeExpr).bind fun args => ?_
  exact (rel_expect _ _).bind fun _ => rel_pure _

theorem rel_optionalGenerics : R.Rel (optionalGenerics w) (optionalGenerics g) := by
  refine (rel_check _).bind fun opened => ?_
  split
  · exact rel_genericArguments h
  · exact rel_pure _

theorem rel_baseType : R.Rel (baseType w) (baseType g) := by
  have one (type : TypeExpr) : R.Rel (do let _ ← advance; return type)
      (do let _ ← advance; return type) := rel_advance.bind fun _ => rel_pure _
  refine rel_peek.bind fun t => ?_
  dsimp only
  split
  case h_3 =>
    split
    · exact one _
    · exact rel_unexpected _ _
  case h_6 | h_7 =>
    refine rel_advance.bind fun _ => (rel_optionalGenerics h).bind fun _ => ?_
    exact rel_pure _
  case h_8 =>
    refine rel_advance.bind fun _ => h.typeExpr.bind fun inner => ?_
    exact (rel_expect _ _).bind fun _ => rel_pure _
  case h_9 => exact rel_unexpected _ _
  all_goals exact one _

omit h in
theorem rel_arrayStep (t : TypeExpr) : R.Rel (arrayStep t) (arrayStep t) := by
  refine (rel_check _).bind fun opened => (rel_peekAt _).bind fun next => ?_
  split
  · exact rel_advance.bind fun _ => rel_advance.bind fun _ => rel_pure _
  · exact rel_pure _

theorem rel_arrayType : R.Rel (arrayType w) (arrayType g) :=
  (rel_baseType h).bind fun base => rel_iterate rel_arrayStep base

theorem rel_intersectionStep (left : TypeExpr) :
    R.Rel (intersectionStep w left) (intersectionStep g left) := by
  refine (rel_accept _).bind fun more => ?_
  split
  · exact (rel_arrayType h).bind fun right => rel_pure _
  · exact rel_pure _

theorem rel_intersectionType : R.Rel (intersectionType w) (intersectionType g) :=
  (rel_arrayType h).bind fun first => rel_iterate (rel_intersectionStep h) first

theorem rel_unionStep (left : TypeExpr) : R.Rel (unionStep w left) (unionStep g left) := by
  refine (rel_accept _).bind fun more => ?_
  split
  · exact (rel_intersectionType h).bind fun right => rel_pure _
  · exact rel_pure _

theorem rel_unionType : R.Rel (unionType w) (unionType g) :=
  (rel_intersectionType h).bind fun first => rel_iterate (rel_unionStep h) first

omit h in
theorem rel_genericParams : R.Rel genericParams genericParams := by
  refine (rel_accept _).bind fun opened => ?_
  split
  · refine (rel_commaSeparated (rel_name _)).bind fun params => ?_
    exact (rel_expect _ _).bind fun _ => rel_pure _
  · exact rel_pure _

theorem rel_param : R.Rel (param w) (param g) := by
  refine rel_here.bind fun place => (rel_accept _).bind fun isRest => ?_
  refine (rel_name _).bind fun ident => (rel_expect _ _).bind fun _ => ?_
  exact h.typeExpr.bind fun type => rel_pure _

theorem rel_paramStep (ps : List Param) : R.Rel (paramStep w ps) (paramStep g ps) := by
  refine (rel_check _).bind fun closed => ?_
  split
  · exact rel_pure _
  · extract_lets next next'
    have rest (r : Unit) : R.Rel (next r) (next' r) := by
      refine (rel_param h).bind fun p => (rel_accept _).bind fun more => ?_
      split
      · exact rel_pure _
      · exact rel_pure _
    split
    · split
      · exact (rel_broken rfl _).bind rest
      · exact rest ()
    · exact rest ()

theorem rel_params : R.Rel (params w) (params g) := by
  refine (rel_expect _ _).bind fun _ => ?_
  refine (rel_iterate (rel_paramStep h) []).bind fun ps => ?_
  exact (rel_expect _ _).bind fun _ => rel_pure _

theorem rel_returnType : R.Rel (returnType w) (returnType g) :=
  (rel_expect _ _).bind fun _ => h.typeExpr

theorem rel_signature : R.Rel (signature w) (signature g) :=
  rel_genericParams.bind fun _ => (rel_params h).bind fun _ =>
    (rel_returnType h).bind fun _ => rel_pure _

/-! ### Patterns -/

omit h in
theorem rel_numberValue (t : Token) : R.Rel (numberValue t) (numberValue t) := by
  simp only [numberValue]
  split
  · exact rel_pure _
  · exact rel_broken rfl _

omit h in
theorem rel_signedNumber : R.Rel signedNumber signedNumber :=
  (rel_accept _).bind fun _ => (rel_expect _ _).bind fun t =>
    (rel_numberValue t).bind fun _ => rel_pure _

omit h in
theorem rel_numberPattern : R.Rel numberPattern numberPattern := by
  refine rel_signedNumber.bind fun first => (rel_accept _).bind fun ranged => ?_
  split
  · exact rel_signedNumber.bind fun last => rel_pure _
  · exact rel_pure _

omit h in
theorem rel_pathStep (path : List String) : R.Rel (pathStep path) (pathStep path) := by
  refine (rel_accept _).bind fun more => ?_
  split
  · exact (rel_name _).bind fun member => rel_pure _
  · exact rel_pure _

omit h in
theorem rel_memberPath (first : String) :
    R.Rel (memberPath first) (memberPath first) := rel_iterate rel_pathStep _

omit h in
theorem rel_simplePattern : R.Rel simplePattern simplePattern := by
  refine rel_peek.bind fun t => ?_
  split
  case h_2 => exact rel_advance.bind fun _ => (rel_name _).bind fun _ => rel_pure _
  case h_3 | h_4 => exact rel_numberPattern
  case h_8 =>
    refine rel_advance.bind fun _ => (rel_memberPath _).bind fun path => ?_
    split
    · exact rel_pure _
    · exact rel_pure _
  case h_9 => exact rel_unexpected _ _
  all_goals exact rel_advance.bind fun _ => rel_pure _

theorem rel_pattern (guards : Bool) : R.Rel (pattern w guards) (pattern g guards) := by
  refine rel_here.bind fun place => rel_simplePattern.bind fun form => ?_
  split
  · refine (rel_accept _).bind fun guarded => ?_
    split
    · exact h.expression.bind fun guard => rel_pure _
    · exact rel_pure _
  · exact rel_pure _

/-! ### Expressions -/

theorem rel_node (form : ExprForm) (place : Location) :
    R.Rel (w.node form place) (g.node form place) := by
  simp only [node, h.limit]
  split
  · exact rel_fail (by exact nofun) _
  · exact rel_pure _

theorem rel_fold (precedence : Nat) (pending : Pending) (right : Expr) :
    R.Rel (fold w precedence pending right) (fold g precedence pending right) := by
  induction pending generalizing right with
  | nil => exact rel_pure _
  | cons first pending ih =>
      simp only [fold]
      split
      · exact (rel_node h _ _).bind fun joined => ih joined
      · exact rel_pure _

theorem rel_isTarget : R.Rel (isTarget w) (isTarget g) := by
  refine rel_peek.bind fun next => ?_
  split
  · exact (rel_name _).bind fun ident => rel_pure _
  · exact h.primary
  · exact rel_unexpected _ _

theorem rel_isTest (subject : Expr) : R.Rel (isTest w subject) (isTest g subject) := by
  refine rel_advance.bind fun t => ?_
  extract_lets next next'
  have rest (q : Quantifier) : R.Rel (next q) (next' q) :=
    (rel_expect _ _).bind fun _ => (rel_isTarget h).bind fun _ => rel_node h _ _
  split
  case h_4 => exact (rel_unexpected _ _).bind rest
  all_goals exact (rel_pure _).bind rest

theorem rel_chainStep (c : Pending × Expr) : R.Rel (chainStep w c) (chainStep g c) := by
  refine (rel_check _).bind fun tests => ?_
  split
  · refine (rel_fold h _ _ _).bind fun r => rel_advance.bind fun _ => ?_
    exact (rel_isTest h r.2).bind fun e => rel_pure _
  · refine rel_get.bind fun s => ?_
    split
    · exact rel_pure _
    · refine (rel_fold h _ _ _).bind fun r => (rel_advances _).bind fun _ => ?_
      exact h.operand.bind fun e => rel_pure _

theorem rel_chain : R.Rel (chain w) (chain g) :=
  h.operand.bind fun _ => (rel_iterate (rel_chainStep h) _).bind fun _ =>
    (rel_fold h _ _ _).bind fun _ => rel_pure _

theorem rel_conditional : R.Rel (conditional w) (conditional g) := by
  refine (rel_chain h).bind fun test => (rel_accept _).bind fun chosen => ?_
  split
  · refine h.expression.bind fun yes => (rel_expect _ _).bind fun _ => ?_
    exact h.expression.bind fun no => rel_node h _ _
  · exact rel_pure _

theorem rel_update (operator : Token) (before : Bool) (operand : Expr) (place : Location) :
    R.Rel (update w operator before operand place)
      (update g operator before operand place) := by
  simp only [update]
  split
  · exact rel_node h _ _
  · exact rel_broken rfl _

theorem rel_arguments : R.Rel (arguments w) (arguments g) := by
  refine (rel_expect _ _).bind fun _ => (rel_check _).bind fun closed => ?_
  extract_lets next
  have rest (args : List Expr) : R.Rel (next args) (next args) :=
    (rel_expect _ _).bind fun _ => rel_pure _
  split
  · exact rest []
  · exact (rel_commaSeparated h.expression).bind rest

theorem rel_suffixStep (e : Expr) : R.Rel (suffixStep w e) (suffixStep g e) := by
  have call (generics : List TypeExpr) : R.Rel
      (do
        let args ← arguments w
        return ForInStep.yield (← w.node (.call e generics args) e.location))
      (do
        let args ← arguments g
        return ForInStep.yield (← g.node (.call e generics args) e.location)) :=
    (rel_arguments h).bind fun args => (rel_node h _ _).bind fun _ => rel_pure _
  refine rel_get.bind fun s => ?_
  split
  case h_1 =>
    refine rel_advance.bind fun _ => (rel_name _).bind fun ident => ?_
    exact (rel_node h _ _).bind fun _ => rel_pure _
  case h_2 =>
    refine rel_advance.bind fun _ => h.expression.bind fun index => ?_
    exact (rel_expect _ _).bind fun _ => (rel_node h _ _).bind fun _ => rel_pure _
  case h_3 =>
    split
    · exact (rel_genericArguments h).bind call
    · exact rel_pure _
  case h_4 => exact call []
  case h_5 | h_6 =>
    refine rel_advance.bind fun operator => (rel_update h _ _ _ _).bind fun _ => ?_
    exact rel_pure _
  case h_7 => exact rel_pure _

theorem rel_suffixed : R.Rel (suffixed w) (suffixed g) :=
  h.primary.bind fun e => rel_iterate (rel_suffixStep h) e

theorem rel_operandForm : R.Rel (operandForm w) (operandForm g) := by
  have operator (form : Expr → ExprForm) (place : Location) : R.Rel
      (do
        let _ ← advance
        w.node (form (← w.operand)) place)
      (do
        let _ ← advance
        g.node (form (← g.operand)) place) :=
    rel_advance.bind fun _ => h.operand.bind fun e => rel_node h _ _
  refine rel_peek.bind fun t => ?_
  dsimp only
  split
  case h_4 | h_5 =>
    exact rel_advance.bind fun _ => h.operand.bind fun e => rel_update h _ _ _ _
  case h_7 => exact rel_suffixed h
  all_goals exact operator _ _

theorem rel_propertyStep (ps : List Property) : R.Rel (propertyStep w ps) (propertyStep g ps) := by
  have value (t : Token) : R.Rel
      (do
        let _ ← expect .colon "':' after property name"
        let value ← w.expression
        let ps := ps ++ [(⟨⟨t.lexeme, t.location⟩, value, t.location⟩ : Property)]
        if ← accept .comma then return ForInStep.yield ps else return .done ps)
      (do
        let _ ← expect .colon "':' after property name"
        let value ← g.expression
        let ps := ps ++ [(⟨⟨t.lexeme, t.location⟩, value, t.location⟩ : Property)]
        if ← accept .comma then return ForInStep.yield ps else return .done ps) := by
    refine (rel_expect _ _).bind fun _ => h.expression.bind fun value => ?_
    refine (rel_accept _).bind fun more => ?_
    split
    · exact rel_pure _
    · exact rel_pure _
  refine (rel_check _).bind fun closed => ?_
  split
  · exact rel_pure _
  · refine rel_advance.bind fun t => ?_
    split
    · exact value t
    · exact value t
    · exact rel_unexpected _ _

theorem rel_objectProperties : R.Rel (objectProperties w) (objectProperties g) := by
  refine (rel_iterate (rel_propertyStep h) []).bind fun ps => ?_
  exact (rel_expect _ _).bind fun _ => rel_pure _

theorem rel_newForm : R.Rel (newForm w) (newForm g) :=
  (rel_name _).bind fun _ => (rel_optionalGenerics h).bind fun _ =>
    (rel_arguments h).bind fun _ => rel_pure _

theorem rel_armStep (arms : List MatchArm) : R.Rel (armStep w arms) (armStep g arms) := by
  refine (rel_check _).bind fun closed => rel_atEnd.bind fun ended => ?_
  split
  · exact rel_pure _
  · refine (rel_pattern h true).bind fun p => ?_
    extract_lets next next'
    have rest (r : Unit) : R.Rel (next r) (next' r) := by
      refine (rel_expect _ _).bind fun _ => h.expression.bind fun body => ?_
      refine (rel_accept _).bind fun semicolon => ?_
      split
      · exact rel_pure _
      · refine (rel_accept _).bind fun comma => ?_
        split
        · exact rel_pure _
        · exact rel_pure _
    split
    · exact (rel_broken rfl _).bind rest
    · exact rest ()

theorem rel_matchForm : R.Rel (matchForm w) (matchForm g) :=
  h.expression.bind fun _ => (rel_expect _ _).bind fun _ =>
    (rel_iterate (rel_armStep h) []).bind fun _ => (rel_expect _ _).bind fun _ =>
      rel_pure _

theorem rel_arrayForm : R.Rel (arrayForm w) (arrayForm g) := by
  refine (rel_check _).bind fun closed => ?_
  extract_lets next
  have rest (items : List Expr) : R.Rel (next items) (next items) :=
    (rel_expect _ _).bind fun _ => rel_pure _
  split
  · exact rest []
  · exact (rel_commaSeparated h.expression).bind rest

theorem rel_primaryForm : R.Rel (primaryForm w) (primaryForm g) := by
  have composed {form form' : Parser ExprForm} (forms : R.Rel form form')
      (place : Location) :
      R.Rel (do w.node (← form) place) (do g.node (← form') place) :=
    forms.bind fun _ => rel_node h _ _
  refine rel_advance.bind fun t => ?_
  dsimp only
  split
  case h_1 => exact (rel_numberValue t).bind fun _ => rel_node h _ _
  case h_9 => exact composed (rel_newForm h) _
  case h_10 => exact composed (rel_matchForm h) _
  case h_11 => exact composed (rel_arrayForm h) _
  case h_12 => exact (rel_objectProperties h).bind fun _ => rel_node h _ _
  case h_13 =>
    refine h.expression.bind fun inner => ?_
    exact (rel_expect _ _).bind fun _ => rel_pure _
  case h_14 => exact rel_unexpected _ _
  all_goals exact rel_node h _ _

/-! ### Declarations -/

omit h in
theorem rel_modifierStep (ms : Modifiers) : R.Rel (modifierStep ms) (modifierStep ms) := by
  refine rel_peek.bind fun t => ?_
  split
  · split
    · refine rel_advance.bind fun _ => ?_
      extract_lets next
      have rest (r : Unit) : R.Rel (next r) (next r) := by
        dsimp only [next]
        split
        · exact rel_fail (by exact nofun) _
        · exact rel_pure _
      split
      · exact (rel_fail (by exact nofun) _).bind rest
      · exact rest ()
    · exact rel_pure _
  · exact rel_pure _

omit h in
theorem rel_modifiers : R.Rel modifiers modifiers :=
  rel_iterate rel_modifierStep _

omit h in
theorem rel_typeAndName {p q : Parser TypeExpr} (types : R.Rel p q) :
    R.Rel (typeAndName p) (typeAndName q) := types.bind fun _ => rel_check _

theorem rel_startsVariable : R.Rel (startsVariable w) (startsVariable g) := by
  refine rel_peek.bind fun t => ?_
  split
  case h_4 => exact h.declares
  all_goals exact rel_pure _

theorem rel_variableType (isConstant : Bool) :
    R.Rel (variableType w isConstant) (variableType g isConstant) := by
  refine rel_peek.bind fun t => (rel_peekAt _).bind fun next => ?_
  split
  · exact rel_advance.bind fun _ => rel_pure _
  · split
    · exact rel_pure _
    · exact h.typeExpr

theorem rel_initializer : R.Rel (initializer w) (initializer g) := by
  refine (rel_accept _).bind fun equal => ?_
  split
  · exact h.expression.bind fun value => rel_pure _
  · exact rel_pure _

theorem rel_varGroup (ms : Modifiers) : R.Rel (varGroup w ms) (varGroup g ms) :=
  (rel_accept _).bind fun isConstant => (rel_variableType h isConstant).bind fun _ =>
    (rel_commaSeparated (rel_name _)).bind fun _ => (rel_initializer h).bind fun _ =>
      rel_pure _

theorem rel_function (ms : Modifiers) : R.Rel (function w ms) (function g ms) :=
  (rel_expect _ _).bind fun _ => (rel_name _).bind fun _ =>
    (rel_signature h).bind fun _ => h.block.bind fun _ => rel_pure _

theorem rel_fieldStep (fields : List TypeField) :
    R.Rel (fieldStep w fields) (fieldStep g fields) := by
  refine (rel_check _).bind fun closed => rel_atEnd.bind fun ended => ?_
  split
  · exact rel_pure _
  · refine (rel_name _).bind fun field => (rel_expect _ _).bind fun _ => ?_
    refine h.typeExpr.bind fun type => (rel_accept _).bind fun semicolon => ?_
    split
    · exact rel_pure _
    · refine (rel_accept _).bind fun comma => ?_
      split
      · exact rel_pure _
      · exact rel_pure _

theorem rel_structType (ms : Modifiers) : R.Rel (structType w ms) (structType g ms) := by
  refine (rel_expect _ _).bind fun _ => (rel_name _).bind fun ident => ?_
  refine rel_genericParams.bind fun generics => (rel_expect _ _).bind fun _ => ?_
  refine (rel_iterate (rel_fieldStep h) []).bind fun fields => ?_
  exact (rel_expect _ _).bind fun _ => rel_pure _

/-! ### Class bodies -/

omit h in
theorem rel_reject (ms : Modifiers) {forbidden : List (Modifier × GrammarRule)}
    (rules : ∀ f ∈ forbidden, f.2.ofProgram = false) (place : Location) :
    R.Rel (reject ms forbidden place) (reject ms forbidden place) := by
  simp only [reject]
  split
  · next found => exact rel_broken (rules _ (List.mem_of_find?_eq_some found)) _
  · exact rel_pure _

theorem rel_operatorMember : R.Rel (operatorMember w) (operatorMember g) := by
  refine rel_advance.bind fun t => ?_
  split
  · refine rel_genericParams.bind fun generics => (rel_params h).bind fun ps => ?_
    split
    · exact rel_broken rfl _
    · refine (rel_returnType h).bind fun returns => h.block.bind fun body => ?_
      exact rel_pure _
  · exact rel_unexpected _ _

omit h in
theorem rel_foreseesMethod : R.Rel foreseesMethod foreseesMethod :=
  rel_foresee <| rel_advance.bind fun _ => rel_genericParams.bind fun _ =>
    rel_check _

theorem rel_constructorMember : R.Rel (constructorMember w) (constructorMember g) := by
  refine (rel_params h).bind fun ps => (rel_check _).bind fun typed => ?_
  split
  · exact rel_here.bind fun place => rel_broken rfl _
  · exact h.block.bind fun body => rel_pure _

theorem rel_methodMember (className : String) (ms : Modifiers) (place : Location) :
    R.Rel (methodMember w className ms place) (methodMember g className ms place) := by
  refine (rel_reject _ (by decide) _).bind fun _ => (rel_name _).bind fun ident => ?_
  split
  · exact (rel_reject _ (by decide) _).bind fun _ => rel_constructorMember h
  · exact (rel_signature h).bind fun sig => h.block.bind fun body => rel_pure _

theorem rel_propertyMember : R.Rel (propertyMember w) (propertyMember g) :=
  h.typeExpr.bind fun _ => (rel_name _).bind fun _ => (rel_initializer h).bind fun _ =>
    (rel_expect _ _).bind fun _ => rel_pure _

theorem rel_member (className : String) : R.Rel (member w className) (member g className) := by
  refine rel_here.bind fun place => rel_modifiers.bind fun ms => ?_
  refine (rel_check _).bind fun named => rel_foreseesMethod.bind fun method => ?_
  split
  · refine (rel_reject _ (by decide) _).bind fun _ => ?_
    exact (rel_operatorMember h).bind fun form => rel_pure _
  · split
    · exact (rel_methodMember h className ms place).bind fun form => rel_pure _
    · exact (rel_propertyMember h).bind fun form => rel_pure _

theorem rel_memberStep (className : String) (ms : List ClassMember) :
    R.Rel (memberStep w className ms) (memberStep g className ms) := by
  refine (rel_check _).bind fun closed => rel_atEnd.bind fun ended => ?_
  split
  · exact rel_pure _
  · refine (rel_accept _).bind fun stray => ?_
    split
    · exact rel_pure _
    · refine (rel_member h className).bind fun m => ?_
      split
      · exact (rel_broken rfl _).bind fun _ => rel_pure _
      · exact rel_pure _

theorem rel_members (className : String) : R.Rel (members w className) (members g className) :=
  rel_iterate (rel_memberStep h className) []

theorem rel_classType (ms : Modifiers) : R.Rel (classType w ms) (classType g ms) := by
  refine (rel_expect _ _).bind fun _ => (rel_name _).bind fun ident => ?_
  refine rel_genericParams.bind fun generics => (rel_accept _).bind fun extending => ?_
  extract_lets rest rest'
  have rests (superclass : Option TypeExpr) :
      R.Rel (rest superclass) (rest' superclass) := by
    refine (rel_accept _).bind fun implementing => ?_
    extract_lets body body'
    have bodies (interfaces : List TypeExpr) :
        R.Rel (body interfaces) (body' interfaces) := by
      refine (rel_expect _ _).bind fun _ => (rel_members h _).bind fun members => ?_
      exact (rel_expect _ _).bind fun _ => rel_pure _
    split
    · exact (rel_commaSeparated h.typeExpr).bind bodies
    · exact bodies []
  split
  · exact (h.typeExpr.map some).bind rests
  · exact rests none

theorem rel_declaration : R.Rel (declaration w) (declaration g) := by
  refine rel_here.bind fun place => rel_modifiers.bind fun ms => ?_
  refine rel_peek.bind fun t => ?_
  split
  · exact (rel_function h ms).bind fun d => rel_pure _
  · exact (rel_classType h ms).bind fun d => rel_pure _
  · exact (rel_structType h ms).bind fun d => rel_pure _
  · exact (rel_varGroup h ms).bind fun d => (rel_expect _ _).bind fun _ => rel_pure _

/-! ### Statements -/

theorem rel_simple : R.Rel (simple w) (simple g) := by
  refine rel_here.bind fun place => h.expression.bind fun target => ?_
  refine rel_peek.bind fun t => ?_
  split
  · exact rel_pure _
  · refine rel_advance.bind fun operator => ?_
    split
    · refine h.expression.bind fun right => ?_
      split
      · exact (rel_node h _ _).bind fun value => rel_pure _
      · exact rel_pure _
    · exact rel_broken rfl _

theorem rel_terminated : R.Rel (terminated w) (terminated g) :=
  (rel_simple h).bind fun _ => (rel_expect _ _).bind fun _ => rel_pure _

theorem rel_statementStep (stop : TokenKind → Bool) (body : List Statement) :
    R.Rel (statementStep w stop body) (statementStep g stop body) := by
  refine rel_peek.bind fun t => rel_atEnd.bind fun ended => ?_
  split
  · exact rel_pure _
  · refine (rel_accept _).bind fun stray => ?_
    split
    · exact rel_pure _
    · exact h.statement.bind fun s => rel_pure _

theorem rel_statementsUntil (stop : TokenKind → Bool) :
    R.Rel (statementsUntil w stop) (statementsUntil g stop) :=
  rel_iterate (rel_statementStep h stop) []

theorem rel_blockForm : R.Rel (blockForm w) (blockForm g) :=
  (rel_expect _ _).bind fun _ => (rel_statementsUntil h _).bind fun _ =>
    (rel_expect _ _).bind fun _ => rel_pure _

theorem rel_elifStep (elifs : List ElifClause) : R.Rel (elifStep w elifs) (elifStep g elifs) := by
  refine rel_peek.bind fun t => ?_
  split
  · refine rel_advance.bind fun _ => h.expression.bind fun test => ?_
    exact h.block.bind fun body => rel_pure _
  · exact rel_pure _

theorem rel_ifForm : R.Rel (ifForm w) (ifForm g) := by
  refine (rel_expect _ _).bind fun _ => h.expression.bind fun test => ?_
  refine h.block.bind fun body => (rel_iterate (rel_elifStep h) []).bind fun elifs => ?_
  refine (rel_accept _).bind fun more => ?_
  split
  · exact (h.block.map some).bind fun otherwise => rel_pure _
  · exact rel_pure _

theorem rel_whileForm : R.Rel (whileForm w) (whileForm g) :=
  (rel_expect _ _).bind fun _ => h.expression.bind fun _ => h.block.bind fun _ =>
    rel_pure _

theorem rel_forInit : R.Rel (forInit w) (forInit g) := by
  refine rel_here.bind fun place => (rel_startsVariable h).bind fun declares => ?_
  split
  · exact (rel_varGroup h _).bind fun d => rel_pure _
  · exact rel_simple h

theorem rel_forForm : R.Rel (forForm w) (forForm g) := by
  refine (rel_expect _ _).bind fun _ => (rel_expect _ _).bind fun _ => ?_
  refine (rel_check _).bind fun noInit => ?_
  extract_lets afterInit afterInit'
  have inits (init : Option Statement) : R.Rel (afterInit init) (afterInit' init) := by
    refine (rel_expect _ _).bind fun _ => (rel_check _).bind fun noTest => ?_
    extract_lets afterTest afterTest'
    have tests (test : Option Expr) : R.Rel (afterTest test) (afterTest' test) := by
      refine (rel_expect _ _).bind fun _ => (rel_check _).bind fun noUpdate => ?_
      extract_lets afterUpdate afterUpdate'
      have updates (update : Option Statement) :
          R.Rel (afterUpdate update) (afterUpdate' update) :=
        (rel_expect _ _).bind fun _ => h.block.bind fun body => rel_pure _
      split
      · exact updates none
      · exact ((rel_simple h).map some).bind updates
    split
    · exact tests none
    · exact (h.expression.map some).bind tests
  split
  · exact inits none
  · exact ((rel_forInit h).map some).bind inits

theorem rel_catchStep (handlers : List CatchClause) :
    R.Rel (catchStep w handlers) (catchStep g handlers) := by
  refine rel_peek.bind fun t => ?_
  split
  · refine rel_advance.bind fun _ => (rel_expect _ _).bind fun _ => ?_
    refine h.typeExpr.bind fun type => (rel_name _).bind fun ident => ?_
    exact (rel_expect _ _).bind fun _ => h.block.bind fun body => rel_pure _
  · exact rel_pure _

theorem rel_tryForm : R.Rel (tryForm w) (tryForm g) := by
  refine (rel_expect _ _).bind fun _ => h.block.bind fun body => ?_
  refine (rel_iterate (rel_catchStep h) []).bind fun handlers => ?_
  extract_lets next next'
  have rest (r : Unit) : R.Rel (next r) (next' r) :=
    (rel_expect _ _).bind fun _ => h.block.bind fun last => rel_pure _
  split
  · exact rel_here.bind fun place => (rel_broken rfl _).bind rest
  · exact rest ()

theorem rel_caseBody : R.Rel (caseBody w) (caseBody g) := by
  refine rel_here.bind fun place => (rel_check _).bind fun opened => ?_
  split
  · exact h.block.bind fun body => rel_pure _
  · exact rel_statementsUntil h _

theorem rel_alternativeStep (ps : List Pattern) :
    R.Rel (alternativeStep w ps) (alternativeStep g ps) := by
  refine (rel_accept _).bind fun more => ?_
  split
  · exact (rel_pattern h false).bind fun p => rel_pure _
  · exact rel_pure _

theorem rel_caseStep (cases : Cases) : R.Rel (caseStep w cases) (caseStep g cases) := by
  refine (rel_check _).bind fun closed => rel_atEnd.bind fun ended => ?_
  split
  · exact rel_pure _
  · refine rel_here.bind fun place => (rel_accept _).bind fun isDefault => ?_
    split
    · extract_lets next next'
      have rest (r : Unit) : R.Rel (next r) (next' r) :=
        (rel_expect _ _).bind fun _ => (rel_caseBody h).bind fun body => rel_pure _
      split
      · exact (rel_broken rfl _).bind rest
      · exact rest ()
    · refine (rel_expect _ _).bind fun _ => (rel_pattern h false).bind fun first => ?_
      refine (rel_iterate (rel_alternativeStep h) []).bind fun others => ?_
      exact (rel_expect _ _).bind fun _ => (rel_caseBody h).bind fun body =>
        rel_pure _

theorem rel_switchForm : R.Rel (switchForm w) (switchForm g) := by
  refine (rel_expect _ _).bind fun _ => h.expression.bind fun value => ?_
  refine (rel_expect _ _).bind fun _ => ?_
  refine (rel_iterate (rel_caseStep h) _).bind fun cases => ?_
  exact (rel_expect _ _).bind fun _ => rel_pure _

theorem rel_returnForm : R.Rel (returnForm w) (returnForm g) := by
  refine rel_advance.bind fun _ => (rel_check _).bind fun empty => ?_
  extract_lets next
  have rest (value : Option Expr) : R.Rel (next value) (next value) :=
    (rel_expect _ _).bind fun _ => rel_pure _
  split
  · exact rest none
  · exact (h.expression.map some).bind rest

theorem rel_throwForm : R.Rel (throwForm w) (throwForm g) := by
  refine rel_advance.bind fun _ => h.expression.bind fun value => ?_
  split
  · exact (rel_expect _ _).bind fun _ => rel_pure _
  · exact rel_broken rfl _

omit h in
theorem rel_jump (form : StatementForm) : R.Rel (jump form) (jump form) :=
  rel_advance.bind fun _ => (rel_expect _ _).bind fun _ => rel_pure _

theorem rel_keywordStatement (t : Token) (k : Keyword) :
    R.Rel (keywordStatement w t k) (keywordStatement g t k) := by
  have located {form form' : Parser StatementForm} (forms : R.Rel form form') :
      R.Rel (do return (⟨← form, t.location⟩ : Statement))
        (do return ⟨← form', t.location⟩) := forms.bind fun form => rel_pure _
  simp only [keywordStatement]
  split
  case h_1 => exact located (rel_ifForm h)
  case h_2 => exact located (rel_whileForm h)
  case h_3 => exact located (rel_forForm h)
  case h_4 => exact located (rel_tryForm h)
  case h_5 => exact located (rel_switchForm h)
  case h_6 => exact located (rel_returnForm h)
  case h_7 | h_8 => exact located (rel_jump _)
  case h_9 => exact located (rel_throwForm h)
  case h_10 | h_11 | h_12 | h_13 | h_14 => exact rel_declaration h
  case h_15 | h_16 | h_17 | h_18 => exact rel_terminated h
  case h_19 =>
    split
    · exact rel_declaration h
    · exact rel_unexpected _ _

theorem rel_statementForm : R.Rel (statementForm w) (statementForm g) := by
  refine rel_peek.bind fun t => ?_
  split
  · exact h.block.bind fun body => rel_pure _
  · exact rel_keywordStatement h _ _
  · refine h.declares.bind fun declares => ?_
    split
    · exact rel_declaration h
    · exact rel_terminated h
  · exact rel_terminated h

/-! ### The top level -/

omit h in
theorem rel_importSpecifier : R.Rel importSpecifier importSpecifier := by
  refine (rel_name _).bind fun imported => (rel_accept _).bind fun renamed => ?_
  split
  · exact (rel_name _).bind fun binding => rel_pure _
  · exact rel_pure _

omit h in
theorem rel_specifierStep (specifiers : List ImportSpecifier) :
    R.Rel (specifierStep specifiers) (specifierStep specifiers) := by
  refine (rel_check _).bind fun closed => ?_
  split
  · exact rel_pure _
  · refine rel_importSpecifier.bind fun specifier => (rel_accept _).bind fun more => ?_
    split
    · exact rel_pure _
    · exact rel_pure _

omit h in
theorem rel_importSpecifiers : R.Rel importSpecifiers importSpecifiers :=
  (rel_iterate rel_specifierStep []).bind fun _ => (rel_expect _ _).bind fun _ =>
    rel_pure _

omit h in
theorem rel_importDefault : R.Rel importDefault importDefault := by
  refine (rel_check _).bind fun named => ?_
  split
  · refine (rel_name _).bind fun ident => (rel_accept _).bind fun comma => ?_
    split
    · refine rel_peek.bind fun t => ?_
      split
      · exact (rel_unexpected _ _).bind fun _ => rel_pure _
      · exact rel_pure _
    · exact rel_pure _
  · exact rel_pure _

omit h in
theorem rel_importClause : R.Rel importClause importClause := by
  refine (rel_accept _).bind fun wildcard => ?_
  split
  · exact rel_pure _
  · refine rel_importDefault.bind fun whole => (rel_accept _).bind fun opened => ?_
    extract_lets next
    have rest (named : List ImportSpecifier) : R.Rel (next named) (next named) := by
      dsimp only [next]
      split
      · exact rel_peek.bind fun t => (rel_unexpected _ _).bind fun _ => rel_pure _
      · exact rel_pure _
    split
    · exact rel_importSpecifiers.bind rest
    · exact rest []

omit h in
theorem rel_importDeclaration : R.Rel importDeclaration importDeclaration := by
  refine (rel_expect _ _).bind fun opener => (rel_accept _).bind fun isNative => ?_
  refine rel_importClause.bind fun clause => (rel_expect _ _).bind fun _ => ?_
  exact (rel_expect _ _).bind fun source => (rel_expect _ _).bind fun _ => rel_pure _

omit h in
theorem rel_readImport (d : Draft) : R.Rel (readImport d) (readImport d) :=
  rel_importDeclaration.bind fun _ => rel_pure _

/-! ### Rules about a program as a whole -/

section All

variable (any : ∀ {α : Type} (fault : SyntaxFault) (place : Location),
  R.Rel (fail fault place : Parser α) (fail fault place))

include any

omit h in
theorem rel_reject_of_any (ms : Modifiers) (forbidden : List (Modifier × GrammarRule))
    (place : Location) : R.Rel (reject ms forbidden place) (reject ms forbidden place) := by
  simp only [reject]
  split
  · exact any _ _
  · exact rel_pure _

theorem rel_readStatement (d : Draft) : R.Rel (readStatement w d) (readStatement g d) := by
  refine rel_peek.bind fun t => ?_
  extract_lets next next'
  have rest (r : Unit) : R.Rel (next r) (next' r) := by
    refine h.statement.bind fun s => ?_
    split
    · exact rel_pure _
    · exact any _ _
  split
  · exact Congruence.Rel.bind (any _ _) rest
  · exact rest ()

/-- All parsers of the grammar are related, if those that fail are, whatever their fault is. -/
theorem IsParser.rel {α : Type} {parser : Grammar → Parser α} (isParser : IsParser parser) :
    R.Rel (parser w) (parser g) := by
  cases isParser with
  | statement => exact h.statement
  | block => exact h.block
  | expression => exact h.expression
  | operand => exact h.operand
  | primary => exact h.primary
  | typeExpr => exact h.typeExpr
  | declares => exact h.declares
  | genericArguments => exact rel_genericArguments h
  | optionalGenerics => exact rel_optionalGenerics h
  | baseType => exact rel_baseType h
  | arrayStep t => exact rel_arrayStep t
  | arrayType => exact rel_arrayType h
  | intersectionStep left => exact rel_intersectionStep h left
  | intersectionType => exact rel_intersectionType h
  | unionStep left => exact rel_unionStep h left
  | unionType => exact rel_unionType h
  | genericParams => exact rel_genericParams
  | param => exact rel_param h
  | paramStep ps => exact rel_paramStep h ps
  | params => exact rel_params h
  | numberValue t => exact rel_numberValue t
  | signedNumber => exact rel_signedNumber
  | pathStep path => exact rel_pathStep path
  | memberPath first => exact rel_memberPath first
  | numberPattern => exact rel_numberPattern
  | simplePattern => exact rel_simplePattern
  | pattern guards => exact rel_pattern h guards
  | node form place => exact rel_node h form place
  | fold precedence pending right => exact rel_fold h precedence pending right
  | isTarget => exact rel_isTarget h
  | isTest subject => exact rel_isTest h subject
  | chainStep c => exact rel_chainStep h c
  | chain => exact rel_chain h
  | conditional => exact rel_conditional h
  | update operator before operand place =>
      exact rel_update h operator before operand place
  | arguments => exact rel_arguments h
  | suffixStep e => exact rel_suffixStep h e
  | suffixed => exact rel_suffixed h
  | operandForm => exact rel_operandForm h
  | propertyStep ps => exact rel_propertyStep h ps
  | objectProperties => exact rel_objectProperties h
  | newForm => exact rel_newForm h
  | armStep arms => exact rel_armStep h arms
  | matchForm => exact rel_matchForm h
  | arrayForm => exact rel_arrayForm h
  | primaryForm => exact rel_primaryForm h
  | modifierStep ms => exact rel_modifierStep ms
  | modifiers => exact rel_modifiers
  | typeAndName => exact rel_typeAndName h.typeExpr
  | startsVariable => exact rel_startsVariable h
  | variableType isConstant => exact rel_variableType h isConstant
  | initializer => exact rel_initializer h
  | varGroup ms => exact rel_varGroup h ms
  | returnType => exact rel_returnType h
  | signature => exact rel_signature h
  | function ms => exact rel_function h ms
  | fieldStep fields => exact rel_fieldStep h fields
  | structType ms => exact rel_structType h ms
  | reject ms forbidden place => exact rel_reject_of_any any ms forbidden place
  | operatorMember => exact rel_operatorMember h
  | foreseesMethod => exact rel_foreseesMethod
  | constructorMember => exact rel_constructorMember h
  | methodMember className ms place => exact rel_methodMember h className ms place
  | propertyMember => exact rel_propertyMember h
  | member className => exact rel_member h className
  | memberStep className ms => exact rel_memberStep h className ms
  | members className => exact rel_members h className
  | classType ms => exact rel_classType h ms
  | declaration => exact rel_declaration h
  | simple => exact rel_simple h
  | terminated => exact rel_terminated h
  | statementStep stop body => exact rel_statementStep h stop body
  | statementsUntil stop => exact rel_statementsUntil h stop
  | blockForm => exact rel_blockForm h
  | elifStep elifs => exact rel_elifStep h elifs
  | ifForm => exact rel_ifForm h
  | whileForm => exact rel_whileForm h
  | forInit => exact rel_forInit h
  | forForm => exact rel_forForm h
  | catchStep handlers => exact rel_catchStep h handlers
  | tryForm => exact rel_tryForm h
  | caseBody => exact rel_caseBody h
  | alternativeStep ps => exact rel_alternativeStep h ps
  | caseStep cases => exact rel_caseStep h cases
  | switchForm => exact rel_switchForm h
  | returnForm => exact rel_returnForm h
  | throwForm => exact rel_throwForm h
  | jump form => exact rel_jump form
  | keywordStatement t k => exact rel_keywordStatement h t k
  | statementForm => exact rel_statementForm h
  | importSpecifier => exact rel_importSpecifier
  | specifierStep specifiers => exact rel_specifierStep specifiers
  | importSpecifiers => exact rel_importSpecifiers
  | importDefault => exact rel_importDefault
  | importClause => exact rel_importClause
  | importDeclaration => exact rel_importDeclaration
  | readImport d => exact rel_readImport d
  | readStatement d => exact rel_readStatement h any d

end All

end Grammar
end ScriptFront
