import ScriptFront.Grammar.Declaration
import ScriptFront.Grammar.Operand
import ScriptFront.Proofs.LocalReading

/-!
The constructs of the grammar in front of more tokens, statements and class bodies apart. A type
never reads a token that closes a statement, so that types can also be read ahead; an expression may
end with a brace that does, and what stands behind it could then continue the expression.
-/

namespace ScriptFront

namespace Cursor

variable {s : Cursor} {m : Sequel}

theorem adjacentRun_before (h : Enclosed s.rest) {k : TokenKind} (opens : k.closes = false)
    (n : Nat) : (s.before m).adjacentRun k n = s.adjacentRun k n := by
  induction n with
  | zero => rfl
  | succ n ih =>
      rw [adjacentRun_succ, adjacentRun_succ, ih]
      cases run : s.adjacentRun k n with
      | false => rfl
      | true =>
          have length : n < s.rest.length := by
            refine length_of_opens h fun i less => ?_
            have kind := List.all_eq_true.mp run i (List.mem_range.mpr less)
            rw [beq_iff_eq.mp (Bool.and_eq_true_iff.mp kind).1, opens]
          rw [peekAt_before length, peekAt_before (Nat.lt_of_le_of_lt (Nat.sub_le n 1) length)]

theorem chainOp?_before (h : Enclosed s.rest) : (s.before m).chainOp? = s.chainOp? := by
  simp only [chainOp?, adjacentRun_before h (k := .leftArrow) rfl,
    adjacentRun_before h (k := .rightArrow) rfl, peek_before h.ne_nil]

end Cursor

namespace Grammar

open ScriptFront.Parser

variable {m : Sequel} {g : Grammar}

/-! ### Types -/

section Types

variable (h : ∀ s, Sure m s g.typeExpr)

include h

theorem sure_genericArguments (s : Cursor) : Sure m s (genericArguments g) := by
  refine (sure_expect rfl _).bind fun _ s => ?_
  refine (sure_commaSeparated h).bind fun args s => ?_
  exact (sure_expect rfl _).bind fun _ s => sure_pure _

theorem sure_optionalGenerics (s : Cursor) : Sure m s (optionalGenerics g) := by
  refine sure_check ?_
  split
  · exact sure_genericArguments h s
  · exact sure_pure _

theorem sure_baseType (s : Cursor) : Sure m s (baseType g) := by
  refine sure_peek ?_
  have one : ∀ type : TypeExpr, s.peek.kind.closes = false →
      Sure m s (do let _ ← advance; return type) := fun type opens =>
    (sure_advance opens).bind fun _ s => sure_pure _
  have named : ∀ place, s.peek.kind.closes = false → Sure m s (do
      let _ ← advance
      let generics ← optionalGenerics g
      return (⟨.reference s.peek.lexeme generics, place⟩ : TypeExpr)) := fun place opens =>
    (sure_advance opens).bind fun _ s => (sure_optionalGenerics h s).bind fun _ s => sure_pure _
  dsimp only
  split
  · next kind => exact one _ (by rw [kind]; rfl)
  · next kind => exact one _ (by rw [kind]; rfl)
  · next kind =>
      split
      · exact one _ (by rw [kind]; rfl)
      · exact sure_unexpected _ _
  · next kind => exact one _ (by rw [kind]; rfl)
  · next kind => exact one _ (by rw [kind]; rfl)
  · next kind => exact named _ (by rw [kind]; rfl)
  · next kind => exact named _ (by rw [kind]; rfl)
  · next kind =>
      refine (sure_advance (by rw [kind]; rfl)).bind fun _ s => (h s).bind fun inner s => ?_
      exact (sure_expect rfl _).bind fun _ s => sure_pure _
  · exact sure_unexpected _ _

theorem sure_arrayType (s : Cursor) : Sure m s (arrayType g) := by
  refine (sure_baseType h s).bind fun base s => sure_iterate (fun t s => ?_) base s
  refine sure_check (sure_peekAt (fun enclosed => ?_) ?_)
  · cases opened : s.peek.kind == .openSquare with
    | false => rfl
    | true =>
        have length := Cursor.length_of_open enclosed (by rw [beq_iff_eq.mp opened]; rfl)
        rw [Cursor.peekAt_before length]
  · split
    · next brackets =>
        have kinds := Bool.and_eq_true_iff.mp brackets
        refine (sure_advance (by rw [beq_iff_eq.mp kinds.1]; rfl)).and_then fun _ s₁ run => ?_
        cases run
        have next : s.advance.peek = s.peekAt 1 :=
          Cursor.peekAt_advance (Cursor.rest_ne_nil (by rw [beq_iff_eq.mp kinds.1]; decide)) 0
        refine (sure_advance ?_).bind fun _ s => sure_pure _
        rw [next, beq_iff_eq.mp kinds.2]
        rfl
    · exact sure_pure _

theorem sure_intersectionType (s : Cursor) : Sure m s (intersectionType g) := by
  refine (sure_arrayType h s).bind fun first s => sure_iterate (fun left s => ?_) first s
  refine (sure_accept rfl).bind fun joined s => ?_
  split
  · exact (sure_arrayType h s).bind fun right s => sure_pure _
  · exact sure_pure _

theorem sure_unionType (s : Cursor) : Sure m s (unionType g) := by
  refine (sure_intersectionType h s).bind fun first s => sure_iterate (fun left s => ?_) first s
  refine (sure_accept rfl).bind fun joined s => ?_
  split
  · exact (sure_intersectionType h s).bind fun right s => sure_pure _
  · exact sure_pure _

omit h in
theorem sure_genericParams (s : Cursor) : Sure m s genericParams := by
  refine (sure_accept rfl).bind fun opened s => ?_
  split
  · refine (sure_commaSeparated fun s => sure_name _).bind fun params s => ?_
    exact (sure_expect rfl _).bind fun _ s => sure_pure _
  · exact sure_pure _

theorem local_param : Local m (param g) := by
  refine local_here.bind fun place => (local_accept _).bind fun isRest => ?_
  refine (local_name _).bind fun ident => (local_expect _ _).bind fun _ => ?_
  exact (Sure.local_ h).bind fun type => local_pure _

theorem local_params : Local m (params g) := by
  refine (local_expect _ _).bind fun _ => (local_iterate (fun ps => ?_) []).bind fun ps => ?_
  · refine (local_check _).bind fun closed => ?_
    split
    · exact local_pure _
    · have tail : Local m (do
          let ps := ps ++ [← param g]
          if ← accept .comma then return ForInStep.yield ps else return .done ps) := by
        refine (local_param h).bind fun p => (local_accept _).bind fun comma => ?_
        split
        · exact local_pure _
        · exact local_pure _
      extract_lets next
      split
      · split
        · exact (local_broken _ _).bind fun _ => tail
        · exact tail
      · exact tail
  · exact (local_expect _ _).bind fun _ => local_pure _

omit h in
theorem sure_typeAndName {p : Parser TypeExpr} (hp : ∀ s, Sure m s p) (s : Cursor) :
    Sure m s (typeAndName p) :=
  (hp s).bind fun _ _ => sure_check (f := pure) (sure_pure _)

theorem local_variableType (isConstant : Bool) : Local m (variableType g isConstant) := by
  refine local_peekAt (fun s enclosed => ?_) fun t next => ?_
  · cases named : s.peek.kind == .identifier with
    | false => simp only [Bool.and_false, Bool.false_and]
    | true =>
        have length := Cursor.length_of_open enclosed (by rw [beq_iff_eq.mp named]; rfl)
        rw [Cursor.peekAt_before length]
  · split
    · exact local_advance.bind fun _ => local_pure _
    · split
      · exact local_pure _
      · exact Sure.local_ h

theorem local_returnType : Local m (returnType g) :=
  (local_expect _ _).bind fun _ => Sure.local_ h

theorem local_signature : Local m (signature g) := by
  refine (Sure.local_ sure_genericParams).bind fun generics => ?_
  refine (local_params h).bind fun ps => ?_
  exact (local_returnType h).bind fun returns => local_pure _

end Types

/-- The parsers of a level in front of more tokens. -/
structure Composes (m : Sequel) (g : Grammar) : Prop where
  statement : Whole m g.statement
  block : Whole m g.block
  expression : Local m g.expression
  operand : Local m g.operand
  primary : Local m g.primary
  typeExpr : ∀ s, Sure m s g.typeExpr
  declares : Local m g.declares

variable (h : Composes m g)

theorem local_node (form : ExprForm) (place : Location) : Local m (g.node form place) := by
  simp only [node]
  split
  · exact local_fail _ _
  · exact local_pure _

/-! ### Patterns -/

theorem local_numberValue (t : Token) : Local m (numberValue t) := by
  simp only [numberValue]
  split
  · exact local_pure _
  · exact local_broken _ _

theorem local_signedNumber : Local m signedNumber := by
  refine (local_accept _).bind fun negative => (local_expect _ _).bind fun t => ?_
  exact (local_numberValue t).bind fun _ => local_pure _

theorem local_memberPath (first : String) : Local m (memberPath first) := by
  refine local_iterate (fun path => (local_accept _).bind fun dotted => ?_) _
  split
  · exact (local_name _).bind fun _ => local_pure _
  · exact local_pure _

theorem local_numberPattern : Local m numberPattern := by
  refine local_signedNumber.bind fun first => (local_accept _).bind fun ranged => ?_
  split
  · exact local_signedNumber.bind fun last => local_pure _
  · exact local_pure _

theorem local_simplePattern : Local m simplePattern := by
  refine local_peek.bind fun t => ?_
  have one : ∀ form : PatternForm, Local m (do let _ ← advance; return form) :=
    fun form => local_advance.bind fun _ => local_pure _
  split
  · exact one _
  · exact local_advance.bind fun _ => (local_name _).bind fun _ => local_pure _
  · exact local_numberPattern
  · exact local_numberPattern
  · exact one _
  · exact one _
  · exact one _
  · refine local_advance.bind fun _ => (local_memberPath _).bind fun path => ?_
    split
    · exact local_pure _
    · exact local_pure _
  · exact local_unexpected _ _

include h

theorem local_pattern (guards : Bool) : Local m (pattern g guards) := by
  refine local_here.bind fun place => local_simplePattern.bind fun form => ?_
  split
  · refine (local_accept _).bind fun guarded => ?_
    split
    · exact h.expression.bind fun guard => local_pure _
    · exact local_pure _
  · exact local_pure _

/-! ### Chains of operands -/

omit h in
theorem local_fold (precedence : Nat) (pending : Pending) (right : Expr) :
    Local m (fold g precedence pending right) := by
  induction pending generalizing right with
  | nil => exact local_pure _
  | cons first pending ih =>
      simp only [fold]
      split
      · exact (local_node _ _).bind fun joined => ih joined
      · exact local_pure _

theorem local_isTarget : Local m (isTarget g) := by
  refine local_peek.bind fun next => ?_
  split
  · exact (local_name _).bind fun ident => local_pure _
  · exact h.primary
  · exact local_unexpected _ _

theorem local_isTest (subject : Expr) : Local m (isTest g subject) := by
  refine local_advance.bind fun t => ?_
  extract_lets next
  have tail : ∀ q, Local m (next q) := fun q =>
    (local_expect _ _).bind fun _ => (local_isTarget h).bind fun target => local_node _ _
  split
  · exact (local_pure _).bind tail
  · exact (local_pure _).bind tail
  · exact (local_pure _).bind tail
  · exact (local_unexpected _ _).bind tail

theorem local_chainStep (c : Pending × Expr) : Local m (chainStep g c) := by
  refine (local_check _).bind fun tests => ?_
  split
  · refine (local_fold _ _ _).bind fun r => local_advance.bind fun _ => ?_
    exact (local_isTest h r.2).bind fun e => local_pure _
  · refine local_get (fun s enclosed => ?_) fun s => ?_
    · rw [Cursor.chainOp?_before enclosed]
    · split
      · exact local_pure _
      · refine (local_fold _ _ _).bind fun r => (local_advances _).bind fun _ => ?_
        exact h.operand.bind fun e => local_pure _

theorem local_chain : Local m (chain g) := by
  refine h.operand.bind fun first => (local_iterate (local_chainStep h) _).bind fun r => ?_
  exact (local_fold _ _ _).bind fun r => local_pure _

theorem local_conditional : Local m (conditional g) := by
  refine (local_chain h).bind fun test => (local_accept _).bind fun asks => ?_
  split
  · refine h.expression.bind fun yes => (local_expect _ _).bind fun _ => ?_
    exact h.expression.bind fun no => local_node _ _
  · exact local_pure _

/-! ### Operands -/

omit h in
theorem local_update (operator : Token) (before : Bool) (operand : Expr) (place : Location) :
    Local m (update g operator before operand place) := by
  simp only [update]
  split
  · exact local_node _ _
  · exact local_broken _ _

theorem local_arguments : Local m (arguments g) := by
  refine (local_expect _ _).bind fun _ => (local_check _).bind fun closed => ?_
  have tail : ∀ args : List Expr, Local m (do
      let _ ← expect .closeParen "')' after arguments"
      return args) := fun args => (local_expect _ _).bind fun _ => local_pure _
  split
  · exact (local_pure _).bind tail
  · exact (local_commaSeparated h.expression).bind tail

omit h in
theorem opensGenerics_before {s : Cursor} (enclosed : Enclosed s.rest) :
    opensGenerics (s.before m) = opensGenerics s := by
  simp only [opensGenerics, Cursor.peek_before enclosed.ne_nil]
  cases opened : s.peek.kind == .leftArrow with
  | false => rfl
  | true =>
      have open₀ : s.peek.kind.closes = false := by rw [beq_iff_eq.mp opened]; rfl
      rw [Cursor.peekAt_before (Cursor.length_of_open enclosed open₀)]
      cases open₁ : (s.peekAt 1).kind.closes with
      | true =>
          cases TokenKind.closes_iff.mp open₁ with
          | inl kind => simp only [kind, Bool.and_false, Bool.false_and]
          | inr kind => simp only [kind, Bool.and_false, Bool.false_and]
      | false =>
          have length := Cursor.length_of_opens enclosed (n := 2) fun i less => by
            match i, less with
            | 0, _ => exact open₀
            | 1, _ => exact open₁
          rw [Cursor.peekAt_before length]

theorem local_suffixStep (e : Expr) : Local m (suffixStep g e) := by
  have call : ∀ generics, Local m (do
      let args ← arguments g
      return ForInStep.yield (← g.node (.call e generics args) e.location)) := fun generics =>
    (local_arguments h).bind fun args => (local_node _ _).bind fun _ => local_pure _
  have updated : Local m (do
      let operator ← advance
      return ForInStep.yield (← update g operator false e e.location)) :=
    local_advance.bind fun operator => (local_update _ _ _ _).bind fun _ => local_pure _
  refine local_get (fun s enclosed => ?_) fun s => ?_
  · rw [Cursor.peek_before enclosed.ne_nil, opensGenerics_before enclosed]
  · split
    · refine local_advance.bind fun _ => (local_name _).bind fun ident => ?_
      exact (local_node _ _).bind fun _ => local_pure _
    · refine local_advance.bind fun _ => h.expression.bind fun index => ?_
      exact (local_expect _ _).bind fun _ => (local_node _ _).bind fun _ => local_pure _
    · split
      · exact (Sure.local_ (sure_genericArguments h.typeExpr)).bind call
      · exact local_pure _
    · exact call []
    · exact updated
    · exact updated
    · exact local_pure _

theorem local_suffixed : Local m (suffixed g) :=
  h.primary.bind fun e => local_iterate (local_suffixStep h) e

theorem local_operandForm : Local m (operandForm g) := by
  refine local_peek.bind fun t => ?_
  have operator : ∀ (form : Expr → ExprForm), Local m (do
      let _ ← advance
      g.node (form (← g.operand)) t.location) := fun form =>
    local_advance.bind fun _ => h.operand.bind fun e => local_node _ _
  have updated : Local m (do
      let _ ← advance
      update g t true (← g.operand) t.location) :=
    local_advance.bind fun _ => h.operand.bind fun e => local_update _ _ _ _
  dsimp only
  split
  · exact operator _
  · exact operator _
  · exact operator _
  · exact updated
  · exact updated
  · exact operator _
  · exact local_suffixed h

theorem local_objectProperties : Local m (objectProperties g) := by
  refine (local_iterate (fun ps => (local_check _).bind fun closed => ?_) []).bind fun ps => ?_
  · split
    · exact local_pure _
    · have one : ∀ t : Token, Local m (do
          let _ ← expect .colon "':' after property name"
          let value ← g.expression
          let ps := ps ++ [(⟨⟨t.lexeme, t.location⟩, value, t.location⟩ : Property)]
          if ← accept .comma then return ForInStep.yield ps else return .done ps) := by
        intro t
        refine (local_expect _ _).bind fun _ => h.expression.bind fun value => ?_
        refine (local_accept _).bind fun comma => ?_
        split
        · exact local_pure _
        · exact local_pure _
      refine local_advance.bind fun t => ?_
      split
      · exact one t
      · exact one t
      · exact local_unexpected _ _
  · exact (local_expect _ _).bind fun _ => local_pure _

theorem local_newForm : Local m (newForm g) := by
  refine (local_name _).bind fun className => ?_
  refine (Sure.local_ (sure_optionalGenerics h.typeExpr)).bind fun generics => ?_
  exact (local_arguments h).bind fun args => local_pure _

theorem local_matchForm : Local m (matchForm g) := by
  refine h.expression.bind fun value => (local_expect _ _).bind fun _ => ?_
  refine (local_iterate (fun arms => ?_) []).bind fun arms => ?_
  · refine (local_check _).bind fun closed => local_atEnd.bind fun done => ?_
    split
    · exact local_pure _
    · refine (local_pattern h true).bind fun p => ?_
      have tail : Local m (do
          let _ ← expect .thickArrow "'=>' after pattern"
          let body ← g.expression
          let arms := arms ++ [(⟨p, body, p.location⟩ : MatchArm)]
          if ← accept .semicolon then return ForInStep.yield arms
          else if ← accept .comma then return .yield arms
          else return .done arms) := by
        refine (local_expect _ _).bind fun _ => h.expression.bind fun body => ?_
        refine (local_accept _).bind fun semicolon => ?_
        split
        · exact local_pure _
        · refine (local_accept _).bind fun comma => ?_
          split
          · exact local_pure _
          · exact local_pure _
      extract_lets next
      split
      · exact (local_broken _ _).bind fun _ => tail
      · exact tail
  · exact (local_expect _ _).bind fun _ => local_pure _

theorem local_arrayForm : Local m (arrayForm g) := by
  refine (local_check _).bind fun closed => ?_
  have tail : ∀ items : List Expr, Local m (do
      let _ ← expect .closeSquare "']' to close the array"
      return ExprForm.array items) := fun items => (local_expect _ _).bind fun _ => local_pure _
  split
  · exact (local_pure _).bind tail
  · exact (local_commaSeparated h.expression).bind tail

theorem local_primaryForm : Local m (primaryForm g) := by
  refine local_advance.bind fun t => ?_
  have composed : ∀ {form : Parser ExprForm}, Local m form →
      Local m (do g.node (← form) t.location) := fun local_ => local_.bind fun _ => local_node _ _
  dsimp only
  split
  case h_1 => exact (local_numberValue t).bind fun _ => local_node _ _
  case h_9 => exact composed (local_newForm h)
  case h_10 => exact composed (local_matchForm h)
  case h_11 => exact composed (local_arrayForm h)
  case h_12 => exact (local_objectProperties h).bind fun _ => local_node _ _
  case h_13 => exact h.expression.bind fun inner => (local_expect _ _).bind fun _ => local_pure _
  case h_14 => exact local_unexpected _ _
  all_goals exact local_node _ _

/-! ### Declarations -/

omit h in
theorem local_modifiers : Local m modifiers := by
  refine local_iterate (fun ms => local_peek.bind fun t => ?_) _
  split
  · split
    · next modifier _ =>
        refine local_advance.bind fun _ => ?_
        extract_lets next
        have tail : ∀ r, Local m (next r) := by
          intro r
          dsimp only [next]
          split
          · exact local_fail _ _
          · exact local_pure _
        split
        · exact (local_fail _ _).bind tail
        · exact tail ()
    · exact local_pure _
  · exact local_pure _

theorem local_startsVariable : Local m (startsVariable g) := by
  refine local_peek.bind fun t => ?_
  split
  · exact local_pure _
  · exact local_pure _
  · exact local_pure _
  · exact h.declares
  · exact local_pure _

theorem local_initializer : Local m (initializer g) := by
  refine (local_accept _).bind fun equal => ?_
  split
  · exact h.expression.bind fun value => local_pure _
  · exact local_pure _

theorem local_varGroup (ms : Modifiers) : Local m (varGroup g ms) := by
  refine (local_accept _).bind fun isConstant => ?_
  refine (local_variableType h.typeExpr isConstant).bind fun type => ?_
  refine (local_commaSeparated (local_name _)).bind fun names => ?_
  exact (local_initializer h).bind fun init => local_pure _

end Grammar
end ScriptFront
