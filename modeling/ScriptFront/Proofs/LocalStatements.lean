import ScriptFront.Grammar.Program
import ScriptFront.Proofs.LocalExpressions

/-!
Class bodies and statements in front of more tokens, and with them every level of the grammar. A
statement ends with a semicolon or a closing brace and nothing behind this token counts, but for the
`elif` and `else` that would continue a choice.
-/

namespace ScriptFront

/-- What follows does not continue a choice. -/
structure Sequel.Fresh (m : Sequel) : Prop where
  noElif : m.start.peek.kind ≠ .keyword .kwElif
  noElse : m.start.peek.kind ≠ .keyword .kwElse

namespace Grammar

open ScriptFront.Parser

variable {m : Sequel} {g : Grammar} (h : Composes m g)

/-! ### Class bodies -/

theorem local_reject (ms : Modifiers) (forbidden : List (Modifier × GrammarRule))
    (place : Location) : Local m (reject ms forbidden place) := by
  simp only [reject]
  split
  · exact local_broken _ _
  · exact local_pure _

include h

theorem local_operatorMember : Local m (operatorMember g) := by
  refine local_advance.bind fun t => ?_
  split
  · refine (Sure.local_ sure_genericParams).bind fun generics => ?_
    refine (local_params h.typeExpr).bind fun ps => ?_
    split
    · exact local_broken _ _
    · refine (local_returnType h.typeExpr).bind fun returns => ?_
      exact h.block.local_.bind fun body => local_pure _
  · exact local_unexpected _ _

theorem local_constructorMember : Local m (constructorMember g) := by
  refine (local_params h.typeExpr).bind fun ps => (local_check _).bind fun typed => ?_
  split
  · exact local_here.bind fun place => local_broken _ _
  · exact h.block.local_.bind fun body => local_pure _

theorem local_methodMember (className : String) (ms : Modifiers) (place : Location) :
    Local m (methodMember g className ms place) := by
  refine (local_reject _ _ _).bind fun _ => (local_name _).bind fun ident => ?_
  split
  · exact (local_reject _ _ _).bind fun _ => local_constructorMember h
  · refine (local_signature h.typeExpr).bind fun sig => ?_
    exact h.block.local_.bind fun body => local_pure _

theorem local_propertyMember : Local m (propertyMember g) := by
  refine (Sure.local_ h.typeExpr).bind fun type => (local_name _).bind fun ident => ?_
  refine (local_initializer h).bind fun init => ?_
  exact (local_expect _ _).bind fun _ => local_pure _

theorem local_member (className : String) : Local m (member g className) := by
  refine local_here.bind fun place => local_modifiers.bind fun ms => ?_
  refine local_check_foresee (fun s kind => ?_) (fun _ _ => ?_) fun named method => ?_
  · refine (sure_advance (by rw [kind]; rfl)).bind fun _ s => ?_
    exact (sure_genericParams s).bind fun _ s => sure_check (f := pure) (sure_pure _)
  · simp only [Bool.false_and]
  · split
    · refine (local_reject _ _ _).bind fun _ => ?_
      exact (local_operatorMember h).bind fun form => local_pure _
    · split
      · exact (local_methodMember h className ms place).bind fun form => local_pure _
      · exact (local_propertyMember h).bind fun form => local_pure _

theorem local_members (className : String) : Local m (members g className) := by
  refine local_iterate (fun ms => (local_check _).bind fun closed => ?_) _
  refine local_atEnd.bind fun done => ?_
  split
  · exact local_pure _
  · refine (local_accept _).bind fun stray => ?_
    split
    · exact local_pure _
    · refine (local_member h className).bind fun member => ?_
      split
      · exact (local_broken _ _).bind fun _ => local_pure _
      · exact local_pure _

/-! ### Declarations -/

theorem whole_function (ms : Modifiers) : Whole m (function g ms) := by
  refine (local_expect _ _).bind_whole fun _ => (local_name _).bind_whole fun ident => ?_
  refine (local_signature h.typeExpr).bind_whole fun sig => ?_
  exact h.block.bind fun body => tail_pure _

theorem whole_structType (ms : Modifiers) : Whole m (structType g ms) := by
  refine (local_expect _ _).bind_whole fun _ => (local_name _).bind_whole fun ident => ?_
  refine (Sure.local_ sure_genericParams).bind_whole fun generics => ?_
  refine (local_expect _ _).bind_whole fun _ => ?_
  refine (local_iterate (fun fields => ?_) []).bind_whole fun fields => ?_
  · refine (local_check _).bind fun closed => local_atEnd.bind fun done => ?_
    split
    · exact local_pure _
    · refine (local_name _).bind fun field => (local_expect _ _).bind fun _ => ?_
      refine (Sure.local_ h.typeExpr).bind fun type => (local_accept _).bind fun semicolon => ?_
      split
      · exact local_pure _
      · refine (local_accept _).bind fun comma => ?_
        split
        · exact local_pure _
        · exact local_pure _
  · exact (whole_expect rfl _).bind fun _ => tail_pure _

theorem whole_classType (ms : Modifiers) : Whole m (classType g ms) := by
  refine (local_expect _ _).bind_whole fun _ => (local_name _).bind_whole fun ident => ?_
  refine (Sure.local_ sure_genericParams).bind_whole fun generics => ?_
  refine (local_accept _).bind_whole fun extending => ?_
  extract_lets rest
  have tail : ∀ superclass, Whole m (rest superclass) := by
    intro superclass
    refine (local_accept _).bind_whole fun implementing => ?_
    extract_lets body
    have tail : ∀ interfaces, Whole m (body interfaces) := by
      intro interfaces
      refine (local_expect _ _).bind_whole fun _ => (local_members h _).bind_whole fun members => ?_
      exact (whole_expect rfl _).bind fun _ => tail_pure _
    split
    · exact (local_commaSeparated (Sure.local_ h.typeExpr)).bind_whole tail
    · exact (local_pure _).bind_whole tail
  split
  · exact ((Sure.local_ h.typeExpr).map some).bind_whole tail
  · exact (local_pure _).bind_whole tail

theorem whole_declaration : Whole m (declaration g) := by
  refine local_here.bind_whole fun place => local_modifiers.bind_whole fun ms => ?_
  refine local_peek.bind_whole fun t => ?_
  split
  · exact (whole_function h ms).bind fun d => tail_pure _
  · exact (whole_classType h ms).bind fun d => tail_pure _
  · exact (whole_structType h ms).bind fun d => tail_pure _
  · refine (local_varGroup h ms).bind_whole fun d => ?_
    exact (whole_expect rfl _).bind fun _ => tail_pure _

/-! ### Statements -/

theorem local_simple : Local m (simple g) := by
  refine local_here.bind fun place => h.expression.bind fun target => local_peek.bind fun t => ?_
  split
  · exact local_pure _
  · refine local_advance.bind fun operator => ?_
    split
    · refine h.expression.bind fun right => ?_
      split
      · exact (local_node _ _).bind fun value => local_pure _
      · exact (local_pure _).bind fun value => local_pure _
    · exact local_broken _ _

theorem whole_terminated : Whole m (terminated g) :=
  (local_simple h).bind_whole fun _ => (whole_expect rfl _).bind fun _ => tail_pure _

theorem local_statementsUntil (stop : TokenKind → Bool) : Local m (statementsUntil g stop) := by
  refine local_iterate (fun body => local_peek.bind fun t => local_atEnd.bind fun done => ?_) _
  split
  · exact local_pure _
  · refine (local_accept _).bind fun stray => ?_
    split
    · exact local_pure _
    · exact h.statement.local_.bind fun statement => local_pure _

theorem whole_blockForm : Whole m (blockForm g) := by
  refine (local_expect _ _).bind_whole fun opener => ?_
  refine (local_statementsUntil h _).bind_whole fun body => ?_
  exact (whole_expect rfl _).bind fun _ => tail_pure _

theorem whole_ifForm (fresh : m.Fresh) : Whole m (ifForm g) := by
  refine (local_expect _ _).bind_whole fun _ => h.expression.bind_whole fun test => ?_
  refine h.block.bind fun body => (tail_iterate (fun elifs => ?_) []).bind fun elifs => ?_
  · refine tail_peek (beq_eq_false_iff_ne.mpr fresh.noElif) (fun t => ?_) (tail_pure _)
    refine local_advance.bind_whole fun _ => h.expression.bind_whole fun test => ?_
    exact h.block.bind fun body => tail_pure _
  · refine tail_accept fresh.noElse ?_ ?_
    · exact (h.block.map some).bind fun otherwise => tail_pure _
    · exact (tail_pure _).bind fun otherwise => tail_pure _

theorem whole_whileForm : Whole m (whileForm g) := by
  refine (local_expect _ _).bind_whole fun _ => h.expression.bind_whole fun test => ?_
  exact h.block.bind fun body => tail_pure _

theorem local_forInit : Local m (forInit g) := by
  refine local_here.bind fun place => (local_startsVariable h).bind fun starts => ?_
  split
  · exact (local_varGroup h _).bind fun d => local_pure _
  · exact local_simple h

theorem whole_forForm : Whole m (forForm g) := by
  refine (local_expect _ _).bind_whole fun _ => (local_expect _ _).bind_whole fun _ => ?_
  refine (local_check _).bind_whole fun noInit => ?_
  extract_lets afterInit
  have init : ∀ init, Whole m (afterInit init) := by
    intro init
    refine (local_expect _ _).bind_whole fun _ => (local_check _).bind_whole fun noTest => ?_
    extract_lets afterTest
    have test : ∀ test, Whole m (afterTest test) := by
      intro test
      refine (local_expect _ _).bind_whole fun _ => (local_check _).bind_whole fun noUpdate => ?_
      extract_lets afterUpdate
      have update : ∀ update, Whole m (afterUpdate update) := fun update =>
        (local_expect _ _).bind_whole fun _ => h.block.bind fun body => tail_pure _
      split
      · exact (local_pure _).bind_whole update
      · exact ((local_simple h).map some).bind_whole update
    split
    · exact (local_pure _).bind_whole test
    · exact (h.expression.map some).bind_whole test
  split
  · exact (local_pure _).bind_whole init
  · exact ((local_forInit h).map some).bind_whole init

theorem whole_tryForm : Whole m (tryForm g) := by
  refine (local_expect _ _).bind_whole fun _ => h.block.local_.bind_whole fun body => ?_
  refine (local_iterate (fun handlers => local_peek.bind fun t => ?_) []).bind_whole
    fun handlers => ?_
  · split
    · refine local_advance.bind fun _ => (local_expect _ _).bind fun _ => ?_
      refine (Sure.local_ h.typeExpr).bind fun type => (local_name _).bind fun ident => ?_
      refine (local_expect _ _).bind fun _ => ?_
      exact h.block.local_.bind fun body => local_pure _
    · exact local_pure _
  · extract_lets next
    have tail : ∀ r, Whole m (next r) := fun r =>
      (local_expect _ _).bind_whole fun opener => h.block.bind fun body => tail_pure _
    split
    · exact local_here.bind_whole fun place => (local_broken _ _).bind_whole tail
    · exact tail ()

theorem local_caseBody : Local m (caseBody g) := by
  refine local_here.bind fun place => (local_check _).bind fun opened => ?_
  split
  · exact h.block.local_.bind fun body => local_pure _
  · exact local_statementsUntil h _

theorem local_caseStep (cases : Cases) : Local m (caseStep g cases) := by
  refine (local_check _).bind fun closed => local_atEnd.bind fun done => ?_
  split
  · exact local_pure _
  · refine local_here.bind fun place => (local_accept _).bind fun isDefault => ?_
    split
    · have tail : Local m (do
          let _ ← expect .colon "':' after default"
          let body ← caseBody g
          return ForInStep.yield
            (cases.1, some (⟨[⟨.wildcard, place⟩], body, place⟩ : SwitchCase))) :=
        (local_expect _ _).bind fun _ => (local_caseBody h).bind fun body => local_pure _
      split
      · exact (local_broken _ _).bind fun _ => tail
      · exact tail
    · refine (local_expect _ _).bind fun _ => (local_pattern h false).bind fun first => ?_
      refine (local_iterate (fun ps => (local_accept _).bind fun more => ?_) []).bind
        fun others => ?_
      · split
        · exact (local_pattern h false).bind fun p => local_pure _
        · exact local_pure _
      · refine (local_expect _ _).bind fun _ => ?_
        exact (local_caseBody h).bind fun body => local_pure _

theorem whole_switchForm : Whole m (switchForm g) := by
  refine (local_expect _ _).bind_whole fun _ => h.expression.bind_whole fun value => ?_
  refine (local_expect _ _).bind_whole fun _ => ?_
  refine (local_iterate (local_caseStep h) _).bind_whole fun cases => ?_
  exact (whole_expect rfl _).bind fun _ => tail_pure _

theorem whole_returnForm : Whole m (returnForm g) := by
  refine local_advance.bind_whole fun _ => (local_check _).bind_whole fun none_ => ?_
  extract_lets next
  have tail : ∀ value, Whole m (next value) := fun value =>
    (whole_expect rfl _).bind fun _ => tail_pure _
  split
  · exact (local_pure _).bind_whole tail
  · exact (h.expression.map some).bind_whole tail

theorem whole_throwForm : Whole m (throwForm g) := by
  refine local_advance.bind_whole fun _ => h.expression.bind_whole fun value => ?_
  split
  · exact (whole_expect rfl _).bind fun _ => tail_pure _
  · exact whole_fail _ _

omit h in
theorem whole_jump (form : StatementForm) : Whole m (jump form) :=
  local_advance.bind_whole fun _ => (whole_expect rfl _).bind fun _ => tail_pure _

theorem whole_keywordStatement (fresh : m.Fresh) (t : Token) (k : Keyword) :
    Whole m (keywordStatement g t k) := by
  have located : ∀ {form : Parser StatementForm}, Whole m form →
      Whole m (do return (⟨← form, t.location⟩ : Statement)) := fun whole =>
    whole.bind fun form => tail_pure _
  simp only [keywordStatement]
  split
  case h_1 => exact located (whole_ifForm h fresh)
  case h_2 => exact located (whole_whileForm h)
  case h_3 => exact located (whole_forForm h)
  case h_4 => exact located (whole_tryForm h)
  case h_5 => exact located (whole_switchForm h)
  case h_6 => exact located (whole_returnForm h)
  case h_7 | h_8 => exact located (whole_jump _)
  case h_9 => exact located (whole_throwForm h)
  case h_10 | h_11 | h_12 | h_13 | h_14 => exact whole_declaration h
  case h_15 | h_16 | h_17 | h_18 => exact whole_terminated h
  case h_19 =>
    split
    · exact whole_declaration h
    · exact whole_fail _ _

theorem whole_statementForm (fresh : m.Fresh) : Whole m (statementForm g) := by
  refine local_peek.bind_whole fun t => ?_
  split
  · exact h.block.bind fun body => tail_pure _
  · exact whole_keywordStatement h fresh _ _
  · refine h.declares.bind_whole fun declares => ?_
    split
    · exact whole_declaration h
    · exact whole_terminated h
  · exact whole_terminated h

/-! ### Levels -/

theorem Composes.above (fresh : m.Fresh) : Composes m g.above where
  statement := whole_nested _ (whole_statementForm h fresh)
  block := whole_nested _ (whole_blockForm h)
  expression := local_nested _ (local_conditional h)
  operand := local_nested _ (local_operandForm h)
  primary := local_nested _ (local_primaryForm h)
  typeExpr _ := sure_nested _ (sure_unionType h.typeExpr)
  declares := local_foresee <|
    sure_typeAndName fun _ => sure_nested _ (sure_unionType h.typeExpr)

omit h in
theorem composes_bottom (limit : Nat) : Composes m (bottom limit) where
  statement _ _ _ run := nomatch run
  block _ _ _ run := nomatch run
  expression _ _ _ run := nomatch run
  operand _ _ _ run := nomatch run
  primary _ _ _ run := nomatch run
  typeExpr s := by
    refine sure_of_error ⟨.recursionLimit limit, s.peek.location⟩ s rfl fun enclosed => ?_
    have next := Cursor.peek_before enclosed.ne_nil m
    simp only [bottom, tooDeep, next]
  declares := local_pure _

omit h in
theorem composes_ofLevels (fresh : m.Fresh) (limit levels : Nat) :
    Composes m (ofLevels limit levels) := by
  induction levels with
  | zero => exact composes_bottom limit
  | succ levels ih => exact ih.above fresh

/-! ### Imports -/

omit h in
theorem local_importSpecifier : Local m importSpecifier := by
  refine (local_name _).bind fun imported => (local_accept _).bind fun renamed => ?_
  split
  · exact (local_name _).bind fun binding => local_pure _
  · exact (local_pure _).bind fun binding => local_pure _

omit h in
theorem local_importSpecifiers : Local m importSpecifiers := by
  refine (local_iterate (fun specifiers => (local_check _).bind fun closed => ?_) []).bind
    fun specifiers => (local_expect _ _).bind fun _ => local_pure _
  split
  · exact local_pure _
  · refine local_importSpecifier.bind fun specifier => (local_accept _).bind fun comma => ?_
    split
    · exact local_pure _
    · exact local_pure _

omit h in
theorem local_importDefault : Local m importDefault := by
  refine (local_check _).bind fun named => ?_
  split
  · refine (local_name _).bind fun ident => (local_accept _).bind fun comma => ?_
    split
    · refine local_peek.bind fun t => ?_
      split
      · exact (local_unexpected _ _).bind fun _ => local_pure _
      · exact local_pure _
    · exact local_pure _
  · exact local_pure _

omit h in
theorem local_importClause : Local m importClause := by
  refine (local_accept _).bind fun star => ?_
  split
  · exact local_pure _
  · refine local_importDefault.bind fun whole => (local_accept _).bind fun opened => ?_
    extract_lets next
    have tail : ∀ named, Local m (next named) := by
      intro named
      dsimp only [next]
      split
      · exact local_peek.bind fun t => (local_unexpected _ _).bind fun _ => local_pure _
      · exact local_pure _
    split
    · exact local_importSpecifiers.bind tail
    · exact (local_pure _).bind tail

omit h in
theorem whole_importDeclaration : Whole m importDeclaration := by
  refine (local_expect _ _).bind_whole fun opener => (local_accept _).bind_whole fun isNative => ?_
  refine local_importClause.bind_whole fun clause => (local_expect _ _).bind_whole fun _ => ?_
  refine (local_expect _ _).bind_whole fun source => ?_
  exact (whole_expect rfl _).bind fun _ => tail_pure _

end Grammar
end ScriptFront
