import ScriptFront.Proofs.WellFormedTrees
import ScriptFront.Tree.Places

/-!
Statements, class members and whole programs that are read keep the rules for every node, and
expressions in them are as high as their forms make them. The rules that a program as a whole keeps,
such as where its imports stand, are left open.
-/

namespace ScriptFront

/-! ### Forms of members -/

/-- A form that keeps the rules beside its modifiers, as does all below it. -/
structure MemberForm.Sound (limit : Nat) (ms : Modifiers) (form : MemberForm) : Prop where
  root : form.WellFormed ms
  operator : ms.has .operator = true ↔
    ∃ symbol isUnary signature body, form = .operator symbol isUnary signature body
  parts : AllOf (Node.Built limit) form.outlines

theorem MemberForm.Sound.outline {limit : Nat} {ms : Modifiers} {form : MemberForm}
    (h : form.Sound limit ms) (exclusive : ms.Exclusive) (place : Location) :
    (ClassMember.outline ⟨ms, form, place⟩).Built limit := by
  rw [ClassMember.outline]
  exact ⟨⟨exclusive, h.operator, h.root⟩, h.parts⟩

theorem isConstructor_iff {m : ClassMember} : Grammar.isConstructor m = true ↔ m.IsConstructor := by
  obtain ⟨ms, form, place⟩ := m
  cases form with
  | constructor params body => exact iff_of_true rfl ⟨params, body, rfl⟩
  | method | property | operator => exact iff_of_false nofun nofun

namespace Grammar

open ScriptFront.Parser

variable {g : Grammar} (h : Sound g)

/-! ### Declarations -/

theorem some_names (expected : String) : Yields (· ≠ []) (commaSeparated (name expected)) :=
  yields_bind fun _ => yields_bind fun _ => yields_pure (List.cons_ne_nil _ _)

theorem restLast_signature : Yields (fun s => RestLast s.params) (signature g) := by
  refine yields_bind fun generics => yields_bind_of (restLast_params g) fun ps hps => ?_
  exact yields_bind fun returns => yields_pure hps

include h

theorem sound_initializer :
    Yields (fun init => AllOf (Node.Built g.limit) (optionalExpr init)) (initializer g) := by
  refine yields_bind fun equal => ?_
  split
  · exact yields_bind_of h.expression fun e he => yields_pure ⟨he, trivial⟩
  · exact yields_pure trivial

theorem sound_varGroup {ms : Modifiers} (hms : ms.Exclusive) :
    Yields (fun d => (StatementForm.varGroup d).Sound g.limit) (varGroup g ms) := by
  refine yields_bind fun isConstant => yields_bind fun type => ?_
  refine yields_bind_of (some_names _) fun names hnames => ?_
  exact yields_bind_of (sound_initializer h) fun init hinit =>
    yields_pure ⟨⟨hms, hnames⟩, type.built, hinit⟩

theorem sound_function {ms : Modifiers} (hms : ms.Exclusive) :
    Yields (fun d => (StatementForm.function d).Sound g.limit) (function g ms) := by
  refine yields_bind fun _ => yields_bind fun ident => ?_
  refine yields_bind_of restLast_signature fun sig hsig => ?_
  refine yields_bind_of h.block fun body hbody => yields_pure ⟨⟨hms, hsig⟩, ?_⟩
  exact allOf_append.mpr ⟨sig.built, hbody, trivial⟩

omit h in
theorem sound_structType {ms : Modifiers} (hms : ms.Exclusive) :
    Yields (fun d => (StatementForm.structType d).Sound g.limit) (structType g ms) := by
  refine yields_bind fun _ => yields_bind fun ident => yields_bind fun generics => ?_
  refine yields_bind fun _ => yields_bind fun fields => yields_bind fun _ => ?_
  exact yields_pure ⟨hms, allOf_map.mpr fun field _ => field.type.built⟩

/-! ### Class bodies -/

omit h in
theorem absent_reject (ms : Modifiers) (forbidden : List (Modifier × GrammarRule))
    (place : Location) :
    Yields (fun _ => ∀ f ∈ forbidden, ms.has f.1 = false) (reject ms forbidden place) := by
  simp only [reject]
  split
  · exact yields_fail
  · next none_ =>
      refine yields_pure fun f mem => ?_
      simpa using List.find?_eq_none.mp none_ f mem

theorem sound_operatorMember {ms : Modifiers} (marked : ms.has .operator = true)
    (plain : ms.has .async = false ∧ ms.has .readonly = false ∧ ms.has .default_ = false) :
    Yields (MemberForm.Sound g.limit ms) (operatorMember g) := by
  refine yields_bind fun t => ?_
  split
  · refine yields_bind fun generics => yields_bind_of (restLast_params g) fun ps hps => ?_
    split
    · exact yields_fail
    · next single =>
        have one : ps.length ≤ 1 := by
          match ps, single with
          | [], _ => exact Nat.zero_le 1
          | [_], _ => exact Nat.le_refl 1
          | _ :: second :: others, single => exact absurd rfl (single _ second others)
        refine yields_bind fun returns => yields_bind_of h.block fun body hbody => yields_pure ?_
        exact {
          root := ⟨plain, hps, one, List.isEmpty_iff⟩
          operator := iff_of_true marked ⟨_, _, _, _, rfl⟩
          parts := allOf_append.mpr ⟨Signature.built _, hbody, trivial⟩ }
  · exact yields_fail

theorem sound_constructorMember {ms : Modifiers} (unmarked : ms.has .operator = false)
    (readonly : ms.has .readonly = false) (async : ms.has .async = false) :
    Yields (MemberForm.Sound g.limit ms) (constructorMember g) := by
  refine yields_bind_of (restLast_params g) fun ps hps => yields_bind fun typed => ?_
  split
  · exact yields_bind fun _ => yields_fail
  · refine yields_bind_of h.block fun body hbody => yields_pure ?_
    exact {
      root := ⟨readonly, async, hps⟩
      operator := iff_of_false (by simp [unmarked]) nofun
      parts := allOf_append.mpr ⟨built_params ps, hbody, trivial⟩ }

theorem sound_methodMember (className : String) {ms : Modifiers} (place : Location)
    (unmarked : ms.has .operator = false) :
    Yields (MemberForm.Sound g.limit ms) (methodMember g className ms place) := by
  refine yields_bind_of (absent_reject ms _ place) fun _ readonly => yields_bind fun ident => ?_
  have readonly := readonly _ (List.mem_singleton_self _)
  split
  · refine yields_bind_of (absent_reject ms _ place) fun _ async => ?_
    exact sound_constructorMember h unmarked readonly (async _ (List.mem_singleton_self _))
  · refine yields_bind_of restLast_signature fun sig hsig => ?_
    refine yields_bind_of h.block fun body hbody => yields_pure ?_
    exact {
      root := ⟨readonly, hsig⟩
      operator := iff_of_false (by simp [unmarked]) nofun
      parts := allOf_append.mpr ⟨sig.built, hbody, trivial⟩ }

theorem sound_propertyMember {ms : Modifiers} (unmarked : ms.has .operator = false) :
    Yields (MemberForm.Sound g.limit ms) (propertyMember g) := by
  refine yields_bind fun type => yields_bind fun ident => ?_
  refine yields_bind_of (sound_initializer h) fun init hinit => yields_bind fun _ => yields_pure ?_
  exact {
    root := trivial
    operator := iff_of_false (by simp [unmarked]) nofun
    parts := ⟨type.built, hinit⟩ }

theorem sound_member (className : String) :
    Yields (fun m => m.outline.Built g.limit) (member g className) := by
  refine yields_bind fun place => yields_bind_of exclusive_modifiers fun ms hms => ?_
  refine yields_bind fun named => yields_bind fun method => ?_
  have member : ∀ form : MemberForm, form.Sound g.limit ms →
      Yields (fun m => m.outline.Built g.limit) (pure ⟨ms, form, place⟩ : Parser ClassMember) :=
    fun form hform => yields_pure (hform.outline hms place)
  split
  · next marked =>
      refine yields_bind_of (absent_reject ms _ place) fun _ absent => ?_
      simp only [List.forall_mem_cons] at absent
      exact yields_bind_of
        (sound_operatorMember h marked ⟨absent.1, absent.2.1, absent.2.2.1⟩) member
  · next unmarked =>
      have unmarked := Bool.eq_false_iff.mpr unmarked
      split
      · exact yields_bind_of (sound_methodMember h className place unmarked) member
      · exact yields_bind_of (sound_propertyMember h unmarked) member

/-- Members that keep the rules, of which at most one is a constructor. -/
structure SoundMembers (limit : Nat) (ms : List ClassMember) : Prop where
  parts : ∀ m ∈ ms, m.outline.Built limit
  constructors : ms.Pairwise fun m m' => ¬ (m.IsConstructor ∧ m'.IsConstructor)

theorem sound_members (className : String) :
    Yields (SoundMembers g.limit) (members g className) := by
  refine yields_iterate_of
    (fun ms hms => yields_bind fun closed => yields_bind fun done => ?_) ⟨nofun, .nil⟩
  split
  · exact yields_pure hms
  · refine yields_bind fun stray => ?_
    split
    · exact yields_pure hms
    · refine yields_bind_of (sound_member h className) fun m hm => ?_
      split
      · exact yields_bind_of (Q := fun _ => False) yields_fail fun _ => False.elim
      · next only =>
          refine yields_pure ⟨List.forall_mem_append.mpr
            ⟨hms.parts, List.forall_mem_singleton.mpr hm⟩, ?_⟩
          refine List.pairwise_append.mpr ⟨hms.constructors, List.pairwise_singleton .., ?_⟩
          refine fun m' mem => List.forall_mem_singleton.mpr fun both => only ?_
          rw [isConstructor_iff.mpr both.2, Bool.true_and, List.any_eq_true]
          exact ⟨m', mem, isConstructor_iff.mpr both.1⟩

theorem sound_classType {ms : Modifiers} (hms : ms.Exclusive) :
    Yields (fun d => (StatementForm.classType d).Sound g.limit) (classType g ms) := by
  refine yields_bind fun _ => yields_bind fun ident => yields_bind fun generics => ?_
  refine yields_bind fun extending => ?_
  extract_lets rest
  have tail : ∀ superclass,
      Yields (fun d => (StatementForm.classType d).Sound g.limit) (rest superclass) := by
    intro superclass
    refine yields_bind fun implementing => ?_
    extract_lets body
    have tail : ∀ interfaces,
        Yields (fun d => (StatementForm.classType d).Sound g.limit) (body interfaces) := by
      intro interfaces
      refine yields_bind fun _ => yields_bind_of (sound_members h _) fun members hmembers => ?_
      refine yields_bind fun _ => yields_pure ⟨⟨hms, hmembers.constructors⟩, ?_⟩
      rw [StatementForm.outlines, memberOutlines_eq]
      refine allOf_append.mpr ⟨allOf_append.mpr ⟨?_, built_types _⟩, allOf_map.mpr hmembers.parts⟩
      exact allOf_map.mpr fun t _ => t.built
    split
    · exact yields_bind tail
    · exact yields_bind tail
  split
  · exact yields_bind tail
  · exact yields_bind tail

theorem sound_declaration : Yields (fun s => s.outline.Built g.limit) (declaration g) := by
  refine yields_bind fun place => yields_bind_of exclusive_modifiers fun ms hms => ?_
  refine yields_bind fun t => ?_
  split
  · exact yields_bind_of (sound_function h hms) fun d hd => yields_pure (hd.outline place)
  · exact yields_bind_of (sound_classType h hms) fun d hd => yields_pure (hd.outline place)
  · exact yields_bind_of (sound_structType hms) fun d hd => yields_pure (hd.outline place)
  · refine yields_bind_of (sound_varGroup h hms) fun d hd => ?_
    exact yields_bind fun _ => yields_pure (hd.outline place)

/-! ### Statements -/

/-- Only places are assigned to. -/
theorem sound_simple : Yields (fun s => s.outline.Built g.limit) (simple g) := by
  refine yields_bind fun place => yields_bind_of h.expression fun target htarget => ?_
  refine yields_bind fun t => ?_
  split
  · have sound : (StatementForm.expression target).Sound g.limit := ⟨trivial, htarget, trivial⟩
    exact yields_pure (sound.outline place)
  · refine yields_bind fun operator => ?_
    split
    · next assignable =>
        have isPlace := Expr.isPlace_of_isAssignable assignable
        refine yields_bind_of h.expression fun right hright => ?_
        have assigned : ∀ value : Expr, value.outline.Built g.limit →
            Yields (fun s => s.outline.Built g.limit)
              (pure ⟨.assignment target value, place⟩ : Parser Statement) := by
          intro value hvalue
          have sound : (StatementForm.assignment target value).Sound g.limit :=
            ⟨isPlace, htarget, hvalue, trivial⟩
          exact yields_pure (sound.outline place)
        split
        · exact yields_bind_of (sound_node _ ⟨trivial, htarget, hright, trivial⟩) assigned
        · exact yields_bind_of (yields_pure hright) assigned
    · exact yields_fail

theorem sound_terminated : Yields (fun s => s.outline.Built g.limit) (terminated g) :=
  yields_bind_of (sound_simple h) fun _ hs => yields_bind fun _ => yields_pure hs

theorem sound_statementsUntil (stop : TokenKind → Bool) :
    Yields (fun body => ∀ s ∈ body, s.outline.Built g.limit) (statementsUntil g stop) := by
  refine yields_iterate_of (fun body hbody => yields_bind fun t => yields_bind fun done => ?_) nofun
  split
  · exact yields_pure hbody
  · refine yields_bind fun stray => ?_
    split
    · exact yields_pure hbody
    · exact yields_bind_of h.statement fun s hs => yields_pure
        (List.forall_mem_append.mpr ⟨hbody, List.forall_mem_singleton.mpr hs⟩)

theorem sound_blockForm : Yields (fun b => b.outline.Built g.limit) (blockForm g) := by
  refine yields_bind fun opener => yields_bind_of (sound_statementsUntil h _) fun body hbody => ?_
  refine yields_bind fun _ => yields_pure ?_
  rw [Block.outline, statementOutlines_eq]
  exact ⟨trivial, allOf_map.mpr hbody⟩

theorem sound_ifForm : Yields (StatementForm.Sound g.limit) (ifForm g) := by
  refine yields_bind fun _ => yields_bind_of h.expression fun test htest => ?_
  refine yields_bind_of h.block fun body hbody => ?_
  refine yields_bind_of (Q := fun elifs => AllOf (Node.Built g.limit) (elifOutlines elifs))
    (yields_iterate_of (fun elifs helifs => yields_bind fun t => ?_) trivial)
    fun elifs helifs => ?_
  · split
    · refine yields_bind fun _ => yields_bind_of h.expression fun test htest => ?_
      refine yields_bind_of h.block fun body hbody => yields_pure ?_
      rw [ForInStep.value, elifOutlines_append]
      exact allOf_append.mpr ⟨helifs, htest, hbody, trivial⟩
    · exact yields_pure helifs
  · have whole : ∀ otherwise : Option Block, AllOf (Node.Built g.limit) (optionalBlock otherwise) →
        Yields (StatementForm.Sound g.limit)
          (pure (.conditional test body elifs otherwise) : Parser StatementForm) :=
      fun otherwise hotherwise =>
        yields_pure ⟨trivial, htest, hbody, allOf_append.mpr ⟨helifs, hotherwise⟩⟩
    refine yields_bind fun else_ => ?_
    split
    · exact yields_bind_of (h.block.map fun b hb => ⟨hb, trivial⟩) whole
    · exact yields_bind_of (yields_pure trivial) whole

theorem sound_whileForm : Yields (StatementForm.Sound g.limit) (whileForm g) := by
  refine yields_bind fun _ => yields_bind_of h.expression fun test htest => ?_
  exact yields_bind_of h.block fun body hbody => yields_pure ⟨trivial, htest, hbody, trivial⟩

theorem sound_forInit : Yields (fun s => s.outline.Built g.limit) (forInit g) := by
  refine yields_bind fun place => yields_bind fun starts => ?_
  split
  · exact yields_bind_of (sound_varGroup h Modifiers.exclusive_empty) fun d hd =>
      yields_pure (hd.outline place)
  · exact sound_simple h

theorem sound_optionalExpr :
    Yields (fun e => AllOf (Node.Built g.limit) (optionalExpr e)) (some <$> g.expression) :=
  h.expression.map fun _ he => ⟨he, trivial⟩

theorem sound_forForm : Yields (StatementForm.Sound g.limit) (forForm g) := by
  have one : ∀ {p : Parser Statement}, Yields (fun s => s.outline.Built g.limit) p →
      Yields (fun s => AllOf (Node.Built g.limit) (optionalStatement s)) (some <$> p) := fun hp =>
    hp.map fun _ hs => ⟨hs, trivial⟩
  refine yields_bind fun _ => yields_bind fun _ => yields_bind fun noInit => ?_
  extract_lets afterInit
  have init : ∀ init, AllOf (Node.Built g.limit) (optionalStatement init) →
      Yields (StatementForm.Sound g.limit) (afterInit init) := by
    intro init hinit
    refine yields_bind fun _ => yields_bind fun noTest => ?_
    extract_lets afterTest
    have test : ∀ test, AllOf (Node.Built g.limit) (optionalExpr test) →
        Yields (StatementForm.Sound g.limit) (afterTest test) := by
      intro test htest
      refine yields_bind fun _ => yields_bind fun noUpdate => ?_
      extract_lets afterUpdate
      have update : ∀ update, AllOf (Node.Built g.limit) (optionalStatement update) →
          Yields (StatementForm.Sound g.limit) (afterUpdate update) := by
        intro update hupdate
        refine yields_bind fun _ => yields_bind_of h.block fun body hbody => ?_
        refine yields_pure ⟨trivial, ?_⟩
        simp only [StatementForm.outlines, allOf_append]
        exact ⟨⟨⟨hinit, htest⟩, hupdate⟩, hbody, trivial⟩
      split
      · exact yields_bind_of (yields_pure trivial) update
      · exact yields_bind_of (one (sound_simple h)) update
    split
    · exact yields_bind_of (yields_pure trivial) test
    · exact yields_bind_of (sound_optionalExpr h) test
  split
  · exact yields_bind_of (yields_pure trivial) init
  · exact yields_bind_of (one (sound_forInit h)) init

/-- What is tried has a handler. -/
theorem sound_tryForm : Yields (StatementForm.Sound g.limit) (tryForm g) := by
  refine yields_bind fun _ => yields_bind_of h.block fun body hbody => ?_
  refine yields_bind_of (Q := fun handlers => AllOf (Node.Built g.limit) (catchOutlines handlers))
    (yields_iterate_of (fun handlers hhandlers => yields_bind fun t => ?_) trivial)
    fun handlers hhandlers => ?_
  · split
    · refine yields_bind fun _ => yields_bind fun _ => yields_bind fun type => ?_
      refine yields_bind fun ident => yields_bind fun _ => ?_
      refine yields_bind_of h.block fun body hbody => yields_pure ?_
      rw [ForInStep.value, catchOutlines_append]
      exact allOf_append.mpr ⟨hhandlers, type.built, hbody, trivial⟩
    · exact yields_pure hhandlers
  · extract_lets next
    split
    · exact yields_bind fun _ => yields_bind_of (Q := fun _ => False) yields_fail fun _ => False.elim
    · next some_ =>
        refine yields_bind fun opener => yields_bind_of h.block fun last hlast => ?_
        refine yields_pure ⟨fun none_ => some_ (by rw [none_]; rfl), hbody, ?_⟩
        exact allOf_append.mpr ⟨hhandlers, hlast, trivial⟩

theorem sound_caseBody :
    Yields (fun body => ∀ s ∈ body, s.outline.Built g.limit) (caseBody g) := by
  refine yields_bind fun place => yields_bind fun opened => ?_
  split
  · refine yields_bind_of h.block fun body hbody => yields_pure (List.forall_mem_singleton.mpr ?_)
    have sound : (StatementForm.block body).Sound g.limit := ⟨trivial, hbody, trivial⟩
    exact sound.outline place
  · exact sound_statementsUntil h _

/-- Cases that keep the rules, none of which has a guard. -/
structure SoundCases (limit : Nat) (cases : Cases) : Prop where
  unguarded : ∀ c ∈ cases.1 ++ cases.2.toList, ∀ p ∈ c.patterns, ¬ p.IsGuarded
  parts : AllOf (Node.Built limit) (caseOutlines cases.1 ++ optionalCase cases.2)

theorem sound_caseStep {cases : Cases} (hcases : SoundCases g.limit cases) :
    Yields (fun r => SoundCases g.limit r.value) (caseStep g cases) := by
  obtain ⟨listed, default_⟩ := allOf_append.mp hcases.parts
  obtain ⟨unguarded, unguarded'⟩ := List.forall_mem_append.mp hcases.unguarded
  have statements : ∀ {body : List Statement}, (∀ s ∈ body, s.outline.Built g.limit) →
      AllOf (Node.Built g.limit) (statementOutlines body) := fun hbody => by
    rw [statementOutlines_eq]
    exact allOf_map.mpr hbody
  refine yields_bind fun closed => yields_bind fun done => ?_
  split
  · exact yields_pure hcases
  · refine yields_bind fun place => yields_bind fun isDefault => ?_
    split
    · have tail : Yields (fun r => SoundCases g.limit r.value) (do
          let _ ← expect .colon "':' after default"
          let body ← caseBody g
          return ForInStep.yield
            (cases.1, some (⟨[⟨.wildcard, place⟩], body, place⟩ : SwitchCase))) := by
        refine yields_bind fun _ => yields_bind_of (sound_caseBody h) fun body hbody => ?_
        refine yields_pure ⟨List.forall_mem_append.mpr ⟨unguarded, ?_⟩, ?_⟩
        · refine List.forall_mem_singleton.mpr (List.forall_mem_singleton.mpr ?_)
          exact nofun
        · exact allOf_append.mpr ⟨listed, ⟨trivial, trivial⟩, statements hbody⟩
      split
      · exact yields_bind fun _ => tail
      · exact tail
    · refine yields_bind fun _ => ?_
      have plain : Yields (fun p => p.outline.Built g.limit ∧ ¬ p.IsGuarded) (pattern g false) :=
        (sound_pattern h false).imp fun p hp => ⟨hp.1, fun guarded => nomatch hp.2 guarded⟩
      refine yields_bind_of plain fun first hfirst => ?_
      refine yields_bind_of (Q := fun ps => ∀ p ∈ ps, p.outline.Built g.limit ∧ ¬ p.IsGuarded)
        (yields_iterate_of (fun ps hps => yields_bind fun more => ?_) nofun)
        fun others hothers => ?_
      · split
        · exact yields_bind_of plain fun p hp => yields_pure
            (List.forall_mem_append.mpr ⟨hps, List.forall_mem_singleton.mpr hp⟩)
        · exact yields_pure hps
      · refine yields_bind fun _ => yields_bind_of (sound_caseBody h) fun body hbody => ?_
        have patterns : ∀ p ∈ first :: others, p.outline.Built g.limit ∧ ¬ p.IsGuarded :=
          List.forall_mem_cons.mpr ⟨hfirst, hothers⟩
        refine yields_pure ⟨List.forall_mem_append.mpr ⟨List.forall_mem_append.mpr
          ⟨unguarded, List.forall_mem_singleton.mpr fun p mem => (patterns p mem).2⟩, unguarded'⟩, ?_⟩
        rw [ForInStep.value, caseOutlines_append]
        refine allOf_append.mpr ⟨allOf_append.mpr ⟨listed, ?_⟩, default_⟩
        refine allOf_append.mpr ⟨allOf_append.mpr ⟨?_, statements hbody⟩, trivial⟩
        exact allOf_map.mpr fun p mem => (patterns p mem).1

theorem sound_switchForm : Yields (StatementForm.Sound g.limit) (switchForm g) := by
  refine yields_bind fun _ => yields_bind_of h.expression fun value hvalue => ?_
  refine yields_bind fun _ => yields_bind_of
    (yields_iterate_of (fun cases hcases => sound_caseStep h hcases) ⟨nofun, trivial⟩)
    fun cases hcases => ?_
  exact yields_bind fun _ => yields_pure ⟨hcases.unguarded, hvalue, hcases.parts⟩

theorem sound_returnForm : Yields (StatementForm.Sound g.limit) (returnForm g) := by
  refine yields_bind fun _ => yields_bind fun empty => ?_
  extract_lets next
  have tail : ∀ value, AllOf (Node.Built g.limit) (optionalExpr value) →
      Yields (StatementForm.Sound g.limit) (next value) := fun value hvalue =>
    yields_bind fun _ => yields_pure ⟨trivial, hvalue⟩
  split
  · exact yields_bind_of (yields_pure trivial) tail
  · exact yields_bind_of (sound_optionalExpr h) tail

/-- Only new objects are thrown. -/
theorem sound_throwForm : Yields (StatementForm.Sound g.limit) (throwForm g) := by
  refine yields_bind fun _ => yields_bind_of h.expression fun value hvalue => ?_
  split
  · next form => exact yields_bind fun _ => yields_pure ⟨⟨_, _, _, form⟩, hvalue, trivial⟩
  · exact yields_fail

omit h in
theorem sound_jump {form : StatementForm} (sound : form.Sound g.limit) :
    Yields (StatementForm.Sound g.limit) (jump form) :=
  yields_bind fun _ => yields_bind fun _ => yields_pure sound

theorem sound_keywordStatement (t : Token) (k : Keyword) :
    Yields (fun s => s.outline.Built g.limit) (keywordStatement g t k) := by
  have located : ∀ {form : Parser StatementForm}, Yields (StatementForm.Sound g.limit) form →
      Yields (fun s => s.outline.Built g.limit)
        (do return (⟨← form, t.location⟩ : Statement)) := fun hform =>
    yields_bind_of hform fun form sound => yields_pure (sound.outline t.location)
  simp only [keywordStatement]
  split
  case h_1 => exact located (sound_ifForm h)
  case h_2 => exact located (sound_whileForm h)
  case h_3 => exact located (sound_forForm h)
  case h_4 => exact located (sound_tryForm h)
  case h_5 => exact located (sound_switchForm h)
  case h_6 => exact located (sound_returnForm h)
  case h_7 | h_8 => exact located (sound_jump ⟨trivial, trivial⟩)
  case h_9 => exact located (sound_throwForm h)
  case h_10 | h_11 | h_12 | h_13 | h_14 => exact sound_declaration h
  case h_15 | h_16 | h_17 | h_18 => exact sound_terminated h
  case h_19 =>
    split
    · exact sound_declaration h
    · exact yields_fail

theorem sound_statementForm : Yields (fun s => s.outline.Built g.limit) (statementForm g) := by
  refine yields_bind fun t => ?_
  split
  · refine yields_bind_of h.block fun body hbody => ?_
    have sound : (StatementForm.block body).Sound g.limit := ⟨trivial, hbody, trivial⟩
    exact yields_pure (sound.outline t.location)
  · exact sound_keywordStatement h _ _
  · refine yields_bind fun declares => ?_
    split
    · exact sound_declaration h
    · exact sound_terminated h
  · exact sound_terminated h

/-! ### Levels -/

theorem Sound.above : Sound g.above where
  expression := yields_nested _ (sound_conditional h)
  operand := yields_nested _ (sound_operandForm h)
  primary := yields_nested _ (sound_primaryForm h)
  block := yields_nested _ (sound_blockForm h)
  statement := yields_nested _ (sound_statementForm h)

omit h in
theorem sound_ofLevels (limit n : Nat) : Sound (ofLevels limit n) := by
  induction n with
  | zero =>
      exact {
        expression := fun _ _ _ run => nomatch run
        operand := fun _ _ _ run => nomatch run
        primary := fun _ _ _ run => nomatch run
        block := fun _ _ _ run => nomatch run
        statement := fun _ _ _ run => nomatch run }
  | succ n ih => exact ih.above

end Grammar

/-! ### Programs -/

namespace Program

theorem built_of_parse {limit : Nat} {tokens : List Token} {p : Program}
    (h : parse limit tokens = .ok p) : p.outline.Built limit := by
  obtain ⟨_, s, reads⟩ := parse_eq_ok.mp h
  have empty : (Draft.afterImports tokens).1.body = [] := (readImports_grows _ _).1
  have body := reads.body_of (Grammar.sound_ofLevels limit (limit + 1)).statement
    (by rw [empty]; exact nofun)
  rw [Grammar.limit_ofLevels] at body
  have imports : AllOf (Node.Built limit) (p.imports.map ImportDeclaration.outline) :=
    allOf_map.mpr fun i _ => ⟨trivial, trivial⟩
  exact ⟨trivial, allOf_append.mpr ⟨imports, allOf_map.mpr body⟩⟩

/-- Every node of a program that is read keeps the rules, whatever tokens it is read from. -/
theorem parse_wellFormed {limit : Nat} {tokens : List Token} {p : Program}
    (h : parse limit tokens = .ok p) : p.outline.WellFormed :=
  (built_of_parse h).imp fun _ => Node.Built.wellFormed

/-- A class with an operator and a constructor, and a match with a guarded arm for all values. -/
theorem parse_wellFormed_of_class_and_match :
    let text := "class C \x7b operator !(): C \x7b throw new E(); \x7d
      C(...r: A) \x7b x[i].y += 1; \x7d \x7d int a, b = match x \x7b 1: y => 2; default: z => 3; \x7d;"
    ∃ p, parse nestingLimit (Scan.ofText text).tokens = .ok p ∧ p.body.length = 2 ∧
      p.outline.WellFormed := by
  intro text
  have length : (parse nestingLimit (Scan.ofText text).tokens).toOption.map (·.body.length)
      = some 2 := by
    decide +kernel
  cases h : parse nestingLimit (Scan.ofText text).tokens with
  | error e => simp [h, Except.toOption] at length
  | ok p =>
      refine ⟨p, rfl, ?_, parse_wellFormed h⟩
      simpa [h, Except.toOption] using length

/--
Every expression of a program that is read, a name after a dot included, has the number of nodes on
its longest path to a leaf for its height, and this is within the limit.
-/
theorem heights_of_parse {tokens : List Token} {p : Program}
    (h : parse nestingLimit tokens = .ok p) :
    ∀ e ∈ p.expressions, e.height = e.longestPath ∧ e.longestPath ≤ nestingLimit := by
  have nodes := Outline.All.forall_walk (built_of_parse h)
  intro e mem
  obtain ⟨n, visited, part⟩ := List.mem_flatMap.mp mem
  cases n with
  | expression whole =>
      have measured : e.Measured nestingLimit := Expr.Built.parts (nodes _ visited) e part
      exact ⟨measured.height, measured.height ▸ measured.bounded⟩
  | _ => exact nomatch part

/-- A desugared assignment of a match with a call, a guard and bodies. -/
theorem heights_of_parse_nested :
    let text := "x.y += match f(\x7ba: 1\x7d) \x7b 1: -(-w) => u + 2; default => 3; \x7d;"
    ∃ p, parse nestingLimit (Scan.ofText text).tokens = .ok p ∧
      (p.expressions.map (·.height)).max? = some 5 ∧
      ∀ e ∈ p.expressions, e.height = e.longestPath ∧ e.longestPath ≤ nestingLimit := by
  intro text
  have highest : (parse nestingLimit (Scan.ofText text).tokens).toOption.map
      (fun p => (p.expressions.map (·.height)).max?) = some (some 5) := by
    decide +kernel
  cases h : parse nestingLimit (Scan.ofText text).tokens with
  | error e => simp [h, Except.toOption] at highest
  | ok p =>
      refine ⟨p, rfl, ?_, heights_of_parse h⟩
      simpa [h, Except.toOption] using highest

end Program
end ScriptFront
