import ScriptFront.Proofs.BoundedTrees
import ScriptFront.Proofs.ExpressionHeights

/-!
Expressions and patterns that are read keep the rules for every node, and so do modifiers and
parameters; expressions are as high as their forms make them, and no higher than the limit. Each
parser yields a tree that keeps all this if those on the level below do, whatever tokens it is
given: a rule is enforced where its construct is read, so that it holds on every path to the construct.
Which error a broken rule leads to is left open.
-/

namespace ScriptFront

/-! ### Parts of trees -/

variable {limit : Nat}

mutual

/-- There are no rules for types. -/
theorem TypeExpr.built : ∀ t : TypeExpr, t.outline.Built limit
  | ⟨form, _⟩ => ⟨trivial, form.built⟩

theorem TypeForm.built : ∀ form : TypeForm, AllOf (Node.Built limit) form.outlines
  | .reference _ generics => built_types generics
  | .array t => ⟨t.built, trivial⟩
  | .union l r | .intersection l r => ⟨l.built, r.built, trivial⟩
  | .infer | .void | .null | .undefined => trivial

theorem built_types : ∀ ts : List TypeExpr, AllOf (Node.Built limit) (typeOutlines ts)
  | [] => trivial
  | t :: ts => ⟨t.built, built_types ts⟩

end

theorem built_params (ps : List Param) : AllOf (Node.Built limit) (ps.map Param.outline) :=
  allOf_map.mpr fun p _ => ⟨trivial, p.type.built, trivial⟩

theorem Signature.built (s : Signature) : AllOf (Node.Built limit) s.outlines :=
  allOf_append.mpr ⟨built_params s.params, s.returns.built, trivial⟩

/-- Expressions that keep the rules. -/
def AllSound (limit : Nat) (es : List Expr) : Prop := ∀ e ∈ es, e.outline.Built limit

theorem AllSound.outlines {es : List Expr} (h : AllSound limit es) :
    AllOf (Node.Built limit) (exprOutlines es) := by
  rw [exprOutlines_eq]
  exact allOf_map.mpr h

/-- A form that keeps the rules, as does all below it. -/
structure ExprForm.Sound (limit : Nat) (form : ExprForm) : Prop where
  root : form.Built
  parts : AllOf (Node.Built limit) form.outlines

/-- A form that keeps the rules, as does all below it. -/
structure StatementForm.Sound (limit : Nat) (form : StatementForm) : Prop where
  root : form.WellFormed
  parts : AllOf (Node.Built limit) form.outlines

theorem StatementForm.Sound.outline {form : StatementForm} (h : form.Sound limit)
    (place : Location) : (Statement.outline ⟨form, place⟩).Built limit := by
  rw [Statement.outline]
  exact ⟨h.root, h.parts⟩

theorem Expr.isPlace_of_isAssignable {e : Expr} (h : e.isAssignable = true) : e.IsPlace := by
  simp only [isAssignable] at h
  split at h
  · next name form => exact .inl ⟨name, form⟩
  · next object property computed form => exact .inr ⟨object, property, computed, form⟩
  · exact nomatch h

/-! ### Modifiers -/

namespace Modifiers

theorem exclusive_empty : empty.Exclusive := by
  intro m n hm
  rw [has_empty] at hm
  exact nomatch hm

/-- A modifier that excludes none of a set may join it. -/
theorem Exclusive.set {ms : Modifiers} (h : ms.Exclusive) {m : Modifier} (free : ms.conflict? m = none) :
    (ms.set m).Exclusive := by
  have symm : ∀ a b : Modifier, b ∈ a.group → a ∈ b.group := by
    intro a b
    cases a <;> cases b <;> decide
  have alone : ∀ n, ms.has n = true → n ∈ m.group → n = m := by
    intro n has mem
    have excluded := List.find?_eq_none.mp free n mem
    simpa [has] using excluded
  intro a b ha hb mem
  rw [has_set, Bool.or_eq_true, beq_iff_eq] at ha hb
  rcases ha with ha | rfl <;> rcases hb with hb | rfl
  · exact h a b ha hb mem
  · exact alone a ha (symm _ _ mem)
  · exact (alone b hb mem).symm
  · rfl

end Modifiers

namespace Grammar

open ScriptFront.Parser

theorem exclusive_modifiers : Yields Modifiers.Exclusive modifiers := by
  refine yields_iterate_of (fun ms hms => yields_bind fun t => ?_) Modifiers.exclusive_empty
  split
  · split
    · next m _ =>
        refine yields_bind fun _ => ?_
        extract_lets next
        have tail : ∀ r, Yields (fun r => Modifiers.Exclusive r.value) (next r) := by
          intro r
          dsimp only [next]
          split
          · exact yields_fail
          · next free => exact yields_pure (hms.set free)
        split
        · exact yields_bind tail
        · exact tail ()
    · exact yields_pure hms
  · exact yields_pure hms

theorem restLast_params (g : Grammar) : Yields RestLast (params g) := by
  refine yields_bind fun _ => ?_
  refine yields_bind_of (Q := RestLast) (yields_iterate_of (fun ps hps => ?_) nofun) fun ps hps =>
    yields_bind fun _ => yields_pure hps
  refine yields_bind fun closed => ?_
  split
  · exact yields_pure hps
  · have tail (last : ∀ p ∈ ps.getLast?, p.isRest = false) :
        Yields (fun r => RestLast r.value) (do
          let ps := ps ++ [← param g]
          if ← accept .comma then return ForInStep.yield ps else return .done ps) := by
      refine yields_bind fun p => yields_bind fun comma => ?_
      have more : RestLast (ps ++ [p]) := by
        intro q mem
        rw [List.dropLast_concat] at mem
        rcases List.eq_nil_or_concat ps with rfl | ⟨front, final, rfl⟩
        · exact nomatch mem
        · simp only [List.concat_eq_append, List.mem_append, List.mem_singleton,
            List.getLast?_concat, Option.mem_def, Option.some.injEq, forall_eq', RestLast,
            List.dropLast_concat] at mem last hps
          rcases mem with mem | rfl
          · exact hps q mem
          · exact last
      split
      · exact yields_pure more
      · exact yields_pure more
    extract_lets next
    split
    · next last final =>
        split
        · exact yields_bind_of (Q := fun _ => False) yields_fail nofun
        · next plain =>
            refine tail fun p mem => ?_
            rw [final] at mem
            cases mem
            simpa using plain
    · next none_ =>
        refine tail fun p mem => ?_
        rw [none_] at mem
        exact nomatch mem

/-- The parsers of a level yield trees that keep the rules. Those for types need not be asked. -/
structure Sound (g : Grammar) : Prop where
  expression : Yields (fun e => e.outline.Built g.limit) g.expression
  operand : Yields (fun e => e.outline.Built g.limit) g.operand
  primary : Yields (fun e => e.outline.Built g.limit) g.primary
  block : Yields (fun b => b.outline.Built g.limit) g.block
  statement : Yields (fun s => s.outline.Built g.limit) g.statement

variable {g : Grammar} (h : Sound g)

theorem sound_node {form : ExprForm} (place : Location) (sound : form.Sound g.limit) :
    Yields (fun e => e.outline.Built g.limit) (g.node form place) := by
  simp only [node]
  split
  · exact yields_fail
  · next within =>
      exact yields_pure (Expr.built_of sound.root sound.parts place (by omega))

include h

/-! ### Chains of operands -/

/-- What is pending in a chain, and the operand at its end. -/
structure SoundChain (limit : Nat) (c : Pending × Expr) : Prop where
  pending : ∀ p ∈ c.1, p.1.outline.Built limit
  last : c.2.outline.Built limit

omit h in
theorem sound_fold (precedence : Nat) {c : Pending × Expr} (hc : SoundChain g.limit c) :
    Yields (SoundChain g.limit) (fold g precedence c.1 c.2) := by
  obtain ⟨pending, right⟩ := c
  induction pending generalizing right with
  | nil => exact yields_pure hc
  | cons first pending ih =>
      obtain ⟨left, op⟩ := first
      obtain ⟨hleft, hpending⟩ := List.forall_mem_cons.mp hc.pending
      simp only [fold]
      split
      · have joined : (op.join left right).Sound g.limit := by
          cases op with
          | logical op | binary op => exact ⟨trivial, hleft, hc.last, trivial⟩
        exact yields_bind_of (sound_node _ joined) fun e he => ih e ⟨hpending, he⟩
      · exact yields_pure hc

theorem sound_isTarget : Yields (fun e => e.outline.Built g.limit) (isTarget g) := by
  refine yields_bind fun next => ?_
  split
  · refine yields_bind fun ident => yields_pure ?_
    have root : (ExprForm.identifier ident.text).Built := trivial
    exact Expr.built_of root trivial _ (Nat.le_max_right ..)
  · exact h.primary
  · exact yields_fail

theorem sound_isTest {subject : Expr} (hsubject : subject.outline.Built g.limit) :
    Yields (fun e => e.outline.Built g.limit) (isTest g subject) := by
  refine yields_bind fun t => ?_
  extract_lets next
  have tail : ∀ q, Yields (fun e => e.outline.Built g.limit) (next q) := fun q =>
    yields_bind fun _ => yields_bind_of (sound_isTarget h) fun target htarget =>
      sound_node _ ⟨trivial, hsubject, htarget, trivial⟩
  split
  · exact yields_bind tail
  · exact yields_bind tail
  · exact yields_bind tail
  · exact yields_bind tail

theorem sound_chainStep {c : Pending × Expr} (hc : SoundChain g.limit c) :
    Yields (fun r => SoundChain g.limit r.value) (chainStep g c) := by
  refine yields_bind fun tests => ?_
  split
  · refine yields_bind_of (sound_fold _ hc) fun r hr => yields_bind fun _ => ?_
    exact yields_bind_of (sound_isTest h hr.last) fun e he => yields_pure ⟨hr.pending, he⟩
  · refine yields_bind fun s => ?_
    split
    · exact yields_pure hc
    · refine yields_bind_of (sound_fold _ hc) fun r hr => yields_bind fun _ => ?_
      exact yields_bind_of h.operand fun e he =>
        yields_pure ⟨List.forall_mem_cons.mpr ⟨hr.last, hr.pending⟩, he⟩

theorem sound_chain : Yields (fun e => e.outline.Built g.limit) (chain g) := by
  refine yields_bind_of h.operand fun first hfirst => ?_
  refine yields_bind_of (yields_iterate_of (fun c hc => sound_chainStep h hc) ⟨nofun, hfirst⟩)
    fun c hc => ?_
  exact yields_bind_of (sound_fold _ hc) fun r hr => yields_pure hr.last

theorem sound_conditional : Yields (fun e => e.outline.Built g.limit) (conditional g) := by
  refine yields_bind_of (sound_chain h) fun test htest => yields_bind fun asks => ?_
  split
  · refine yields_bind_of h.expression fun yes hyes => yields_bind fun _ => ?_
    exact yields_bind_of h.expression fun no hno =>
      sound_node _ ⟨trivial, htest, hyes, hno, trivial⟩
  · exact yields_pure htest

/-! ### Operands -/

omit h in
/-- Only places are updated. -/
theorem sound_update {operator : Token} {before : Bool} {operand : Expr} {place : Location}
    (hoperand : operand.outline.Built g.limit) :
    Yields (fun e => e.outline.Built g.limit) (update g operator before operand place) := by
  simp only [update]
  split
  · next assignable =>
      exact sound_node _ ⟨Expr.isPlace_of_isAssignable assignable, hoperand, trivial⟩
  · exact yields_fail

theorem sound_arguments : Yields (AllSound g.limit) (arguments g) := by
  refine yields_bind fun _ => yields_bind fun closed => ?_
  have tail : ∀ es : List Expr, AllSound g.limit es →
      Yields (AllSound g.limit) (do let _ ← expect .closeParen "')' after arguments"; return es) :=
    fun es hes => yields_bind fun _ => yields_pure hes
  split
  · exact yields_bind_of (yields_pure nofun) tail
  · exact yields_bind_of (yields_items h.expression) tail

/-- What follows a dot is a name. -/
theorem sound_suffixStep {e : Expr} (he : e.outline.Built g.limit) :
    Yields (fun r => r.value.outline.Built g.limit) (suffixStep g e) := by
  have call : ∀ generics : List TypeExpr, Yields (fun r => r.value.outline.Built g.limit) (do
      let args ← arguments g
      return ForInStep.yield (← g.node (.call e generics args) e.location)) := by
    intro generics
    refine yields_bind_of (sound_arguments h) fun args hargs => ?_
    refine yields_bind_of (sound_node _ ⟨trivial, he, ?_⟩) fun r hr => yields_pure hr
    exact allOf_append.mpr ⟨built_types generics, hargs.outlines⟩
  have updated : Yields (fun r => r.value.outline.Built g.limit) (do
      let operator ← advance
      return ForInStep.yield (← update g operator false e e.location)) :=
    yields_bind fun operator => yields_bind_of (sound_update he) fun r hr => yields_pure hr
  refine yields_bind fun s => ?_
  dsimp only
  split
  · refine yields_bind fun _ => yields_bind fun ident => ?_
    refine yields_bind_of (sound_node _ ⟨?_, he, trivial⟩) fun r hr => yields_pure hr
    exact ⟨ident.text, ident.location, rfl⟩
  · refine yields_bind fun _ => yields_bind_of h.expression fun index hindex => ?_
    refine yields_bind fun _ => ?_
    exact yields_bind_of (sound_node _ ⟨nofun, he, hindex, trivial⟩) fun r hr => yields_pure hr
  · split
    · exact yields_bind call
    · exact yields_pure he
  · exact call []
  · exact updated
  · exact updated
  · exact yields_pure he

theorem sound_suffixed : Yields (fun e => e.outline.Built g.limit) (suffixed g) :=
  yields_bind_of h.primary fun _ he => yields_iterate_of (fun _ he => sound_suffixStep h he) he

theorem sound_operandForm : Yields (fun e => e.outline.Built g.limit) (operandForm g) := by
  refine yields_bind fun t => ?_
  have unary : ∀ op, Yields (fun e => e.outline.Built g.limit) (do
      let _ ← advance
      g.node (.unary op (← g.operand)) t.location) := fun op =>
    yields_bind fun _ => yields_bind_of h.operand fun e he => sound_node _ ⟨trivial, he, trivial⟩
  have updated : Yields (fun e => e.outline.Built g.limit) (do
      let _ ← advance
      update g t true (← g.operand) t.location) :=
    yields_bind fun _ => yields_bind_of h.operand fun e he => sound_update he
  dsimp only
  split
  · exact unary _
  · exact unary _
  · exact unary _
  · exact updated
  · exact updated
  · exact yields_bind fun _ => yields_bind_of h.operand fun e he =>
      sound_node _ ⟨trivial, he, trivial⟩
  · exact sound_suffixed h

theorem sound_objectProperties :
    Yields (fun ps => ∀ p ∈ ps, p.value.outline.Built g.limit) (objectProperties g) := by
  have step : ∀ ps : List Property, (∀ p ∈ ps, p.value.outline.Built g.limit) →
      Yields (fun r => ∀ p ∈ r.value, p.value.outline.Built g.limit) (propertyStep g ps) := by
    intro ps hps
    have one : ∀ t : Token, Yields (fun r => ∀ p ∈ r.value, p.value.outline.Built g.limit) (do
        let _ ← expect .colon "':' after property name"
        let value ← g.expression
        let ps := ps ++ [(⟨⟨t.lexeme, t.location⟩, value, t.location⟩ : Property)]
        if ← accept .comma then return ForInStep.yield ps else return .done ps) := by
      intro t
      refine yields_bind fun _ => yields_bind_of h.expression fun value hvalue => ?_
      have more : ∀ p ∈ ps ++ [(⟨⟨t.lexeme, t.location⟩, value, t.location⟩ : Property)],
          p.value.outline.Built g.limit :=
        List.forall_mem_append.mpr ⟨hps, List.forall_mem_singleton.mpr hvalue⟩
      refine yields_bind fun comma => ?_
      split
      · exact yields_pure more
      · exact yields_pure more
    refine yields_bind fun closed => ?_
    split
    · exact yields_pure hps
    · refine yields_bind fun t => ?_
      split
      · exact one t
      · exact one t
      · exact yields_fail
  exact yields_bind_of (yields_iterate_of step nofun) fun ps hps =>
    yields_bind fun _ => yields_pure hps

theorem sound_newForm : Yields (ExprForm.Sound g.limit) (newForm g) := by
  refine yields_bind fun className => yields_bind fun generics => ?_
  refine yields_bind_of (sound_arguments h) fun args hargs => yields_pure ⟨trivial, ?_⟩
  exact allOf_append.mpr ⟨built_types generics, hargs.outlines⟩

theorem sound_arrayForm : Yields (ExprForm.Sound g.limit) (arrayForm g) := by
  refine yields_bind fun closed => ?_
  have tail : ∀ items : List Expr, AllSound g.limit items →
      Yields (ExprForm.Sound g.limit)
        (do let _ ← expect .closeSquare "']' to close the array"; return .array items) :=
    fun items hitems => yields_bind fun _ => yields_pure ⟨trivial, hitems.outlines⟩
  split
  · exact yields_bind_of (yields_pure nofun) tail
  · exact yields_bind_of (yields_items h.expression) tail

/-! ### Patterns -/

/-- A pattern has at most one guard, and none where guards are not looked for. -/
theorem sound_pattern (guards : Bool) :
    Yields (fun p => p.outline.Built g.limit ∧ (p.IsGuarded → guards = true))
      (pattern g guards) := by
  refine yields_bind fun place => yields_bind_of plain_simplePattern fun form plain => ?_
  have unguarded : ¬ Pattern.IsGuarded ⟨form, place⟩ := fun ⟨inner, guard, guarded⟩ =>
    plain inner guard guarded
  have leaf : (Pattern.outline ⟨form, place⟩).Built g.limit := by
    rw [Pattern.outline]
    cases form with
    | guarded inner guard => exact absurd rfl (plain inner guard)
    | _ => exact ⟨trivial, trivial⟩
  split
  · next allowed =>
      refine yields_bind fun guarded => ?_
      split
      · refine yields_bind_of h.expression fun guard hguard => yields_pure ⟨?_, fun _ => allowed⟩
        rw [Pattern.outline]
        exact ⟨unguarded, leaf, hguard, trivial⟩
      · exact yields_pure ⟨leaf, fun guarded => absurd guarded unguarded⟩
  · exact yields_pure ⟨leaf, fun guarded => absurd guarded unguarded⟩

/-- Arms that keep the rules, of which at most one takes every value. -/
structure SoundArms (limit : Nat) (arms : List MatchArm) : Prop where
  parts : ∀ arm ∈ arms, arm.pattern.outline.Built limit ∧ arm.body.outline.Built limit
  wildcard : arms.Pairwise fun arm arm' =>
    ¬ (arm.pattern.isWildcard = true ∧ arm'.pattern.isWildcard = true)

theorem sound_matchForm : Yields (ExprForm.Sound g.limit) (matchForm g) := by
  refine yields_bind_of h.expression fun value hvalue => yields_bind fun _ => ?_
  refine yields_bind_of (Q := SoundArms g.limit)
    (yields_iterate_of (fun arms harms => ?_) ⟨nofun, .nil⟩) fun arms harms => ?_
  · refine yields_bind fun closed => yields_bind fun done => ?_
    split
    · exact yields_pure harms
    · refine yields_bind_of (sound_pattern h true) fun p hp => ?_
      have tail (only : ∀ arm ∈ arms, ¬ (arm.pattern.isWildcard = true ∧ p.isWildcard = true)) :
          Yields (fun r => SoundArms g.limit r.value) (do
            let _ ← expect .thickArrow "'=>' after pattern"
            let body ← g.expression
            let arms := arms ++ [(⟨p, body, p.location⟩ : MatchArm)]
            if ← accept .semicolon then return ForInStep.yield arms
            else if ← accept .comma then return .yield arms
            else return .done arms) := by
        refine yields_bind fun _ => yields_bind_of h.expression fun body hbody => ?_
        have more : SoundArms g.limit (arms ++ [⟨p, body, p.location⟩]) := {
          parts := List.forall_mem_append.mpr
            ⟨harms.parts, List.forall_mem_singleton.mpr ⟨hp.1, hbody⟩⟩
          wildcard := List.pairwise_append.mpr ⟨harms.wildcard, List.pairwise_singleton ..,
            fun arm mem => List.forall_mem_singleton.mpr (only arm mem)⟩ }
        refine yields_bind fun semicolon => ?_
        split
        · exact yields_pure more
        · refine yields_bind fun comma => ?_
          split
          · exact yields_pure more
          · exact yields_pure more
      extract_lets next
      split
      · exact yields_bind_of (Q := fun _ => False) yields_fail nofun
      · next first =>
          refine tail fun arm mem both => first ?_
          rw [both.2, Bool.true_and, List.any_eq_true]
          exact ⟨arm, mem, both.1⟩
  · refine yields_bind fun _ => yields_pure ⟨harms.wildcard, hvalue, ?_⟩
    rw [armOutlines_eq, allOf_iff]
    intro o mem
    obtain ⟨arm, inside, part⟩ := List.mem_flatMap.mp mem
    obtain ⟨hpattern, hbody⟩ := harms.parts arm inside
    simp only [List.mem_cons, List.not_mem_nil, or_false] at part
    rcases part with rfl | rfl
    · exact hpattern
    · exact hbody

theorem sound_primaryForm : Yields (fun e => e.outline.Built g.limit) (primaryForm g) := by
  refine yields_bind fun t => ?_
  have composed : ∀ {form : Parser ExprForm}, Yields (ExprForm.Sound g.limit) form →
      Yields (fun e => e.outline.Built g.limit) (do g.node (← form) t.location) := fun hform =>
    yields_bind_of hform fun _ sound => sound_node _ sound
  dsimp only
  split
  case h_1 => exact yields_bind fun _ => sound_node _ ⟨trivial, trivial⟩
  case h_9 => exact composed (sound_newForm h)
  case h_10 => exact composed (sound_matchForm h)
  case h_11 => exact composed (sound_arrayForm h)
  case h_12 =>
    refine yields_bind_of (sound_objectProperties h) fun ps hps => sound_node _ ⟨trivial, ?_⟩
    rw [ExprForm.outlines, propertyOutlines_eq]
    exact allOf_map.mpr hps
  case h_13 => exact yields_bind_of h.expression fun inner hinner =>
    yields_bind fun _ => yields_pure hinner
  case h_14 => exact yields_fail
  all_goals exact sound_node _ ⟨trivial, trivial⟩

end Grammar

end ScriptFront
