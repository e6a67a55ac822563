import ScriptFront.Check.Statement
import ScriptFront.Proofs.VisitedNodes

/-!
Expressions that stand alone for nothing. What an expression evaluates are the expressions of its
outline, and it does something if one of them acts. The test for this goes down to those only whose
value may be the value of the whole: an expression that it passes does something, and of those that
it does not pass some do something all the same. What becomes of the test is left open.
-/

namespace ScriptFront

/-! ### What is evaluated, and what may be the value -/

/-- Whether an expression itself does something: it calls, creates, updates, awaits or matches. -/
def Expr.acts (e : Expr) : Bool :=
  match e.form with
  | .call .. | .new .. | .update .. | .await _ | .match_ .. => true
  | _ => false

/-- The expression that a node is. -/
def Node.expression? : Node → Option Expr
  | .expression e => some e
  | _ => none

/-- The expressions in some outlines, in the order of visit. -/
def expressionsIn (os : List Outline) : List Expr :=
  (walkAll Visit.everything os).filterMap Node.expression?

/--
The expressions that are evaluated with an expression, itself included: operands, conditions and
branches, what is called with its arguments, objects and computed indices of members, elements of
arrays, values of objects, and what is tested by `is` or matched.
-/
def Expr.evaluated (e : Expr) : List Expr := expressionsIn [e.outline]

/-- The value of an expression may be that of another one, which is a branch of it or its end. -/
inductive Expr.Yields : Expr → Expr → Prop
  | self (e : Expr) : Yields e e
  | yes {e d test yes no : Expr} : e.form = .conditional test yes no → Yields yes d → Yields e d
  | no {e d test yes no : Expr} : e.form = .conditional test yes no → Yields no d → Yields e d
  | right {e d left right : Expr} {op : LogicalOp} :
      e.form = .logical op left right → Yields right d → Yields e d

/-- Evaluating the expression does nothing but produce its value. -/
def Expr.EffectFree (e : Expr) : Prop := ∀ d ∈ e.evaluated, d.acts = false

/-- Nothing that may be the value of the expression acts. -/
def Expr.Idle (e : Expr) : Prop := ∀ d, e.Yields d → d.acts = false

section Parts

variable {d e : Expr} {os os' : List Outline}

theorem expressionsIn_append :
    expressionsIn (os ++ os') = expressionsIn os ++ expressionsIn os' := by
  induction os with
  | nil => rfl
  | cons o os ih =>
      simp only [expressionsIn, walkAll, List.cons_append, List.filterMap_append] at ih ⊢
      rw [ih, List.append_assoc]

theorem Expr.evaluated_eq (e : Expr) : e.evaluated = e :: expressionsIn e.form.outlines := by
  obtain ⟨form, place, height⟩ := e
  have walk : walkAll Visit.everything [(⟨form, place, height⟩ : Expr).outline]
      = .expression ⟨form, place, height⟩ :: walkAll Visit.everything form.outlines :=
    List.append_nil _
  rw [evaluated, expressionsIn, walk]
  rfl

/-- What is evaluated with a part of an expression is evaluated with the expression. -/
theorem Expr.evaluated_subset (part : d.outline ∈ e.form.outlines) : d.evaluated ⊆ e.evaluated := by
  obtain ⟨before, behind, parts⟩ := List.append_of_mem part
  rw [e.evaluated_eq, parts, ← List.singleton_append (l := behind), expressionsIn_append,
    expressionsIn_append]
  intro x mem
  exact List.mem_cons_of_mem _ (List.mem_append_right _ (List.mem_append_left _ mem))

/-- What may be the value of an expression is evaluated with it. -/
theorem Expr.Yields.mem_evaluated (h : e.Yields d) : d ∈ e.evaluated := by
  induction h with
  | self e => exact e.evaluated_eq ▸ List.mem_cons_self
  | yes form _ ih =>
      exact evaluated_subset (by rw [form]; exact List.mem_cons_of_mem _ List.mem_cons_self) ih
  | no form _ ih =>
      exact evaluated_subset
        (by rw [form]; exact List.mem_cons_of_mem _ (List.mem_cons_of_mem _ List.mem_cons_self)) ih
  | right form _ ih =>
      exact evaluated_subset (by rw [form]; exact List.mem_cons_of_mem _ List.mem_cons_self) ih

theorem Expr.EffectFree.idle (h : e.EffectFree) : e.Idle := fun d yields => h d yields.mem_evaluated

end Parts

/-! ### The test for effects -/

/-- An expression that is neither conditional nor logical yields itself alone. -/
theorem Expr.Yields.eq_of_single {e d : Expr} (h : e.Yields d)
    (conditional : ∀ test yes no, e.form ≠ .conditional test yes no)
    (logical : ∀ op left right, e.form ≠ .logical op left right) : d = e := by
  cases h with
  | self => rfl
  | yes form | no form => exact absurd form (conditional _ _ _)
  | right form => exact absurd form (logical _ _ _)

theorem hasEffect_iff_of_single {e : Expr} (own : Check.hasEffect e = e.acts)
    (conditional : ∀ test yes no, e.form ≠ .conditional test yes no)
    (logical : ∀ op left right, e.form ≠ .logical op left right) :
    Check.hasEffect e = true ↔ ∃ d, e.Yields d ∧ d.acts = true := by
  rw [own]
  refine ⟨fun acts => ⟨e, .self e, acts⟩, ?_⟩
  rintro ⟨d, yields, acts⟩
  exact yields.eq_of_single conditional logical ▸ acts

/-- The test finds what acts among the expressions whose value may be that of the whole. -/
theorem hasEffect_iff : ∀ e : Expr, Check.hasEffect e = true ↔ ∃ d, e.Yields d ∧ d.acts = true
  | ⟨.conditional test yes no, place, height⟩ => by
      rw [Check.hasEffect, Bool.or_eq_true, hasEffect_iff yes, hasEffect_iff no]
      constructor
      · rintro (⟨d, yields, acts⟩ | ⟨d, yields, acts⟩)
        · exact ⟨d, .yes rfl yields, acts⟩
        · exact ⟨d, .no rfl yields, acts⟩
      · rintro ⟨d, yields, acts⟩
        cases yields with
        | self => cases acts
        | yes form yields => cases form; exact .inl ⟨d, yields, acts⟩
        | no form yields => cases form; exact .inr ⟨d, yields, acts⟩
        | right form => cases form
  | ⟨.logical op left right, place, height⟩ => by
      rw [Check.hasEffect, hasEffect_iff right]
      constructor
      · rintro ⟨d, yields, acts⟩
        exact ⟨d, .right rfl yields, acts⟩
      · rintro ⟨d, yields, acts⟩
        cases yields with
        | self => cases acts
        | yes form | no form => cases form
        | right form yields => cases form; exact ⟨d, yields, acts⟩
  | ⟨.number .., _, _⟩ | ⟨.string _, _, _⟩ | ⟨.boolean _, _, _⟩ | ⟨.null, _, _⟩
  | ⟨.undefined, _, _⟩ | ⟨.nan, _, _⟩ | ⟨.identifier _, _, _⟩ | ⟨.this, _, _⟩
  | ⟨.binary .., _, _⟩ | ⟨.unary .., _, _⟩ | ⟨.update .., _, _⟩ | ⟨.await _, _, _⟩
  | ⟨.call .., _, _⟩ | ⟨.member .., _, _⟩ | ⟨.array _, _, _⟩ | ⟨.object _, _, _⟩
  | ⟨.new .., _, _⟩ | ⟨.match_ .., _, _⟩ | ⟨.is .., _, _⟩ =>
      hasEffect_iff_of_single rfl nofun nofun

theorem not_hasEffect_iff (e : Expr) : Check.hasEffect e = false ↔ e.Idle := by
  rw [← Bool.not_eq_true, hasEffect_iff]
  refine ⟨fun none d yields => ?_, ?_⟩
  · exact Bool.eq_false_iff.mpr fun acts => none ⟨d, yields, acts⟩
  · rintro idle ⟨d, yields, acts⟩
    exact Bool.false_ne_true ((idle d yields).symm.trans acts)

instance (e : Expr) : Decidable e.Idle := decidable_of_iff _ (not_hasEffect_iff e)

instance (e : Expr) : Decidable e.EffectFree :=
  inferInstanceAs (Decidable (∀ d ∈ e.evaluated, d.acts = false))

/--
An idle expression is free of effects, or what acts in it stands only where its value is used for
something else than the value of the whole.
-/
theorem Expr.idle_iff (e : Expr) : e.Idle ↔
    e.EffectFree ∨ (∃ d ∈ e.evaluated, d.acts = true) ∧
      ∀ d ∈ e.evaluated, d.acts = true → ¬ e.Yields d := by
  constructor
  · intro idle
    have apart : ∀ d ∈ e.evaluated, d.acts = true → ¬ e.Yields d := fun d _ acts yields =>
      Bool.false_ne_true ((idle d yields).symm.trans acts)
    by_cases effect : ∃ d ∈ e.evaluated, d.acts = true
    · exact .inr ⟨effect, apart⟩
    · exact .inl fun d mem => Bool.eq_false_iff.mpr fun acts => effect ⟨d, mem, acts⟩
  · rintro (free | ⟨-, apart⟩) d yields
    · exact free.idle d yields
    · exact Bool.eq_false_iff.mpr fun acts => apart d yields.mem_evaluated acts yields

/-- An operand that acts makes no difference to the test of a form that does not act itself. -/
theorem Expr.idle_of_operand {e d : Expr} (own : e.acts = false)
    (conditional : ∀ test yes no, e.form ≠ .conditional test yes no)
    (logical : ∀ op left right, e.form ≠ .logical op left right)
    (operand : d.outline ∈ e.form.outlines) (acts : d.acts = true) :
    e.Idle ∧ ¬ e.EffectFree := by
  refine ⟨fun x yields => yields.eq_of_single conditional logical ▸ own, fun free => ?_⟩
  have evaluated : d ∈ e.evaluated := evaluated_subset operand (d.evaluated_eq ▸ List.mem_cons_self)
  exact Bool.false_ne_true ((free d evaluated).symm.trans acts)

/-- A sum of what a call returns and a number. -/
def calledSummand : Expr :=
  let call : Expr := ⟨.call ⟨.identifier "f", .nowhere, 1⟩ [] [], .nowhere, 2⟩
  ⟨.binary .add call ⟨.number default false, .nowhere, 1⟩, .nowhere, 3⟩

example : calledSummand.Idle ∧ ¬ calledSummand.EffectFree := by decide

end ScriptFront
