import ScriptFront.Tree.Outline

/-!
Which trees are programs: what the grammar's rules demand of a single node. Trees that break them can
be built, but they stand for no text.
-/

namespace ScriptFront

/-- No two different modifiers of a set are of one group of which a declaration carries at most one. -/
def Modifiers.Exclusive (ms : Modifiers) : Prop :=
  ∀ m n, ms.has m = true → ms.has n = true → n ∈ m.group → m = n

/-- Only the last parameter takes the remaining arguments. -/
def RestLast (ps : List Param) : Prop := ∀ p ∈ ps.dropLast, p.isRest = false

/-- What can be assigned to and updated: a name or a member of an object. -/
def Expr.IsPlace (e : Expr) : Prop :=
  (∃ name, e.form = .identifier name) ∨
    ∃ object property computed, e.form = .member object property computed

/-- A pattern with a condition on what it matches. -/
def Pattern.IsGuarded (p : Pattern) : Prop := ∃ inner guard, p.form = .guarded inner guard

def ClassMember.IsConstructor (m : ClassMember) : Prop := ∃ params body, m.form = .constructor params body

def ClassMember.IsOperator (m : ClassMember) : Prop :=
  ∃ symbol isUnary signature body, m.form = .operator symbol isUnary signature body

/--
An update changes a place; a member that is not computed is a name; and at most one arm of a match
takes every value, with or without a guard.
-/
def ExprForm.WellFormed : ExprForm → Prop
  | .update _ _ operand => operand.IsPlace
  | .member _ property computed => computed = false → ∃ name, property.form = .identifier name
  | .match_ _ arms =>
    arms.Pairwise fun arm arm' => ¬ (arm.pattern.isWildcard = true ∧ arm'.pattern.isWildcard = true)
  | _ => True

/-- No guard has a guard in front of it. -/
def PatternForm.WellFormed : PatternForm → Prop
  | .guarded pattern _ => ¬ pattern.IsGuarded
  | _ => True

/-- What the form of a class member demands of its modifiers and parameters. -/
def MemberForm.WellFormed (ms : Modifiers) : MemberForm → Prop
  | .constructor params _ =>
    ms.has .readonly = false ∧ ms.has .async = false ∧ RestLast params
  | .method _ signature _ => ms.has .readonly = false ∧ RestLast signature.params
  | .operator _ isUnary signature _ =>
    (ms.has .async = false ∧ ms.has .readonly = false ∧ ms.has .default_ = false) ∧
      RestLast signature.params ∧ signature.params.length ≤ 1 ∧
      (isUnary = true ↔ signature.params = [])
  | .property _ => True

/-- Operators are the members with the modifier for them. -/
structure ClassMember.WellFormed (m : ClassMember) : Prop where
  exclusive : m.modifiers.Exclusive
  operator : m.modifiers.has .operator = true ↔ m.IsOperator
  form : m.form.WellFormed m.modifiers

/--
Declarations have modifiers that go together, at least one variable, one constructor at most, and
take the remaining arguments last; what is assigned to is a place, what is thrown a new object; what
is tried has a handler, and the cases of a switch have no guards.
-/
def StatementForm.WellFormed : StatementForm → Prop
  | .varGroup d => d.modifiers.Exclusive ∧ d.names ≠ []
  | .assignment target _ => target.IsPlace
  | .throws value => ∃ className generics args, value.form = .new className generics args
  | .tryCatch _ handlers _ => handlers ≠ []
  | .switch _ cases otherwise =>
    ∀ c ∈ cases ++ otherwise.toList, ∀ p ∈ c.patterns, ¬ p.IsGuarded
  | .function d => d.modifiers.Exclusive ∧ RestLast d.signature.params
  | .classType d =>
    d.modifiers.Exclusive ∧ d.members.Pairwise fun m m' => ¬ (m.IsConstructor ∧ m'.IsConstructor)
  | .structType d => d.modifiers.Exclusive
  | _ => True

/-- The rules for a node. Types and parameters have none of their own. -/
def Node.WellFormed : Node → Prop
  | .statement s => s.form.WellFormed
  | .member m => m.WellFormed
  | .expression e => e.form.WellFormed
  | .pattern p => p.form.WellFormed
  | .program _ | .importing _ | .block _ | .type _ | .parameter _ => True

/-- A tree all of whose nodes keep the rules. -/
def Outline.WellFormed (o : Outline) : Prop := o.All Node.WellFormed

end ScriptFront
