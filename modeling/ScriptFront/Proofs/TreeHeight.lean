import ScriptFront.Grammar.Operand
import ScriptFront.Proofs.MisledReading
import ScriptFront.Tree.Outline

/-!
The heights of the types and expressions that are read. An expression is as high as it says, and
what hangs below it besides expressions, patterns with their guards and type arguments, adds to this
at most as much again and the height of a type. A type is only as high as types are nested in it
when array, union and intersection types count for nothing: the loops that read these wrap what they
have read, as often as their tokens come, and ask for no limit.
-/

namespace ScriptFront

/-! ### The height of an outline -/

/-- Whether a node is an array, union or intersection type. -/
def Node.isTypeOperator : Node → Bool
  | .type ⟨.array _, _⟩ | .type ⟨.union .., _⟩ | .type ⟨.intersection .., _⟩ => true
  | _ => false

mutual

/-- The greatest number of nodes that count on one path from the root down. -/
def Outline.heightOf (counts : Node → Bool) : Outline → Nat
  | .node root children => (counts root).toNat + greatestHeight counts children

def greatestHeight (counts : Node → Bool) : List Outline → Nat
  | [] => 0
  | o :: os => max (o.heightOf counts) (greatestHeight counts os)

end

/-- The number of nodes on the longest path from the root down. -/
def Outline.height (o : Outline) : Nat := o.heightOf fun _ => true

/-- The height when array, union and intersection types count for nothing. -/
def Outline.nesting (o : Outline) : Nat := o.heightOf fun n => !n.isTypeOperator

/-- Outlines of bounded nesting. -/
def Shallow (k : Nat) (os : List Outline) : Prop := ∀ o ∈ os, o.nesting ≤ k

section Shallow

variable {k : Nat} {o : Outline} {os os' : List Outline}

@[simp] theorem shallow_nil : Shallow k [] := nofun

@[simp] theorem shallow_cons : Shallow k (o :: os) ↔ o.nesting ≤ k ∧ Shallow k os :=
  List.forall_mem_cons

@[simp] theorem shallow_append : Shallow k (os ++ os') ↔ Shallow k os ∧ Shallow k os' :=
  List.forall_mem_append

@[simp] theorem shallow_map {α : Type} {f : α → Outline} {as : List α} :
    Shallow k (as.map f) ↔ ∀ a ∈ as, (f a).nesting ≤ k :=
  List.forall_mem_map

theorem Shallow.mono {k' : Nat} (h : Shallow k os) (le : k ≤ k') : Shallow k' os :=
  fun o mem => Nat.le_trans (h o mem) le

theorem Shallow.succ (h : Shallow k os) : Shallow (k + 1) os := h.mono (Nat.le_succ k)

theorem greatestHeight_le_iff {counts : Node → Bool} :
    greatestHeight counts os ≤ k ↔ ∀ o ∈ os, o.heightOf counts ≤ k := by
  induction os with
  | nil => simp [greatestHeight]
  | cons o os ih => rw [greatestHeight, Nat.max_le, ih, List.forall_mem_cons]

theorem nesting_node (root : Node) (h : Shallow k os) : (Outline.node root os).nesting ≤ k + 1 := by
  have below := greatestHeight_le_iff.mpr h
  have one := Bool.toNat_le (!root.isTypeOperator)
  simp only [Outline.nesting, Outline.heightOf]
  omega

theorem nesting_typeOperator {root : Node} (free : root.isTypeOperator = true) (h : Shallow k os) :
    (Outline.node root os).nesting ≤ k := by
  have below := greatestHeight_le_iff.mpr h
  simpa [Outline.nesting, Outline.heightOf, free] using below

end Shallow

/-! ### Parsers of bounded trees -/

namespace Parser

variable {α : Type} {P Q : α → Prop} {p : Parser α}

theorem Yields.imp (h : Yields P p) (le : ∀ a, P a → Q a) : Yields Q p :=
  fun s a s' run => le a (h s a s' run)

theorem Yields.map {β : Type} {R : β → Prop} (h : Yields P p) {f : α → β}
    (le : ∀ a, P a → R (f a)) :
    Yields R (f <$> p) := by
  rw [map_eq_pure_bind]
  exact yields_bind_of h fun a ha => yields_pure (le a ha)

/-- What every step of a repetition keeps is kept by the repetition. -/
theorem yields_iterate_of {step : α → Parser (ForInStep α)}
    (h : ∀ a, P a → Yields (fun r => P r.value) (step a)) {a : α} (ha : P a) :
    Yields P (iterate step a) := by
  have kept : Yields (fun b => P a → P b) (iterate step a) :=
    @yields_iterate α (fun a b => P a → P b) (fun first second ha => second (first ha)) step
      (fun a s r s' run ha => h a ha s r s' run) a
  exact kept.imp fun _ keeps => keeps ha

theorem yields_items (h : Yields P p) : Yields (fun as => ∀ a ∈ as, P a) (commaSeparated p) := by
  refine yields_bind_of h fun first hfirst => ?_
  have others : Yields (fun as => ∀ a ∈ as, P a) (iterate (fun (items : List α) => do
      if ← accept .comma then return .yield (items ++ [← p]) else return .done items) []) := by
    refine yields_iterate_of (fun as has => yields_bind fun comma => ?_) nofun
    split
    · exact yields_bind_of h fun a ha =>
        yields_pure (List.forall_mem_append.mpr ⟨has, List.forall_mem_singleton.mpr ha⟩)
    · exact yields_pure has
  exact yields_bind_of others fun as has => yields_pure (List.forall_mem_cons.mpr ⟨hfirst, has⟩)

theorem yields_nested (limit : Nat) (h : Yields P p) : Yields P (nested limit p) := by
  intro s a s' run
  simp only [nested] at run
  split at run
  · cases run
  · cases read : p { s with depth := s.depth + 1 } with
    | error e s₁ => simp [read] at run
    | ok b s₁ =>
        simp only [read] at run
        cases run
        exact h _ _ _ read

end Parser

/-! ### Types -/

theorem nesting_type {k : Nat} {form : TypeForm} {place : Location} (h : Shallow k form.outlines) :
    (TypeExpr.outline ⟨form, place⟩).nesting ≤ k + 1 := by
  rw [TypeExpr.outline]
  exact nesting_node _ h

namespace Grammar

open ScriptFront.Parser

variable {limit n : Nat} {g : Grammar}

section Types

variable (h : Yields (fun t => t.outline.nesting ≤ n) g.typeExpr)

include h

theorem nesting_genericArguments :
    Yields (fun ts => ∀ t ∈ ts, t.outline.nesting ≤ n) (genericArguments g) := by
  refine yields_bind fun _ => yields_bind_of (yields_items h) fun ts hts => ?_
  exact yields_bind fun _ => yields_pure hts

theorem nesting_optionalGenerics :
    Yields (fun ts => ∀ t ∈ ts, t.outline.nesting ≤ n) (optionalGenerics g) := by
  refine yields_bind fun opened => ?_
  split
  · exact nesting_genericArguments h
  · exact yields_pure nofun

theorem nesting_baseType : Yields (fun t => t.outline.nesting ≤ n + 1) (baseType g) := by
  refine yields_bind fun t => ?_
  have leaf : ∀ {form : TypeForm}, form.outlines = [] →
      Yields (fun t => t.outline.nesting ≤ n + 1)
        (do let _ ← advance; return (⟨form, t.location⟩ : TypeExpr)) := fun none_ =>
    yields_bind fun _ => yields_pure (nesting_type (by rw [none_]; exact shallow_nil))
  have named : Yields (fun t => t.outline.nesting ≤ n + 1) (do
      let _ ← advance
      let generics ← optionalGenerics g
      return (⟨.reference t.lexeme generics, t.location⟩ : TypeExpr)) := by
    refine yields_bind fun _ => yields_bind_of (nesting_optionalGenerics h) fun ts hts => ?_
    refine yields_pure (nesting_type ?_)
    rw [TypeForm.outlines, typeOutlines_eq]
    exact shallow_map.mpr hts
  dsimp only
  split
  · exact leaf rfl
  · exact leaf rfl
  · split
    · exact yields_bind fun _ => yields_pure (nesting_type shallow_nil)
    · exact yields_fail
  · exact leaf rfl
  · exact leaf rfl
  · exact named
  · exact named
  · refine yields_bind fun _ => yields_bind_of h fun inner hinner => ?_
    exact yields_bind fun _ => yields_pure (Nat.le_succ_of_le hinner)
  · exact yields_fail

/-- What a loop wraps is no higher when its operators count for nothing. -/
theorem nesting_arrayType : Yields (fun t => t.outline.nesting ≤ n + 1) (arrayType g) := by
  refine yields_bind_of (nesting_baseType h) fun base hbase => ?_
  refine yields_iterate_of (fun t ht => yields_bind fun opened => yields_bind fun next => ?_) hbase
  split
  · refine yields_bind fun _ => yields_bind fun _ => yields_pure ?_
    exact nesting_typeOperator rfl (shallow_cons.mpr ⟨ht, shallow_nil⟩)
  · exact yields_pure ht

theorem nesting_intersectionType :
    Yields (fun t => t.outline.nesting ≤ n + 1) (intersectionType g) := by
  refine yields_bind_of (nesting_arrayType h) fun first hfirst => ?_
  refine yields_iterate_of (fun left hleft => yields_bind fun joined => ?_) hfirst
  split
  · refine yields_bind_of (nesting_arrayType h) fun right hright => yields_pure ?_
    exact nesting_typeOperator rfl
      (shallow_cons.mpr ⟨hleft, shallow_cons.mpr ⟨hright, shallow_nil⟩⟩)
  · exact yields_pure hleft

theorem nesting_unionType : Yields (fun t => t.outline.nesting ≤ n + 1) (unionType g) := by
  refine yields_bind_of (nesting_intersectionType h) fun first hfirst => ?_
  refine yields_iterate_of (fun left hleft => yields_bind fun joined => ?_) hfirst
  split
  · refine yields_bind_of (nesting_intersectionType h) fun right hright => yields_pure ?_
    exact nesting_typeOperator rfl
      (shallow_cons.mpr ⟨hleft, shallow_cons.mpr ⟨hright, shallow_nil⟩⟩)
  · exact yields_pure hleft

end Types

end Grammar

/-! ### Expressions -/

/-- An expression as high as it says, but for its patterns and types. -/
def Expr.Tight (limit : Nat) (e : Expr) : Prop := e.outline.nesting ≤ 2 * e.height + (limit + 1)

/-- An expression within the limit. -/
structure Expr.Bounded (limit : Nat) (e : Expr) : Prop where
  height : e.height ≤ limit
  tight : e.Tight limit

/-- A form below which everything is as high as the form says. -/
def ExprForm.Bounded (limit : Nat) (form : ExprForm) : Prop :=
  Shallow (2 * form.childHeight + limit + 2) form.outlines

/-- A pattern whose guard, if there is one, is within the limit. -/
def Pattern.Bounded (limit : Nat) (p : Pattern) : Prop :=
  match p.form with
  | .guarded inner guard => inner.outline.nesting ≤ 1 ∧ guard.Bounded limit
  | _ => p.outline.nesting ≤ 1

section Bounded

variable {limit k : Nat}

theorem Expr.Tight.below {e : Expr} (h : e.Tight limit) (le : e.height ≤ k) :
    e.outline.nesting ≤ 2 * k + limit + 2 := by
  simp only [Tight] at h
  omega

theorem Expr.Bounded.below {e : Expr} (h : e.Bounded limit) (le : e.height ≤ k) :
    e.outline.nesting ≤ 2 * k + limit + 2 :=
  h.tight.below le

theorem Pattern.nesting_le {p : Pattern} (k : Nat) (h : p.Bounded limit)
    (le : ∀ inner guard, p.form = .guarded inner guard → guard.height ≤ k) :
    p.outline.nesting ≤ 2 * k + limit + 2 := by
  obtain ⟨form, place⟩ := p
  cases form with
  | guarded inner guard =>
      obtain ⟨flat, bounded⟩ : inner.outline.nesting ≤ 1 ∧ guard.Bounded limit := h
      have least := le inner guard rfl
      have below : guard.outline.nesting ≤ 2 * guard.height + (limit + 1) := bounded.tight
      rw [Pattern.outline, PatternForm.outlines]
      refine nesting_node _ (k := 2 * k + limit + 1) (shallow_cons.mpr ⟨?_, ?_⟩)
      · omega
      · exact shallow_cons.mpr ⟨by omega, shallow_nil⟩
  | _ => exact Nat.le_trans h (by omega)

theorem MatchArm.shallow {arm : MatchArm} (pattern : arm.pattern.Bounded limit)
    (body : arm.body.Bounded limit) (le : arm.height ≤ k) :
    Shallow (2 * k + limit + 2) [arm.pattern.outline, arm.body.outline] := by
  have both : arm.body.height ≤ arm.height ∧
      ∀ inner guard, arm.pattern.form = .guarded inner guard → guard.height ≤ arm.height := by
    simp only [MatchArm.height]
    split
    · next form =>
        refine ⟨Nat.le_max_right .., fun inner guard' guarded => ?_⟩
        cases form.symm.trans guarded
        exact Nat.le_max_left ..
    · next other =>
        exact ⟨Nat.le_refl _, fun inner guard guarded => absurd guarded (other inner guard)⟩
  refine shallow_cons.mpr ⟨?_, shallow_cons.mpr ⟨?_, shallow_nil⟩⟩
  · exact Pattern.nesting_le k pattern fun inner guard guarded =>
      Nat.le_trans (both.2 inner guard guarded) le
  · exact body.below (Nat.le_trans both.1 le)

theorem le_foldl_max {α : Type} (f : α → Nat) (as : List α) (n : Nat) :
    n ≤ as.foldl (fun m a => max m (f a)) n ∧
      ∀ a ∈ as, f a ≤ as.foldl (fun m a => max m (f a)) n := by
  induction as generalizing n with
  | nil => exact ⟨Nat.le_refl n, nofun⟩
  | cons a as ih =>
      obtain ⟨start, rest⟩ := ih (max n (f a))
      rw [List.foldl_cons]
      refine ⟨Nat.le_trans (Nat.le_max_left ..) start, List.forall_mem_cons.mpr ⟨?_, rest⟩⟩
      exact Nat.le_trans (Nat.le_max_right ..) start

theorem Expr.height_le_maxHeight {e : Expr} {es : List Expr} (mem : e ∈ es) :
    e.height ≤ Expr.maxHeight es := (le_foldl_max Expr.height es 0).2 e mem

theorem shallow_exprs {es : List Expr} (h : ∀ e ∈ es, e.Bounded limit)
    (le : Expr.maxHeight es ≤ k) : Shallow (2 * k + limit + 2) (exprOutlines es) := by
  rw [exprOutlines_eq]
  exact shallow_map.mpr fun e mem =>
    (h e mem).below (Nat.le_trans (Expr.height_le_maxHeight mem) le)

theorem shallow_types {ts : List TypeExpr} (h : ∀ t ∈ ts, t.outline.nesting ≤ limit + 1) :
    Shallow (2 * k + limit + 2) (typeOutlines ts) := by
  rw [typeOutlines_eq]
  exact shallow_map.mpr fun t mem => Nat.le_trans (h t mem) (by omega)

end Bounded

namespace Grammar

open ScriptFront.Parser

/-- How high a statement or a block may be on a level. -/
def reach (limit n : Nat) : Nat := 3 * limit + 2 * n + 2

/-- The parsers of a level yield bounded trees, and the lower the level the lower the trees. -/
structure Bounded (limit n : Nat) (g : Grammar) : Prop where
  bound : g.limit = limit
  levels : n ≤ limit + 1
  expression : Yields (Expr.Bounded limit) g.expression
  operand : Yields (Expr.Bounded limit) g.operand
  primary : Yields (Expr.Bounded limit) g.primary
  typeExpr : Yields (fun t => t.outline.nesting ≤ n) g.typeExpr
  block : Yields (fun b => b.outline.nesting ≤ reach limit n) g.block
  statement : Yields (fun s => s.outline.nesting ≤ reach limit n) g.statement

variable {limit n : Nat} {g : Grammar} (h : Bounded limit n g)

include h

theorem Bounded.types {ts : List TypeExpr} (hts : ∀ t ∈ ts, t.outline.nesting ≤ n) :
    ∀ t ∈ ts, t.outline.nesting ≤ limit + 1 :=
  fun t mem => Nat.le_trans (hts t mem) h.levels

/-- An expression is within the limit if all below it is as high as it says. -/
theorem bounded_node {form : ExprForm} {place : Location} (shallow : form.Bounded limit) :
    Yields (Expr.Bounded limit) (g.node form place) := by
  simp only [node]
  split
  · exact yields_fail
  · next low =>
      refine yields_pure ⟨by rw [← h.bound]; omega, ?_⟩
      have height : (Expr.of form place).height = form.childHeight + 1 := rfl
      simp only [Expr.Tight]
      have nesting :
          (Expr.of form place).outline.nesting ≤ 2 * form.childHeight + limit + 2 + 1 := by
        rw [Expr.of, Expr.outline]
        exact nesting_node _ shallow
      omega

/-! ### Chains of operands -/

theorem bounded_fold (precedence : Nat) {pending : Pending}
    (hpending : ∀ p ∈ pending, p.1.Bounded limit)
    {right : Expr} (hright : right.Bounded limit) :
    Yields (fun r : Pending × Expr => (∀ p ∈ r.1, p.1.Bounded limit) ∧ r.2.Bounded limit)
      (fold g precedence pending right) := by
  induction pending generalizing right with
  | nil => exact yields_pure ⟨nofun, hright⟩
  | cons first pending ih =>
      obtain ⟨left, op⟩ := first
      obtain ⟨hleft, hrest⟩ := List.forall_mem_cons.mp hpending
      simp only [fold]
      split
      · have joined : (op.join left right).Bounded limit := by
          cases op with
          | logical op | binary op =>
              refine shallow_cons.mpr ⟨hleft.below (Nat.le_max_left ..), ?_⟩
              exact shallow_cons.mpr ⟨hright.below (Nat.le_max_right ..), shallow_nil⟩
        exact yields_bind_of (bounded_node h joined) fun e he => ih hrest he
      · exact yields_pure ⟨hpending, hright⟩

/-- The target of a test is tight, but may be as high as a leaf even where nothing else can be. -/
theorem tight_isTarget : Yields (Expr.Tight limit) (isTarget g) := by
  refine yields_bind fun next => ?_
  split
  · refine yields_bind fun ident => yields_pure ?_
    rw [Expr.Tight, Expr.of, Expr.outline]
    exact Nat.le_trans (nesting_node (k := 0) _ shallow_nil) (by omega)
  · exact h.primary.imp fun target htarget => htarget.tight
  · exact yields_fail

theorem bounded_isTest {subject : Expr} (hsubject : subject.Bounded limit) :
    Yields (Expr.Bounded limit) (isTest g subject) := by
  refine yields_bind fun t => ?_
  extract_lets next
  have tail : ∀ q, Yields (Expr.Bounded limit) (next q) := by
    intro q
    refine yields_bind fun _ => yields_bind_of (tight_isTarget h) fun target htarget => ?_
    refine bounded_node h (shallow_cons.mpr ⟨hsubject.below (Nat.le_max_left ..), ?_⟩)
    exact shallow_cons.mpr ⟨htarget.below (Nat.le_max_right ..), shallow_nil⟩
  split
  · exact yields_bind tail
  · exact yields_bind tail
  · exact yields_bind tail
  · exact yields_bind tail

/-- What is pending in a chain, and the operand at its end. -/
def Chained (limit : Nat) (c : Pending × Expr) : Prop :=
  (∀ p ∈ c.1, p.1.Bounded limit) ∧ c.2.Bounded limit

theorem bounded_chainStep {c : Pending × Expr} (hc : Chained limit c) :
    Yields (fun r => Chained limit r.value) (chainStep g c) := by
  refine yields_bind fun tests => ?_
  split
  · refine yields_bind_of (bounded_fold h _ hc.1 hc.2) fun r hr => yields_bind fun _ => ?_
    exact yields_bind_of (bounded_isTest h hr.2) fun e he => yields_pure ⟨hr.1, he⟩
  · refine yields_bind fun s => ?_
    split
    · exact yields_pure hc
    · refine yields_bind_of (bounded_fold h _ hc.1 hc.2) fun r hr => yields_bind fun _ => ?_
      exact yields_bind_of h.operand fun e he =>
        yields_pure ⟨List.forall_mem_cons.mpr ⟨hr.2, hr.1⟩, he⟩

theorem bounded_chain : Yields (Expr.Bounded limit) (chain g) := by
  refine yields_bind_of h.operand fun first hfirst => ?_
  refine yields_bind_of (yields_iterate_of (fun c hc => bounded_chainStep h hc) ⟨nofun, hfirst⟩)
    fun c hc => ?_
  exact yields_bind_of (bounded_fold h _ hc.1 hc.2) fun r hr => yields_pure hr.2

theorem bounded_conditional : Yields (Expr.Bounded limit) (conditional g) := by
  refine yields_bind_of (bounded_chain h) fun test htest => yields_bind fun asks => ?_
  split
  · refine yields_bind_of h.expression fun yes hyes => yields_bind fun _ => ?_
    refine yields_bind_of h.expression fun no hno => bounded_node h ?_
    have height : (ExprForm.conditional test yes no).childHeight
        = max (max test.height yes.height) no.height := rfl
    simp only [ExprForm.Bounded, ExprForm.outlines, shallow_cons, shallow_nil, and_true]
    exact ⟨htest.below (by omega), hyes.below (by omega), hno.below (by omega)⟩
  · exact yields_pure htest

/-! ### Operands -/

theorem bounded_update {operator : Token} {before : Bool} {operand : Expr} {place : Location}
    (hoperand : operand.Bounded limit) :
    Yields (Expr.Bounded limit) (update g operator before operand place) := by
  simp only [update]
  split
  · exact bounded_node h (shallow_cons.mpr ⟨hoperand.below (Nat.le_refl _), shallow_nil⟩)
  · exact yields_fail

theorem bounded_arguments : Yields (fun es => ∀ e ∈ es, e.Bounded limit) (arguments g) := by
  refine yields_bind fun _ => yields_bind fun closed => ?_
  have tail : ∀ es : List Expr, (∀ e ∈ es, e.Bounded limit) →
      Yields (fun es => ∀ e ∈ es, e.Bounded limit)
        (do let _ ← expect .closeParen "')' after arguments"; return es) :=
    fun es hes => yields_bind fun _ => yields_pure hes
  split
  · exact yields_bind_of (yields_pure nofun) tail
  · exact yields_bind_of (yields_items h.expression) tail

theorem bounded_suffixStep {e : Expr} (he : e.Bounded limit) :
    Yields (fun r => r.value.Bounded limit) (suffixStep g e) := by
  have call : ∀ generics : List TypeExpr, (∀ t ∈ generics, t.outline.nesting ≤ n) →
      Yields (fun r => r.value.Bounded limit) (do
        let args ← arguments g
        return ForInStep.yield (← g.node (.call e generics args) e.location)) := by
    intro generics hgenerics
    refine yields_bind_of (bounded_arguments h) fun args hargs => ?_
    refine yields_bind_of (bounded_node h ?_) fun r hr => yields_pure hr
    refine shallow_cons.mpr ⟨he.below (Nat.le_max_left ..), shallow_append.mpr ⟨?_, ?_⟩⟩
    · exact shallow_types (h.types hgenerics)
    · exact shallow_exprs hargs (Nat.le_max_right ..)
  have updated : Yields (fun r => r.value.Bounded limit) (do
      let operator ← advance
      return ForInStep.yield (← update g operator false e e.location)) :=
    yields_bind fun operator => yields_bind_of (bounded_update h he) fun r hr => yields_pure hr
  refine yields_bind fun s => ?_
  dsimp only
  split
  · refine yields_bind fun _ => yields_bind fun ident => ?_
    refine yields_bind_of (bounded_node h ?_) fun r hr => yields_pure hr
    exact shallow_cons.mpr ⟨he.below (Nat.le_max_left ..), shallow_nil⟩
  · refine yields_bind fun _ => yields_bind_of h.expression fun index hindex => ?_
    refine yields_bind fun _ => yields_bind_of (bounded_node h ?_) fun r hr => yields_pure hr
    refine shallow_cons.mpr ⟨he.below (Nat.le_max_left ..), shallow_cons.mpr ⟨?_, shallow_nil⟩⟩
    exact hindex.below (Nat.le_max_right ..)
  · split
    · exact yields_bind_of (nesting_genericArguments h.typeExpr) call
    · exact yields_pure he
  · exact call [] nofun
  · exact updated
  · exact updated
  · exact yields_pure he

theorem bounded_suffixed : Yields (Expr.Bounded limit) (suffixed g) :=
  yields_bind_of h.primary fun _ he => yields_iterate_of (fun _ he => bounded_suffixStep h he) he

theorem bounded_operandForm : Yields (Expr.Bounded limit) (operandForm g) := by
  refine yields_bind fun t => ?_
  have operator : ∀ form : Expr → ExprForm, (∀ e, (form e).childHeight = e.height) →
      (∀ e, (form e).outlines = [e.outline]) → Yields (Expr.Bounded limit) (do
        let _ ← advance
        g.node (form (← g.operand)) t.location) := by
    intro form height outlines
    refine yields_bind fun _ => yields_bind_of h.operand fun e he => bounded_node h ?_
    rw [ExprForm.Bounded, outlines, height]
    exact shallow_cons.mpr ⟨he.below (Nat.le_refl _), shallow_nil⟩
  have updated : Yields (Expr.Bounded limit) (do
      let _ ← advance
      update g t true (← g.operand) t.location) :=
    yields_bind fun _ => yields_bind_of h.operand fun e he => bounded_update h he
  have unary : ∀ op, Yields (Expr.Bounded limit) (do
      let _ ← advance
      g.node (.unary op (← g.operand)) t.location) := fun op =>
    operator (.unary op) (fun _ => rfl) fun _ => by rw [ExprForm.outlines]
  dsimp only
  split
  · exact unary _
  · exact unary _
  · exact unary _
  · exact updated
  · exact updated
  · exact operator .await (fun _ => rfl) fun _ => by rw [ExprForm.outlines]
  · exact bounded_suffixed h

theorem bounded_objectProperties :
    Yields (fun ps => ∀ p ∈ ps, p.value.Bounded limit) (objectProperties g) := by
  have step : ∀ ps : List Property, (∀ p ∈ ps, p.value.Bounded limit) →
      Yields (fun r => ∀ p ∈ r.value, p.value.Bounded limit) (propertyStep g ps) := by
    intro ps hps
    have one : ∀ t : Token, Yields (fun r => ∀ p ∈ r.value, p.value.Bounded limit) (do
        let _ ← expect .colon "':' after property name"
        let value ← g.expression
        let ps := ps ++ [(⟨⟨t.lexeme, t.location⟩, value, t.location⟩ : Property)]
        if ← accept .comma then return ForInStep.yield ps else return .done ps) := by
      intro t
      refine yields_bind fun _ => yields_bind_of h.expression fun value hvalue => ?_
      have more : ∀ p ∈ ps ++ [(⟨⟨t.lexeme, t.location⟩, value, t.location⟩ : Property)],
          p.value.Bounded limit :=
        List.forall_mem_append.mpr ⟨hps, List.forall_mem_singleton.mpr hvalue⟩
      refine yields_bind fun comma => ?_
      split
      · exact yields_pure more
      · exact yields_pure more
    refine yields_bind fun closed => ?_
    split
    · exact yields_pure hps
    · refine yields_bind fun t => ?_
      split
      · exact one t
      · exact one t
      · exact yields_fail
  exact yields_bind_of (yields_iterate_of step nofun) fun ps hps =>
    yields_bind fun _ => yields_pure hps

theorem bounded_newForm : Yields (ExprForm.Bounded limit) (newForm g) := by
  refine yields_bind fun className => ?_
  refine yields_bind_of (nesting_optionalGenerics h.typeExpr) fun generics hgenerics => ?_
  refine yields_bind_of (bounded_arguments h) fun args hargs => yields_pure ?_
  rw [ExprForm.Bounded, ExprForm.outlines]
  exact shallow_append.mpr ⟨shallow_types (h.types hgenerics), shallow_exprs hargs (Nat.le_refl _)⟩

theorem bounded_arrayForm : Yields (ExprForm.Bounded limit) (arrayForm g) := by
  refine yields_bind fun closed => ?_
  have tail : ∀ items : List Expr, (∀ e ∈ items, e.Bounded limit) →
      Yields (ExprForm.Bounded limit)
        (do let _ ← expect .closeSquare "']' to close the array"; return .array items) := by
    intro items hitems
    refine yields_bind fun _ => yields_pure ?_
    rw [ExprForm.Bounded, ExprForm.outlines]
    exact shallow_exprs hitems (Nat.le_refl _)
  split
  · exact yields_bind_of (yields_pure nofun) tail
  · exact yields_bind_of (yields_items h.expression) tail

/-! ### Patterns -/

omit h in
theorem plain_numberPattern :
    Yields (fun form => ∀ inner guard, form ≠ .guarded inner guard) numberPattern := by
  refine yields_bind fun first => yields_bind fun ranged => ?_
  split
  · exact yields_bind fun last => yields_pure nofun
  · exact yields_pure nofun

omit h in
theorem plain_simplePattern :
    Yields (fun form => ∀ inner guard, form ≠ .guarded inner guard) simplePattern := by
  refine yields_bind fun t => ?_
  split
  case h_2 => exact yields_bind fun _ => yields_bind fun _ => yields_pure nofun
  case h_3 | h_4 => exact plain_numberPattern
  case h_8 =>
    refine yields_bind fun _ => yields_bind fun path => ?_
    split
    · exact yields_pure nofun
    · exact yields_pure nofun
  case h_9 => exact yields_fail
  all_goals exact yields_bind fun _ => yields_pure nofun

omit h in
/-- Without guard a pattern is flat. -/
theorem nesting_plain {form : PatternForm} (plain : ∀ inner guard, form ≠ .guarded inner guard)
    (place : Location) : (Pattern.outline ⟨form, place⟩).nesting ≤ 1 := by
  rw [Pattern.outline]
  cases form with
  | guarded inner guard => exact absurd rfl (plain inner guard)
  | _ => exact nesting_node _ shallow_nil

theorem bounded_pattern (guards : Bool) : Yields (Pattern.Bounded limit) (pattern g guards) := by
  refine yields_bind fun place => yields_bind_of plain_simplePattern fun form plain => ?_
  have flat := nesting_plain plain place
  have bounded : Pattern.Bounded limit ⟨form, place⟩ := by
    cases form with
    | guarded inner guard => exact absurd rfl (plain inner guard)
    | _ => exact flat
  split
  · refine yields_bind fun guarded => ?_
    split
    · exact yields_bind_of h.expression fun guard hguard => yields_pure ⟨flat, hguard⟩
    · exact yields_pure bounded
  · exact yields_pure bounded

theorem bounded_matchForm : Yields (ExprForm.Bounded limit) (matchForm g) := by
  refine yields_bind_of h.expression fun value hvalue => yields_bind fun _ => ?_
  let Fits (arms : List MatchArm) : Prop :=
    ∀ arm ∈ arms, arm.pattern.Bounded limit ∧ arm.body.Bounded limit
  refine yields_bind_of (Q := Fits) (yields_iterate_of (fun arms harms => ?_) nofun)
    fun arms harms => ?_
  · refine yields_bind fun closed => yields_bind fun done => ?_
    split
    · exact yields_pure harms
    · refine yields_bind_of (bounded_pattern h true) fun p hp => ?_
      have tail : Yields (fun r => Fits r.value) (do
          let _ ← expect .thickArrow "'=>' after pattern"
          let body ← g.expression
          let arms := arms ++ [(⟨p, body, p.location⟩ : MatchArm)]
          if ← accept .semicolon then return ForInStep.yield arms
          else if ← accept .comma then return .yield arms
          else return .done arms) := by
        refine yields_bind fun _ => yields_bind_of h.expression fun body hbody => ?_
        have more : Fits (arms ++ [⟨p, body, p.location⟩]) :=
          List.forall_mem_append.mpr ⟨harms, List.forall_mem_singleton.mpr ⟨hp, hbody⟩⟩
        refine yields_bind fun semicolon => ?_
        split
        · exact yields_pure more
        · refine yields_bind fun comma => ?_
          split
          · exact yields_pure more
          · exact yields_pure more
      extract_lets next
      split
      · exact yields_bind fun _ => tail
      · exact tail
  · refine yields_bind fun _ => yields_pure ?_
    have heights := le_foldl_max MatchArm.height arms value.height
    rw [ExprForm.Bounded, ExprForm.outlines, armOutlines_eq]
    refine shallow_cons.mpr ⟨hvalue.below heights.1, fun o mem => ?_⟩
    obtain ⟨arm, inside, part⟩ := List.mem_flatMap.mp mem
    exact MatchArm.shallow (harms arm inside).1 (harms arm inside).2 (heights.2 arm inside) o part

theorem bounded_primaryForm : Yields (Expr.Bounded limit) (primaryForm g) := by
  refine yields_bind fun t => ?_
  have leaf : ∀ form : ExprForm, form.outlines = [] →
      Yields (Expr.Bounded limit) (g.node form t.location) := by
    intro form none_
    refine bounded_node h ?_
    rw [ExprForm.Bounded, none_]
    exact shallow_nil
  have composed : ∀ {form : Parser ExprForm}, Yields (ExprForm.Bounded limit) form →
      Yields (Expr.Bounded limit) (do g.node (← form) t.location) := fun hform =>
    yields_bind_of hform fun _ bounded => bounded_node h bounded
  dsimp only
  split
  case h_1 => exact yields_bind fun _ => leaf _ rfl
  case h_9 => exact composed (bounded_newForm h)
  case h_10 => exact composed (bounded_matchForm h)
  case h_11 => exact composed (bounded_arrayForm h)
  case h_12 =>
    refine yields_bind_of (bounded_objectProperties h) fun ps hps => bounded_node h ?_
    rw [ExprForm.Bounded, ExprForm.outlines, propertyOutlines_eq]
    refine shallow_map.mpr fun p mem => (hps p mem).below ?_
    exact Expr.height_le_maxHeight (List.mem_map_of_mem mem)
  case h_13 => exact yields_bind_of h.expression fun inner hinner =>
    yields_bind fun _ => yields_pure hinner
  case h_14 => exact yields_fail
  all_goals exact leaf _ rfl

end Grammar
end ScriptFront
