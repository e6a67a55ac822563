import Mathlib.Data.List.DropRight
import ScriptFront.Grammar.OperatorChain

/-!
Chains of operands as trees. A chain has one tree in which operators are grouped by precedence and
to the left, and in which an `is` test is about all that stands between it and the nearest operator
that binds looser: the tree that grows link by link along its right side. What the operands are made
of is left open.
-/

namespace ScriptFront

/-- What makes a chain longer: an operator with its operand, or a test of what was read so far. -/
inductive ChainLink
  | operator (op : ChainOp) (operand : Expr)
  | test (quantifier : Quantifier) (target : Expr)

/-- How tightly a link holds on to what stands before it. -/
def ChainLink.precedence : ChainLink → Nat
  | operator op _ => op.precedence
  | test .. => isPrecedence

/-- Whether a later test reaches across the operator of a link. -/
def ChainLink.isTight (k : ChainLink) : Bool := isPrecedence ≤ k.precedence

theorem ChainOp.precedence_pos (o : ChainOp) : 1 ≤ o.precedence := by
  rcases o with op | op <;> cases op <;> decide

/-- A tree over a chain. Operands are not looked into, whatever they are made of. -/
inductive ChainTree
  | operand (e : Expr)
  | join (op : ChainOp) (left right : ChainTree)
  | test (subject : ChainTree) (quantifier : Quantifier) (target : Expr)

namespace ChainTree

/-- The first operand of the chain, read from left to right. -/
def first : ChainTree → Expr
  | operand e => e
  | join _ left _ => left.first
  | test subject _ _ => subject.first

/-- The links of the chain behind its first operand, read from left to right. -/
def links : ChainTree → List ChainLink
  | operand _ => []
  | join op left right => left.links ++ .operator op right.first :: right.links
  | test subject q target => subject.links ++ [.test q target]

/-- The expression that stands for a tree. -/
def expr : ChainTree → Expr
  | operand e => e
  | join op left right => .of (op.join left.expr right.expr) left.expr.location
  | test subject q target => .of (.is subject.expr q target) subject.expr.location

/-- The operator at the root; operands and tests have none. -/
def root? : ChainTree → Option ChainOp
  | join op _ _ => some op
  | _ => none

/--
The right child of every operator binds tighter than the operator, and the left one at least as
tightly; operands and tests bind tighter than any operator.
-/
def Layered : ChainTree → Prop
  | operand _ => True
  | join op left right =>
    left.Layered ∧ right.Layered ∧ (∀ o ∈ left.root?, op.precedence ≤ o.precedence) ∧
      ∀ o ∈ right.root?, op.precedence < o.precedence
  | test subject _ _ => subject.Layered

/--
Where some links were read before a tree, the subject of each test in it is made of all that was
read since the nearest operator that binds looser than the test, or else since the start.
-/
def Tests (before : List ChainLink) : ChainTree → Prop
  | operand _ => True
  | join op left right =>
    left.Tests before ∧ right.Tests (before ++ left.links ++ [.operator op right.first])
  | test subject _ _ =>
    subject.Tests before ∧ (before ++ subject.links).rtakeWhile (·.isTight) = subject.links

/--
The grammar of layers: an operator makes an expression of its layer of one of the same layer and one
of the next layer; operands and tests are expressions of every layer.
-/
inductive Derives : Nat → ChainTree → Prop
  | operand {n e} : Derives n (.operand e)
  | join {n op left right} : n ≤ op.precedence → Derives op.precedence left →
      Derives (op.precedence + 1) right → Derives n (.join op left right)
  | test {n subject q target} : Derives isPrecedence subject → Derives n (.test subject q target)

/-- Makes a tree the left side of a link. -/
def onto : ChainLink → ChainTree → ChainTree
  | .operator op e, t => .join op t (.operand e)
  | .test q target, t => .test t q target

/-- A tree with one more link: it takes as much of the right side as it holds on to. -/
def attach (k : ChainLink) : ChainTree → ChainTree
  | join op left right =>
    if k.precedence ≤ op.precedence then onto k (.join op left right)
    else .join op left (right.attach k)
  | t => onto k t

variable {t u : ChainTree} {k : ChainLink} {before ks : List ChainLink} {n : Nat}

/-! ### Reading a tree with one more link -/

theorem first_onto : (onto k t).first = t.first := by
  cases k <;> rfl

theorem links_onto : (onto k t).links = t.links ++ [k] := by
  cases k <;> rfl

theorem first_attach : (t.attach k).first = t.first := by
  induction t with
  | operand e => exact first_onto
  | test subject q target => exact first_onto
  | join op left right =>
      unfold attach
      split
      · exact first_onto
      · rfl

theorem links_attach : (t.attach k).links = t.links ++ [k] := by
  induction t with
  | operand e => exact links_onto
  | test subject q target => exact links_onto
  | join op left right _ ih =>
      unfold attach
      split
      · exact links_onto
      · simp only [links, first_attach, ih, List.append_assoc, List.cons_append]

/-- The operator at the root of a longer tree is the old one or that of the new link. -/
theorem root_attach {o : ChainOp} (h : o ∈ (t.attach k).root?) :
    o ∈ t.root? ∨ o.precedence = k.precedence := by
  have new {t : ChainTree} (h : o ∈ (onto k t).root?) : o.precedence = k.precedence := by
    cases k with
    | operator op e =>
        cases h
        rfl
    | test q target => cases h
  cases t with
  | operand e => exact .inr (new h)
  | test subject q target => exact .inr (new h)
  | join op left right =>
      unfold attach at h
      split at h
      · exact .inr (new h)
      · exact .inl h

/-! ### Layers -/

theorem layered_onto (h : t.Layered) (low : ∀ o ∈ t.root?, k.precedence ≤ o.precedence) :
    (onto k t).Layered := by
  cases k with
  | operator op e => exact ⟨h, trivial, low, nofun⟩
  | test q target => exact h

theorem layered_attach (h : t.Layered) : (t.attach k).Layered := by
  induction t with
  | operand e => exact layered_onto h nofun
  | test subject q target => exact layered_onto h nofun
  | join op left right _ ih =>
      unfold attach
      split
      · next low => exact layered_onto h fun o root => by cases root; exact low
      · next high =>
          obtain ⟨layeredLeft, layeredRight, low, tight⟩ := h
          refine ⟨layeredLeft, ih layeredRight, low, fun o root => ?_⟩
          rcases root_attach root with old | new
          · exact tight o old
          · omega

/-! ### Tests -/

theorem rtakeWhile_append_iff {α : Type} {p : α → Bool} {xs ys : List α} :
    (xs ++ ys).rtakeWhile p = ys ↔
      (∀ y ∈ ys, p y = true) ∧ ∀ x ∈ xs.getLast?, p x = false := by
  induction ys using List.reverseRecOn with
  | nil =>
      rw [List.append_nil, List.rtakeWhile_eq_nil_iff]
      cases xs using List.reverseRecOn with
      | nil => simp
      | append_singleton xs x _ => simp
  | append_singleton ys y ih =>
      rw [← List.append_assoc]
      by_cases hy : p y = true
      · rw [List.rtakeWhile_concat_pos _ _ _ hy, List.append_left_inj, ih]
        simp [or_imp, forall_and, hy]
      · rw [List.rtakeWhile_concat_neg _ _ _ hy]
        simp [or_imp, forall_and, hy]

theorem tests_test {q : Quantifier} {target : Expr} :
    (ChainTree.test t q target).Tests before ↔ t.Tests before ∧
      (∀ k ∈ t.links, isPrecedence ≤ k.precedence) ∧
      ∀ k ∈ before.getLast?, k.precedence < isPrecedence := by
  rw [Tests, rtakeWhile_append_iff]
  simp [ChainLink.isTight]

/--
The links of a tree hold on as tightly as its root, unless they may belong to tests of a part of the
tree that goes on to the left of it.
-/
theorem precedence_links (h : t.Layered) (tests : t.Tests before)
    (low : ∀ o ∈ t.root?, n ≤ o.precedence)
    (reach : n ≤ isPrecedence ∨ ∃ k ∈ before.getLast?, isPrecedence ≤ k.precedence) :
    ∀ k ∈ t.links, n ≤ k.precedence := by
  induction t generalizing before with
  | operand e => exact nofun
  | join op left right ihl ihr =>
      obtain ⟨layeredLeft, layeredRight, leftLow, rightTight⟩ := h
      have here : n ≤ op.precedence := low op rfl
      simp only [links, List.forall_mem_append, List.forall_mem_cons]
      refine ⟨ihl layeredLeft tests.1 (fun o root => here.trans (leftLow o root)) reach, here,
        ihr layeredRight tests.2 (fun o root => here.trans (rightTight o root).le) ?_⟩
      -- What stands before the right child is the operator, which is no looser than `n`.
      exact (Nat.le_total n isPrecedence).imp_right fun high =>
        ⟨.operator op right.first, List.getLast?_concat, high.trans here⟩
  | test subject q target ih =>
      obtain ⟨inside, tight, loose⟩ := tests_test.mp tests
      rcases reach with reach | ⟨k, last, held⟩
      · simp only [links, List.forall_mem_append, List.forall_mem_singleton]
        exact ⟨fun k mem => reach.trans (tight k mem), reach⟩
      · exact absurd (loose k last) held.not_gt

theorem tests_onto (h : t.Layered) (tests : t.Tests before)
    (low : ∀ o ∈ t.root?, k.precedence ≤ o.precedence)
    (apart : ∀ j ∈ before.getLast?, j.precedence < k.precedence) : (onto k t).Tests before := by
  cases k with
  | operator op e => exact ⟨tests, trivial⟩
  | test q target =>
      exact tests_test.mpr ⟨tests, precedence_links h tests low (.inl (Nat.le_refl _)), apart⟩

theorem tests_attach (h : t.Layered) (tests : t.Tests before)
    (apart : ∀ j ∈ before.getLast?, j.precedence < k.precedence) : (t.attach k).Tests before := by
  induction t generalizing before with
  | operand e => exact tests_onto h tests nofun apart
  | test subject q target => exact tests_onto h tests nofun apart
  | join op left right _ ih =>
      unfold attach
      split
      · next low => exact tests_onto h tests (fun o root => by cases root; exact low) apart
      · next high =>
          refine ⟨tests.1, ?_⟩
          rw [first_attach]
          refine ih h.2.1 tests.2 fun j last => ?_
          rw [List.getLast?_concat] at last
          cases last
          exact Nat.lt_of_not_le high

/-! ### The tree of a chain -/

/-- The tree of a chain: the first operand with one link after the other. -/
def ofChain (e : Expr) (ks : List ChainLink) : ChainTree :=
  ks.foldl (fun t k => t.attach k) (.operand e)

/-- A tree that groups the links of a chain as it should. -/
structure Groups (t : ChainTree) (e : Expr) (ks : List ChainLink) : Prop where
  first : t.first = e
  links : t.links = ks
  tests : t.Tests []
  layered : t.Layered

theorem Groups.attach {e : Expr} (h : t.Groups e ks) (k : ChainLink) :
    (t.attach k).Groups e (ks ++ [k]) where
  first := first_attach.trans h.first
  links := by rw [links_attach, h.links]
  tests := tests_attach h.layered h.tests nofun
  layered := layered_attach h.layered

theorem groups_ofChain (e : Expr) (ks : List ChainLink) : (ofChain e ks).Groups e ks := by
  induction ks using List.reverseRecOn with
  | nil => exact ⟨rfl, rfl, trivial, trivial⟩
  | append_singleton ks k ih =>
      rw [ofChain, List.foldl_concat]
      exact ih.attach k

/-! ### Other trees of the chain -/

theorem attach_of_low (low : ∀ o ∈ t.root?, k.precedence ≤ o.precedence) :
    t.attach k = onto k t := by
  cases t with
  | operand e => rfl
  | test subject q target => rfl
  | join op left right => exact if_pos (low op rfl)

/-- Links that hold on tighter than an operator go to its right child. -/
theorem foldl_attach_join {op : ChainOp} {left right : ChainTree}
    (tight : ∀ k ∈ ks, op.precedence < k.precedence) :
    ks.foldl (fun (t : ChainTree) k => t.attach k) (.join op left right)
      = .join op left (ks.foldl (fun (t : ChainTree) k => t.attach k) right) := by
  induction ks generalizing right with
  | nil => rfl
  | cons k ks ih =>
      obtain ⟨here, rest⟩ := List.forall_mem_cons.mp tight
      rw [List.foldl_cons, List.foldl_cons, ← ih rest]
      exact congrArg (fun t => List.foldl _ t ks) (if_neg here.not_ge)

/-- The subject of a test is an expression of the layer of tests. -/
theorem root_subject {o : ChainOp} (root : o ∈ t.root?)
    (tight : ∀ k ∈ t.links, isPrecedence ≤ k.precedence) : isPrecedence ≤ o.precedence := by
  cases t with
  | join op left right =>
      cases root
      exact tight _ (List.mem_append_right _ (List.mem_cons_self ..))
  | operand e => cases root
  | test subject q target => cases root

/-- A tree that is layered and has its tests where they belong is that of the chain it reads as. -/
theorem ofChain_links (h : t.Layered) (tests : t.Tests before) : ofChain t.first t.links = t := by
  unfold ofChain
  induction t generalizing before with
  | operand e => rfl
  | test subject q target ih =>
      obtain ⟨inside, tight, -⟩ := tests_test.mp tests
      rw [links, List.foldl_concat, first, ih h inside]
      exact attach_of_low fun o root => root_subject root tight
  | join op left right ihl ihr =>
      obtain ⟨layeredLeft, layeredRight, low, tight⟩ := h
      have above : ∀ k ∈ right.links, op.precedence < k.precedence :=
        precedence_links layeredRight tests.2 tight <|
          (Nat.lt_or_ge op.precedence isPrecedence).imp id fun high =>
            ⟨_, List.getLast?_concat, high⟩
      rw [links, List.foldl_append, first, ihl layeredLeft tests.1, List.foldl_cons,
        attach_of_low low, onto, foldl_attach_join above, ihr layeredRight tests.2]

/-- A chain is grouped by one tree only. -/
theorem Groups.eq_ofChain {e : Expr} (h : t.Groups e ks) : t = ofChain e ks := by
  rw [← h.first, ← h.links, ofChain_links h.layered h.tests]

/-! ### The grammar of layers -/

/-- With its tests where they belong, a tree is layered if the grammar of layers derives it. -/
theorem derives_iff (tests : t.Tests before) :
    t.Derives n ↔ t.Layered ∧ ∀ o ∈ t.root?, n ≤ o.precedence := by
  constructor
  · intro derived
    clear tests
    induction derived with
    | operand => exact ⟨trivial, nofun⟩
    | join low _ _ ihl ihr =>
        exact ⟨⟨ihl.1, ihr.1, ihl.2, ihr.2⟩, fun o root => by cases root; exact low⟩
    | test _ ih => exact ⟨ih.1, nofun⟩
  · rintro ⟨layered, low⟩
    induction t generalizing before n with
    | operand e => exact .operand
    | join op left right ihl ihr =>
        obtain ⟨layeredLeft, layeredRight, leftLow, rightTight⟩ := layered
        exact .join (low op rfl) (ihl tests.1 layeredLeft leftLow)
          (ihr tests.2 layeredRight rightTight)
    | test subject q target ih =>
        obtain ⟨inside, tight, -⟩ := tests_test.mp tests
        exact .test (ih inside layered fun o root => root_subject root tight)

/-- Every operator is on some layer of the grammar. -/
theorem Groups.derives {e : Expr} (h : t.Groups e ks) : t.Derives 1 :=
  (derives_iff h.tests).mpr ⟨h.layered, fun o _ => o.precedence_pos⟩

end ChainTree
end ScriptFront
