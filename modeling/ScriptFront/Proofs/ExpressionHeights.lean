import ScriptFront.Tree.WellFormed

/-!
The heights that expressions carry, and what a node is like when it is built. The height of an
expression is set when it is built, from the heights of its parts. If these are those of the longest
paths in the parts then so is the new one, since the parts have all that a path can pass. Which
expressions are too high is left to the parser.
-/

namespace ScriptFront

/-! ### Longest paths -/

mutual

/-- The number of expressions on the longest path from an expression down to a leaf. -/
def Expr.longestPath : Expr → Nat
  | ⟨form, _, _⟩ => form.longestPath + 1

/-- The longest path below a form. The name after a dot counts. -/
def ExprForm.longestPath : ExprForm → Nat
  | .number .. | .string _ | .boolean _ | .null | .undefined | .nan | .identifier _ | .this => 0
  | .binary _ l r | .logical _ l r | .member l r _ | .is l _ r => max l.longestPath r.longestPath
  | .conditional t y n => max (max t.longestPath y.longestPath) n.longestPath
  | .unary _ e | .update _ _ e | .await e => e.longestPath
  | .call callee _ args => max callee.longestPath (longestPaths args)
  | .array items | .new _ _ items => longestPaths items
  | .object properties => longestValues properties
  | .match_ value arms => max value.longestPath (longestArms arms)

def longestPaths : List Expr → Nat
  | [] => 0
  | e :: es => max e.longestPath (longestPaths es)

def longestValues : List Property → Nat
  | [] => 0
  | ⟨_, value, _⟩ :: ps => max value.longestPath (longestValues ps)

/-- The guard and the body of an arm are its children. -/
def longestArms : List MatchArm → Nat
  | [] => 0
  | ⟨pattern, body, _⟩ :: arms => max (max pattern.longestPath body.longestPath) (longestArms arms)

def Pattern.longestPath : Pattern → Nat
  | ⟨form, _⟩ => form.longestPath

/-- The longest path below a pattern, which is one below a guard. -/
def PatternForm.longestPath : PatternForm → Nat
  | .guarded pattern guard => max pattern.longestPath guard.longestPath
  | .literal _ | .range .. | .identifier _ | .binding _ | .member _ | .wildcard => 0

end

/-! ### Expressions in a tree -/

mutual

/-- An expression with all expressions in it. -/
def Expr.parts : Expr → List Expr
  | ⟨form, place, height⟩ => ⟨form, place, height⟩ :: form.parts

/-- The expressions in a form. The name after a dot is one, though no walk visits it. -/
def ExprForm.parts : ExprForm → List Expr
  | .number .. | .string _ | .boolean _ | .null | .undefined | .nan | .identifier _ | .this => []
  | .binary _ l r | .logical _ l r | .member l r _ | .is l _ r => l.parts ++ r.parts
  | .conditional t y n => t.parts ++ y.parts ++ n.parts
  | .unary _ e | .update _ _ e | .await e => e.parts
  | .call callee _ args => callee.parts ++ exprParts args
  | .array items | .new _ _ items => exprParts items
  | .object properties => valueParts properties
  | .match_ value arms => value.parts ++ armParts arms

def exprParts : List Expr → List Expr
  | [] => []
  | e :: es => e.parts ++ exprParts es

def valueParts : List Property → List Expr
  | [] => []
  | ⟨_, value, _⟩ :: ps => value.parts ++ valueParts ps

def armParts : List MatchArm → List Expr
  | [] => []
  | ⟨pattern, body, _⟩ :: arms => pattern.parts ++ body.parts ++ armParts arms

def Pattern.parts : Pattern → List Expr
  | ⟨form, _⟩ => form.parts

def PatternForm.parts : PatternForm → List Expr
  | .guarded pattern guard => pattern.parts ++ guard.parts
  | .literal _ | .range .. | .identifier _ | .binding _ | .member _ | .wildcard => []

end

/-- The expressions in a node. -/
def Node.expressions : Node → List Expr
  | .expression e => e.parts
  | _ => []

/-- The expressions anywhere in a program; one inside another is listed with each. -/
def Program.expressions (p : Program) : List Expr :=
  (p.outline.walk Visit.everything).flatMap Node.expressions

/-! ### Greatest heights -/

theorem foldl_max {α : Type} (f : α → Nat) (as : List α) (n : Nat) :
    as.foldl (fun h a => max h (f a)) n = max n (as.foldl (fun h a => max h (f a)) 0) := by
  induction as generalizing n with
  | nil => exact (Nat.max_zero n).symm
  | cons a as ih =>
      simp only [List.foldl_cons]
      rw [ih (max n (f a)), ih (max 0 (f a))]
      omega

theorem Expr.maxHeight_cons (e : Expr) (es : List Expr) :
    maxHeight (e :: es) = max e.height (maxHeight es) := by
  rw [maxHeight, List.foldl_cons, foldl_max, Nat.zero_max]
  rfl

/-- The greatest height of match arms. -/
def MatchArm.maxHeight (arms : List MatchArm) : Nat :=
  arms.foldl (fun h arm => max h arm.height) 0

theorem MatchArm.maxHeight_cons (arm : MatchArm) (arms : List MatchArm) :
    maxHeight (arm :: arms) = max arm.height (maxHeight arms) := by
  rw [maxHeight, List.foldl_cons, foldl_max, Nat.zero_max]
  rfl

theorem Pattern.longestPath_eq_zero {p : Pattern} (h : ¬ p.IsGuarded) : p.longestPath = 0 := by
  obtain ⟨form, place⟩ := p
  cases form with
  | guarded inner guard => exact absurd ⟨inner, guard, rfl⟩ h
  | _ => rfl

theorem Pattern.parts_eq_nil {p : Pattern} (h : ¬ p.IsGuarded) : p.parts = [] := by
  obtain ⟨form, place⟩ := p
  cases form with
  | guarded inner guard => exact absurd ⟨inner, guard, rfl⟩ h
  | _ => rfl

/-! ### Nodes that are built -/

/-- A form that keeps the rules, where the name after a dot is an expression of its own. -/
def ExprForm.Built : ExprForm → Prop
  | .member _ property false => ∃ name place, property = Expr.of (.identifier name) place
  | form => form.WellFormed

theorem ExprForm.Built.wellFormed {form : ExprForm} (h : form.Built) : form.WellFormed := by
  cases form with
  | member object property computed =>
      cases computed with
      | false =>
          obtain ⟨name, place, rfl⟩ := h
          exact fun _ => ⟨name, rfl⟩
      | true => exact h
  | _ => exact h

/--
An expression whose height is the length of its longest path, and within a limit. A name alone is
read without a look at the limit.
-/
structure Expr.Measured (limit : Nat) (e : Expr) : Prop where
  height : e.height = e.longestPath
  bounded : e.height ≤ max limit 1

/-- An expression with all in it measured. -/
structure Expr.Built (limit : Nat) (e : Expr) : Prop where
  form : e.form.Built
  parts : ∀ e' ∈ e.parts, e'.Measured limit

/-- A node as it is built within a limit on the height of expressions. -/
def Node.Built (limit : Nat) : Node → Prop
  | .expression e => e.Built limit
  | n => n.WellFormed

theorem Node.Built.wellFormed {limit : Nat} {n : Node} (h : n.Built limit) : n.WellFormed := by
  cases n with
  | expression e => exact ExprForm.Built.wellFormed (Expr.Built.form h)
  | _ => exact h

/-- A tree all of whose nodes are built within a limit. -/
def Outline.Built (limit : Nat) (o : Outline) : Prop := o.All (Node.Built limit)

section Built

variable {limit : Nat}

theorem Expr.built_of_outline {e : Expr} (h : e.outline.Built limit) : e.Built limit := by
  obtain ⟨form, place, height⟩ := e
  exact h.1

theorem Expr.height_eq {e : Expr} (h : e.outline.Built limit) : e.height = e.longestPath := by
  have parts := (built_of_outline h).parts
  obtain ⟨form, place, height⟩ := e
  exact (parts _ (List.mem_cons_self ..)).height

theorem Expr.measured_parts {e : Expr} (h : e.outline.Built limit) :
    ∀ e' ∈ e.parts, e'.Measured limit :=
  (built_of_outline h).parts

/-! ### Lists of parts -/

theorem maxHeight_eq {es : List Expr} (h : AllOf (Node.Built limit) (exprOutlines es)) :
    Expr.maxHeight es = longestPaths es := by
  induction es with
  | nil => rfl
  | cons e es ih => rw [Expr.maxHeight_cons, longestPaths, Expr.height_eq h.1, ih h.2]

theorem measured_exprParts {es : List Expr} (h : AllOf (Node.Built limit) (exprOutlines es)) :
    ∀ e ∈ exprParts es, e.Measured limit := by
  induction es with
  | nil => exact nofun
  | cons e es ih => exact List.forall_mem_append.mpr ⟨Expr.measured_parts h.1, ih h.2⟩

theorem maxValue_eq {ps : List Property} (h : AllOf (Node.Built limit) (propertyOutlines ps)) :
    Expr.maxHeight (ps.map (·.value)) = longestValues ps := by
  induction ps with
  | nil => rfl
  | cons p ps ih =>
      obtain ⟨key, value, place⟩ := p
      rw [List.map_cons, Expr.maxHeight_cons, longestValues, Expr.height_eq h.1, ih h.2]

theorem measured_valueParts {ps : List Property}
    (h : AllOf (Node.Built limit) (propertyOutlines ps)) :
    ∀ e ∈ valueParts ps, e.Measured limit := by
  induction ps with
  | nil => exact nofun
  | cons p ps ih =>
      obtain ⟨key, value, place⟩ := p
      exact List.forall_mem_append.mpr ⟨Expr.measured_parts h.1, ih h.2⟩

/-- There is one guard at most, which hangs below the arm like the body. -/
theorem MatchArm.height_eq {arm : MatchArm} (pattern : arm.pattern.outline.Built limit)
    (body : arm.body.outline.Built limit) :
    arm.height = max arm.pattern.longestPath arm.body.longestPath := by
  obtain ⟨⟨form, place⟩, body', armPlace⟩ := arm
  rw [← Expr.height_eq body]
  cases form with
  | guarded inner guard =>
      obtain ⟨unguarded, _, hguard, _⟩ := pattern
      rw [Pattern.longestPath, PatternForm.longestPath, Pattern.longestPath_eq_zero unguarded,
        Nat.zero_max, ← Expr.height_eq hguard]
      rfl
  | _ => exact (Nat.zero_max _).symm

theorem Pattern.measured_parts {p : Pattern} (h : p.outline.Built limit) :
    ∀ e ∈ p.parts, e.Measured limit := by
  obtain ⟨form, place⟩ := p
  cases form with
  | guarded inner guard =>
      obtain ⟨unguarded, _, hguard, _⟩ := h
      rw [parts, PatternForm.parts, parts_eq_nil unguarded, List.nil_append]
      exact Expr.measured_parts hguard
  | _ => exact nofun

theorem maxArm_eq {arms : List MatchArm} (h : AllOf (Node.Built limit) (armOutlines arms)) :
    MatchArm.maxHeight arms = longestArms arms := by
  induction arms with
  | nil => rfl
  | cons arm arms ih =>
      obtain ⟨pattern, body, place⟩ := arm
      obtain ⟨hpattern, hbody, harms⟩ := h
      have arm : MatchArm.height ⟨pattern, body, place⟩
          = max pattern.longestPath body.longestPath := MatchArm.height_eq hpattern hbody
      rw [MatchArm.maxHeight_cons, longestArms, arm, ih harms]

theorem measured_armParts {arms : List MatchArm}
    (h : AllOf (Node.Built limit) (armOutlines arms)) :
    ∀ e ∈ armParts arms, e.Measured limit := by
  induction arms with
  | nil => exact nofun
  | cons arm arms ih =>
      obtain ⟨pattern, body, place⟩ := arm
      obtain ⟨hpattern, hbody, harms⟩ := h
      exact List.forall_mem_append.mpr ⟨List.forall_mem_append.mpr
        ⟨Pattern.measured_parts hpattern, Expr.measured_parts hbody⟩, ih harms⟩

/-! ### Forms -/

theorem ExprForm.childHeight_eq {form : ExprForm} (root : form.Built)
    (below : AllOf (Node.Built limit) form.outlines) : form.childHeight = form.longestPath := by
  cases form with
  | number | string | boolean | null | undefined | nan | identifier | this => rfl
  | binary op l r | logical op l r | is l quantifier r =>
      rw [childHeight, longestPath, Expr.height_eq below.1, Expr.height_eq below.2.1]
  | conditional t y n =>
      rw [childHeight, longestPath, Expr.height_eq below.1, Expr.height_eq below.2.1,
        Expr.height_eq below.2.2.1]
  | unary op e | update op before e | await e =>
      rw [childHeight, longestPath, Expr.height_eq below.1]
  | call callee generics args =>
      rw [childHeight, longestPath, Expr.height_eq below.1,
        maxHeight_eq (allOf_append.mp below.2).2]
  | member object property computed =>
      have hobject : object.height = object.longestPath := Expr.height_eq below.1
      rw [childHeight, longestPath, hobject]
      cases computed with
      | true => rw [Expr.height_eq below.2.1]
      | false =>
          obtain ⟨name, place, rfl⟩ := root
          rfl
  | array items => rw [childHeight, longestPath, maxHeight_eq below]
  | new className generics args =>
      rw [childHeight, longestPath, maxHeight_eq (allOf_append.mp below).2]
  | object properties => rw [childHeight, longestPath, maxValue_eq below]
  | match_ value arms =>
      rw [childHeight, longestPath, foldl_max, Expr.height_eq below.1, ← maxArm_eq below.2]
      rfl

theorem ExprForm.measured_parts {form : ExprForm} (root : form.Built)
    (below : AllOf (Node.Built limit) form.outlines) : ∀ e ∈ form.parts, e.Measured limit := by
  cases form with
  | number | string | boolean | null | undefined | nan | identifier | this => exact nofun
  | binary op l r | logical op l r | is l quantifier r =>
      exact List.forall_mem_append.mpr
        ⟨Expr.measured_parts below.1, Expr.measured_parts below.2.1⟩
  | conditional t y n =>
      exact List.forall_mem_append.mpr ⟨List.forall_mem_append.mpr
        ⟨Expr.measured_parts below.1, Expr.measured_parts below.2.1⟩,
          Expr.measured_parts below.2.2.1⟩
  | unary op e | update op before e | await e => exact Expr.measured_parts below.1
  | call callee generics args =>
      exact List.forall_mem_append.mpr
        ⟨Expr.measured_parts below.1, measured_exprParts (allOf_append.mp below.2).2⟩
  | member object property computed =>
      refine List.forall_mem_append.mpr ⟨Expr.measured_parts below.1, ?_⟩
      cases computed with
      | true => exact Expr.measured_parts below.2.1
      | false =>
          obtain ⟨name, place, rfl⟩ := root
          exact List.forall_mem_singleton.mpr ⟨rfl, Nat.le_max_right ..⟩
  | array items => exact measured_exprParts below
  | new className generics args => exact measured_exprParts (allOf_append.mp below).2
  | object properties => exact measured_valueParts below
  | match_ value arms =>
      exact List.forall_mem_append.mpr
        ⟨Expr.measured_parts below.1, measured_armParts below.2⟩

/-- What is built from a form is measured if all in the form is. -/
theorem Expr.built_of {form : ExprForm} (root : form.Built)
    (below : AllOf (Node.Built limit) form.outlines) (place : Location)
    (bounded : (of form place).height ≤ max limit 1) : (of form place).outline.Built limit := by
  have height : (of form place).height = (of form place).longestPath :=
    congrArg (· + 1) (ExprForm.childHeight_eq root below)
  refine ⟨⟨root, ?_⟩, below⟩
  exact List.forall_mem_cons.mpr ⟨⟨height, bounded⟩, ExprForm.measured_parts root below⟩

end Built

end ScriptFront
