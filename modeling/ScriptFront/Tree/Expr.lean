import ScriptFront.Number.Binary64
import ScriptFront.Tree.Type

/-!
Expressions and patterns. Every expression carries its height, which bounds how deep a walk over it
can go.
-/

namespace ScriptFront

inductive BinaryOp
  | add | subtract | multiply | divide | modulo
  | equal | notEqual | less | lessEqual | greater | greaterEqual
  | bitAnd | bitOr | bitXor | shiftLeft | shiftRight | unsignedShiftRight
  deriving DecidableEq, Repr, Inhabited

/-- Operators that compare their operands. -/
def BinaryOp.isComparison : BinaryOp → Bool
  | equal | notEqual | less | lessEqual | greater | greaterEqual => true
  | _ => false

inductive LogicalOp
  | and
  | or
  deriving DecidableEq, Repr, Inhabited

inductive UnaryOp
  | not
  | complement
  | negate
  | plus
  deriving DecidableEq, Repr, Inhabited

inductive UpdateOp
  | increment
  | decrement
  deriving DecidableEq, Repr, Inhabited

/-- How many of the values on the right of `is` have to match. -/
inductive Quantifier
  | any
  | all
  | none
  deriving DecidableEq, Repr, Inhabited

/-- A literal value as a pattern. -/
inductive Literal
  | number (value : Binary64) (isFloat : Bool)
  | string (value : String)
  | boolean (value : Bool)
  | null
  deriving DecidableEq, Repr, Inhabited

mutual

/-- An expression with its position and its height. -/
structure Expr where
  form : ExprForm
  location : Location
  height : Nat

/-- The forms of expressions. -/
inductive ExprForm
  | number (value : Binary64) (isFloat : Bool)
  | string (value : String)
  | boolean (value : Bool)
  | null
  | undefined
  | nan
  | identifier (name : String)
  | this
  | binary (op : BinaryOp) (left right : Expr)
  | logical (op : LogicalOp) (left right : Expr)
  | conditional (test yes no : Expr)
  | unary (op : UnaryOp) (operand : Expr)
  | update (op : UpdateOp) (before : Bool) (operand : Expr)
  | await (operand : Expr)
  | call (callee : Expr) (generics : List TypeExpr) (args : List Expr)
  | member (object property : Expr) (computed : Bool)
  | array (items : List Expr)
  | object (properties : List Property)
  | new (className : Ident) (generics : List TypeExpr) (args : List Expr)
  | match_ (value : Expr) (arms : List MatchArm)
  | is (subject : Expr) (quantifier : Quantifier) (target : Expr)

/-- A key with its value in an object literal. -/
structure Property where
  key : Ident
  value : Expr
  location : Location

/-- A pattern with the expression for the values it matches. -/
structure MatchArm where
  pattern : Pattern
  body : Expr
  location : Location

/-- A pattern with its position. -/
structure Pattern where
  form : PatternForm
  location : Location

/--
The forms of patterns. An identifier refers to an existing name, a binding introduces one, and a
guard is a condition on a value that its pattern matches.
-/
inductive PatternForm
  | literal (value : Literal)
  | range (first last : Binary64)
  | identifier (name : String)
  | binding (name : String)
  | member (path : List String)
  | wildcard
  | guarded (pattern : Pattern) (guard : Expr)

end

/-- The greatest height among some expressions, zero if there are none. -/
def Expr.maxHeight (es : List Expr) : Nat :=
  es.foldl (fun h e => max h e.height) 0

/-- The height of what hangs below a match arm: its body, and the guard of its pattern. -/
def MatchArm.height (arm : MatchArm) : Nat :=
  match arm.pattern.form with
  | .guarded _ guard => max guard.height arm.body.height
  | _ => arm.body.height

/-- The greatest height among the children of a form. -/
def ExprForm.childHeight : ExprForm → Nat
  | .binary _ l r | .logical _ l r => max l.height r.height
  | .conditional t y n => max (max t.height y.height) n.height
  | .unary _ e | .update _ _ e | .await e => e.height
  | .call callee _ args => max callee.height (Expr.maxHeight args)
  | .member o p _ => max o.height p.height
  | .array items | .new _ _ items => Expr.maxHeight items
  | .object ps => Expr.maxHeight (ps.map (·.value))
  | .match_ v arms => arms.foldl (fun h arm => max h arm.height) v.height
  | .is s _ t => max s.height t.height
  | _ => 0

namespace Expr

/-- The expression of a form: its height is the number of nodes on its longest path to a leaf. -/
def of (form : ExprForm) (here : Location) : Expr :=
  ⟨form, here, form.childHeight + 1⟩

instance : Inhabited Expr := ⟨of .null .nowhere⟩

/-- Whether an expression may stand on the left of an assignment. -/
def isAssignable (e : Expr) : Bool :=
  match e.form with
  | .identifier _ | .member .. => true
  | _ => false

end Expr

instance : Inhabited Pattern := ⟨⟨.wildcard, .nowhere⟩⟩

mutual

/-- Whether a pattern matches every value, with or without a guard in front of it. -/
def Pattern.isWildcard : Pattern → Bool
  | ⟨form, _⟩ => form.isWildcard

def PatternForm.isWildcard : PatternForm → Bool
  | .wildcard => true
  | .guarded pattern _ => pattern.isWildcard
  | _ => false

end

end ScriptFront
