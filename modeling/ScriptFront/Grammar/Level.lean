import ScriptFront.Grammar.Cursor
import ScriptFront.Tree.Statement

/-!
The constructs of the grammar that contain each other. The grammar is tied together level by level:
the parsers of one level are made from those of the level below, and reading one of these constructs
inside another goes one level down. The cursor counts the same nesting and stops it at the limit.
-/

namespace ScriptFront

/--
The parsers of the nesting constructs on one level, the test whether a declaration is next, which
reads a type ahead, and the nesting limit.
-/
structure Grammar where
  limit : Nat
  statement : Parser Statement
  block : Parser Block
  expression : Parser Expr
  operand : Parser Expr
  primary : Parser Expr
  typeExpr : Parser TypeExpr
  declares : Parser Bool

namespace Grammar

variable {α : Type}

/-- Fails for want of levels. -/
def tooDeep (limit : Nat) : Parser α := fun s =>
  .error ⟨.recursionLimit limit, s.peek.location⟩ s

/-- The level below all others, where nothing can be read. -/
def bottom (limit : Nat) : Grammar where
  limit := limit
  statement := tooDeep limit
  block := tooDeep limit
  expression := tooDeep limit
  operand := tooDeep limit
  primary := tooDeep limit
  typeExpr := tooDeep limit
  declares := pure false

/-- An expression of a form, unless it would be higher than the limit. -/
def node (g : Grammar) (form : ExprForm) (place : Location) : Parser Expr :=
  let e := Expr.of form place
  if g.limit < e.height then Parser.fail (.recursionLimit g.limit) place else pure e

end Grammar
end ScriptFront
