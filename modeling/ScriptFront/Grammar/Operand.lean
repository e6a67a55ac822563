import ScriptFront.Grammar.OperatorChain
import ScriptFront.Grammar.Pattern
import ScriptFront.Grammar.TypeExpr

/-!
The grammar of expressions: conditionals around operator chains, and operands with what may stand
before and after them.
-/

namespace ScriptFront
namespace Grammar

open ScriptFront.Parser

/-- A chain of operands, or a choice between two expressions by one. -/
def conditional (g : Grammar) : Parser Expr := do
  let test ← chain g
  if ← accept .question then
    let yes ← g.expression
    let _ ← expect .colon "':' in conditional expression"
    let no ← g.expression
    g.node (.conditional test yes no) test.location
  else return test

/-- An increment or decrement of what can be assigned to. -/
def update (g : Grammar) (operator : Token) (before : Bool) (operand : Expr) (place : Location) :
    Parser Expr := do
  if operand.isAssignable then
    let op := if operator.kind == .doublePlus then UpdateOp.increment else .decrement
    g.node (.update op before operand) place
  else broken (.assignableOperand operator.lexeme) operator.location

/-- Arguments in parentheses. -/
def arguments (g : Grammar) : Parser (List Expr) := do
  let _ ← expect .openParen "'('"
  let args ← if ← check .closeParen then pure [] else commaSeparated g.expression
  let _ ← expect .closeParen "')' after arguments"
  return args

/--
Whether `<` opens generic arguments of a call and is not an operator: then a name or reserved word
and a `,` or `>` follow it.
-/
def opensGenerics (s : Cursor) : Bool :=
  s.peek.kind == .leftArrow
    && (match (s.peekAt 1).kind with | .identifier | .keyword _ => true | _ => false)
    && (match (s.peekAt 2).kind with | .comma | .rightArrow => true | _ => false)

/-- One step of what may follow an operand: a member, an index, a call, or an update. -/
def suffixStep (g : Grammar) (e : Expr) : Parser (ForInStep Expr) := do
  let place := e.location
  let s ← get
  match s.peek.kind with
  | .dot =>
    let _ ← advance
    let ident ← name "a property name after '.'"
    let property := Expr.of (.identifier ident.text) ident.location
    return .yield (← g.node (.member e property false) place)
  | .openSquare =>
    let _ ← advance
    let index ← g.expression
    let _ ← expect .closeSquare "']'"
    return .yield (← g.node (.member e index true) place)
  | .leftArrow =>
    if opensGenerics s then
      let generics ← genericArguments g
      let args ← arguments g
      return .yield (← g.node (.call e generics args) place)
    else return .done e
  | .openParen =>
    let args ← arguments g
    return .yield (← g.node (.call e [] args) place)
  | .doublePlus | .doubleMinus =>
    let operator ← advance
    return .yield (← update g operator false e place)
  | _ => return .done e

/-- A primary expression with everything that follows it. -/
def suffixed (g : Grammar) : Parser Expr := do
  iterate (suffixStep g) (← g.primary)

/-- An operand of a chain: operators that stand before it, and then a suffixed expression. -/
def operandForm (g : Grammar) : Parser Expr := do
  let t ← peek
  let place := t.location
  let unary (op : UnaryOp) : Parser Expr := do
    let _ ← advance
    g.node (.unary op (← g.operand)) place
  match t.kind with
  | .bang => unary .not
  | .complement => unary .complement
  | .minus => unary .negate
  | .doublePlus | .doubleMinus =>
    let _ ← advance
    update g t true (← g.operand) place
  | .keyword .kwAwait =>
    let _ ← advance
    g.node (.await (← g.operand)) place
  | _ => suffixed g

/-- One more property of an object: a name or a string, and its value after a colon. -/
def propertyStep (g : Grammar) (ps : List Property) : Parser (ForInStep (List Property)) := do
  if ← check .closeCurly then return .done ps
  let t ← advance
  match t.kind with
  | .identifier | .string =>
    let _ ← expect .colon "':' after property name"
    let value ← g.expression
    let ps := ps ++ [⟨⟨t.lexeme, t.location⟩, value, t.location⟩]
    if ← accept .comma then return .yield ps else return .done ps
  | _ => unexpected t "a property name"

/-- The properties of an object, after its brace. -/
def objectProperties (g : Grammar) : Parser (List Property) := do
  let ps ← iterate (propertyStep g) []
  let _ ← expect .closeCurly "'\x7d' to close the object"
  return ps

/-- The class, generics and arguments after `new`. -/
def newForm (g : Grammar) : Parser ExprForm := do
  let className ← name "a class name after 'new'"
  let generics ← optionalGenerics g
  let args ← arguments g
  return .new className generics args

/-- One more arm of a match; at most one arm matches every value. -/
def armStep (g : Grammar) (arms : List MatchArm) : Parser (ForInStep (List MatchArm)) := do
  if (← check .closeCurly) || (← atEnd) then return .done arms
  let p ← pattern g true
  if p.isWildcard && arms.any (·.pattern.isWildcard) then broken .oneDefaultArm p.location
  let _ ← expect .thickArrow "'=>' after pattern"
  let body ← g.expression
  let arms := arms ++ [⟨p, body, p.location⟩]
  if ← accept .semicolon then return .yield arms
  else if ← accept .comma then return .yield arms
  else return .done arms

/-- The value and arms after `match`. -/
def matchForm (g : Grammar) : Parser ExprForm := do
  let value ← g.expression
  let _ ← expect .openCurly "'\x7b' after match value"
  let arms ← iterate (armStep g) []
  let _ ← expect .closeCurly "'\x7d' to close the match"
  return .match_ value arms

/-- The items of an array, after its bracket. -/
def arrayForm (g : Grammar) : Parser ExprForm := do
  let items ← if ← check .closeSquare then pure [] else commaSeparated g.expression
  let _ ← expect .closeSquare "']' to close the array"
  return .array items

/-- A literal, a name, an expression in brackets of any kind, an object creation, or a match. -/
def primaryForm (g : Grammar) : Parser Expr := do
  let t ← advance
  let place := t.location
  match t.kind with
  | .number =>
    let (value, isFloat) ← numberValue t
    g.node (.number value isFloat) place
  | .string => g.node (.string t.lexeme) place
  | .boolean => g.node (.boolean (t.lexeme == "true")) place
  | .null => g.node .null place
  | .undefined => g.node .undefined place
  | .nan => g.node .nan place
  | .identifier => g.node (.identifier t.lexeme) place
  | .keyword .kwThis => g.node .this place
  | .keyword .kwNew => g.node (← newForm g) place
  | .keyword .kwMatch => g.node (← matchForm g) place
  | .openSquare => g.node (← arrayForm g) place
  | .openCurly => g.node (.object (← objectProperties g)) place
  | .openParen =>
    let inner ← g.expression
    let _ ← expect .closeParen "')'"
    return inner
  | _ => unexpected t "an expression"

end Grammar
end ScriptFront
