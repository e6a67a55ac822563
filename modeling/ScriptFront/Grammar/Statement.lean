import ScriptFront.Grammar.ClassBody
import ScriptFront.Grammar.Operand

/-!
The grammar of statements, and the grammar as a whole.
-/

namespace ScriptFront
namespace Grammar

open ScriptFront.Parser

/-- Declarations after their modifiers, with the semicolon that ends those of variables. -/
def declaration (g : Grammar) : Parser Statement := do
  let place ← here
  let ms ← modifiers
  match (← peek).kind with
  | .keyword .kwFunc => return ⟨.function (← function g ms), place⟩
  | .keyword .kwClass => return ⟨.classType (← classType g ms), place⟩
  | .keyword .kwType => return ⟨.structType (← structType g ms), place⟩
  | _ =>
    let d ← varGroup g ms
    let _ ← expect .semicolon "';' after variable declaration"
    return ⟨.varGroup d, place⟩

/-- The operator that a compound assignment applies, for the tokens that assign. -/
def assignment? : TokenKind → Option (Option BinaryOp)
  | .equal => some none
  | .plusEqual => some (some .add)
  | .minusEqual => some (some .subtract)
  | .starEqual => some (some .multiply)
  | .fwdSlashEqual => some (some .divide)
  | _ => none

/--
An assignment or an expression, without a semicolon. A compound assignment `x += e` assigns `x + e`,
which stands where its operator stands.
-/
def simple (g : Grammar) : Parser Statement := do
  let place ← here
  let target ← g.expression
  match assignment? (← peek).kind with
  | none => return ⟨.expression target, place⟩
  | some op =>
    let operator ← advance
    if target.isAssignable then
      let right ← g.expression
      let value ← match op with
        | some op => g.node (.binary op target right) operator.location
        | none => pure right
      return ⟨.assignment target value, place⟩
    else broken .assignableTarget operator.location

/-- An assignment or expression with its semicolon. -/
def terminated (g : Grammar) : Parser Statement := do
  let s ← simple g
  let _ ← expect .semicolon "';' after statement"
  return s

/-- One more statement, or a stray semicolon, which counts for nothing. -/
def statementStep (g : Grammar) (stop : TokenKind → Bool) (body : List Statement) :
    Parser (ForInStep (List Statement)) := do
  if stop (← peek).kind || (← atEnd) then return .done body
  if ← accept .semicolon then return .yield body
  return .yield (body ++ [← g.statement])

/-- Statements up to a token where they stop. -/
def statementsUntil (g : Grammar) (stop : TokenKind → Bool) : Parser (List Statement) :=
  iterate (statementStep g stop) []

/-- Statements in braces. -/
def blockForm (g : Grammar) : Parser Block := do
  let opener ← expect .openCurly "'\x7b'"
  let body ← statementsUntil g (· == .closeCurly)
  let _ ← expect .closeCurly "'\x7d'"
  return ⟨body, opener.location⟩

/-- One more condition with its block. -/
def elifStep (g : Grammar) (elifs : List ElifClause) : Parser (ForInStep (List ElifClause)) := do
  let t ← peek
  if t.isKeyword .kwElif then
    let _ ← advance
    let test ← g.expression
    let body ← g.block
    return .yield (elifs ++ [⟨test, body, t.location⟩])
  else return .done elifs

/-- A choice between blocks by conditions. -/
def ifForm (g : Grammar) : Parser StatementForm := do
  let _ ← expectKeyword .kwIf "'if'"
  let test ← g.expression
  let body ← g.block
  let elifs ← iterate (elifStep g) []
  let otherwise ← if ← acceptKeyword .kwElse then some <$> g.block else pure none
  return .conditional test body elifs otherwise

def whileForm (g : Grammar) : Parser StatementForm := do
  let _ ← expectKeyword .kwWhile "'while'"
  let test ← g.expression
  return .whileLoop test (← g.block)

/-- The first clause of a loop: variables, an assignment or an expression. -/
def forInit (g : Grammar) : Parser Statement := do
  let place ← here
  if ← startsVariable g then return ⟨.varGroup (← varGroup g .empty), place⟩
  else simple g

/-- A loop with three clauses in parentheses, each of which may be missing. -/
def forForm (g : Grammar) : Parser StatementForm := do
  let _ ← expectKeyword .kwFor "'for'"
  let _ ← expect .openParen "'(' after for"
  let init ← if ← check .semicolon then pure none else some <$> forInit g
  let _ ← expect .semicolon "';' after for initializer"
  let test ← if ← check .semicolon then pure none else some <$> g.expression
  let _ ← expect .semicolon "';' after for condition"
  let update ← if ← check .closeParen then pure none else some <$> simple g
  let _ ← expect .closeParen "')' after for clauses"
  return .forLoop init test update (← g.block)

/-- One more handler of what a block throws. -/
def catchStep (g : Grammar) (handlers : List CatchClause) :
    Parser (ForInStep (List CatchClause)) := do
  let t ← peek
  if t.isKeyword .kwCatch then
    let _ ← advance
    let _ ← expect .openParen "'(' after catch"
    let type ← g.typeExpr
    let ident ← name "a catch parameter name"
    let _ ← expect .closeParen "')'"
    return .yield (handlers ++ [⟨type, ident, ← g.block, t.location⟩])
  else return .done handlers

/-- A block with at least one handler for what it throws, and a block that runs in any case. -/
def tryForm (g : Grammar) : Parser StatementForm := do
  let _ ← expectKeyword .kwTry "'try'"
  let body ← g.block
  let handlers ← iterate (catchStep g) []
  if handlers.isEmpty then broken .hasCatch (← here)
  let opener ← expectKeyword .kwFinally "'finally'"
  return .tryCatch body handlers ⟨← g.block, opener.location⟩

/-- The body of a switch case: one block, or the statements up to the next case. -/
def caseBody (g : Grammar) : Parser (List Statement) := do
  let place ← here
  if ← check .openCurly then return [⟨.block (← g.block), place⟩]
  else statementsUntil g fun k =>
    k == .keyword .kwCase || k == .keyword .kwDefault || k == .closeCurly

/-- The cases of a switch read so far, and its default case. -/
abbrev Cases := List SwitchCase × Option SwitchCase

/-- One more alternative of a case. -/
def alternativeStep (g : Grammar) (ps : List Pattern) : Parser (ForInStep (List Pattern)) := do
  if ← accept .pipe then return .yield (ps ++ [← pattern g false]) else return .done ps

/-- One case of a switch. There is at most one default case. -/
def caseStep (g : Grammar) (cases : Cases) : Parser (ForInStep Cases) := do
  if (← check .closeCurly) || (← atEnd) then return .done cases
  let place ← here
  if ← acceptKeyword .kwDefault then
    if cases.2.isSome then broken .oneDefaultCase place
    let _ ← expect .colon "':' after default"
    let body ← caseBody g
    return .yield (cases.1, some ⟨[⟨.wildcard, place⟩], body, place⟩)
  else
    let _ ← expectKeyword .kwCase "'case' or 'default'"
    let first ← pattern g false
    let others ← iterate (alternativeStep g) []
    let _ ← expect .colon "':' after case patterns"
    let body ← caseBody g
    return .yield (cases.1 ++ [⟨first :: others, body, place⟩], cases.2)

def switchForm (g : Grammar) : Parser StatementForm := do
  let _ ← expectKeyword .kwSwitch "'switch'"
  let value ← g.expression
  let _ ← expect .openCurly "'\x7b' after switch value"
  let (cases, otherwise) ← iterate (caseStep g) ([], none)
  let _ ← expect .closeCurly "'\x7d'"
  return .switch value cases otherwise

/-- The value that a function returns, if any, after `return`. -/
def returnForm (g : Grammar) : Parser StatementForm := do
  let _ ← advance
  let value ← if ← check .semicolon then pure none else some <$> g.expression
  let _ ← expect .semicolon "';' after return"
  return .returns value

/-- What is thrown has to be a new object. -/
def throwForm (g : Grammar) : Parser StatementForm := do
  let _ ← advance
  let value ← g.expression
  match value.form with
  | .new .. =>
    let _ ← expect .semicolon "';' after throw"
    return .throws value
  | _ => broken .throwsNew value.location

/-- A jump out of a loop or to its next round. -/
def jump (form : StatementForm) : Parser StatementForm := do
  let _ ← advance
  let _ ← expect .semicolon "';'"
  return form

/-- A statement that starts with a reserved word. -/
def keywordStatement (g : Grammar) (t : Token) (k : Keyword) : Parser Statement := do
  let located (form : Parser StatementForm) : Parser Statement := do return ⟨← form, t.location⟩
  match k with
  | .kwIf => located (ifForm g)
  | .kwWhile => located (whileForm g)
  | .kwFor => located (forForm g)
  | .kwTry => located (tryForm g)
  | .kwSwitch => located (switchForm g)
  | .kwReturn => located (returnForm g)
  | .kwBreak => located (jump .breaks)
  | .kwContinue => located (jump .continues)
  | .kwThrow => located (throwForm g)
  | .kwFunc | .kwClass | .kwType | .kwConst | .kwInfer => declaration g
  | .kwThis | .kwNew | .kwAwait | .kwMatch => terminated g
  | _ =>
    if k.isDataType || (Modifier.ofKeyword? k).isSome then declaration g
    else unexpected t "a statement"

/-- A statement with the semicolon that ends it, where there is one. -/
def statementForm (g : Grammar) : Parser Statement := do
  let t ← peek
  match t.kind with
  | .openCurly => return ⟨.block (← g.block), t.location⟩
  | .keyword k => keywordStatement g t k
  | .identifier => if ← g.declares then declaration g else terminated g
  | _ => terminated g

/-- The level above a given one. -/
def above (g : Grammar) : Grammar where
  limit := g.limit
  statement := nested g.limit (statementForm g)
  block := nested g.limit (blockForm g)
  expression := nested g.limit (conditional g)
  operand := nested g.limit (operandForm g)
  primary := nested g.limit (primaryForm g)
  typeExpr := nested g.limit (unionType g)
  declares := foresee (typeAndName (nested g.limit (unionType g)))

/-- The grammar with a number of levels. -/
def ofLevels (limit : Nat) : Nat → Grammar
  | 0 => bottom limit
  | n + 1 => (ofLevels limit n).above

/--
The grammar with a nesting limit. It has one level more than can be entered, so that the limit stops
every nesting before the levels end.
-/
def ofLimit (limit : Nat) : Grammar := ofLevels limit (limit + 1)

end Grammar
end ScriptFront
