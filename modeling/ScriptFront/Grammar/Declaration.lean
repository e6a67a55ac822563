import ScriptFront.Grammar.TypeExpr

/-!
The grammar of declarations, classes apart.
-/

namespace ScriptFront
namespace Grammar

open ScriptFront.Parser

/-- One more modifier. None may be written twice, nor beside one that it excludes. -/
def modifierStep (ms : Modifiers) : Parser (ForInStep Modifiers) := do
  let t ← peek
  match t.kind with
  | .keyword k =>
    match Modifier.ofKeyword? k with
    | some m =>
      let _ ← advance
      if ms.has m then fail (.duplicateModifier m) t.location
      match ms.conflict? m with
      | some other => fail (.modifierConflict m other) t.location
      | none => return .yield (ms.set m)
    | none => return .done ms
  | _ => return .done ms

/-- All modifiers that are next. -/
def modifiers : Parser Modifiers := iterate modifierStep Modifiers.empty

/-- Reads a type, and tells whether a name follows it. -/
def typeAndName (typeExpr : Parser TypeExpr) : Parser Bool := do
  let _ ← typeExpr
  check .identifier

/-- Whether a variable declaration is next. -/
def startsVariable (g : Grammar) : Parser Bool := do
  match (← peek).kind with
  | .keyword .kwConst | .keyword .kwInfer => return true
  | .keyword k => return k.isDataType
  | .identifier => g.declares
  | _ => return false

/--
The type of a variable declaration. It is inferred where `infer` is written, and for a constant
whose name follows `const` directly.
-/
def variableType (g : Grammar) (isConstant : Bool) : Parser TypeExpr := do
  let t ← peek
  let next ← peekAt 1
  if t.isKeyword .kwInfer then
    let _ ← advance
    return ⟨.infer, t.location⟩
  else if isConstant && t.kind == .identifier
      && [TokenKind.equal, .semicolon, .comma].contains next.kind then
    return ⟨.infer, t.location⟩
  else g.typeExpr

/-- An initial value, if an equals sign announces one. -/
def initializer (g : Grammar) : Parser (Option Expr) := do
  if ← accept .equal then return some (← g.expression) else return none

/-- Variables of one type, without the semicolon that ends their declaration. -/
def varGroup (g : Grammar) (ms : Modifiers) : Parser VariableDeclaration := do
  let isConstant ← acceptKeyword .kwConst
  let type ← variableType g isConstant
  let names ← commaSeparated (name "a variable name")
  let init ← initializer g
  return ⟨ms, isConstant, type, names, init⟩

/-- What follows the parameters of a callable: its return type after a colon. -/
def returnType (g : Grammar) : Parser TypeExpr := do
  let _ ← expect .colon "':' before the return type"
  g.typeExpr

/-- Generic parameters, parameters and return type. -/
def signature (g : Grammar) : Parser Signature := do
  let generics ← genericParams
  let ps ← params g
  return ⟨generics, ps, ← returnType g⟩

/-- A function, from `func` on. -/
def function (g : Grammar) (ms : Modifiers) : Parser FunctionDeclaration := do
  let _ ← expectKeyword .kwFunc "'func'"
  let ident ← name "a function name"
  let sig ← signature g
  return ⟨ms, ident, sig, ← g.block⟩

/-- One more field of a structure type, up to the brace that closes it. -/
def fieldStep (g : Grammar) (fields : List TypeField) : Parser (ForInStep (List TypeField)) := do
  if (← check .closeCurly) || (← atEnd) then return .done fields
  let field ← name "a field name"
  let _ ← expect .colon "':' after field name"
  let type ← g.typeExpr
  let fields := fields ++ [⟨field, type, field.location⟩]
  if ← accept .semicolon then return .yield fields
  else if ← accept .comma then return .yield fields
  else return .done fields

/-- A structure type, from `type` on. -/
def structType (g : Grammar) (ms : Modifiers) : Parser TypeDeclaration := do
  let _ ← expectKeyword .kwType "'type'"
  let ident ← name "a type name"
  let generics ← genericParams
  let _ ← expect .openCurly "'\x7b' to open the type body"
  let fields ← iterate (fieldStep g) []
  let _ ← expect .closeCurly "'\x7d' to close the type body"
  return ⟨ms, ident, generics, fields⟩

end Grammar
end ScriptFront
