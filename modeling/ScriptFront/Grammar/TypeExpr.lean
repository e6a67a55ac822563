import ScriptFront.Grammar.Level

/-!
The grammar of written types, and of the lists that declare generic parameters and parameters. From
loosest to tightest a type is a union, an intersection, an array, or a base type.
-/

namespace ScriptFront
namespace Grammar

open ScriptFront.Parser

/-- Generic arguments in angle brackets: `<A, B>`. -/
def genericArguments (g : Grammar) : Parser (List TypeExpr) := do
  let _ ← expect .leftArrow "'<'"
  let args ← commaSeparated g.typeExpr
  let _ ← expect .rightArrow "'>' to close the generic arguments"
  return args

/-- Generic arguments if an angle bracket opens them. -/
def optionalGenerics (g : Grammar) : Parser (List TypeExpr) := do
  if ← check .leftArrow then genericArguments g else return []

/-- A built-in type, a name with optional generic arguments, or a type in parentheses. -/
def baseType (g : Grammar) : Parser TypeExpr := do
  let t ← peek
  let place := t.location
  match t.kind with
  | .keyword .kwVoid => let _ ← advance; return ⟨.void, place⟩
  | .keyword .kwInfer => let _ ← advance; return ⟨.infer, place⟩
  | .keyword k =>
    if k.isDataType then
      let _ ← advance
      return .named t.lexeme place
    else unexpected t "a type"
  | .null => let _ ← advance; return ⟨.null, place⟩
  | .undefined => let _ ← advance; return ⟨.undefined, place⟩
  | .nan | .identifier =>
    let _ ← advance
    let generics ← optionalGenerics g
    return ⟨.reference t.lexeme generics, place⟩
  | .openParen =>
    let _ ← advance
    let inner ← g.typeExpr
    let _ ← expect .closeParen "')' to close the type"
    return inner
  | _ => unexpected t "a type"

/-- One pair of empty square brackets. -/
def arrayStep (t : TypeExpr) : Parser (ForInStep TypeExpr) := do
  if (← check .openSquare) && (← peekAt 1).kind == .closeSquare then
    let _ ← advance
    let _ ← advance
    return .yield ⟨.array t, t.location⟩
  else return .done t

/-- A base type with any number of empty square brackets after it. -/
def arrayType (g : Grammar) : Parser TypeExpr := do
  let base ← baseType g
  iterate arrayStep base

def intersectionStep (g : Grammar) (left : TypeExpr) : Parser (ForInStep TypeExpr) := do
  if ← accept .ampersand then
    let right ← arrayType g
    return .yield ⟨.intersection left right, left.location⟩
  else return .done left

/-- Array types joined by `&`, to the left. -/
def intersectionType (g : Grammar) : Parser TypeExpr := do
  let first ← arrayType g
  iterate (intersectionStep g) first

def unionStep (g : Grammar) (left : TypeExpr) : Parser (ForInStep TypeExpr) := do
  if ← accept .pipe then
    let right ← intersectionType g
    return .yield ⟨.union left right, left.location⟩
  else return .done left

/-- Intersection types joined by `|`, to the left. -/
def unionType (g : Grammar) : Parser TypeExpr := do
  let first ← intersectionType g
  iterate (unionStep g) first

/-- The generic parameters that a declaration may have after its name: `<T, U>`. -/
def genericParams : Parser (List Ident) := do
  if ← accept .leftArrow then
    let params ← commaSeparated (name "a generic parameter name")
    let _ ← expect .rightArrow "'>' to close the generic parameters"
    return params
  else return []

/-- One parameter: a name, preceded by dots if it takes the remaining arguments, and its type. -/
def param (g : Grammar) : Parser Param := do
  let place ← here
  let isRest ← accept .tripleDot
  let ident ← name "a parameter name"
  let _ ← expect .colon "':' after parameter name"
  let type ← g.typeExpr
  return ⟨ident, type, isRest, place⟩

/-- One more parameter, unless the list is closed or ends with one for the remaining arguments. -/
def paramStep (g : Grammar) (ps : List Param) : Parser (ForInStep (List Param)) := do
  if ← check .closeParen then return .done ps
  match ps.getLast? with
  | some last =>
    if last.isRest then broken .restLast last.location
  | none => pure ()
  let ps := ps ++ [← param g]
  if ← accept .comma then return .yield ps else return .done ps

/-- Parameters in parentheses, of which only the last may take the remaining arguments. -/
def params (g : Grammar) : Parser (List Param) := do
  let _ ← expect .openParen "'(' to open the parameter list"
  let ps ← iterate (paramStep g) []
  let _ ← expect .closeParen "')' to close the parameter list"
  return ps

end Grammar
end ScriptFront
