import ScriptFront.Grammar.Level
import ScriptFront.Number.Decimal

/-!
The grammar of patterns, and the numbers in them.
-/

namespace ScriptFront
namespace Grammar

open ScriptFront.Parser

/-- The value of a number token, and whether it is written with a point. -/
def numberValue (t : Token) : Parser (Binary64 × Bool) :=
  match Decimal.parse? t.lexeme with
  | some value => pure (value, t.lexeme.toList.contains '.')
  | none => broken (.numberLiteral t.lexeme) t.location

/-- A number that may have a minus in front. -/
def signedNumber : Parser (Binary64 × Bool) := do
  let negative ← accept .minus
  let t ← expect .number "a number"
  let (value, isFloat) ← numberValue t
  return (if negative then value.neg else value, isFloat)

def pathStep (path : List String) : Parser (ForInStep (List String)) := do
  if ← accept .dot then return .yield (path ++ [(← name "a member name").text])
  else return .done path

/-- The names after the first one of a path. -/
def memberPath (first : String) : Parser (List String) := iterate pathStep [first]

/-- A number, or a range between two numbers. -/
def numberPattern : Parser PatternForm := do
  let (first, isFloat) ← signedNumber
  if ← accept .doubleDot then
    let (last, _) ← signedNumber
    return .range first last
  else return .literal (.number first isFloat)

/-- A pattern without guard. -/
def simplePattern : Parser PatternForm := do
  let t ← peek
  match t.kind with
  | .keyword .kwDefault => let _ ← advance; return .wildcard
  | .keyword .kwAs =>
    let _ ← advance
    return .binding (← name "a name after 'as'").text
  | .number | .minus => numberPattern
  | .string => let _ ← advance; return .literal (.string t.lexeme)
  | .boolean => let _ ← advance; return .literal (.boolean (t.lexeme == "true"))
  | .null => let _ ← advance; return .literal .null
  | .identifier =>
    let _ ← advance
    match ← memberPath t.lexeme with
    | [single] => return .identifier single
    | path => return .member path
  | _ => unexpected t "a pattern"

/--
A pattern. Guards are for match arms only, as the colon that opens one ends the label of a case.
-/
def pattern (g : Grammar) (guards : Bool) : Parser Pattern := do
  let place ← here
  let p : Pattern := ⟨← simplePattern, place⟩
  if guards then
    if ← accept .colon then return ⟨.guarded p (← g.expression), place⟩
  return p

end Grammar
end ScriptFront
