import ScriptFront.Tree.Expr
import ScriptFront.Typing.Ty

/-!
The types that operators make of the types of their operands.
-/

namespace ScriptFront
namespace BinaryOp

/-- Arithmetic on numbers: equal types stay, `NaN` wins over the rest, and all else is `float`. -/
def arithmetic (l r : Ty) : Option Ty :=
  if !l.isNumeric || !r.isNumeric then none
  else if l.same r then some l
  else if l.same .nan || r.same .nan then some .nan
  else some .float

/--
The type of an operation on operands of known types, if it is defined for them. A sum with a string
on either side is a string, and bit operations are on integers.
-/
def result (op : BinaryOp) (l r : Ty) : Option Ty :=
  match op with
  | .equal | .notEqual | .less | .lessEqual | .greater | .greaterEqual => some .bool
  | .add => if l.same .string || r.same .string then some .string else arithmetic l r
  | .subtract | .multiply | .divide | .modulo => arithmetic l r
  | .bitAnd | .bitOr | .bitXor | .shiftLeft | .shiftRight | .unsignedShiftRight =>
    if l.same .int && r.same .int then some .int else none

end BinaryOp

/-- The type of a literal; other expressions have none that could be told from their form. -/
def Expr.literalType (e : Expr) : Option Ty :=
  match e.form with
  | .number _ isFloat => some (if isFloat then .float else .int)
  | .string _ => some .string
  | .boolean _ => some .bool
  | .null => some .null
  | .undefined => some .undefined
  | .nan => some .nan
  | _ => none

end ScriptFront
