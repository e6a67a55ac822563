import ScriptFront.Diagnostic.Kind
import ScriptFront.Modifier.Basic
import ScriptFront.Text.Location
import ScriptFront.Token.Basic

/-!
What can be wrong with the grammar of a program.
-/

namespace ScriptFront

/-- Rules beside the shape of the grammar that a program can break. -/
inductive GrammarRule
  | importsFirst
  | oneDefaultExport
  | throwsNew
  | hasCatch
  | oneDefaultCase
  | oneDefaultArm
  | oneConstructor
  | constructorReturnsNothing
  | constructorNotAsync
  | methodNotReadonly
  | operatorNotAsync
  | operatorNotReadonly
  | operatorNotDefault
  | operatorOneParameter
  | restLast
  | assignableTarget
  | assignableOperand (operator : String)
  | numberLiteral (text : String)
  deriving DecidableEq, Repr, Inhabited

/-- The wording for a broken rule. -/
def GrammarRule.message : GrammarRule → String
  | importsFirst => "Import declarations must appear before any other statement"
  | oneDefaultExport => "Only one default export is allowed per file"
  | throwsNew => "throw must be followed by a new expression"
  | hasCatch => "Expected a catch clause"
  | oneDefaultCase => "A switch can only have one default case"
  | oneDefaultArm => "A match expression can only have one default arm"
  | oneConstructor => "A class can only have one constructor."
  | constructorReturnsNothing => "A constructor cannot declare a return type"
  | constructorNotAsync => "Constructors can't be asynchronous"
  | methodNotReadonly => "Class methods can't be readonly"
  | operatorNotAsync => "Operator overloads can't be asynchronous"
  | operatorNotReadonly => "Operator overloads can't be readonly"
  | operatorNotDefault => "Operator overloads can't have the default modifier"
  | operatorOneParameter => "An operator overload takes at most one parameter"
  | restLast => "A rest parameter must be last in a parameter list."
  | assignableTarget => "Invalid assignment target"
  | assignableOperand operator => "Invalid operand for '" ++ operator ++ "'"
  | numberLiteral text => "Invalid number '" ++ text ++ "'"

/-- A fault in the grammar of a program. -/
inductive SyntaxFault
  | unexpected (found : Token) (expected : String)
  | broken (rule : GrammarRule)
  | modifierConflict (modifier conflict : Modifier)
  | duplicateModifier (modifier : Modifier)
  | recursionLimit (limit : Nat)
  deriving DecidableEq, Repr, Inhabited

namespace SyntaxFault

/-- The wording of a fault. -/
def message : SyntaxFault → String
  | unexpected found expected =>
    "Unexpected token " ++ found.display ++ ", expected " ++ expected
  | broken rule => rule.message
  | modifierConflict modifier conflict =>
    "Modifier '" ++ modifier.name ++ "' conflicts with '" ++ conflict.name ++ "'"
  | duplicateModifier modifier => "Duplicate modifier '" ++ modifier.name ++ "'"
  | recursionLimit limit =>
    "Maximum recursion depth exceeded (" ++ toString limit
      ++ "). Expression or statement nesting is too deep."

/-- The kind under which a fault is reported. -/
def kind : SyntaxFault → DiagnosticKind
  | unexpected .. => .unexpectedToken
  | broken _ => .malformed
  | modifierConflict .. | duplicateModifier _ => .modifierConflict
  | recursionLimit _ => .recursionLimit

end SyntaxFault

/-- A fault and the position it is reported at. -/
structure SyntaxError where
  fault : SyntaxFault
  location : Location
  deriving DecidableEq, Repr, Inhabited

end ScriptFront
