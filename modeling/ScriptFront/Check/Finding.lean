import ScriptFront.Diagnostic.Kind
import ScriptFront.Text.Location
import ScriptFront.Typing.Ty

/-!
What can be found wrong with the meaning of a program.
-/

namespace ScriptFront

/-- Why a write is refused. -/
inductive WriteFault
  | constant (name : String)
  | notVariable (name : String)
  | readOnly (name : String)
  deriving DecidableEq, Repr, Inhabited

def WriteFault.message : WriteFault → String
  | constant name => "Cannot assign to '" ++ name ++ "' because it is a constant"
  | notVariable name => "Cannot assign to '" ++ name ++ "' because it is not a variable"
  | readOnly name => "Cannot assign to '" ++ name ++ "' because it is a read-only property"

/-- Why a file that exists cannot be imported. -/
inductive ImportFault
  | unreadable (reason : String)
  | syntaxErrors
  | analysisFailed
  deriving DecidableEq, Repr, Inhabited

def ImportFault.message : ImportFault → String
  | unreadable reason => reason
  | syntaxErrors => "the file contains syntax errors"
  | analysisFailed => "the file failed semantic analysis"

/-- The number of arguments that a function takes. -/
inductive Arity
  | exactly (count : Nat)
  | atLeast (count : Nat)
  deriving DecidableEq, Repr, Inhabited

def Arity.display : Arity → String
  | exactly n => toString n
  | atLeast n => "at least " ++ toString n

/-- An error in names, types or imports. -/
inductive SemanticFault
  | redeclaration (name : String)
  | undefinedReference (name : String)
  | thisOutsideClass
  | notAClass (name : String)
  | functionNotFound (name : String)
  | unknownType (name : String)
  | typeMismatch (expected found : Ty)
  | argumentCount (name : String) (expected : Arity) (found : Nat)
  | invalidAssignment (fault : WriteFault)
  | importNotFound (source : String)
  | circularImport (chain : List String)
  | importFailed (source : String) (fault : ImportFault)
  | missingExport (name source : String)
  | exitGlobalScope
  deriving Inhabited

namespace SemanticFault

def message : SemanticFault → String
  | redeclaration name => "Duplicate declaration of '" ++ name ++ "'"
  | undefinedReference name => "'" ++ name ++ "' is not defined"
  | thisOutsideClass => "'this' can only be used inside a class"
  | notAClass name => "'" ++ name ++ "' is not a class"
  | functionNotFound name => "Function '" ++ name ++ "' is not defined"
  | unknownType name => "Unknown type '" ++ name ++ "'"
  | typeMismatch expected found =>
    "Type '" ++ found.display ++ "' is not assignable to type '" ++ expected.display ++ "'"
  | argumentCount name expected found =>
    "Function '" ++ name ++ "' expects " ++ expected.display ++ " argument(s), got "
      ++ toString found
  | invalidAssignment fault => fault.message
  | importNotFound source => "Cannot find module '" ++ source ++ "'"
  | circularImport chain => "Circular import detected: " ++ " -> ".intercalate chain
  | importFailed source fault => "Failed to import '" ++ source ++ "': " ++ fault.message
  | missingExport name source => "Module '" ++ source ++ "' has no export named '" ++ name ++ "'"
  | exitGlobalScope => "Cannot exit the global scope"

def kind : SemanticFault → DiagnosticKind
  | redeclaration _ => .redeclaration
  | undefinedReference _ | thisOutsideClass | notAClass _ => .reference
  | functionNotFound _ => .functionNotFound
  | unknownType _ => .unknownType
  | typeMismatch .. => .type
  | argumentCount .. => .argumentCountMismatch
  | invalidAssignment _ => .invalidAssignment
  | importNotFound _ => .importNotFound
  | circularImport _ => .circularImport
  | importFailed .. => .importFailed
  | missingExport .. => .missingExport
  | exitGlobalScope => .malformed

end SemanticFault

/-- Something that is allowed and most likely not meant. -/
inductive Warning
  | unusedExpression
  | unusedDeclaration (name : String)
  | unusedParameter (name : String)
  | unreachableCode
  | unusedImport (name : String)
  deriving DecidableEq, Repr, Inhabited

namespace Warning

def message : Warning → String
  | unusedExpression => "Expression result is unused"
  | unusedDeclaration name => "'" ++ name ++ "' is declared but never used"
  | unusedParameter name => "Parameter '" ++ name ++ "' is never used"
  | unreachableCode => "Unreachable code detected"
  | unusedImport name => "'" ++ name ++ "' is imported but never used"

def kind : Warning → DiagnosticKind
  | unusedExpression => .unusedExpression
  | unusedDeclaration _ => .unusedDeclaration
  | unusedParameter _ => .unusedParameter
  | unreachableCode => .unreachableCode
  | unusedImport _ => .unusedImport

end Warning

/-- An error with its place in a file. -/
structure SemanticError where
  fault : SemanticFault
  location : Location
  deriving Inhabited

/-- An error or a warning with its place in a file. -/
inductive Finding
  | error (e : SemanticError)
  | warning (w : Warning) (place : Location)
  deriving Inhabited

namespace Finding

def isError : Finding → Bool
  | error _ => true
  | warning .. => false

def message : Finding → String
  | error e => e.fault.message
  | warning w _ => w.message

def kind : Finding → DiagnosticKind
  | error e => e.fault.kind
  | warning w _ => w.kind

def location : Finding → Location
  | error e => e.location
  | warning _ place => place

end Finding
end ScriptFront
