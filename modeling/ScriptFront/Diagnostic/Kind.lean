/-!
The closed vocabulary of what can be reported about a program.
-/

namespace ScriptFront

/-- Errors make a phase fail; warnings never do. -/
inductive Severity
  | error
  | warning
  deriving DecidableEq, Repr, Inhabited

/-- The kinds of diagnostics of all phases. -/
inductive DiagnosticKind
  -- text and grammar
  | malformed | unexpectedToken | unterminatedString | unterminatedComment | invalidNumber
  | unknownToken | modifierConflict | recursionLimit
  -- meaning
  | type | unknownType | reference | redeclaration | functionNotFound | argumentCountMismatch
  | invalidAssignment | importNotFound | circularImport | importFailed | missingExport
  -- a phase as a whole
  | programLexing | programParsing | programAnalysis
  -- warnings
  | unusedExpression | unusedDeclaration | unusedParameter | unreachableCode | unusedImport
  deriving DecidableEq, Repr, Inhabited

namespace DiagnosticKind

/-- The severity of a kind of diagnostic. -/
def severity : DiagnosticKind → Severity
  | unusedExpression | unusedDeclaration | unusedParameter | unreachableCode | unusedImport =>
    .warning
  | _ => .error

/-- The name under which a kind is reported. -/
def name : DiagnosticKind → String
  | malformed => "SyntaxError"
  | unexpectedToken => "UnexpectedTokenError"
  | unterminatedString => "UnterminatedStringError"
  | unterminatedComment => "UnterminatedCommentError"
  | invalidNumber => "InvalidNumberError"
  | unknownToken => "UnknownTokenError"
  | modifierConflict => "ModifierConflictError"
  | recursionLimit => "RecursionLimitError"
  | type => "TypeError"
  | unknownType => "UnknownTypeError"
  | reference => "ReferenceError"
  | redeclaration => "RedeclarationError"
  | functionNotFound => "FunctionNotFoundError"
  | argumentCountMismatch => "ArgumentCountMismatchError"
  | invalidAssignment => "InvalidAssignmentError"
  | importNotFound => "ImportNotFoundError"
  | circularImport => "CircularImportError"
  | importFailed => "ImportError"
  | missingExport => "MissingExportError"
  | programLexing => "ProgramLexingError"
  | programParsing => "ProgramParsingError"
  | programAnalysis => "ProgramAnalysisError"
  | unusedExpression => "UnusedExpressionWarning"
  | unusedDeclaration => "UnusedDeclarationWarning"
  | unusedParameter => "UnusedParameterWarning"
  | unreachableCode => "UnreachableCodeWarning"
  | unusedImport => "UnusedImportWarning"

/-- Every kind once. -/
def all : List DiagnosticKind :=
  [malformed, unexpectedToken, unterminatedString, unterminatedComment, invalidNumber, unknownToken,
   modifierConflict, recursionLimit, type, unknownType, reference, redeclaration, functionNotFound,
   argumentCountMismatch, invalidAssignment, importNotFound, circularImport, importFailed,
   missingExport, programLexing, programParsing, programAnalysis, unusedExpression,
   unusedDeclaration, unusedParameter, unreachableCode, unusedImport]

/-- The kind with a given name. -/
def ofName? (s : String) : Option DiagnosticKind :=
  all.find? fun k => k.name == s

end DiagnosticKind
end ScriptFront
