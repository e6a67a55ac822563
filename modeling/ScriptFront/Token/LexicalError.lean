import ScriptFront.Diagnostic.Kind
import ScriptFront.Text.Location

/-!
What can be wrong with the text of a program before its grammar is looked at.
-/

namespace ScriptFront

/-- A fault in the spelling of a token or comment. -/
inductive LexicalFault
  | unterminatedString
  | unterminatedComment
  | invalidNumber (text : String)
  | unknownCharacter (c : Char)
  deriving DecidableEq, Repr, Inhabited

namespace LexicalFault

/-- The wording of a fault. -/
def message : LexicalFault → String
  | unterminatedString => "Unterminated string literal"
  | unterminatedComment => "Unterminated block comment"
  | invalidNumber text => "Invalid number literal '" ++ text ++ "'"
  | unknownCharacter c => "Unrecognized character '" ++ c.toString ++ "'"

/-- The kind under which a fault is reported. -/
def kind : LexicalFault → DiagnosticKind
  | unterminatedString => .unterminatedString
  | unterminatedComment => .unterminatedComment
  | invalidNumber _ => .invalidNumber
  | unknownCharacter _ => .unknownToken

end LexicalFault

/-- A fault and the position where the faulty token or comment starts. -/
structure LexicalError where
  fault : LexicalFault
  location : Location
  deriving DecidableEq, Repr, Inhabited

end ScriptFront
