import ScriptFront.Text.Location
import ScriptFront.Token.Keyword

/-!
Tokens: what the grammar reads.
-/

namespace ScriptFront

/-- The kinds of tokens. The text of words, numbers and strings is the token's lexeme. -/
inductive TokenKind
  | identifier
  | keyword (k : Keyword)
  | number | string | boolean | null | undefined | nan
  | openParen | closeParen | openCurly | closeCurly | openSquare | closeSquare
  | semicolon | comma | colon | question | dot | doubleDot | tripleDot
  | plus | doublePlus | plusEqual | minus | doubleMinus | minusEqual | star | starEqual
  | fwdSlash | fwdSlashEqual | percent | equal | doubleEqual | thickArrow | bang | bangEqual
  | leftArrow | leftArrowEqual | rightArrow | rightArrowEqual
  | ampersand | doubleAmpersand | pipe | doublePipe | pipeForward | upArrow | complement
  | unknown
  | eof
  deriving DecidableEq, Repr, Inhabited

namespace TokenKind

/-- The name of a token kind in token listings; a reserved word shows which word it is. -/
def name : TokenKind → String
  | identifier => "Identifier"
  | keyword k => "Keyword(" ++ k.word.capitalize ++ ")"
  | number => "Number" | string => "String" | boolean => "Boolean"
  | null => "Null" | undefined => "Undefined" | nan => "NaN"
  | openParen => "OpenParen" | closeParen => "CloseParen"
  | openCurly => "OpenCurly" | closeCurly => "CloseCurly"
  | openSquare => "OpenSquare" | closeSquare => "CloseSquare"
  | semicolon => "Semicolon" | comma => "Comma" | colon => "Colon" | question => "Question"
  | dot => "Dot" | doubleDot => "DoubleDot" | tripleDot => "TripleDot"
  | plus => "Plus" | doublePlus => "DoublePlus" | plusEqual => "PlusEqual"
  | minus => "Minus" | doubleMinus => "DoubleMinus" | minusEqual => "MinusEqual"
  | star => "Star" | starEqual => "StarEqual"
  | fwdSlash => "FwdSlash" | fwdSlashEqual => "FwdSlashEqual" | percent => "Percent"
  | equal => "Equal" | doubleEqual => "DoubleEqual" | thickArrow => "ThickArrow"
  | bang => "Bang" | bangEqual => "BangEqual"
  | leftArrow => "LeftArrow" | leftArrowEqual => "LeftArrowEqual"
  | rightArrow => "RightArrow" | rightArrowEqual => "RightArrowEqual"
  | ampersand => "Ampersand" | doubleAmpersand => "DoubleAmpersand"
  | pipe => "Pipe" | doublePipe => "DoublePipe" | pipeForward => "PipeForward"
  | upArrow => "UpArrow" | complement => "Complement"
  | unknown => "Unknown" | eof => "Eof"

end TokenKind

/-- A token with the position of its first character. -/
structure Token where
  kind : TokenKind
  lexeme : String
  location : Location
  deriving DecidableEq, Repr, Inhabited

namespace Token

/-- The token that ends every token list. -/
def endOfFile (here : Location) : Token :=
  ⟨.eof, "", here⟩

/-- A token as messages name it: strings in double quotes, all else in single quotes. -/
def display (t : Token) : String :=
  match t.kind with
  | .eof => "end of file"
  | .string => "\"" ++ t.lexeme ++ "\""
  | _ => "'" ++ t.lexeme ++ "'"

/-- Whether a token is a given reserved word. -/
def isKeyword (t : Token) (k : Keyword) : Bool :=
  t.kind == .keyword k

end Token
end ScriptFront
