import ScriptFront.Text.CharClass
import ScriptFront.Token.Basic
import ScriptFront.Token.LexicalError

/-!
The lexical grammar: what stands at the start of a text. Everything here is a function of the first
character and the characters after it, and looks at most two characters past what it takes.
-/

namespace ScriptFront

open Text

/--
What stands at the start of a text. Blanks and comments hold neither a token nor a fault, a faulty
spelling holds a fault, and a character outside the language holds both. The width counts the
characters after the first that belong to it.
-/
structure Lexeme where
  token : Option (TokenKind × String)
  fault : Option LexicalFault
  width : Nat
  deriving DecidableEq, Repr, Inhabited

namespace Lexeme

/-- A stretch of text without meaning: a blank or a comment. -/
def gap (width : Nat) : Lexeme := ⟨none, none, width⟩

/-- A well-spelled token. -/
def ofToken (kind : TokenKind) (text : List Char) (width : Nat) : Lexeme :=
  ⟨some (kind, .ofList text), none, width⟩

/-- A fault that leaves no token behind. -/
def ofFault (fault : LexicalFault) (width : Nat) : Lexeme := ⟨none, some fault, width⟩

/-- Whether a text starts with a character of a class. -/
def startsWith (p : Char → Bool) : List Char → Bool
  | [] => false
  | c :: _ => p c

/-- The digits of the fraction after a point; a point counts only if a digit follows it. -/
def fraction : List Char → List Char
  | '.' :: cs => if startsWith Char.isDigit cs then '.' :: cs.takeWhile Char.isDigit else []
  | _ => []

/--
A number: digits with at most one point among them. A missing digit before the point is written as
`0`. A number that runs straight into a word is a fault.
-/
def number (first : Char) (cs : List Char) : Lexeme :=
  let digits := cs.takeWhile Char.isDigit
  let tail := if first = '.' then digits else digits ++ fraction (cs.drop digits.length)
  let text := (if first = '.' then ['0', '.'] else [first]) ++ tail
  let rest := cs.drop tail.length
  if startsWith startsWord rest then
    let word := rest.takeWhile continuesWord
    ofFault (.invalidNumber (.ofList (text ++ word))) (tail.length + word.length)
  else
    ofToken .number text tail.length

/-- The kind of a word: a word-shaped literal, a reserved word, or else an identifier. -/
def wordKind (w : String) : TokenKind :=
  if w = "true" ∨ w = "false" then .boolean
  else if w = "null" then .null
  else if w = "undefined" then .undefined
  else if w = "NaN" then .nan
  else match Keyword.ofWord? w with
    | some k => .keyword k
    | none => .identifier

/-- A word takes every letter, digit and underscore that follows. -/
def word (first : Char) (cs : List Char) : Lexeme :=
  let tail := cs.takeWhile continuesWord
  ofToken (wordKind (.ofList (first :: tail))) (first :: tail) tail.length

/-- The character that a backslash and a character stand for. -/
def unescape : Char → Char
  | 'n' => '\n'
  | 't' => '\t'
  | 'r' => '\r'
  | c => c

/--
The content of a string up to its closing quote, and the number of characters taken. There is no
content if a line break or the end of the text comes first; the line break is not taken.
-/
def stringBody (quote : Char) : List Char → Option (List Char) × Nat
  | [] => (none, 0)
  | c :: cs =>
    if c = '\n' then (none, 0)
    else if c = quote then (some [], 1)
    else if c = '\\' then
      match cs with
      | [] => (none, 1)
      | e :: es =>
        let (content, width) := stringBody quote es
        (content.map (unescape e :: ·), width + 2)
    else
      let (content, width) := stringBody quote cs
      (content.map (c :: ·), width + 1)

/-- A string ends at the quote that opened it and stays on its line, escaped line breaks apart. -/
def string (quote : Char) (cs : List Char) : Lexeme :=
  match stringBody quote cs with
  | (some content, width) => ofToken .string content width
  | (none, width) => ofFault .unterminatedString width

/-- The number of characters up to and including the end of a block comment, if it ends. -/
def commentWidth : List Char → Option Nat
  | [] => none
  | '*' :: '/' :: _ => some 2
  | _ :: cs => (commentWidth cs).map (· + 1)

/-- A block comment, from its second character on. -/
def blockComment (cs : List Char) : Lexeme :=
  match commentWidth (cs.drop 1) with
  | some width => gap (width + 1)
  | none => ofFault .unterminatedComment cs.length

/-- A comment that lasts to the end of its line. -/
def lineComment (cs : List Char) : Lexeme :=
  gap (cs.takeWhile (· != '\n')).length

/-- Operators and punctuation. A spelling stands before those that it extends. -/
def operators : List (List Char × TokenKind) :=
  [(['.', '.', '.'], .tripleDot), (['.', '.'], .doubleDot), (['.'], .dot),
   (['&', '&'], .doubleAmpersand), (['&'], .ampersand),
   (['|', '>'], .pipeForward), (['|', '|'], .doublePipe), (['|'], .pipe),
   (['+', '+'], .doublePlus), (['+', '='], .plusEqual), (['+'], .plus),
   (['-', '-'], .doubleMinus), (['-', '='], .minusEqual), (['-'], .minus),
   (['*', '='], .starEqual), (['*'], .star), (['/', '='], .fwdSlashEqual), (['/'], .fwdSlash),
   (['=', '='], .doubleEqual), (['=', '>'], .thickArrow), (['='], .equal),
   (['!', '='], .bangEqual), (['!'], .bang),
   (['<', '='], .leftArrowEqual), (['<'], .leftArrow),
   (['>', '='], .rightArrowEqual), (['>'], .rightArrow),
   (['('], .openParen), ([')'], .closeParen), (['{'], .openCurly), (['}'], .closeCurly),
   (['['], .openSquare), ([']'], .closeSquare), ([','], .comma), ([';'], .semicolon),
   ([':'], .colon), (['?'], .question), (['%'], .percent), (['^'], .upArrow),
   (['~'], .complement)]

/-- The longest operator that a text starts with; any other character is unknown. -/
def operator (c : Char) (cs : List Char) : Lexeme :=
  match operators.find? fun o => o.1.isPrefixOf (c :: cs) with
  | some (text, kind) => ofToken kind text (text.length - 1)
  | none => ⟨some (.unknown, .ofList [c]), some (.unknownCharacter c), 0⟩

/-- What stands at the start of the text that begins with a given character. -/
def read (c : Char) (cs : List Char) : Lexeme :=
  if isBlank c then gap 0
  else if c.isDigit || (c == '.' && startsWith Char.isDigit cs) then number c cs
  else if startsWord c then word c cs
  else if c == '"' || c == '\'' then string c cs
  else if c == '/' && startsWith (· == '/') cs then lineComment cs
  else if c == '/' && startsWith (· == '*') cs then blockComment cs
  else operator c cs

/-- Characters where a token may plausibly start again after a fault. -/
def resumesAt (c : Char) : Bool :=
  isBlank c || isAlphanumeric c || ['"', '\'', '{', '}', '(', ')', '[', ']', ';'].contains c

/-- The width with the characters that a fault makes the reader skip. -/
def reach (l : Lexeme) (cs : List Char) : Nat :=
  match l.fault with
  | some _ => l.width + ((cs.drop l.width).takeWhile fun c => !resumesAt c).length
  | none => l.width

end Lexeme
end ScriptFront
