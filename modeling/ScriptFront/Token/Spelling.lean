import ScriptFront.Token.Lexeme

/-!
How tokens are written: which lexemes a kind of token can have, the texts that stand for a token, and
a printer that chooses one of them. Strings and numbers alone have more than one text: either quote
may enclose a string, most of its characters may be written with or without a backslash, and a number
may start with its point.
-/

namespace ScriptFront

open Text

/-- The spelling of an operator or a punctuation mark. -/
def TokenKind.symbol? : TokenKind → Option String
  | openParen => some "(" | closeParen => some ")"
  | openCurly => some "\x7b" | closeCurly => some "\x7d"
  | openSquare => some "[" | closeSquare => some "]"
  | semicolon => some ";" | comma => some "," | colon => some ":" | question => some "?"
  | dot => some "." | doubleDot => some ".." | tripleDot => some "..."
  | plus => some "+" | doublePlus => some "++" | plusEqual => some "+="
  | minus => some "-" | doubleMinus => some "--" | minusEqual => some "-="
  | star => some "*" | starEqual => some "*="
  | fwdSlash => some "/" | fwdSlashEqual => some "/=" | percent => some "%"
  | equal => some "=" | doubleEqual => some "==" | thickArrow => some "=>"
  | bang => some "!" | bangEqual => some "!="
  | leftArrow => some "<" | leftArrowEqual => some "<="
  | rightArrow => some ">" | rightArrowEqual => some ">="
  | ampersand => some "&" | doubleAmpersand => some "&&"
  | pipe => some "|" | doublePipe => some "||" | pipeForward => some "|>"
  | upArrow => some "^" | complement => some "~"
  | identifier | keyword _ | number | string | boolean | null | undefined | nan | unknown | eof =>
    none

/-- A letter or an underscore, and then letters, digits and underscores. -/
def IsWord (cs : List Char) : Prop :=
  ∃ first tail, cs = first :: tail ∧ startsWord first = true ∧ ∀ c ∈ tail, continuesWord c = true

/-- Digits and nothing else, at least one. -/
def IsDigits (cs : List Char) : Prop := cs ≠ [] ∧ ∀ c ∈ cs, c.isDigit = true

/-- Words that are no identifiers: the literals spelled as words, and the reserved words. -/
def IsReserved (w : String) : Prop :=
  w ∈ ["true", "false", "null", "undefined", "NaN"] ∨ ∃ k : Keyword, k.word = w

/-- The lexemes that each kind of token has, the end of file and unknown characters apart. -/
inductive WellSpelled : TokenKind → String → Prop
  | identifier {w : String} (word : IsWord w.toList) (free : ¬ IsReserved w) :
      WellSpelled .identifier w
  | keyword (k : Keyword) : WellSpelled (.keyword k) k.word
  | true_ : WellSpelled .boolean "true"
  | false_ : WellSpelled .boolean "false"
  | null : WellSpelled .null "null"
  | undefined : WellSpelled .undefined "undefined"
  | nan : WellSpelled .nan "NaN"
  | integer {digits : List Char} (h : IsDigits digits) : WellSpelled .number (.ofList digits)
  | decimal {whole fraction : List Char} (h : IsDigits whole) (h' : IsDigits fraction) :
      WellSpelled .number (.ofList (whole ++ '.' :: fraction))
  | string (content : String) : WellSpelled .string content
  | symbol {kind : TokenKind} {text : String} (known : kind.symbol? = some text) :
      WellSpelled kind text

/-- What may stand between two quotes, and the content that it spells. -/
inductive Quoted (quote : Char) : List Char → List Char → Prop
  | nil : Quoted quote [] []
  | plain {c : Char} {body content : List Char} (inside : c ≠ quote) (unbroken : c ≠ '\n')
      (h : c ≠ '\\') (rest : Quoted quote body content) : Quoted quote (c :: body) (c :: content)
  | escaped (c : Char) {body content : List Char} (rest : Quoted quote body content) :
      Quoted quote ('\\' :: c :: body) (Lexeme.unescape c :: content)

/-- What a token is, wherever it stands. -/
def Token.content (t : Token) : TokenKind × String := (t.kind, t.lexeme)

/-- The characters that open and close strings. -/
def IsQuote (c : Char) : Prop := c = '"' ∨ c = '\''

/-- The texts that a token may stand for. -/
def Token.HasText (t : Token) (text : List Char) : Prop :=
  match t.kind with
  | .string => ∃ quote body, IsQuote quote ∧ text = quote :: (body ++ [quote]) ∧
      Quoted quote body t.lexeme.toList
  | .number => text = t.lexeme.toList ∨ text.head? = some '.' ∧ '0' :: text = t.lexeme.toList
  | _ => text = t.lexeme.toList

/-- The text that a character has between double quotes. -/
def escape : Char → List Char
  | '\\' => ['\\', '\\']
  | '"' => ['\\', '"']
  | '\n' => ['\\', 'n']
  | c => [c]

/-- The text that the printer chooses for a token: strings are put in double quotes. -/
def spell (kind : TokenKind) (lexeme : String) : List Char :=
  if kind = .string then '"' :: (lexeme.toList.flatMap escape ++ ['"']) else lexeme.toList

/-- Kinds and lexemes as a text, separated by single blanks. -/
def printTokens (ts : List (TokenKind × String)) : String :=
  .ofList ([' '].intercalate (ts.map fun t => spell t.1 t.2))

end ScriptFront
