import ScriptFront.Grammar.Fault
import ScriptFront.Tree.Type

/-!
The state of a parse and the steps that all parsers are made of. A parser that fails leaves the
cursor where it stood, so that whoever handles the fault knows what was read.
-/

namespace ScriptFront

/-- The position of an end of file, and the tokens behind it. -/
structure Ending where
  location : Location
  behind : List Token
  deriving DecidableEq, Repr, Inhabited

/-- The token some places behind an end of file; past the last token there is the last one. -/
def Ending.peekAt (e : Ending) : Nat → Token
  | 0 => .endOfFile e.location
  | n + 1 => (e.behind[n]?.or e.behind.getLast?).getD (.endOfFile e.location)

/--
The tokens left to read, none of which is an end of file, the first end of file with what stands
behind it, and how deeply the construct being read is nested.
-/
structure Cursor where
  rest : List Token
  stop : Ending
  depth : Nat
  deriving DecidableEq, Repr, Inhabited

namespace Cursor

/-- Token lists end with an end of file; one that does not gets it, where its last token is. -/
def closed (ts : List Token) : List Token :=
  if ts.getLast?.any (·.kind == .eof) then ts
  else ts ++ [.endOfFile ((ts.getLast?.map (·.location)).getD .nowhere)]

/-- The cursor at the start of a token list. -/
def ofTokens (ts : List Token) : Cursor where
  rest := ts.takeWhile fun t => t.kind != .eof
  stop := {
    location := match ts.find? fun t => t.kind == .eof with
      | some t => t.location
      | none => (ts.getLast?.map (·.location)).getD .nowhere
    behind := ((closed ts).dropWhile fun t => t.kind != .eof).tail }
  depth := 0

/-- The token some places ahead, which may stand behind the end of file. -/
def peekAt (s : Cursor) (n : Nat) : Token :=
  s.rest[n]?.getD (s.stop.peekAt (n - s.rest.length))

/-- The next token. -/
def peek (s : Cursor) : Token := s.peekAt 0

def atEnd (s : Cursor) : Bool := s.rest.isEmpty

/-- The cursor after the next token; the end of file is never passed. -/
def advance (s : Cursor) : Cursor := { s with rest := s.rest.tail }

end Cursor

/-- A parser reads tokens and yields a value or fails. -/
abbrev Parser := EStateM SyntaxError Cursor

namespace Parser

variable {α : Type}

def peek : Parser Token := fun s => .ok s.peek s

def peekAt (n : Nat) : Parser Token := fun s => .ok (s.peekAt n) s

def atEnd : Parser Bool := fun s => .ok s.atEnd s

/-- The position of the next token. -/
def here : Parser Location := fun s => .ok s.peek.location s

/-- Reads any token. -/
def advance : Parser Token := fun s => .ok s.peek s.advance

def fail (fault : SyntaxFault) (place : Location) : Parser α := fun s => .error ⟨fault, place⟩ s

/-- Fails because a rule is broken. -/
def broken (rule : GrammarRule) (place : Location) : Parser α := fail (.broken rule) place

/-- Fails at a token that does not fit. -/
def unexpected (t : Token) (expected : String) : Parser α :=
  fail (.unexpected t expected) t.location

/-- Whether the next token is of a kind. -/
def check (k : TokenKind) : Parser Bool := fun s => .ok (s.peek.kind == k) s

def checkKeyword (k : Keyword) : Parser Bool := check (.keyword k)

/-- Reads the next token if it is of a kind, and tells whether it was. -/
def accept (k : TokenKind) : Parser Bool := fun s =>
  if s.peek.kind == k then .ok true s.advance else .ok false s

def acceptKeyword (k : Keyword) : Parser Bool := accept (.keyword k)

/-- Reads a token of a kind. -/
def expect (k : TokenKind) (expected : String) : Parser Token := fun s =>
  if s.peek.kind == k then .ok s.peek s.advance
  else .error ⟨.unexpected s.peek expected, s.peek.location⟩ s

def expectKeyword (k : Keyword) (expected : String) : Parser Token := expect (.keyword k) expected

/-- Reads a name. -/
def name (expected : String) : Parser Ident := do
  let t ← expect .identifier expected
  return ⟨t.lexeme, t.location⟩

/-- Runs a test on the tokens ahead without reading them. A test that fails has the answer no. -/
def foresee (test : Parser Bool) : Parser Bool := fun s =>
  match test s with
  | .ok answer _ => .ok answer s
  | .error _ _ => .ok false s

/-- Reads one construct a level deeper, unless the nesting limit is reached. -/
def nested (limit : Nat) (p : Parser α) : Parser α := fun s =>
  if limit ≤ s.depth then .error ⟨.recursionLimit limit, s.peek.location⟩ s
  else match p { s with depth := s.depth + 1 } with
    | .ok a s' => .ok a { s' with depth := s'.depth - 1 }
    | .error e s' => .error e { s' with depth := s'.depth - 1 }

/--
Repeats a step until it is done. A step that reads nothing ends the repetition, so that there are at
most as many steps as tokens.
-/
def iterate (step : α → Parser (ForInStep α)) (a : α) : Parser α := fun s =>
  match step a s with
  | .error e s' => .error e s'
  | .ok (.done b) s' => .ok b s'
  | .ok (.yield b) s' =>
    if s'.rest.length < s.rest.length then iterate step b s' else .ok b s'
termination_by s => s.rest.length

/-- One more item, if a comma announces it. -/
def itemStep (item : Parser α) (items : List α) : Parser (ForInStep (List α)) := do
  if ← accept .comma then return .yield (items ++ [← item])
  else return .done items

/-- The items of a list separated by commas, the first of which is at hand. -/
def commaSeparated (item : Parser α) : Parser (List α) := do
  let first ← item
  let others ← iterate (itemStep item) []
  return first :: others

end Parser
end ScriptFront
