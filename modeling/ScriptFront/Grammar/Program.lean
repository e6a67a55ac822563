import ScriptFront.Diagnostic.Basic
import ScriptFront.Grammar.Statement
import ScriptFront.Token.Scan

/-!
Whole programs: imports, then statements. A fault ends only the statement that it is in; reading
resumes where the next statement plausibly starts, so that one pass reports every fault.
-/

namespace ScriptFront

namespace Grammar

open ScriptFront.Parser

/-- One name in the braces of an import, with the local name it may get after `as`. -/
def importSpecifier : Parser ImportSpecifier := do
  let imported ← name "an imported name"
  let binding ← if ← acceptKeyword .kwAs then name "a local name after 'as'" else pure imported
  return ⟨imported, binding, imported.location⟩

def specifierStep (specifiers : List ImportSpecifier) :
    Parser (ForInStep (List ImportSpecifier)) := do
  if ← check .closeCurly then return .done specifiers
  let specifiers := specifiers ++ [← importSpecifier]
  if ← accept .comma then return .yield specifiers else return .done specifiers

/-- The names in the braces of an import, after the opening one. -/
def importSpecifiers : Parser (List ImportSpecifier) := do
  let specifiers ← iterate specifierStep []
  let _ ← expect .closeCurly "'\x7d'"
  return specifiers

/-- A name for the default export in front of, or instead of, a list of names. -/
def importDefault : Parser (Option Ident) := do
  if ← check .identifier then
    let ident ← name "an import name"
    if ← accept .comma then
      let t ← peek
      if t.kind != .openCurly then unexpected t "'\x7b' after ','"
    return some ident
  else return none

/-- What an import binds: everything, the default export, listed names, or the last two. -/
def importClause : Parser (Option Ident × Bool × List ImportSpecifier) := do
  if ← accept .star then return (none, true, [])
  let whole ← importDefault
  let named ← if ← accept .openCurly then importSpecifiers else pure []
  if whole.isNone && named.isEmpty then unexpected (← peek) "an import clause"
  return (whole, false, named)

/-- An import of a native module or a file. -/
def importDeclaration : Parser ImportDeclaration := do
  let opener ← expectKeyword .kwImport "'import'"
  let isNative ← acceptKeyword .kwNative
  let (whole, wildcard, named) ← importClause
  let _ ← expectKeyword .kwFrom "'from'"
  let source ← expect .string "an import source string"
  let _ ← expect .semicolon "';' after import"
  return ⟨isNative, whole, wildcard, named, source.lexeme, opener.location⟩

end Grammar

/-- How a token changes the depth of braces. -/
def braceDelta (t : Token) : Int :=
  match t.kind with
  | .openCurly => 1
  | .closeCurly => -1
  | _ => 0

/-- Reserved words at which reading resumes after a fault. -/
def resumesStatement : TokenKind → Bool
  | .keyword k =>
    [Keyword.kwClass, .kwFunc, .kwIf, .kwWhile, .kwFor, .kwReturn, .kwConst, .kwInt, .kwFloat,
      .kwBool, .kwChar, .kwSwitch, .kwTry, .kwType].contains k
  | _ => false

/--
Skips tokens until the braces are balanced again and a statement has ended or one starts. The token
before the ones given is at hand.
-/
def skipToStatement (depth : Int) (previous : Token) : List Token → List Token
  | [] => []
  | t :: ts =>
    if depth ≤ 0 ∧ (previous.kind = .semicolon ∨ previous.kind = .closeCurly
        ∨ resumesStatement t.kind) then t :: ts
    else skipToStatement (depth + braceDelta t) t ts

/--
Where reading resumes after a fault: `start` are the tokens from the start of the faulty statement
on, `rest` those from the fault on. At least one token is skipped.
-/
def resume (start rest : List Token) : List Token :=
  let skipped := start.take (start.length - rest.length)
  let depth := skipped.foldl (fun depth t => depth + braceDelta t) 0
  match skipped.getLast?, rest with
  | some previous, _ => skipToStatement depth previous rest
  | none, t :: ts => skipToStatement (depth + braceDelta t) t ts
  | none, [] => []

/-- What is known of a program while it is read. -/
structure Draft where
  imports : List ImportDeclaration
  body : List Statement
  defaultExport : Option Nat
  exports : List Nat
  errors : List SyntaxError
  deriving Inhabited

namespace Draft

def empty : Draft := ⟨[], [], none, [], []⟩

def addError (d : Draft) (e : SyntaxError) : Draft := { d with errors := d.errors ++ [e] }

/--
Adds a top-level statement. A default declaration is the default export, of which there is at most
one, and a public declaration is exported.
-/
def addStatement (d : Draft) (s : Statement) : Except SyntaxError Draft :=
  if s.modifiers.has .default_ && d.defaultExport.isSome then
    .error ⟨.broken .oneDefaultExport, s.location⟩
  else
    let index := d.body.length
    .ok { d with
      body := d.body ++ [s]
      defaultExport := if s.modifiers.has .default_ then some index else d.defaultExport
      exports := if s.modifiers.has .public_ then d.exports ++ [index] else d.exports }

end Draft

/-- A step of the top level yields the next draft and cursor, or fails at a cursor. -/
abbrev TopStep := EStateM.Result SyntaxError Cursor Draft

/-- The draft and cursor after a step; after a fault reading resumes. -/
def settle (d : Draft) (s : Cursor) : TopStep → Draft × Cursor
  | .ok d' s' => (d', s')
  | .error e s' => (d.addError e, { s' with rest := resume s.rest s'.rest })

/-- Reads one import declaration. -/
def readImport (d : Draft) : Parser Draft := do
  let i ← Grammar.importDeclaration
  return { d with imports := d.imports ++ [i] }

/-- Reads one statement; an import is a fault here. -/
def readStatement (g : Grammar) (d : Draft) : Parser Draft := do
  let t ← Parser.peek
  if t.isKeyword .kwImport then Parser.broken .importsFirst t.location
  let s ← g.statement
  match d.addStatement s with
  | .ok d' => return d'
  | .error e => throw e

/-- Reads the imports that open a program. -/
def readImports (d : Draft) (s : Cursor) : Draft × Cursor :=
  if s.peek.isKeyword .kwImport then
    let (d', s') := settle d s (readImport d { s with depth := 0 })
    if s'.rest.length < s.rest.length then readImports d' s' else (d', s')
  else (d, s)
termination_by s.rest.length

/-- Reads one statement where it may fail, or skips a stray semicolon. -/
def readStep (g : Grammar) (d : Draft) (s : Cursor) : Draft × Cursor :=
  if s.peek.kind = .semicolon then (d, s.advance)
  else settle d s (readStatement g d { s with depth := 0 })

/-- Reads the statements of a program to its end. -/
def readBody (g : Grammar) (d : Draft) (s : Cursor) : Draft × Cursor :=
  if s.atEnd then (d, s)
  else
    let (d', s') := readStep g d s
    if s'.rest.length < s.rest.length then readBody g d' s' else (d', s')
termination_by s.rest.length

/-- Reads a whole program with a given grammar. -/
def Draft.read (g : Grammar) (tokens : List Token) : Draft × Cursor :=
  let (d, s) := readImports .empty (.ofTokens tokens)
  readBody g d s

/-- The nesting limit of programs. -/
def nestingLimit : Nat := 100

namespace Program

/-- Reads a program under a nesting limit. There is one only if there is no fault. -/
def parse (limit : Nat) (tokens : List Token) : Except (List SyntaxError) Program :=
  let d := (Draft.read (.ofLimit limit) tokens).1
  if d.errors.isEmpty then .ok ⟨d.imports, d.body, d.defaultExport, d.exports, .start⟩
  else .error d.errors

end Program
end ScriptFront
