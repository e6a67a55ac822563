import ScriptFront.Grammar.Program

/-!
What the nesting of constructs is measured by. The parsers of the grammar are listed, each as a
function of the grammar that it reads nested constructs with. In a grammar under watch any other
parsers take over as soon as the nesting has another depth than the constructs around a place
account for, or a depth that the limit does not allow. And programs are read without setting the
nesting back where a statement starts.
-/

namespace ScriptFront

namespace Parser

variable {α : Type}

/-- Where a parser leaves the cursor, whether it reads or fails. -/
def leaves (p : Parser α) (s : Cursor) : Cursor :=
  match p s with
  | .ok _ s' => s'
  | .error _ s' => s'

/-- A parser in whose place another one runs unless the nesting has a depth within the limit. -/
def onlyAt (limit depth : Nat) (other p : Parser α) : Parser α := fun s =>
  if s.depth = depth ∧ depth ≤ limit then p s else other s

/--
A construct that is read one level deeper. Another parser runs in its place unless the nesting has
the given depth in front of it, and the next one inside it.
-/
def entered (limit depth : Nat) (other p : Parser α) : Parser α :=
  onlyAt limit depth other (nested limit (onlyAt limit (depth + 1) other p))

end Parser

namespace Grammar

open ScriptFront.Parser

/-- The level above a given one, for a depth: other parsers take over at any other depth. -/
def aboveAt (g : Grammar) (depth : Nat) (other : Grammar) : Grammar where
  limit := g.limit
  statement := entered g.limit depth other.statement (statementForm g)
  block := entered g.limit depth other.block (blockForm g)
  expression := entered g.limit depth other.expression (conditional g)
  operand := entered g.limit depth other.operand (operandForm g)
  primary := entered g.limit depth other.primary (primaryForm g)
  typeExpr := entered g.limit depth other.typeExpr (unionType g)
  declares := onlyAt g.limit depth other.declares
    (foresee (typeAndName (entered g.limit depth other.typeExpr (unionType g))))

/--
The grammar with a number of levels, the first of which is for a depth, each for one more than the
level above. Other parsers, given for each depth, take over at any other depth, and below all levels.
-/
def levelsAt (limit : Nat) (others : Nat → Grammar) : Nat → Nat → Grammar
  | 0, depth => { others depth with limit := limit }
  | n + 1, depth => (levelsAt limit others n (depth + 1)).aboveAt depth (others depth)

/-- The parsers of the grammar, from the grammar that they read nested constructs with. -/
inductive IsParser : {α : Type} → (Grammar → Parser α) → Prop
  -- what can be nested, and the look ahead for a declaration
  | statement : IsParser Grammar.statement
  | block : IsParser Grammar.block
  | expression : IsParser Grammar.expression
  | operand : IsParser Grammar.operand
  | primary : IsParser Grammar.primary
  | typeExpr : IsParser Grammar.typeExpr
  | declares : IsParser Grammar.declares
  -- types
  | genericArguments : IsParser genericArguments
  | optionalGenerics : IsParser optionalGenerics
  | baseType : IsParser baseType
  | arrayStep t : IsParser fun _ => arrayStep t
  | arrayType : IsParser arrayType
  | intersectionStep left : IsParser (intersectionStep · left)
  | intersectionType : IsParser intersectionType
  | unionStep left : IsParser (unionStep · left)
  | unionType : IsParser unionType
  | genericParams : IsParser fun _ => genericParams
  | param : IsParser param
  | paramStep ps : IsParser (paramStep · ps)
  | params : IsParser params
  -- patterns
  | numberValue t : IsParser fun _ => numberValue t
  | signedNumber : IsParser fun _ => signedNumber
  | pathStep path : IsParser fun _ => pathStep path
  | memberPath first : IsParser fun _ => memberPath first
  | numberPattern : IsParser fun _ => numberPattern
  | simplePattern : IsParser fun _ => simplePattern
  | pattern guards : IsParser (pattern · guards)
  -- expressions
  | node form place : IsParser (node · form place)
  | fold precedence pending right : IsParser (fold · precedence pending right)
  | isTarget : IsParser isTarget
  | isTest subject : IsParser (isTest · subject)
  | chainStep c : IsParser (chainStep · c)
  | chain : IsParser chain
  | conditional : IsParser conditional
  | update operator before operand place : IsParser (update · operator before operand place)
  | arguments : IsParser arguments
  | suffixStep e : IsParser (suffixStep · e)
  | suffixed : IsParser suffixed
  | operandForm : IsParser operandForm
  | propertyStep ps : IsParser (propertyStep · ps)
  | objectProperties : IsParser objectProperties
  | newForm : IsParser newForm
  | armStep arms : IsParser (armStep · arms)
  | matchForm : IsParser matchForm
  | arrayForm : IsParser arrayForm
  | primaryForm : IsParser primaryForm
  -- declarations
  | modifierStep ms : IsParser fun _ => modifierStep ms
  | modifiers : IsParser fun _ => modifiers
  | typeAndName : IsParser fun g => typeAndName g.typeExpr
  | startsVariable : IsParser startsVariable
  | variableType isConstant : IsParser (variableType · isConstant)
  | initializer : IsParser initializer
  | varGroup ms : IsParser (varGroup · ms)
  | returnType : IsParser returnType
  | signature : IsParser signature
  | function ms : IsParser (function · ms)
  | fieldStep fields : IsParser (fieldStep · fields)
  | structType ms : IsParser (structType · ms)
  -- classes
  | reject ms forbidden place : IsParser fun _ => reject ms forbidden place
  | operatorMember : IsParser operatorMember
  | foreseesMethod : IsParser fun _ => foreseesMethod
  | constructorMember : IsParser constructorMember
  | methodMember className ms place : IsParser (methodMember · className ms place)
  | propertyMember : IsParser propertyMember
  | member className : IsParser (member · className)
  | memberStep className ms : IsParser (memberStep · className ms)
  | members className : IsParser (members · className)
  | classType ms : IsParser (classType · ms)
  -- statements
  | declaration : IsParser declaration
  | simple : IsParser simple
  | terminated : IsParser terminated
  | statementStep stop body : IsParser (statementStep · stop body)
  | statementsUntil stop : IsParser (statementsUntil · stop)
  | blockForm : IsParser blockForm
  | elifStep elifs : IsParser (elifStep · elifs)
  | ifForm : IsParser ifForm
  | whileForm : IsParser whileForm
  | forInit : IsParser forInit
  | forForm : IsParser forForm
  | catchStep handlers : IsParser (catchStep · handlers)
  | tryForm : IsParser tryForm
  | caseBody : IsParser caseBody
  | alternativeStep ps : IsParser (alternativeStep · ps)
  | caseStep cases : IsParser (caseStep · cases)
  | switchForm : IsParser switchForm
  | returnForm : IsParser returnForm
  | throwForm : IsParser throwForm
  | jump form : IsParser fun _ => jump form
  | keywordStatement t k : IsParser (keywordStatement · t k)
  | statementForm : IsParser statementForm
  -- the top level
  | importSpecifier : IsParser fun _ => importSpecifier
  | specifierStep specifiers : IsParser fun _ => specifierStep specifiers
  | importSpecifiers : IsParser fun _ => importSpecifiers
  | importDefault : IsParser fun _ => importDefault
  | importClause : IsParser fun _ => importClause
  | importDeclaration : IsParser fun _ => importDeclaration
  | readImport d : IsParser fun _ => readImport d
  | readStatement d : IsParser (readStatement · d)

end Grammar

/-- Reads the imports that open a program, at the depth that the nesting has. -/
def readImportsOn (d : Draft) (s : Cursor) : Draft × Cursor :=
  if s.peek.isKeyword .kwImport then
    let (d', s') := settle d s (readImport d s)
    if s'.rest.length < s.rest.length then readImportsOn d' s' else (d', s')
  else (d, s)
termination_by s.rest.length

/-- Reads one statement at the depth that the nesting has, or skips a stray semicolon. -/
def readStepOn (g : Grammar) (d : Draft) (s : Cursor) : Draft × Cursor :=
  if s.peek.kind = .semicolon then (d, s.advance) else settle d s (readStatement g d s)

/-- Reads the statements of a program to its end, each at the depth that the one before left. -/
def readBodyOn (g : Grammar) (d : Draft) (s : Cursor) : Draft × Cursor :=
  if s.atEnd then (d, s)
  else
    let (d', s') := readStepOn g d s
    if s'.rest.length < s.rest.length then readBodyOn g d' s' else (d', s')
termination_by s.rest.length

/-- Reads a whole program without ever setting the nesting back. -/
def Draft.readOn (g : Grammar) (tokens : List Token) : Draft × Cursor :=
  let (d, s) := readImportsOn .empty (.ofTokens tokens)
  readBodyOn g d s

end ScriptFront
