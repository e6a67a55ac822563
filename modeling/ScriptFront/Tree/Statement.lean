import ScriptFront.Modifier.Basic
import ScriptFront.Tree.Expr

/-!
Statements, class members and whole programs.
-/

namespace ScriptFront

/-- A declaration of one or more variables of one type, with at most one initial value for all. -/
structure VariableDeclaration where
  modifiers : Modifiers
  isConstant : Bool
  type : TypeExpr
  names : List Ident
  init : Option Expr
  deriving Inhabited

/-- A property of a class. -/
structure PropertyDefinition where
  name : Ident
  type : TypeExpr
  init : Option Expr
  deriving Inhabited

/-- A field of a declared structure type. -/
structure TypeField where
  name : Ident
  type : TypeExpr
  location : Location
  deriving Inhabited

/-- The declaration of a structure type. -/
structure TypeDeclaration where
  modifiers : Modifiers
  name : Ident
  generics : List Ident
  fields : List TypeField
  deriving Inhabited

mutual

/-- A statement with its position. -/
structure Statement where
  form : StatementForm
  location : Location

/-- The forms of statements. -/
inductive StatementForm
  | varGroup (declaration : VariableDeclaration)
  | assignment (target value : Expr)
  | expression (value : Expr)
  | block (body : Block)
  | conditional (test : Expr) (body : Block) (elifs : List ElifClause) (otherwise : Option Block)
  | whileLoop (test : Expr) (body : Block)
  | forLoop (init : Option Statement) (test : Option Expr) (update : Option Statement)
      (body : Block)
  | returns (value : Option Expr)
  | breaks
  | continues
  | throws (value : Expr)
  | tryCatch (body : Block) (handlers : List CatchClause) (finalizer : FinallyClause)
  | switch (value : Expr) (cases : List SwitchCase) (otherwise : Option SwitchCase)
  | function (declaration : FunctionDeclaration)
  | classType (declaration : ClassDeclaration)
  | structType (declaration : TypeDeclaration)

/-- Statements in braces. -/
structure Block where
  statements : List Statement
  location : Location

structure ElifClause where
  test : Expr
  body : Block
  location : Location

structure CatchClause where
  type : TypeExpr
  name : Ident
  body : Block
  location : Location

structure FinallyClause where
  body : Block
  location : Location

/-- An arm of a switch with its alternatives. The default arm has a single wildcard pattern. -/
structure SwitchCase where
  patterns : List Pattern
  body : List Statement
  location : Location

structure FunctionDeclaration where
  modifiers : Modifiers
  name : Ident
  signature : Signature
  body : Block

structure ClassDeclaration where
  modifiers : Modifiers
  name : Ident
  generics : List Ident
  superclass : Option TypeExpr
  interfaces : List TypeExpr
  members : List ClassMember

/-- A member of a class with its modifiers and position. -/
structure ClassMember where
  modifiers : Modifiers
  form : MemberForm
  location : Location

/-- The forms of class members. An operator without parameters is a unary one. -/
inductive MemberForm
  | constructor (params : List Param) (body : Block)
  | method (name : Ident) (signature : Signature) (body : Block)
  | property (definition : PropertyDefinition)
  | operator (symbol : String) (isUnary : Bool) (signature : Signature) (body : Block)

end

instance : Inhabited Statement := ⟨⟨.breaks, .nowhere⟩⟩

instance : Inhabited Block := ⟨⟨[], .nowhere⟩⟩

instance : Inhabited ClassMember := ⟨⟨.empty, .constructor [] default, .nowhere⟩⟩

namespace Statement

/-- The names that a declaration introduces; other statements introduce none. -/
def declaredNames (s : Statement) : List Ident :=
  match s.form with
  | .varGroup d => d.names
  | .function d => [d.name]
  | .classType d => [d.name]
  | .structType d => [d.name]
  | _ => []

/-- The modifiers of a declaration; other statements have none. -/
def modifiers (s : Statement) : Modifiers :=
  match s.form with
  | .varGroup d => d.modifiers
  | .function d => d.modifiers
  | .classType d => d.modifiers
  | .structType d => d.modifiers
  | _ => .empty

/-- Statements after which the rest of their block cannot run. -/
def isTerminator (s : Statement) : Bool :=
  match s.form with
  | .returns _ | .breaks | .continues | .throws _ => true
  | _ => false

end Statement

/-- One name of an import clause: the exported name, and the local name it is bound to. -/
structure ImportSpecifier where
  imported : Ident
  binding : Ident
  location : Location
  deriving DecidableEq, Repr, Inhabited

/-- An import of a file, or of a native module. -/
structure ImportDeclaration where
  isNative : Bool
  whole : Option Ident
  wildcard : Bool
  named : List ImportSpecifier
  source : String
  location : Location
  deriving DecidableEq, Repr, Inhabited

/--
A parsed file. The exports are positions in the body: that of the default declaration, and those of
the public ones.
-/
structure Program where
  imports : List ImportDeclaration
  body : List Statement
  defaultExport : Option Nat
  exports : List Nat
  location : Location
  deriving Inhabited

end ScriptFront
