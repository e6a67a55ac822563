import ScriptFront.Grammar.Declaration

/-!
The grammar of classes and their members.
-/

namespace ScriptFront
namespace Grammar

open ScriptFront.Parser

/-- Breaks the rule of the first forbidden modifier that is present. -/
def reject (ms : Modifiers) (forbidden : List (Modifier × GrammarRule)) (place : Location) :
    Parser Unit :=
  match forbidden.find? fun f => ms.has f.1 with
  | some (_, rule) => broken rule place
  | none => pure ()

/-- Operators that a class can define. -/
def overloadable : List TokenKind :=
  [.plus, .minus, .star, .fwdSlash, .percent, .doubleEqual, .bangEqual, .leftArrow, .leftArrowEqual,
   .rightArrow, .rightArrowEqual, .bang, .complement, .ampersand, .pipe, .upArrow, .doublePlus,
   .doubleMinus]

/-- An operator of a class: its symbol, at most one parameter, its return type and its body. -/
def operatorMember (g : Grammar) : Parser MemberForm := do
  let t ← advance
  if overloadable.contains t.kind then
    let generics ← genericParams
    let ps ← params g
    match ps with
    | _ :: second :: _ => broken .operatorOneParameter second.location
    | _ =>
      let returns ← returnType g
      return .operator t.lexeme ps.isEmpty ⟨generics, ps, returns⟩ (← g.block)
  else unexpected t "an overloadable operator"

/-- Whether a name with optional generic parameters and an opening parenthesis is next. -/
def foreseesMethod : Parser Bool :=
  foresee do
    let _ ← advance
    let _ ← genericParams
    check .openParen

/-- A constructor, after its name. -/
def constructorMember (g : Grammar) : Parser MemberForm := do
  let ps ← params g
  if ← check .colon then broken .constructorReturnsNothing (← here)
  else return .constructor ps (← g.block)

/-- A method, which is a constructor if it has the name of its class. -/
def methodMember (g : Grammar) (className : String) (ms : Modifiers) (place : Location) :
    Parser MemberForm := do
  reject ms [(.readonly, .methodNotReadonly)] place
  let ident ← name "a method name"
  if ident.text == className then
    reject ms [(.async, .constructorNotAsync)] place
    constructorMember g
  else
    let sig ← signature g
    return .method ident sig (← g.block)

/-- A property with an optional initial value. -/
def propertyMember (g : Grammar) : Parser MemberForm := do
  let type ← g.typeExpr
  let ident ← name "a property name"
  let init ← initializer g
  let _ ← expect .semicolon "';' after property"
  return .property ⟨ident, type, init⟩

/-- One member of a class with its modifiers. -/
def member (g : Grammar) (className : String) : Parser ClassMember := do
  let place ← here
  let ms ← modifiers
  let form ←
    if ms.has .operator then do
      reject ms [(.async, .operatorNotAsync), (.readonly, .operatorNotReadonly),
        (.default_, .operatorNotDefault)] place
      operatorMember g
    else if (← check .identifier) && (← foreseesMethod) then methodMember g className ms place
    else propertyMember g
  return ⟨ms, form, place⟩

/-- Whether a member is a constructor. -/
def isConstructor (m : ClassMember) : Bool :=
  match m.form with
  | .constructor .. => true
  | _ => false

/-- One more member, or a stray semicolon; there is at most one constructor. -/
def memberStep (g : Grammar) (className : String) (ms : List ClassMember) :
    Parser (ForInStep (List ClassMember)) := do
  if (← check .closeCurly) || (← atEnd) then return .done ms
  if ← accept .semicolon then return .yield ms
  let m ← member g className
  if isConstructor m && ms.any isConstructor then broken .oneConstructor m.location
  return .yield (ms ++ [m])

/-- The members between the braces of a class. -/
def members (g : Grammar) (className : String) : Parser (List ClassMember) :=
  iterate (memberStep g className) []

/-- A class, from `class` on. -/
def classType (g : Grammar) (ms : Modifiers) : Parser ClassDeclaration := do
  let _ ← expectKeyword .kwClass "'class'"
  let ident ← name "a class name"
  let generics ← genericParams
  let superclass ← if ← acceptKeyword .kwExtends then some <$> g.typeExpr else pure none
  let interfaces ← if ← acceptKeyword .kwImplements then commaSeparated g.typeExpr else pure []
  let _ ← expect .openCurly "'\x7b' to open the class body"
  let body ← members g ident.text
  let _ ← expect .closeCurly "'\x7d' to close the class body"
  return ⟨ms, ident, generics, superclass, interfaces, body⟩

end Grammar
end ScriptFront
