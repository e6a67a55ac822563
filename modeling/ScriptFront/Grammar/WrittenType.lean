import ScriptFront.Grammar.Cursor

/-!
How types are written, as rules that do not say how they are read. From tightest to loosest a type
is a base type, an array, an intersection or a union. A base type is the name of a built-in type,
`void`, `infer`, `null`, `undefined`, a name with or without arguments in angle brackets, or a type
in parentheses. Both binary forms group to the left.
-/

namespace ScriptFront

/-- A token that a type can have as its name, and that arguments can follow. -/
def Token.isTypeName (t : Token) : Bool := t.kind == .identifier || t.kind == .nan

/-- The layers of written types. A reference is open as long as its arguments are not closed. -/
inductive TypeLayer
  | openReference | base | array | intersection | union
  deriving DecidableEq, Repr

/--
Tokens are a written type of a layer, with angle brackets and parentheses inside one another at most
some levels deep. A type stands where its first token does, without parentheses around it.
-/
inductive Written : TypeLayer → Nat → List Token → TypeExpr → Prop
  | builtIn {n t k} : t.kind = .keyword k → k.isDataType = true →
      Written .base n [t] (.named t.lexeme t.location)
  | void {n t} : t.kind = .keyword .kwVoid → Written .base n [t] ⟨.void, t.location⟩
  | infer {n t} : t.kind = .keyword .kwInfer → Written .base n [t] ⟨.infer, t.location⟩
  | null {n t} : t.kind = .null → Written .base n [t] ⟨.null, t.location⟩
  | undefined {n t} : t.kind = .undefined → Written .base n [t] ⟨.undefined, t.location⟩
  | name {n t} : t.isTypeName = true → Written .base n [t] (.named t.lexeme t.location)
  | firstArgument {n t opener ts a} : t.isTypeName = true → opener.kind = .leftArrow →
      Written .union n ts a →
      Written .openReference (n + 1) (t :: opener :: ts) ⟨.reference t.lexeme [a], t.location⟩
  | nextArgument {n ts name as place comma us a} :
      Written .openReference (n + 1) ts ⟨.reference name as, place⟩ → comma.kind = .comma →
      Written .union n us a →
      Written .openReference (n + 1) (ts ++ comma :: us) ⟨.reference name (as ++ [a]), place⟩
  | reference {n ts t closer} : Written .openReference n ts t → closer.kind = .rightArrow →
      Written .base n (ts ++ [closer]) t
  | group {n opener ts t closer} : opener.kind = .openParen → Written .union n ts t →
      closer.kind = .closeParen → Written .base (n + 1) (opener :: ts ++ [closer]) t
  | element {n ts t} : Written .base n ts t → Written .array n ts t
  | array {n ts t opener closer} : Written .array n ts t → opener.kind = .openSquare →
      closer.kind = .closeSquare →
      Written .array n (ts ++ [opener, closer]) ⟨.array t, t.location⟩
  | member {n ts t} : Written .array n ts t → Written .intersection n ts t
  | intersection {n ts l ampersand us r} : Written .intersection n ts l →
      ampersand.kind = .ampersand → Written .array n us r →
      Written .intersection n (ts ++ ampersand :: us) ⟨.intersection l r, l.location⟩
  | side {n ts t} : Written .intersection n ts t → Written .union n ts t
  | union {n ts l pipe us r} : Written .union n ts l → pipe.kind = .pipe →
      Written .intersection n us r →
      Written .union n (ts ++ pipe :: us) ⟨.union l r, l.location⟩

/-- A name and the angle brackets around its only argument. -/
structure ArgumentBrackets where
  name : Token
  opener : Token
  closer : Token
  named : name.isTypeName = true
  opens : opener.kind = .leftArrow
  closes : closer.kind = .rightArrow

/--
Tokens as the argument of the last of some names, each of which is the argument of the one before,
so that all the brackets close next to each other.
-/
def ArgumentBrackets.around (bs : List ArgumentBrackets) (ts : List Token) : List Token :=
  bs.flatMap (fun b => [b.name, b.opener]) ++ ts ++ (bs.map closer).reverse

/-- A type as the argument of the last of some names. -/
def TypeExpr.argumentOf (bs : List ArgumentBrackets) (t : TypeExpr) : TypeExpr :=
  bs.foldr (fun b t => ⟨.reference b.name.lexeme [t], b.name.location⟩) t

namespace Cursor

/-- The cursor in front of tokens that it has read. -/
def unread (s : Cursor) (ts : List Token) : Cursor := { s with rest := ts ++ s.rest }

/-- An angle bracket is next, right behind tokens that end in a bare name. -/
def OpensArguments (s : Cursor) (ts : List Token) : Prop :=
  s.peek.kind = .leftArrow ∧ ∃ t ∈ ts.getLast?, t.isTypeName = true

/-- Empty square brackets are next. -/
def OpensArray (s : Cursor) : Prop :=
  s.peek.kind = .openSquare ∧ (s.peekAt 1).kind = .closeSquare

/-- What is next can carry on a type of a layer that ends in the given tokens. -/
def CarriesOn (s : Cursor) (ts : List Token) : TypeLayer → Prop
  | .base => s.OpensArguments ts
  | .array => s.OpensArguments ts ∨ s.OpensArray
  | .intersection => s.OpensArguments ts ∨ s.OpensArray ∨ s.peek.kind = .ampersand
  | .union | .openReference =>
    s.OpensArguments ts ∨ s.OpensArray ∨ s.peek.kind = .ampersand ∨ s.peek.kind = .pipe

end Cursor
end ScriptFront
