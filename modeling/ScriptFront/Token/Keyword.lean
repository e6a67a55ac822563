/-!
The reserved words of the language.
-/

namespace ScriptFront

/-- A reserved word. An identifier is never spelled like one. -/
inductive Keyword
  | kwInt | kwFloat | kwChar | kwBool | kwVoid
  | kwIf | kwElif | kwElse | kwFor | kwWhile | kwReturn | kwBreak | kwContinue
  | kwTry | kwCatch | kwThrow | kwFinally | kwSwitch | kwCase | kwDefault
  | kwClass | kwType | kwNew | kwAsync | kwAwait | kwMatch | kwCheck | kwFunc
  | kwImplements | kwExtends | kwPrivate | kwPublic | kwStatic | kwProtected
  | kwReadonly | kwFinal | kwAbstract | kwThis | kwConst | kwAs | kwInfer | kwOperator
  | kwImport | kwFrom | kwNative | kwIs | kwAny | kwAll | kwNone | kwOf
  deriving DecidableEq, Repr, Inhabited

namespace Keyword

/-- The spelling of a reserved word. -/
def word : Keyword → String
  | kwInt => "int" | kwFloat => "float" | kwChar => "char" | kwBool => "bool" | kwVoid => "void"
  | kwIf => "if" | kwElif => "elif" | kwElse => "else" | kwFor => "for" | kwWhile => "while"
  | kwReturn => "return" | kwBreak => "break" | kwContinue => "continue"
  | kwTry => "try" | kwCatch => "catch" | kwThrow => "throw" | kwFinally => "finally"
  | kwSwitch => "switch" | kwCase => "case" | kwDefault => "default"
  | kwClass => "class" | kwType => "type" | kwNew => "new" | kwAsync => "async"
  | kwAwait => "await" | kwMatch => "match" | kwCheck => "check" | kwFunc => "func"
  | kwImplements => "implements" | kwExtends => "extends"
  | kwPrivate => "private" | kwPublic => "public" | kwStatic => "static"
  | kwProtected => "protected" | kwReadonly => "readonly" | kwFinal => "final"
  | kwAbstract => "abstract" | kwThis => "this" | kwConst => "const" | kwAs => "as"
  | kwInfer => "infer" | kwOperator => "operator" | kwImport => "import" | kwFrom => "from"
  | kwNative => "native" | kwIs => "is" | kwAny => "any" | kwAll => "all" | kwNone => "none"
  | kwOf => "of"

/-- Every reserved word once. -/
def all : List Keyword :=
  [kwInt, kwFloat, kwChar, kwBool, kwVoid, kwIf, kwElif, kwElse, kwFor, kwWhile, kwReturn, kwBreak,
   kwContinue, kwTry, kwCatch, kwThrow, kwFinally, kwSwitch, kwCase, kwDefault, kwClass, kwType,
   kwNew, kwAsync, kwAwait, kwMatch, kwCheck, kwFunc, kwImplements, kwExtends, kwPrivate, kwPublic,
   kwStatic, kwProtected, kwReadonly, kwFinal, kwAbstract, kwThis, kwConst, kwAs, kwInfer,
   kwOperator, kwImport, kwFrom, kwNative, kwIs, kwAny, kwAll, kwNone, kwOf]

/-- The reserved word with a given spelling. -/
def ofWord? (w : String) : Option Keyword :=
  all.find? fun k => k.word == w

/-- Reserved words that name a built-in type, and so can begin a variable declaration. -/
def isDataType : Keyword → Bool
  | kwInt | kwFloat | kwChar | kwBool => true
  | _ => false

theorem mem_all (k : Keyword) : k ∈ all := by
  cases k <;> decide

theorem word_of_ofWord? {w : String} {k : Keyword} (h : ofWord? w = some k) : k.word = w := by
  simpa using List.find?_some h

theorem ofWord?_word (k : Keyword) : ofWord? k.word = some k := by
  cases k <;> decide

end Keyword
end ScriptFront
