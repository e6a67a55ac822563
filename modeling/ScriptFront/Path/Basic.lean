import ScriptFront.Text.Split

/-!
File paths with slashes, read lexically: nothing here looks at a file system.
-/

namespace ScriptFront

/-- A path as it is written. -/
structure Path where
  text : String
  deriving DecidableEq, Repr, Inhabited

namespace Path

/-- What a path goes through: the root, the current directory, a parent directory, or a name. -/
inductive Component
  | root
  | current
  | parent
  | name (chars : List Char)
  deriving DecidableEq, Repr, Inhabited

/-- The pieces of a path between its slashes. -/
def pieces (p : Path) : List (List Char) :=
  Text.splitAt '/' p.text.toList

/-- Pieces that a path goes through without moving. -/
def isIdle (piece : List Char) : Bool :=
  piece.isEmpty || piece == ['.']

/-- The component that a piece stands for, idle pieces apart. -/
def Component.ofPiece (piece : List Char) : Component :=
  if piece = ['.', '.'] then .parent else .name piece

/-- The components of the pieces that follow the first one. -/
def componentsOfPieces (pieces : List (List Char)) : List Component :=
  (pieces.filter (!isIdle ·)).map .ofPiece

/-- Whether a path starts at the root. -/
def isAbsolute (p : Path) : Bool :=
  p.text.toList.head? == some '/'

/--
The components of a path. Repeated slashes and a `.` count for nothing, except for a `.` that opens
a relative path.
-/
def components (p : Path) : List Component :=
  match p.pieces with
  | [] => []
  | first :: rest =>
    if p.isAbsolute then .root :: componentsOfPieces rest
    else if first = ['.'] then .current :: componentsOfPieces rest
    else componentsOfPieces (first :: rest)

/-- The written form of one component inside a path. -/
def Component.chars : Component → List Char
  | root => []
  | current => ['.']
  | parent => ['.', '.']
  | name cs => cs

/-- Pieces joined by slashes. -/
def joinPieces : List (List Char) → List Char
  | [] => []
  | [piece] => piece
  | piece :: pieces => piece ++ '/' :: joinPieces pieces

/-- The path that goes through given components. -/
def ofComponents : List Component → Path
  | .root :: cs => ⟨.ofList ('/' :: joinPieces (cs.map Component.chars))⟩
  | cs => ⟨.ofList (joinPieces (cs.map Component.chars))⟩

/-- Two paths are the same if they go through the same components. -/
def same (p q : Path) : Bool :=
  p.components == q.components

/-- The last component, if it is a name. -/
def lastName (p : Path) : Option (List Char) :=
  match p.components.getLast? with
  | some (.name cs) => some cs
  | _ => none

/-- The bare file name; a path that ends in no name shows as it is written. -/
def fileName (p : Path) : String :=
  match p.lastName with
  | some cs => .ofList cs
  | none => p.text

/-- The pieces of a path with the idle ones at their end taken off. The very first piece stays. -/
def trimIdle : List (List Char) → List (List Char)
  | [] => []
  | first :: rest => first :: (rest.reverse.dropWhile isIdle).reverse

/--
The directory that holds what a path names: the path, as written, without its last component. A path
without a component, and the root, have none, which reads as the empty path.
-/
def directory (p : Path) : Path :=
  match trimIdle p.pieces with
  | [] => ⟨""⟩
  | [_] => ⟨""⟩
  | pieces =>
    match trimIdle pieces.dropLast with
    | [[]] => ⟨"/"⟩
    | kept => ⟨.ofList (joinPieces kept)⟩

/-- A path read from inside a directory. An absolute path stays as it is. -/
def join (dir p : Path) : Path :=
  if p.isAbsolute || dir.text.isEmpty then p
  else if dir.text.toList.getLast? = some '/' then ⟨dir.text ++ p.text⟩
  else ⟨dir.text ++ "/" ++ p.text⟩

/-- Whether a name has an extension: a dot that is not its first character. -/
def hasExtension (name : List Char) : Bool :=
  (name.drop 1).contains '.'

/-- The extension of the last name: what follows its last dot. -/
def extension? (p : Path) : Option (List Char) :=
  (p.lastName.filter hasExtension).map fun name => (name.reverse.takeWhile (· ≠ '.')).reverse

/-- The extension of source files. -/
def sourceExtension : String := "ky"

/-- Gives a last name without an extension the one of source files. -/
def withSourceExtension (cs : List Component) : List Component :=
  match cs.getLast? with
  | some (.name n) =>
    if hasExtension n then cs
    else cs.dropLast ++ [.name (n ++ '.' :: sourceExtension.toList)]
  | _ => cs

end Path
end ScriptFront
