import ScriptFront.Module.Files

/-!
A directory with all that is below it, held in memory. Paths are followed from it piece by piece, as
an operating system follows them: each piece but the last has to be a directory that exists.
-/

namespace ScriptFront

/-- Why a path cannot be read as a text: an error of the system, or a content that is no text. -/
inductive ReadError
  | system (code : Nat) (text : String)
  | notText
  deriving DecidableEq, Repr, Inhabited

namespace ReadError

def notFound : ReadError := system 2 "No such file or directory"

def notDirectory : ReadError := system 20 "Not a directory"

def isDirectory : ReadError := system 21 "Is a directory"

def nameTooLong : ReadError := system 36 "File name too long"

/-- The errors of paths at which there is no file. -/
def aboutPath : List ReadError := [notFound, notDirectory, isDirectory, nameTooLong]

/-- Whether the error is that of a file which exists. -/
def isAboutFile (e : ReadError) : Bool := !aboutPath.contains e

def message : ReadError → String
  | system code text => text ++ " (os error " ++ toString code ++ ")"
  | notText => "stream did not contain valid UTF-8"

end ReadError

/-- A directory: the paths of its files in normal form, with their bytes. -/
structure Directory where
  files : List (Path × ByteArray)

namespace Directory

def empty : Directory := ⟨[]⟩

/-- Writes a file, with the directories on the way to it. -/
def write (d : Directory) (p : Path) (bytes : ByteArray) : Directory :=
  ⟨(p.normalize, bytes) :: d.files⟩

/-- The bytes of the file at a place. -/
def file? (d : Directory) (place : List Path.Component) : Option ByteArray :=
  (d.files.find? fun f => f.1.components == place).map (·.2)

/-- Whether a place is a directory: the top, or a place on the way to a file. -/
def hasDirectory (d : Directory) (place : List Path.Component) : Bool :=
  place.isEmpty || d.files.any fun f =>
    place.isPrefixOf f.1.components && place.length < f.1.components.length

/-- The error for a place that is needed as a directory but is none. -/
def obstacle (d : Directory) (place : List Path.Component) : ReadError :=
  if (d.file? place).isSome then .notDirectory else .notFound

/-- The number of bytes that one piece of a path may have. -/
def longestName : Nat := 255

/-- The number of bytes that a whole path may have. -/
def longestPath : Nat := 4095

/--
The place where the pieces of a path lead from a place, given and returned from the last component
to the first. What is around the directory cannot be seen.
-/
def follow (d : Directory) (trail : List Path.Component) :
    List (List Char) → Except ReadError (List Path.Component)
  | [] => .ok trail
  | piece :: pieces =>
    if !d.hasDirectory trail.reverse then .error (d.obstacle trail.reverse)
    else if Path.isIdle piece then d.follow trail pieces
    else if (String.ofList piece).utf8ByteSize > longestName then .error .nameTooLong
    else match Path.Component.ofPiece piece, trail with
      | .parent, [] => .error .notFound
      | .parent, _ :: trail => d.follow trail pieces
      | component, trail => d.follow (component :: trail) pieces

/-- The place of a path as written. -/
def locate (d : Directory) (p : Path) : Except ReadError (List Path.Component) :=
  if p.text.utf8ByteSize > longestPath then .error .nameTooLong
  else if p.text.isEmpty || p.isAbsolute then .error .notFound
  else (d.follow [] p.pieces).map List.reverse

/-- Bytes as a text. -/
def decode (bytes : ByteArray) : Except ReadError String :=
  match String.fromUTF8? bytes with
  | some text => .ok text
  | none => .error .notText

/-- The text at a path as written. -/
def read (d : Directory) (p : Path) : Except ReadError String := do
  let place ← d.locate p
  match d.file? place with
  | some bytes => decode bytes
  | none => .error (if d.hasDirectory place then .isDirectory else .notFound)

/-- All files. -/
def toFiles (d : Directory) : Files :=
  ⟨d.files.map fun f => (f.1, (decode f.2).mapError ReadError.message)⟩

end Directory
end ScriptFront
