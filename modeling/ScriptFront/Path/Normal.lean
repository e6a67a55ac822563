import ScriptFront.Path.Basic

/-!
Normal forms of paths: no `.`, and no name that a `..` takes back. One file reached by different
relative paths has one normal form, which serves as its key.
-/

namespace ScriptFront
namespace Path

/--
Goes one component further from a normal form, whose components are listed from the last to the
first. A `..` takes back a name and stays where there is none to take back.
-/
def follow (trail : List Component) : Component → List Component
  | .current => trail
  | .parent =>
    match trail with
    | .name _ :: rest => rest
    | _ => .parent :: trail
  | .root => [.root]
  | .name cs => .name cs :: trail

/-- The components of the normal form. -/
def normalComponents (cs : List Component) : List Component :=
  (cs.foldl follow []).reverse

/-- The normal form of a path. -/
def normalize (p : Path) : Path :=
  ofComponents (normalComponents p.components)

/--
The file that an import names, as seen from the importing file: relative to its directory, with the
extension of source files where none is written.
-/
def resolveImport (importer : Path) (source : String) : Path :=
  let path := importer.directory.join ⟨source⟩
  ofComponents (normalComponents (withSourceExtension path.components))

end Path
end ScriptFront
