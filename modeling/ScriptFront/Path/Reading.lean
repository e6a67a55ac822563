import Mathlib.Logic.Relation
import ScriptFront.Path.Normal

/-!
What paths mean, read lexically and without normal forms: when two paths denote the same place, seen
from one directory, and to which place below the root an absolute path leads.
-/

namespace ScriptFront
namespace Path

/-! ### From any directory -/

/-- Leaves out a component that stays, or a name with the way back out of it. -/
inductive Cancels : List Component → List Component → Prop
  | stay (before after : List Component) : Cancels (before ++ .current :: after) (before ++ after)
  | back (before : List Component) (name : List Char) (after : List Component) :
      Cancels (before ++ .name name :: .parent :: after) (before ++ after)

/-- Two paths denote the same place if stays and detours are all that they differ in. -/
def SamePlace (p q : Path) : Prop := Relation.EqvGen Cancels p.components q.components

/-- The components of a path that do not stay. -/
def steps (p : Path) : List Component := p.components.filter (· ≠ .current)

/-! ### From the root -/

/--
A place below the root by its names, from the last to the first, and how often the way there took the
parent of the root, which is the root again.
-/
structure Spot where
  names : List (List Char)
  climbs : Nat
  deriving DecidableEq, Repr, Inhabited

namespace Spot

def root : Spot := ⟨[], 0⟩

/-- Where a component leads to. -/
def lead (s : Spot) : Component → Spot
  | .root => { s with names := [] }
  | .current => s
  | .parent =>
    match s.names with
    | [] => { s with climbs := s.climbs + 1 }
    | _ :: names => { s with names := names }
  | .name name => { s with names := name :: s.names }

/-- The components of a place below the root. -/
def components (s : Spot) : List Component := s.names.reverse.map .name

/--
Where the source of an import leads to from a file: from the directory of the file on, with the
extension of source files at a last name that has none.
-/
def imported (s : Spot) (source : String) : Spot :=
  let directory : Spot := { s with names := s.names.tail }
  (withSourceExtension (directory.components ++ steps ⟨source⟩)).foldl lead { s with names := [] }

/-- The sources lead from file to file: they are relative, and every importing file has a name. -/
def Imports (s : Spot) : List String → Prop
  | [] => True
  | source :: sources => s.names ≠ [] ∧ isAbsolute ⟨source⟩ = false ∧ (s.imported source).Imports sources

end Spot

/-- Where an absolute path leads to. -/
def spot (p : Path) : Spot := p.components.foldl Spot.lead .root

/-- The file that a sequence of imports leads to from a path. -/
def importing (p : Path) (sources : List String) : Path := sources.foldl resolveImport p.normalize

end Path
end ScriptFront
