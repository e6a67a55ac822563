import ScriptFront.Check.Signature
import ScriptFront.Scope.Scopes
import ScriptFront.Typing.Assignable

/-!
What a check of a file keeps track of, and the steps that all checks are made of.
-/

namespace ScriptFront

/--
The scopes around the place that is checked, the classes around it with the innermost first, whether
it is in a constructor, the names that imports picked out, and what was found so far.
-/
structure Checker where
  scopes : Scopes
  classes : List ClassEntry
  inConstructor : Bool
  imported : List (String × Location)
  findings : List Finding
  deriving Inhabited

/-- A check yields a value and changes what is kept track of. It always runs to its end. -/
abbrev Check := StateM Checker

namespace Check

/-- Reports an error. -/
def error (fault : SemanticFault) (place : Location) : Check Unit :=
  modify fun c => { c with findings := c.findings ++ [.error ⟨fault, place⟩] }

/-- Reports a warning. -/
def warn (w : Warning) (place : Location) : Check Unit :=
  modify fun c => { c with findings := c.findings ++ [.warning w place] }

/-- What names stand for at the present place. -/
def meaning : Check Meaning := return (← get).scopes.lookup

def lookup (name : String) : Check (Option Entry) := return (← get).scopes.lookup name

/-- What a name stands for, as a read of the name. -/
def readName (name : String) : Check (Option Entry) := do
  let entry ← lookup name
  modify fun c => { c with scopes := c.scopes.markUsed name }
  return entry

/-- What a name stands for, as a read of it; a name that stands for nothing is an error. -/
def resolveName (name : String) (place : Location) : Check (Option Entry) := do
  let entry ← readName name
  if entry.isNone then error (.undefinedReference name) place
  return entry

/-- Declares an entry in the innermost scope. A name that is taken there is an error. -/
def declare (e : Entry) (place : Location) : Check Unit := do
  let c ← get
  match c.scopes.define e with
  | .ok scopes => set { c with scopes := scopes }
  | .error existing => error (.redeclaration existing.name) place

/-- Declares generic parameters. -/
def declareGenerics (generics : List Ident) : Check Unit :=
  generics.forM fun g => declare (.ofGeneric g.text g.location) g.location

/-- Declares an imported entry; names that were picked out are kept in mind. -/
def declareImport (e : Entry) (tracked : Bool) : Check Unit := do
  let place := e.location.getD .nowhere
  if tracked then modify fun c => { c with imported := c.imported ++ [(e.name, place)] }
  declare e place

def enterScope : Check Unit := modify fun c => { c with scopes := c.scopes.enter }

/-- Leaves the innermost scope; there has to be one inside the global scope. -/
def leaveScope : Check Unit := do
  match (← get).scopes.leave? with
  | some scopes => modify fun c => { c with scopes := scopes }
  | none => error .exitGlobalScope .nowhere

/-- The warning for a name that was never read; names that start with `_` may stay unread. -/
def unusedWarning? (e : Entry) : Option (Warning × Location) :=
  if e.name.startsWith "_" then none
  else
    let place := e.location.getD .nowhere
    match e with
    | .param _ => some (.unusedParameter e.name, place)
    | _ => some (.unusedDeclaration e.name, place)

/-- Leaves a scope of local names with a warning for each that was never read. -/
def leaveLocalScope : Check Unit := do
  let unused := (← get).scopes.current.unused.filterMap unusedWarning?
  unused.forM fun (w, place) => warn w place
  leaveScope

/-- The type that a written type denotes; if it denotes none, that is reported. -/
def resolveType (t : TypeExpr) : Check (Option Ty) := do
  match t.resolve (← meaning) with
  | .ok ty => return some ty
  | .error e => do
    error e.fault e.location
    return none

/-- Reports a value of a type that does not fit where it is stored. -/
def assignable (found expected : Ty) (place : Location) : Check Unit := do
  if !found.fits expected then error (.typeMismatch expected found) place

/-- As `assignable`, where either type may be unknown; then nothing is reported. -/
def assignable? (found expected : Option Ty) (place : Location) : Check Unit := do
  match found, expected with
  | some f, some e => assignable f e place
  | _, _ => return

end Check
end ScriptFront
