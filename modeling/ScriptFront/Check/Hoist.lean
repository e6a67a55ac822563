import ScriptFront.Check.CompletionOrder
import ScriptFront.Check.State

/-!
Functions, classes and types are declared before the statements of their block are checked, so that
they can be used ahead of the line they are written on.
-/

namespace ScriptFront
namespace Check

/--
Declares the names of functions, classes and types, and gives the statements whose name was free.
-/
def declareAhead : List Statement → Check (List Statement)
  | [] => return []
  | s :: ss => do
    match s.provisional? with
    | none => declareAhead ss
    | some (name, entry) =>
      let c ← get
      match c.scopes.define entry with
      | .ok scopes => do
        set { c with scopes := scopes }
        return s :: (← declareAhead ss)
      | .error _ => do
        error (.redeclaration name.text) name.location
        declareAhead ss

/-- Completes the entry of a declaration with what its signature denotes at the moment. -/
def completeEntry (s : Statement) : Check Unit := do
  match s.completed? (← meaning) with
  | some e => modify fun c => { c with scopes := c.scopes.complete e }
  | none => return

/--
Declares the functions, classes and types of a block. Types and classes are completed twice, so that
those that refer to themselves or to each other see each other's signatures, and functions last.
-/
def hoist (body : List Statement) : Check Unit := do
  let declared ← declareAhead body
  let types := CompletionOrder.of declared
  let functions := declared.filter (·.isFunction)
  (types ++ types ++ functions).forM completeEntry

end Check
end ScriptFront
