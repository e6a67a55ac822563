import ScriptFront.Check.Mention

/-!
The order in which the types and classes of a block are completed: each after those that its
signature mentions, as far as they do not mention each other.
-/

namespace ScriptFront
namespace CompletionOrder

/-- The numbers entered so far, and the order of those that are done. -/
structure Progress where
  entered : List Nat
  order : List Nat
  deriving DecidableEq, Repr, Inhabited

/--
Goes depth first to a number: all that it depends on comes before it, unless it was entered already.
The depth cannot exceed the number of things to enter.
-/
def visit (dependencies : Nat → List Nat) : Nat → Progress → Nat → Progress
  | 0, p, _ => p
  | depth + 1, p, i =>
    if p.entered.contains i then p
    else
      let entered : Progress := { p with entered := i :: p.entered }
      let done := (dependencies i).foldl (visit dependencies depth) entered
      { done with order := done.order ++ [i] }

/-- The name of a type or class declaration. -/
def typeName? (s : Statement) : Option String :=
  match s.form with
  | .structType d => some d.name.text
  | .classType d => some d.name.text
  | _ => none

/-- The positions of the types and classes among some declarations that one of them mentions. -/
def dependencies (declarations : List Statement) (i : Nat) : List Nat :=
  let mentions := (declarations[i]?.map (·.signatureMentions)).getD []
  (List.range declarations.length).filter fun j =>
    match declarations[j]?.bind typeName? with
    | some name => mentions.contains name
    | none => false

/-- The types and classes among some declarations, each after those that it mentions. -/
def of (declarations : List Statement) : List Statement :=
  let roots := (List.range declarations.length).filter fun i =>
    match declarations[i]? with
    | some s => (typeName? s).isSome
    | none => false
  let progress :=
    roots.foldl (visit (dependencies declarations) declarations.length) ⟨[], []⟩
  progress.order.filterMap (declarations[·]?)

end CompletionOrder
end ScriptFront
