import ScriptFront.Typing.Ty

/-!
When a value of one type may be stored where another type is expected.
-/

namespace ScriptFront
namespace Ty

/--
Extends a test on target types to all targets. An equal type and a generic always accept, a union
accepts if one of its sides does, and an intersection if both do; other targets are tested.
-/
def widen (equal test : Ty → Bool) : Ty → Bool
  | .generic name => equal (.generic name) || true
  | .union l r => equal (.union l r) || (widen equal test l || widen equal test r)
  | .intersection l r => equal (.intersection l r) || (widen equal test l && widen equal test r)
  | t => equal t || test t

/-- What a built-in type fits beside itself: `int` widens, and `null` and `undefined` fill in. -/
def primitiveFits : Primitive → Ty → Bool
  | .int, .primitive .float => true
  | .null, .primitive _ | .undefined, .primitive _ => false
  | .null, _ | .undefined, _ => true
  | _, _ => false

mutual

/--
Whether a value of a type fits a target. Beside equality, `int` fits `float`, `null` and `undefined`
fit what is not built in, a class fits its superclasses and what its interfaces fit, a structure
fits one with fewer fields that its own fit, and a generic fits and accepts everything.
-/
def fits : Ty → Ty → Bool
  | .generic _ => fun _ => true
  | .union l r =>
    widen (same (.union l r)) fun t => l.fits t && r.fits t
  | .intersection l r => widen (same (.intersection l r)) fun _ => false
  | .primitive p => widen (same (.primitive p)) (primitiveFits p)
  | .array e => widen (same (.array e)) fun
    | .array e' => e.fits e'
    | _ => false
  | .class_ name superclass interfaces generics =>
    widen (same (.class_ name superclass interfaces generics)) fun
      | .class_ target _ _ _ => descendsFrom target (.class_ name superclass interfaces generics)
      | .struct fields gs => anyFits interfaces (.struct fields gs)
      | _ => false
  | .struct fields generics => widen (same (.struct fields generics)) fun
    | .struct targets _ => targets.all fun f => fieldFits fields f.1 f.2
    | _ => false
  | .function params returns generics variadic =>
    widen (same (.function params returns generics variadic)) fun _ => false

/-- Whether one of several types fits a target. -/
def anyFits : List Ty → Ty → Bool
  | [], _ => false
  | t :: ts, target => t.fits target || anyFits ts target

/-- Whether a structure has a field of a name whose type fits a target. -/
def fieldFits : List (String × Ty) → String → Ty → Bool
  | [], _, _ => false
  | (n, t) :: fields, name, target =>
    if n = name then t.fits target else fieldFits fields name target

end

end Ty
end ScriptFront
