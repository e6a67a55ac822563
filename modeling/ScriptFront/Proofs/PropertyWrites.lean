import ScriptFront.Check.Statement
import ScriptFront.Proofs.TwinScopes

/-!
Writes to properties that may not be written. A write is refused by the type that the object has
without a second check of it, and only `this` and names have one: for them it is the type that the
check of the object gave. On other objects nothing is refused, whatever their type is.
-/

namespace ScriptFront

open Scopes

/-- A read changes nothing of what names stand for. -/
theorem Scopes.lookup_markUsed (s : Scopes) (name : String) :
    (s.markUsed name).lookup = s.lookup := by
  refine funext (FramesAlike.of_entries ?_).find
  rw [frames_markUsed, entries_readFrames]

namespace Check

variable {object property target : Expr} {m : String} {c : Checker}

/-- Whether an expression is `this` or a name. -/
def isDirect (e : Expr) : Bool :=
  match e.form with
  | .this | .identifier _ => true
  | _ => false

/-! ### The type of the object -/

/-- The check of `this` keeps all but the findings, and gives the innermost class. -/
theorem run_this (place : Location) (height : Nat) (c : Checker) :
    ∃ found, (expr ⟨.this, place, height⟩).run c =
      (c.classes.head?.map (·.type.toTy), { c with findings := c.findings ++ found }) := by
  have run : (expr ⟨.this, place, height⟩).run c =
      (do
        if (c.classes.head?.map (·.type.toTy)).isNone then error .thisOutsideClass place
        return c.classes.head?.map (·.type.toTy) : Check (Option Ty)).run c := rfl
  rw [run]
  cases c.classes.head? with
  | none => exact ⟨[_], rfl⟩
  | some d => exact ⟨[], by rw [List.append_nil]; rfl⟩

/--
The check of a name keeps all but the findings and the reads, and gives the type of its entry. If
there is one, nothing is found.
-/
theorem run_identifier (name : String) (place : Location) (height : Nat) (c : Checker) :
    ∃ found, (expr ⟨.identifier name, place, height⟩).run c =
      ((c.scopes.lookup name).map (·.valueType),
        { c with scopes := c.scopes.markUsed name, findings := c.findings ++ found }) ∧
      ((c.scopes.lookup name).isSome → found = []) := by
  have run : (expr ⟨.identifier name, place, height⟩).run c =
      ((·.map (·.valueType)) <$> (do
        if (c.scopes.lookup name).isNone then error (.undefinedReference name) place
        return c.scopes.lookup name : Check (Option Entry))).run
          { c with scopes := c.scopes.markUsed name } := rfl
  rw [run]
  cases c.scopes.lookup name with
  | none => exact ⟨[_], rfl, nofun⟩
  | some e => exact ⟨[], by rw [List.append_nil]; rfl, fun _ => rfl⟩

/-- For `this` and names the type of the object is what the check of the object gave. -/
theorem objectType_of_isDirect (direct : isDirect object = true) (c : Checker) :
    (objectType object).run ((expr object).run c).2 =
      (((expr object).run c).1, ((expr object).run c).2) := by
  obtain ⟨form, place, height⟩ := object
  cases form with
  | this =>
      obtain ⟨found, run⟩ := run_this place height c
      rw [run]
      rfl
  | identifier name =>
      obtain ⟨found, run, _⟩ := run_identifier name place height c
      have same : ((c.scopes.markUsed name).lookup name).map (·.valueType) =
          (c.scopes.lookup name).map (·.valueType) := by rw [lookup_markUsed]
      rw [run]
      exact Prod.ext same rfl
  | _ => cases direct

theorem objectType_of_not_isDirect (other : isDirect object = false) (c : Checker) :
    (objectType object).run c = (none, c) := by
  obtain ⟨form, place, height⟩ := object
  cases form with
  | this | identifier _ => cases other
  | _ => rfl

/-! ### Writes to members -/

/-- Whether a member of a class that is found must not be written outside of a constructor. -/
def guards (c : Checker) (object : Option Ty) (m : String) : Bool :=
  match object with
  | some (.class_ className _ _ _) => (c.scopes.classMember className m).any (·.2.isImmutable)
  | _ => false

/-- What a write to a member reports of it. -/
def refusal (target object : Expr) (m : String) (t : Option Ty) (c : Checker) : List Finding :=
  if guards c t m && !(c.inConstructor && isThis object) then
    [.error ⟨.invalidAssignment (.readOnly m), target.location⟩]
  else []

/-- A member access by name keeps what the check of its object left. -/
theorem run_member (form : target.form = .member object property false) (c : Checker) :
    ((expr target).run c).2 = ((expr object).run c).2 := by
  obtain ⟨_, place, height⟩ := target
  cases form
  have run : (expr ⟨.member object property false, place, height⟩).run c =
      (memberType ((expr object).run c).1 property).run ((expr object).run c).2 := rfl
  rw [run]
  unfold memberType
  split <;> rfl

/-- A write to a member reports what the type of the object without a check calls for. -/
theorem run_writable (form : target.form = .member object property false)
    (named : property.form = .identifier m) (c : Checker) :
    ((writable target).run c).2 = { c with
      findings := c.findings ++ refusal target object m ((objectType object).run c).1 c } := by
  obtain ⟨t, typed⟩ : ∃ t, (objectType object).run c = (t, c) := by
    unfold objectType
    split <;> exact ⟨_, rfl⟩
  obtain ⟨_, place, height⟩ := target
  cases form
  obtain ⟨_, place', height'⟩ := property
  cases named
  have nothing : c = { c with findings := c.findings ++ [] } := by rw [List.append_nil]
  unfold writable
  rw [StateT.run_bind, typed]
  cases t with
  | none => exact nothing
  | some t =>
      cases t with
      | class_ className superclass interfaces generics =>
          have searched : (classMember className m).run c = (c.scopes.classMember className m, c) :=
            rfl
          change ((classMember className m >>= _).run c).2 = _
          rw [StateT.run_bind, searched, refusal, guards]
          cases c.scopes.classMember className m with
          | none => exact nothing
          | some member =>
              change ((if member.2.isImmutable && !(c.inConstructor && isThis object) then
                  error (.invalidAssignment (.readOnly m)) place
                else return : Check Unit).run c).2 = _
              rw [Option.any_some]
              split
              · rfl
              · exact nothing
      | _ => exact nothing

/-- What remains of the check of an assignment, when the target was checked, is about types. -/
theorem assignable?_reports (found expected : Option Ty) (place : Location) (c : Checker) :
    ∃ mismatch, ((assignable? found expected place).run c).2.findings = c.findings ++ mismatch ∧
      ∀ f ∈ mismatch, f.kind = .type := by
  have nothing : c.findings = c.findings ++ [] := (List.append_nil _).symm
  unfold assignable?
  split
  · unfold assignable
    split
    · exact ⟨[_], rfl, by simp [Finding.kind, SemanticFault.kind]⟩
    · exact ⟨[], nothing, nofun⟩
  · exact ⟨[], nothing, nofun⟩

theorem isThis_inConstructor (object : Expr) (c : Checker) :
    (((expr object).run c).2.inConstructor && isThis object) =
      (c.inConstructor && isThis object) := by
  obtain ⟨form, place, height⟩ := object
  cases form with
  | this =>
      obtain ⟨found, run⟩ := run_this place height c
      rw [run]
  | _ => rw [isThis, Bool.and_false, Bool.and_false]

/--
A write to a member that the class of the object guards, by an update or an assignment, is refused
at the target if the object is a name, or `this` outside of constructors. On every other object it
is not refused.
-/
theorem guarded_write_reported_iff (form : target.form = .member object property false)
    (named : property.form = .identifier m) {className : String} {superclass : Option Ty}
    {interfaces generics : List Ty} {type : Ty} {modifiers : Modifiers}
    (typed : ((expr object).run c).1 = some (.class_ className superclass interfaces generics))
    (found : ((expr object).run c).2.scopes.classMember className m = some (type, modifiers))
    (immutable : modifiers.isImmutable = true) :
    let refused : List Finding :=
      if isDirect object && !(c.inConstructor && isThis object) then
        [.error ⟨.invalidAssignment (.readOnly m), target.location⟩]
      else []
    (∀ op isPrefix place height,
      ((expr ⟨.update op isPrefix target, place, height⟩).run c).2.findings =
        ((expr object).run c).2.findings ++ refused) ∧
    ∀ value before, ((expr value).run before).2 = c →
      ∃ mismatch, ((assignment target value).run before).2.findings =
          ((expr object).run c).2.findings ++ refused ++ mismatch ∧
        ∀ f ∈ mismatch, f.kind = .type := by
  intro refused
  have checked : ((expr target).run c).2 = ((expr object).run c).2 := run_member form c
  have written : ((writable target).run ((expr target).run c).2).2.findings =
      ((expr object).run c).2.findings ++ refused := by
    rw [checked, run_writable form named]
    cases direct : isDirect object with
    | true =>
        rw [objectType_of_isDirect direct, typed]
        simp [refused, refusal, guards, direct, found, immutable, isThis_inConstructor]
    | false =>
        rw [objectType_of_not_isDirect direct]
        simp [refused, refusal, guards, direct]
  refine ⟨fun op isPrefix place height => written, fun value before here => ?_⟩
  subst here
  obtain ⟨mismatch, findings, types⟩ := assignable?_reports ((expr value).run before).1
    ((expr target).run ((expr value).run before).2).1 value.location
    ((writable target).run ((expr target).run ((expr value).run before).2).2).2
  exact ⟨mismatch, findings.trans (congrArg (· ++ mismatch) written), types⟩

/--
A variable of a class with a read-only property, and one of a class with a field of that class: the
property is guarded where it is reached by the name, and not where it is reached by the field.
-/
theorem guarded_property_of_field_written :
    let property (name : String) (type : Ty) (modifiers : Modifiers) : VariableEntry :=
      ⟨name, type, modifiers.isImmutable, false, modifiers, none⟩
    let inner : Ty := (ClassTy.named "C").toTy
    let outer : Ty := (ClassTy.named "D").toTy
    let readOnly : Modifiers := .set .empty .readonly
    let entries : List Entry :=
      [.cls ⟨"C", .named "C", [property "x" .int readOnly], [], none, .empty, none⟩,
        .cls ⟨"D", .named "D", [property "c" inner .empty], [], none, .empty, none⟩,
        .var (localVariable "c" inner .nowhere), .var (localVariable "d" outer .nowhere)]
    let c : Checker := ⟨⟨[], ⟨entries, []⟩⟩, [], false, [], []⟩
    let name (n : String) : Expr := ⟨.identifier n, .nowhere, 1⟩
    let dot (e : Expr) (n : String) : Expr := ⟨.member e (name n) false, .nowhere, e.height + 1⟩
    let increment (e : Expr) : Expr := ⟨.update .increment false e, .nowhere, e.height + 1⟩
    let byName := name "c"
    let byField := dot (name "d") "c"
    ((expr byName).run c).1 = some inner ∧ ((expr byField).run c).1 = some inner ∧
      c.scopes.classMember "C" "x" = some (.int, readOnly) ∧ readOnly.isImmutable = true ∧
      ((expr (increment (dot byName "x"))).run c).2.findings =
        [.error ⟨.invalidAssignment (.readOnly "x"), .nowhere⟩] ∧
      ((expr (increment (dot byField "x"))).run c).2.findings = [] := by
  intro property inner outer readOnly entries c name dot increment byName byField
  have typedName : ((expr byName).run c).1 = some inner := by rfl
  have typedField : ((expr byField).run c).1 = some inner := by rfl
  have found : c.scopes.classMember "C" "x" = some (.int, readOnly) := by rfl
  have foundName :
      ((expr byName).run c).2.scopes.classMember "C" "x" = some (.int, readOnly) := by rfl
  have foundField :
      ((expr byField).run c).2.scopes.classMember "C" "x" = some (.int, readOnly) := by rfl
  have immutable : readOnly.isImmutable = true := by decide
  refine ⟨typedName, typedField, found, immutable, ?_, ?_⟩
  · exact (guarded_write_reported_iff rfl rfl typedName foundName immutable).1
      .increment false .nowhere _
  · exact (guarded_write_reported_iff rfl rfl typedField foundField immutable).1
      .increment false .nowhere _

end Check
end ScriptFront
