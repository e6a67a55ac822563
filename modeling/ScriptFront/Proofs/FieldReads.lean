import ScriptFront.Phase.Analysis
import ScriptFront.Proofs.BalancedStatements
import ScriptFront.Proofs.PropertyWrites
import ScriptFront.Proofs.RecursiveFields

/-!
Variables that are read from fields of structures. A variable with the annotation of the field takes
the value unless the annotation names a structure that is unrolled further by now than when the
field got its type.
-/

namespace ScriptFront

/-! ### Written types at other places -/

mutual

/-- A written type without the places it is written at. -/
def TypeExpr.withoutPlaces : TypeExpr → TypeExpr
  | ⟨form, _⟩ => ⟨form.withoutPlaces, .nowhere⟩

def TypeForm.withoutPlaces : TypeForm → TypeForm
  | .reference name generics => .reference name (typesWithoutPlaces generics)
  | .array t => .array t.withoutPlaces
  | .union l r => .union l.withoutPlaces r.withoutPlaces
  | .intersection l r => .intersection l.withoutPlaces r.withoutPlaces
  | form => form

def typesWithoutPlaces : List TypeExpr → List TypeExpr
  | [] => []
  | t :: ts => t.withoutPlaces :: typesWithoutPlaces ts

end

theorem toOption_bind {α β ε : Type} (x : Except ε α) (f : α → Except ε β) :
    (x >>= f).toOption = x.toOption.bind fun a => (f a).toOption := by
  cases x <;> rfl

mutual

/-- What a written type denotes does not depend on where it is written. -/
theorem resolveType_withoutPlaces (m : Meaning) :
    ∀ t : TypeExpr, (t.withoutPlaces.resolve m).toOption = (t.resolve m).toOption
  | ⟨form, place⟩ => resolveForm_withoutPlaces m place form

theorem resolveForm_withoutPlaces (m : Meaning) (place : Location) :
    ∀ form : TypeForm,
      (form.withoutPlaces.resolve m .nowhere).toOption = (form.resolve m place).toOption
  | .reference name generics => by
      rw [TypeForm.withoutPlaces, TypeForm.resolve, TypeForm.resolve, toOption_bind, toOption_bind,
        resolveAll_withoutPlaces m generics]
      refine congrArg _ (funext fun arguments => ?_)
      cases m.typeNamed? name arguments <;> rfl
  | .array t => by
      rw [TypeForm.withoutPlaces, TypeForm.resolve, TypeForm.resolve, toOption_bind, toOption_bind,
        resolveType_withoutPlaces m t]
  | .union l r | .intersection l r => by
      simp only [TypeForm.withoutPlaces, TypeForm.resolve, toOption_bind,
        resolveType_withoutPlaces m l, resolveType_withoutPlaces m r]
  | .infer | .void | .null | .undefined => rfl

theorem resolveAll_withoutPlaces (m : Meaning) :
    ∀ ts : List TypeExpr,
      (resolveAll m (typesWithoutPlaces ts)).toOption = (resolveAll m ts).toOption
  | [] => rfl
  | t :: ts => by
      simp only [typesWithoutPlaces, resolveAll, toOption_bind, resolveType_withoutPlaces m t,
        resolveAll_withoutPlaces m ts]

end

/-- The type of a variable with an annotation. -/
def TypeExpr.resolveOrInferred (m : Meaning) (t : TypeExpr) : Ty :=
  (t.resolve m).toOption.getD .inferred

theorem TypeExpr.resolveOrInferred_congr {t t' : TypeExpr} (h : t.withoutPlaces = t'.withoutPlaces)
    (m : Meaning) : t.resolveOrInferred m = t'.resolveOrInferred m := by
  rw [resolveOrInferred, resolveOrInferred, ← resolveType_withoutPlaces m t, h,
    resolveType_withoutPlaces m t']

/-- A value fits an annotation if its own type was made of this annotation by the same names. -/
theorem TypeExpr.Agrees.fits {m m' : Meaning} {t : TypeExpr} (h : t.Agrees m m')
    (wellFormed : m'.WellFormed) : (t.resolveOrVoid m).fits (t.resolveOrInferred m') = true := by
  unfold resolveOrVoid resolveOrInferred
  rw [h.resolve_eq]
  cases resolved : t.resolve m' with
  | ok ty => exact Ty.fits_of_same (wellFormed.resolveType t ty resolved).same_self
  | error e => exact Ty.fits_generic _ "infer"

/-- It does not fit if the annotation carries a name that lagged behind. -/
theorem TypeExpr.Carries.misfit {m m' : Meaning} {t : TypeExpr} {x : String} (h : t.Carries x)
    (lags : m.Lags m' x) : (t.resolveOrVoid m).fits (t.resolveOrInferred m') = false := by
  obtain ⟨ty, ty', here, there, misfit⟩ := h.lags lags
  rw [resolveOrVoid, resolveOrInferred, here, there]
  exact misfit.fits

/-! ### Type errors -/

/-- The type errors found so far. -/
def Checker.typeErrors (c : Checker) : List Finding := c.findings.filter (·.kind == .type)

namespace Check

theorem declare_typeErrors (e : Entry) (place : Location) (c : Checker) :
    ((declare e place).run c).2.typeErrors = c.typeErrors := by
  unfold declare
  rw [StateT.run_bind, StateT.run_get, pure_bind]
  cases c.scopes.define e with
  | ok scopes => rfl
  | error existing => exact (List.filter_append ..).trans (List.append_nil _)

theorem declares_typeErrors (entry : Ident → Entry) (names : List Ident) (c : Checker) :
    ((names.forM fun name => declare (entry name) name.location).run c).2.typeErrors =
      c.typeErrors := by
  induction names generalizing c with
  | nil => rfl
  | cons name names ih => exact (ih _).trans (declare_typeErrors _ _ c)

/-- A written type that denotes nothing is no type error, and accepts everything. -/
theorem resolveType_typeErrors (t : TypeExpr) (c : Checker) :
    ((resolveType t).run c).1.getD .inferred = t.resolveOrInferred c.scopes.lookup ∧
      ((resolveType t).run c).2.typeErrors = c.typeErrors := by
  unfold resolveType meaning TypeExpr.resolveOrInferred
  rw [bind_assoc, StateT.run_bind, StateT.run_get, pure_bind, pure_bind]
  cases resolved : t.resolve c.scopes.lookup with
  | ok ty => exact ⟨rfl, rfl⟩
  | error e =>
      obtain ⟨_, kind⟩ := typeExpr_error_at _ t (within_anything _) e resolved
      refine ⟨rfl, (List.filter_append ..).trans ?_⟩
      have other : (Finding.error ⟨e.fault, e.location⟩).kind = .unknownType := kind
      rw [List.filter_singleton, other]
      exact List.append_nil _

theorem assignable_typeErrors (found expected : Ty) (place : Location) (c : Checker) :
    ((assignable found expected place).run c).2.typeErrors = c.typeErrors ++
      if found.fits expected then [] else [.error ⟨.typeMismatch expected found, place⟩] := by
  unfold assignable
  cases found.fits expected with
  | true => exact (List.append_nil _).symm
  | false => exact List.filter_append ..

/-- A variable reports a type error if its value does not fit its annotation, and no other one. -/
theorem variableType_typeErrors {v : VariableDeclaration} {init : Expr} (given : v.init = some init)
    {t : Ty} {c c' : Checker} (run : (expr init).run c = (some t, c')) :
    ((variableType v).run c).2.typeErrors = c'.typeErrors ++
      if t.fits (v.type.resolveOrInferred c'.scopes.lookup) then []
      else [.error ⟨.typeMismatch (v.type.resolveOrInferred c'.scopes.lookup) t,
        init.location⟩] := by
  have after : (variableType v).run c = (if v.type.isInfer then return t
      else do
        let declared := (← resolveType v.type).getD .inferred
        assignable t declared init.location
        return declared : Check Ty).run c' := by
    unfold variableType
    rw [StateT.run_bind, given, optionalExpr, run]
    cases v.type.isInfer <;> rfl
  rw [after]
  cases infer : v.type.isInfer with
  | true =>
      have inferred : v.type.resolveOrInferred c'.scopes.lookup = .inferred := by
        obtain ⟨_, _, ⟨form, place⟩, _, _⟩ := v
        cases form with
        | infer => rfl
        | _ => cases infer
      rw [inferred, Ty.inferred, if_pos (Ty.fits_generic t "infer"), List.append_nil]
      rfl
  | false =>
      obtain ⟨declared, quiet⟩ := resolveType_typeErrors v.type c'
      rw [← declared, ← quiet]
      exact assignable_typeErrors t _ init.location _

theorem varGroup_typeErrors {v : VariableDeclaration} {init : Expr} (given : v.init = some init)
    {t : Ty} {c c' : Checker} (run : (expr init).run c = (some t, c')) :
    ((varGroup v).run c).2.typeErrors = c'.typeErrors ++
      if t.fits (v.type.resolveOrInferred c'.scopes.lookup) then []
      else [.error ⟨.typeMismatch (v.type.resolveOrInferred c'.scopes.lookup) t,
        init.location⟩] := by
  rw [varGroup_eq, ← variableType_typeErrors given run]
  exact declares_typeErrors (variableEntry v · _) v.names _

/-- The access to a field of a name gives the type of the field, and reads the name. -/
theorem run_field {access object property : Expr} {name x : String} {c : Checker} {e : Entry}
    {fields : List (String × Ty)} {generics : List Ty}
    (form : access.form = .member object property false) (direct : object.form = .identifier x)
    (named : property.form = .identifier name) (found : c.scopes.lookup x = some e)
    (type : e.valueType = .struct fields generics) :
    (expr access).run c = (fields.lookup name, { c with scopes := c.scopes.markUsed x }) := by
  obtain ⟨_, place, height⟩ := access
  cases form
  obtain ⟨_, place', height'⟩ := object
  cases direct
  obtain ⟨_, place'', height''⟩ := property
  cases named
  obtain ⟨found', run, nothing⟩ := run_identifier x place' height' c
  rw [nothing (found ▸ rfl), found, Option.map_some, type, List.append_nil] at run
  have step : (expr ⟨.member ⟨.identifier x, place', height'⟩
      ⟨.identifier name, place'', height''⟩ false, place, height⟩).run c =
        (memberType ((expr ⟨.identifier x, place', height'⟩).run c).1
          ⟨.identifier name, place'', height''⟩).run
            ((expr ⟨.identifier x, place', height'⟩).run c).2 := rfl
  rw [step, run]
  rfl

end Check

/-! ### Reads of fields -/

/--
A field is read from a name of the type of a structure, where this type and the names in the
annotation of the field denote what they denote under some meaning.
-/
structure ReadsField (m : Meaning) (d : TypeDeclaration) (f : TypeField) (c : Checker)
    (access : Expr) : Prop where
  form : ∃ object property x e, access.form = .member object property false ∧
    object.form = .identifier x ∧ property.form = .identifier f.name.text ∧
    c.scopes.lookup x = some e ∧
      ∃ place, (TypeExpr.named d.name.text place).resolve c.scopes.lookup = .ok e.valueType
  kind : Meaning.Agree c.scopes.lookup m d.name.text
  names : f.type.Agrees c.scopes.lookup m

open Hoisted Check in
/--
A read of a field of a structure of a block gives the type that the annotation of the field denotes
when the structure is completed for the last time. The value fits a variable of the same annotation,
and there is no type error, if no name in the annotation is late. If the annotation carries a
structure that leads back to itself, it fits in no other case.
-/
theorem field_read_fits (body : List Statement) (c : Checker)
    (wellFormed : Meaning.WellFormed c.scopes.lookup) {s : Statement} {d : TypeDeclaration}
    {f : TypeField} (declared : s ∈ (ofBody body c).declared) (form : s.form = .structType d)
    (plain : d.generics = []) (field : d.field? f.name.text = some f) {k : Checker} {access : Expr}
    (reads : ReadsField ((Check.hoist body).run c).2.scopes.lookup d f k access)
    {v : VariableDeclaration} (annotated : v.type.withoutPlaces = f.type.withoutPlaces)
    (given : v.init = some access) :
    let found := f.type.resolveOrVoid ((ofBody body c).lastSight d.name.text)
    let expected := f.type.resolveOrInferred k.scopes.lookup
    ((expr access).run k).1 = some found ∧
      ((varGroup v).run k).2.typeErrors = k.typeErrors ++
        (if found.fits expected then []
        else [.error ⟨.typeMismatch expected found, access.location⟩]) ∧
      ((∀ x ∈ f.type.outline.mentions, ¬ (ofBody body c).Late x d.name.text) →
        found.fits expected = true) ∧
      ∀ x, (ofBody body c).Recurs x → f.type.Carries x →
        (found.fits expected = true ↔ ¬ (ofBody body c).Late x d.name.text) := by
  intro found expected
  rw [lookup_hoist_eq] at reads
  obtain ⟨⟨object, property, x, e, isAccess, direct, named, known, place, typed⟩, kind, names⟩ :=
    reads
  have whole := wellFormed_meaning body wellFormed
  have name := aheadName_of_struct form
  have placed := placed_of_struct declared form
  obtain ⟨before, after, order⟩ := List.append_of_mem placed
  obtain ⟨fields, type, lookup⟩ :=
    Signature.type_ofStruct ((ofBody body c).lastSight d.name.text) d
  have value : e.valueType = .struct fields (Ty.ofGenerics (d.generics.map (·.text))) := by
    have final := Meaning.Agree.of_eq (final_type placed name) []
    rw [typeNamed?_round form order 1, ← lastSight_eq name order, type] at final
    exact Option.some.inj ((TypeExpr.resolve_named.mp typed).symm.trans ((kind []).trans final))
  have read : (expr access).run k = (some found, { k with scopes := k.scopes.markUsed x }) := by
    rw [run_field isAccess direct named known value, lookup, field, plain]
    rfl
  have sees : expected = f.type.resolveOrInferred (ofBody body c).final := by
    simp only [expected, TypeExpr.resolveOrInferred, TypeExpr.Agrees.resolve_eq names]
  have early : (∀ x ∈ f.type.outline.mentions, ¬ (ofBody body c).Late x d.name.text) →
      found.fits expected = true := by
    intro early
    rw [sees]
    exact (agrees_lastSight declared form (TypeDeclaration.mem_of_field field) early).fits
      (wellFormed_final whole)
  refine ⟨by rw [read], ?_, early, fun x recurs carries => ⟨fun fits late => ?_, fun notLate => ?_⟩⟩
  · have expects : v.type.resolveOrInferred k.scopes.lookup = expected :=
      TypeExpr.resolveOrInferred_congr annotated k.scopes.lookup
    rw [varGroup_typeErrors given read, Scopes.lookup_markUsed, expects]
    rfl
  · have unfit := carries.misfit (lags_lastSight whole declared form recurs late)
    rw [sees, unfit] at fits
    cases fits
  · exact early fun y hy => carries.mentions y hy ▸ notLate

/-- At the start of a file, names stand for well-formed types. -/
theorem Check.wellFormed_builtins : Meaning.WellFormed (builtins.run default).2.scopes.lookup := by
  have frames : (builtins.run default).2.scopes.frames =
      [⟨Primitive.all.map (fun p => Entry.named ⟨p.name, .primitive p, .empty, none⟩) ++
        [.func (NativeModule.function "print" [("value", .string)] .void)], []⟩] := rfl
  refine Scopes.wellFormed_of_entries ?_
  rw [frames]
  simp only [List.forall_mem_singleton, List.forall_mem_append, List.forall_mem_map]
  exact ⟨fun _ _ => Ty.wellFormed_of_no_parts rfl rfl, trivial⟩

/-- The type of a node that has a value and leads to another node. -/
def nodeDeclaration : TypeDeclaration :=
  let field (name type : String) : TypeField :=
    ⟨⟨name, .nowhere⟩, .named type .nowhere, .nowhere⟩
  ⟨.empty, ⟨"Node", .nowhere⟩, [], [field "value" "int", field "next" "Node"]⟩

def nodeBody : List Statement := [⟨.structType nodeDeclaration, .nowhere⟩]

open Hoisted Check in
/-- The next node is unrolled once less than a node, so it is no value of its declared type. -/
theorem next_is_no_node :
    let node (next : Ty) : Ty := .struct [("value", .int), ("next", next)] []
    let once := node (.struct [] [])
    let entry : Entry := .var (localVariable "list" (node once) .nowhere)
    let start := (builtins.run default).2
    let k := ((do hoist nodeBody; declare entry .nowhere : Check Unit).run start).2
    let access : Expr := ⟨.member ⟨.identifier "list", .nowhere, 1⟩
      ⟨.identifier "next", .nowhere, 1⟩ false, .nowhere, 2⟩
    let v : VariableDeclaration :=
      ⟨.empty, false, .named "Node" .nowhere, [⟨"rest", .nowhere⟩], some access⟩
    ((varGroup v).run k).2.typeErrors = [.error ⟨.typeMismatch (node once) once, .nowhere⟩] := by
  intro node once entry start k access v
  have order : (CompletionOrder.of (ofBody nodeBody start).declared).map (·.aheadName?) =
      [some "Node"] := by decide +kernel
  have mem : nodeBody.head! ∈ (ofBody nodeBody start).declared := List.mem_cons_self
  have holds : (ofBody nodeBody start).Holds "Node" "Node" :=
    ⟨_, mem, nodeDeclaration, rfl, rfl, "next", _, rfl, .name .nowhere, rfl⟩
  have late : (ofBody nodeBody start).Late "Node" "Node" := by
    refine ⟨?_, _, mem, _, mem, rfl, rfl, .refl⟩
    rw [before_of_names [] [] order]
    exact List.not_mem_nil
  have reads : ReadsField ((hoist nodeBody).run start).2.scopes.lookup nodeDeclaration
      nodeDeclaration.fields.getLast! k access := by
    refine ⟨⟨_, _, "list", entry, rfl, rfl, rfl, rfl, .nowhere, rfl⟩, fun _ => rfl, fun x hx => ?_⟩
    cases List.mem_singleton.mp hx
    exact fun _ => rfl
  obtain ⟨_, errors, _, exactly⟩ :=
    field_read_fits nodeBody start wellFormed_builtins mem rfl rfl rfl reads (v := v) rfl rfl
  have unfit := mt (exactly "Node" ⟨"Node", .refl, .single holds⟩ (.name .nowhere)).mp
    (not_not_intro late)
  rw [errors, if_neg unfit]
  rfl

end ScriptFront
