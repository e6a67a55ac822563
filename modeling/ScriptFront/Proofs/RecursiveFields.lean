import ScriptFront.Proofs.DenotedTypes
import ScriptFront.Proofs.UnionValues

/-!
What a value fits that is read from a field of a structure. Structures are finite, so one that leads
back to itself is recorded as far as two rounds of completion unroll it. A field sees the names in
its annotation as they stand when its structure is completed for the last time: a name that is still
to come in this round stands for the entry of the round before, which is unrolled once less than the
one that the same annotation denotes on a variable afterwards.
-/

namespace ScriptFront

open Relation

/-! ### The fields of a declaration -/

/-- The field of a name in a structure, which is the last one that is declared under it. -/
def TypeDeclaration.field? (d : TypeDeclaration) (name : String) : Option TypeField :=
  d.fields.reverse.find? (·.name.text == name)

theorem Ty.lookup_ofFields (type : TypeField → Ty) (fields : List TypeField) (name : String) :
    (ofFields (fields.map fun f => (f.name.text, type f))).lookup name =
      (fields.reverse.find? (·.name.text == name)).map type := by
  induction fields using List.reverseRecOn with
  | nil => rfl
  | append_singleton fields f ih =>
      rw [List.map_append, List.map_singleton, ofFields_concat, lookup_setField, ih,
        List.reverse_append, List.reverse_singleton, List.singleton_append, List.find?_cons]
      by_cases same : name = f.name.text
      · simp [same]
      · have other : (f.name.text == name) = false := by simpa using Ne.symm same
        rw [if_neg same, other]

/-- A declared structure has the fields of its declaration, with the types that they denote. -/
theorem Signature.type_ofStruct (m : Meaning) (d : TypeDeclaration) :
    ∃ fields, (ofStruct m d).type = .struct fields (Ty.ofGenerics (d.generics.map (·.text))) ∧
      ∀ name, fields.lookup name =
        (d.field? name).map (·.type.resolveOrVoid (m.withGenerics d.generics)) :=
  ⟨_, rfl, Ty.lookup_ofFields _ d.fields⟩

theorem TypeDeclaration.mem_of_field {d : TypeDeclaration} {name : String} {f : TypeField}
    (h : d.field? name = some f) : f ∈ d.fields :=
  List.mem_reverse.mp (List.mem_of_find?_eq_some h)

/-! ### Annotations that carry a name -/

/-- Whether a written type is one of those with a single value or none. -/
def TypeForm.isBare : TypeForm → Bool
  | .null | .undefined | .void => true
  | _ => false

/--
An annotation whose values are those of a name, arrays of them, or values of the kind beside `null`,
`undefined` or `void`.
-/
inductive TypeExpr.Carries (x : String) : TypeExpr → Prop
  | name (place : Location) : Carries x (.named x place)
  | array {t : TypeExpr} (place : Location) : Carries x t → Carries x ⟨.array t, place⟩
  | left {t u : TypeExpr} (place : Location) : Carries x t → u.form.isBare = true →
      Carries x ⟨.union t u, place⟩
  | right {t u : TypeExpr} (place : Location) : Carries x t → u.form.isBare = true →
      Carries x ⟨.union u t, place⟩

theorem Outline.mentions_node (root : Node) (children : List Outline) :
    (Outline.node root children).mentions = root.mentions ++ children.flatMap mentions := by
  have below : ∀ os : List Outline,
      (walkAll Visit.everything os).flatMap Node.mentions = os.flatMap mentions := by
    intro os
    induction os with
    | nil => rfl
    | cons o os ih => rw [walkAll, List.flatMap_append, ih, List.flatMap_cons, mentions]
  exact congrArg (root.mentions ++ ·) (below children)

namespace TypeExpr

variable {x y : String} {t : TypeExpr}

theorem resolve_named {m : Meaning} {place : Location} {ty : Ty} :
    (named x place).resolve m = .ok ty ↔ m.typeNamed? x [] = some ty := by
  simp only [named, resolve, TypeForm.resolve, resolveAll, bind, Except.bind]
  cases m.typeNamed? x [] <;> simp

theorem resolve_of_isBare (h : t.form.isBare = true) :
    ∃ p, ∀ m, t.resolve m = .ok (.primitive p) := by
  obtain ⟨form, place⟩ := t
  cases form with
  | void | null | undefined => exact ⟨_, fun _ => rfl⟩
  | _ => cases h

theorem mentions_of_isBare (h : t.form.isBare = true) : t.outline.mentions = [] := by
  obtain ⟨form, place⟩ := t
  cases form with
  | void | null | undefined => rfl
  | _ => cases h

/-- An annotation mentions no other name than the one it carries. -/
theorem Carries.mentions (h : t.Carries x) : ∀ y ∈ t.outline.mentions, y = x := by
  induction h with
  | name place => exact fun y hy => List.mem_singleton.mp hy
  | array place _ ih =>
      intro y hy
      simp only [outline, Outline.mentions_node, TypeForm.outlines, Node.mentions, List.nil_append,
        List.flatMap_cons, List.flatMap_nil, List.append_nil] at hy
      exact ih y hy
  | left place _ bare ih | right place _ bare ih =>
      intro y hy
      simp only [outline, Outline.mentions_node, TypeForm.outlines, Node.mentions, List.nil_append,
        List.flatMap_cons, List.flatMap_nil, List.append_nil, mentions_of_isBare bare] at hy
      exact ih y hy

end TypeExpr

/-! ### Structures that are unrolled less -/

/-- A name stands for structures, and the one that it stands for first does not fit the other. -/
def Meaning.Lags (m m' : Meaning) (x : String) : Prop :=
  ∃ fields generics fields' generics',
    m.typeNamed? x [] = some (.struct fields generics) ∧
      m'.typeNamed? x [] = some (.struct fields' generics') ∧
        (Ty.struct fields generics).fits (.struct fields' generics') = false

namespace Ty

/-- What is neither taken apart nor fits any built-in type. -/
structure Solid (t : Ty) : Prop where
  whole : ∀ l r, t.same (.union l r) = false
  apart : ∀ p, t.fits (.primitive p) = false

theorem solid_struct (fields : List (String × Ty)) (generics : List Ty) :
    (struct fields generics).Solid := by
  constructor <;> simp [same, fits, widen]

theorem solid_array (t : Ty) : (array t).Solid := by
  constructor <;> simp [same, fits, widen]

/--
A type has a side that does not fit a target: a value fits no target that this side does not fit.
-/
def Misfit (t u : Ty) : Prop :=
  ∃ side : Ty, side.Solid ∧ (∀ v, t.fits v = true → side.fits v = true) ∧ side.fits u = false

variable {t u : Ty}

theorem Misfit.of_solid (solid : t.Solid) (unfit : t.fits u = false) : t.Misfit u :=
  ⟨t, solid, fun _ => id, unfit⟩

theorem Misfit.fits (h : t.Misfit u) : t.fits u = false := by
  obtain ⟨side, _, parts, unfit⟩ := h
  by_contra fits
  exact Bool.false_ne_true (unfit.symm.trans (parts u (by simpa using fits)))

theorem Misfit.array (h : t.Misfit u) : (array t).Misfit (array u) := by
  have differ : t.same u = false := by
    by_contra same
    exact Bool.false_ne_true (h.fits.symm.trans (fits_of_same (by simpa using same)))
  refine .of_solid (solid_array t) ?_
  simp [Ty.fits, widen, same, h.fits, differ]

/-- A built-in type beside a target takes no solid values in. -/
theorem Solid.fits_union (h : t.Solid) (p : Primitive) (unfit : t.fits u = false) :
    t.fits (union u (primitive p)) = false ∧ t.fits (union (primitive p) u) = false := by
  constructor <;> rw [← Bool.not_eq_true, Ty.fits_union, h.whole, h.apart, unfit] <;> simp

theorem Misfit.left (h : t.Misfit u) (p : Primitive) :
    (union t (primitive p)).Misfit (union u (primitive p)) := by
  obtain ⟨side, solid, parts, unfit⟩ := h
  exact ⟨side, solid, fun v fits => parts v (sides_fit fits).1, (solid.fits_union p unfit).1⟩

theorem Misfit.right (h : t.Misfit u) (p : Primitive) :
    (union (primitive p) t).Misfit (union (primitive p) u) := by
  obtain ⟨side, solid, parts, unfit⟩ := h
  exact ⟨side, solid, fun v fits => parts v (sides_fit fits).2, (solid.fits_union p unfit).2⟩

end Ty

/-- Where what a name stands for lags behind, so does what an annotation denotes that carries it. -/
theorem TypeExpr.Carries.lags {m m' : Meaning} {x : String} {t : TypeExpr} (h : t.Carries x)
    (lags : m.Lags m' x) :
    ∃ ty ty', t.resolve m = .ok ty ∧ t.resolve m' = .ok ty' ∧ ty.Misfit ty' := by
  induction h with
  | name place =>
      obtain ⟨fields, generics, fields', generics', here, there, unfit⟩ := lags
      exact ⟨_, _, resolve_named.mpr here, resolve_named.mpr there,
        .of_solid (Ty.solid_struct fields generics) unfit⟩
  | array place _ ih =>
      obtain ⟨ty, ty', here, there, misfit⟩ := ih
      refine ⟨.array ty, .array ty', ?_, ?_, misfit.array⟩
      · simp only [resolve, TypeForm.resolve, here]; rfl
      · simp only [resolve, TypeForm.resolve, there]; rfl
  | left place _ bare ih =>
      obtain ⟨ty, ty', here, there, misfit⟩ := ih
      obtain ⟨p, other⟩ := resolve_of_isBare bare
      refine ⟨.union ty (.primitive p), .union ty' (.primitive p), ?_, ?_, misfit.left p⟩
      · simp only [resolve, TypeForm.resolve, here, other]; rfl
      · simp only [resolve, TypeForm.resolve, there, other]; rfl
  | right place _ bare ih =>
      obtain ⟨ty, ty', here, there, misfit⟩ := ih
      obtain ⟨p, other⟩ := resolve_of_isBare bare
      refine ⟨.union (.primitive p) ty, .union (.primitive p) ty', ?_, ?_, misfit.right p⟩
      · simp only [resolve, TypeForm.resolve, here, other]; rfl
      · simp only [resolve, TypeForm.resolve, there, other]; rfl

/-! ### Structures that lead back to themselves -/

theorem Meaning.Lags.of_eq {m m' n n' : Meaning} {x : String} (h : n.Lags n' x)
    (here : m x = n x) (there : m' x = n' x) : m.Lags m' x := by
  simpa only [Lags, typeNamed?, here, there] using h

theorem Meaning.Lags.withGenerics {m m' : Meaning} {x : String} (h : m.Lags m' x)
    {generics : List Ident} (notGeneric : generics.find? (·.text == x) = none) :
    (m.withGenerics generics).Lags (m'.withGenerics generics) x := by
  simpa only [Lags, typeNamed?_withGenerics notGeneric] using h

theorem Meaning.typeNamed?_of_struct {m : Meaning} {x : String} {t : TypeEntry}
    {fields : List (String × Ty)} {generics : List Ty} (found : m x = some (.named t))
    (type : t.type = .struct fields generics) :
    m.typeNamed? x [] = some (.struct fields generics) := by
  simp [typeNamed?, found, type]

/-- A structure does not fit another one if the types of a field do not fit. -/
theorem Ty.not_fits_of_field {fields fields' : List (String × Ty)} {generics generics' : List Ty}
    (wellFormed : (struct fields generics).WellFormed) (name : String) {t : Ty}
    (field : fields'.lookup name = some t)
    (unfit : ∀ u, fields.lookup name = some u → u.fits t = false) :
    (struct fields generics).fits (struct fields' generics') = false := by
  by_contra fits
  cases suits_of_fits wellFormed rfl (by simpa using fits) with
  | fields all =>
      obtain ⟨u, found, inner⟩ := all (name, t) (mem_of_lookup field)
      exact Bool.false_ne_true ((unfit u found).symm.trans inner)

/-- A structure lags where it has a field that carries what lags. -/
theorem Signature.ofStruct_lags {m m' : Meaning} (wellFormed : m.WellFormed) {d : TypeDeclaration}
    {name x : String} {f : TypeField} (field : d.field? name = some f) (carries : f.type.Carries x)
    (notGeneric : d.generics.find? (·.text == x) = none) (lags : m.Lags m' x) :
    (ofStruct m d).type.fits (ofStruct m' d).type = false := by
  obtain ⟨fields, type, found⟩ := type_ofStruct m d
  obtain ⟨fields', type', found'⟩ := type_ofStruct m' d
  obtain ⟨ty, ty', here, there, misfit⟩ := carries.lags (lags.withGenerics notGeneric)
  have whole := wellFormed.ofStruct d
  rw [type] at whole ⊢
  rw [type']
  refine Ty.not_fits_of_field whole name (t := ty') ?_ fun u hu => ?_
  · simp [found', field, TypeExpr.resolveOrVoid, there]
  · simp only [found, field, TypeExpr.resolveOrVoid, here, Option.map_some, Option.some.injEq] at hu
    exact hu ▸ misfit.fits

namespace Hoisted

variable (b : Hoisted)

/-- A structure of the block has a field whose annotation carries a name. -/
def Holds (x y : String) : Prop :=
  ∃ s ∈ b.declared, ∃ d, s.form = .structType d ∧ d.name.text = x ∧
    ∃ name f, d.field? name = some f ∧ f.type.Carries y ∧
      d.generics.find? (·.text == y) = none

/-- Over such fields a structure of the block leads to one that leads back to itself. -/
def Recurs (x : String) : Prop := ∃ y, ReflTransGen b.Holds x y ∧ TransGen b.Holds y y

variable {b}

theorem Recurs.holds {x : String} (h : b.Recurs x) : ∃ y, b.Holds x y ∧ b.Recurs y := by
  obtain ⟨y, path, cycle⟩ := h
  rcases path.cases_head with rfl | ⟨z, step, rest⟩
  · obtain ⟨z, step, back⟩ := TransGen.head'_iff.mp cycle
    exact ⟨z, step, x, back, cycle⟩
  · exact ⟨z, step, y, rest, cycle⟩

theorem aheadName_of_struct {s : Statement} {d : TypeDeclaration} (h : s.form = .structType d) :
    s.aheadName? = some d.name.text :=
  aheadName_of_typeName (by simp [CompletionOrder.typeName?, h])

theorem placed_of_struct {s : Statement} {d : TypeDeclaration} (hs : s ∈ b.declared)
    (h : s.form = .structType d) : s ∈ CompletionOrder.of b.declared :=
  CompletionOrder.mem_of_of_mem hs (by simp [CompletionOrder.typeName?, h])

/-- Where a round comes to a structure, it gets the type of its declaration. -/
theorem typeNamed?_round {s : Statement} {d : TypeDeclaration} (form : s.form = .structType d)
    {before after : List Statement} (order : CompletionOrder.of b.declared = before ++ s :: after)
    (r : Nat) : (b.round (r + 1)).typeNamed? d.name.text [] =
      some (Signature.ofStruct ((b.round r).completeAll before) d).type := by
  have found : b.round (r + 1) d.name.text =
      some (.named (Signature.ofStruct ((b.round r).completeAll before) d)) := by
    rw [round_at order (aheadName_of_struct form), Statement.completed?, form]
  obtain ⟨fields, type, _⟩ := Signature.type_ofStruct ((b.round r).completeAll before) d
  rw [type]
  exact Meaning.typeNamed?_of_struct found type

theorem lags_meaning {x : String} (h : b.Recurs x) : b.meaning.Lags (b.round 1) x := by
  obtain ⟨y, ⟨s, hs, d, form, rfl, name, f, field, _⟩, _⟩ := h.holds
  obtain ⟨before, after, order⟩ := List.append_of_mem (placed_of_struct hs form)
  obtain ⟨id, e, provisional, found⟩ := b.known s hs
  simp only [Statement.provisional?, form, Option.some.injEq, Prod.mk.injEq] at provisional
  obtain ⟨rfl, rfl⟩ := provisional
  obtain ⟨fields, type, lookup⟩ := Signature.type_ofStruct ((b.round 0).completeAll before) d
  refine ⟨[], [], fields, _, Meaning.typeNamed?_of_struct found rfl,
    (typeNamed?_round form order 0).trans (congrArg some type), ?_⟩
  have there := lookup name
  rw [field, Option.map_some] at there
  refine Ty.not_fits_of_field (by decide) name there fun u absent => ?_
  cases absent

/-- Along the order of a round, each structure lags behind the next round. -/
theorem lags_along (wellFormed : b.meaning.WellFormed) {r : Nat}
    (earlier : ∀ y, b.Recurs y → (b.round r).Lags (b.round (r + 1)) y)
    {before after : List Statement} (order : CompletionOrder.of b.declared = before ++ after)
    {x : String} (h : b.Recurs x) (hx : some x ∈ before.map (·.aheadName?)) :
    (b.round (r + 1)).Lags (b.round (r + 2)) x := by
  induction before using List.reverseRecOn generalizing after x with
  | nil => cases hx
  | append_singleton before s ih =>
      rw [List.append_assoc, List.singleton_append] at order
      rw [List.map_append, List.mem_append, List.map_singleton, List.mem_singleton] at hx
      rcases hx with hx | hx
      · exact ih order h hx
      · obtain ⟨y, ⟨t, ht, d, form, rfl, name, f, field, carries, notGeneric⟩, rest⟩ := h.holds
        have hs : s ∈ b.declared :=
          CompletionOrder.mem_of_mem_of (order ▸ List.mem_append_cons_self)
        obtain rfl := eq_of_aheadName ht hs ((aheadName_of_struct form).trans hx)
        -- Both rounds come to the structure with the same names before it and after it.
        have inner : ((b.round r).completeAll before).Lags
            ((b.round (r + 1)).completeAll before) y := by
          have here := round_midway order r y
          have there := round_midway order (r + 1) y
          split at here
          · next hy =>
              rw [if_pos hy] at there
              exact (ih order rest hy).of_eq here there
          · next hy =>
              rw [if_neg hy] at there
              exact (earlier y rest).of_eq here there
        obtain ⟨fields, type, _⟩ := Signature.type_ofStruct ((b.round r).completeAll before) d
        obtain ⟨fields', type', _⟩ :=
          Signature.type_ofStruct ((b.round (r + 1)).completeAll before) d
        have unfit := Signature.ofStruct_lags ((wellFormed_round wellFormed r).completeAll before)
          field carries notGeneric inner
        rw [type, type'] at unfit
        exact ⟨fields, _, fields', _, (typeNamed?_round form order r).trans (congrArg some type),
          (typeNamed?_round form order (r + 1)).trans (congrArg some type'), unfit⟩

/-- No round catches up on a structure that leads back to itself. -/
theorem lags_round (wellFormed : b.meaning.WellFormed) (r : Nat) {x : String} (h : b.Recurs x) :
    (b.round r).Lags (b.round (r + 1)) x := by
  induction r generalizing x with
  | zero => exact lags_meaning h
  | succ r ih =>
      obtain ⟨_, ⟨s, hs, d, form, rfl, _⟩, _⟩ := h.holds
      refine lags_along wellFormed (fun _ => ih) (List.append_nil _).symm h ?_
      exact List.mem_map.mpr ⟨s, placed_of_struct hs form, aheadName_of_struct form⟩

/-! ### What a field sees -/

variable (b)

/-- What names stand for when a declaration of the block is completed for the last time. -/
def lastSight (c : String) : Meaning :=
  (b.round 1).completeAll ((CompletionOrder.of b.declared).takeWhile (·.aheadName? != some c))

/--
A type or class of the block leads back to a declaration and is late for it: it is not completed yet
when a round comes to the declaration.
-/
def Late (x c : String) : Prop :=
  ¬ b.Before x c ∧ ∃ s ∈ b.declared, ∃ t ∈ b.declared, s.aheadName? = some c ∧
    CompletionOrder.typeName? t = some x ∧ ReflTransGen (CompletionOrder.Mentions b.declared) t s

variable {b}

theorem lastSight_eq {s : Statement} {c : String} (name : s.aheadName? = some c)
    {before after : List Statement} (order : CompletionOrder.of b.declared = before ++ s :: after) :
    b.lastSight c = (b.round 1).completeAll before := by
  have nodup := order ▸ CompletionOrder.nodup_of b.nodup
  rw [List.map_append, List.map_cons, name] at nodup
  have others : ∀ t ∈ before, (t.aheadName? != some c) = true := by
    intro t ht
    have other := (List.nodup_append.mp nodup).2.2 _ (List.mem_map_of_mem ht) _ List.mem_cons_self
    simpa using other
  rw [lastSight, order, List.takeWhile_append_of_pos others,
    List.takeWhile_cons_of_neg (by simp [name]), List.append_nil]

/-- What is late has not caught up with its own entry when the declaration sees it. -/
theorem lags_lastSight (wellFormed : b.meaning.WellFormed) {s : Statement} {d : TypeDeclaration}
    (hs : s ∈ b.declared) (form : s.form = .structType d) {x : String} (recurs : b.Recurs x)
    (late : b.Late x d.name.text) : (b.lastSight d.name.text).Lags b.final x := by
  obtain ⟨before, after, order⟩ := List.append_of_mem (placed_of_struct hs form)
  have name := aheadName_of_struct form
  have notBefore : ¬ some x ∈ before.map (·.aheadName?) := fun hx =>
    late.1 ((before_iff order name).mpr hx)
  have here : b.lastSight d.name.text x = b.round 1 x := by
    rw [lastSight_eq name order, round_midway order, if_neg notBefore]
  obtain ⟨_, ⟨t, ht, d', form', rfl, _⟩, _⟩ := recurs.holds
  have there := final_type (placed_of_struct ht form') (aheadName_of_struct form')
  exact (lags_round wellFormed 1 recurs).of_eq here there

/-- Names that are not late denote what they denote afterwards. -/
theorem agrees_lastSight {s : Statement} {d : TypeDeclaration} (hs : s ∈ b.declared)
    (form : s.form = .structType d) {f : TypeField} (hf : f ∈ d.fields)
    (early : ∀ x ∈ f.type.outline.mentions, ¬ b.Late x d.name.text) :
    f.type.Agrees (b.lastSight d.name.text) b.final := by
  obtain ⟨before, after, order⟩ := List.append_of_mem (placed_of_struct hs form)
  have name := aheadName_of_struct form
  intro x hx
  rw [lastSight_eq name order]
  refine (reached_midway order 1).agree reached_final fun t ht type => ?_
  have mentions : CompletionOrder.Mentions b.declared s t := by
    refine ⟨ht, x, type, List.mem_flatMap.mpr ⟨f.type, ?_, hx⟩⟩
    simp only [Statement.signatureTypes, form]
    exact List.mem_map_of_mem hf
  -- What comes later is mentioned and so leads back, which makes it late.
  have placed : t ∈ before := by
    by_contra absent
    have notBefore : ¬ b.Before x d.name.text := by
      rw [before_iff order name]
      intro hx'
      obtain ⟨t', ht', name'⟩ := List.mem_map.mp hx'
      have declared := CompletionOrder.mem_of_mem_of (order ▸ List.mem_append_left _ ht')
      obtain rfl := eq_of_aheadName declared ht (name'.trans (aheadName_of_typeName type).symm)
      exact absent ht'
    have back := (CompletionOrder.of_sorted order mentions).resolve_left absent
    exact early x hx ⟨notBefore, s, hs, t, ht, name, type, back⟩
  have isType : (CompletionOrder.typeName? t).isSome := by rw [type, Option.isSome_some]
  rw [round_midway order, if_pos (List.mem_map.mpr ⟨t, placed, aheadName_of_typeName type⟩),
    final_type (CompletionOrder.mem_of_of_mem ht isType) (aheadName_of_typeName type)]

end Hoisted
end ScriptFront
