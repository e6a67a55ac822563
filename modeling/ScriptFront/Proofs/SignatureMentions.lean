import ScriptFront.Proofs.Inheritance
import ScriptFront.Tree.Places

/-!
The entry of a type or class depends on nothing but the types that the names in its signature
denote, and that of a function on no more than the types that names denote.
-/

namespace ScriptFront

/-! ### Names that denote the same types -/

/-- Under two meanings a name denotes the same type, whatever its arguments. -/
def Meaning.Agree (m m' : Meaning) (x : String) : Prop :=
  ∀ arguments, m.typeNamed? x arguments = m'.typeNamed? x arguments

namespace Meaning

variable {m m' : Meaning} {x : String}

theorem Agree.of_eq (h : m x = m' x) : m.Agree m' x := by
  intro arguments
  unfold typeNamed?
  rw [h]

theorem Agree.of_not_type (h : (m x).any Entry.isType = false)
    (h' : (m' x).any Entry.isType = false) : m.Agree m' x := by
  have nothing : ∀ {m : Meaning}, (m x).any Entry.isType = false →
      ∀ arguments, m.typeNamed? x arguments = none := by
    intro m h arguments
    rw [← Option.isSome_eq_false_iff.trans Option.isNone_iff_eq_none, isSome_typeNamed?, h]
  intro arguments
  rw [nothing h, nothing h']

theorem typeNamed?_withGenerics {generics : List Ident}
    (hg : generics.find? (·.text == x) = none) (arguments : List Ty) :
    (m.withGenerics generics).typeNamed? x arguments = m.typeNamed? x arguments := by
  unfold typeNamed?
  rw [withGenerics_of_none hg]

/-- Generic parameters hide the same names under both. -/
theorem Agree.withGenerics (h : m.Agree m' x) (generics : List Ident) :
    (m.withGenerics generics).Agree (m'.withGenerics generics) x := by
  intro arguments
  cases hg : generics.find? (·.text == x) with
  | none => rw [typeNamed?_withGenerics hg, typeNamed?_withGenerics hg, h arguments]
  | some g =>
      unfold typeNamed?
      rw [withGenerics_of_some hg, withGenerics_of_some hg]

end Meaning

/-! ### Written types -/

/-- The names that a node refers to denote the same types. -/
def Node.Agrees (m m' : Meaning) (n : Node) : Prop := ∀ x ∈ n.mentions, m.Agree m' x

/-- The names in a written type denote the same types. -/
def TypeExpr.Agrees (m m' : Meaning) (t : TypeExpr) : Prop :=
  ∀ x ∈ t.outline.mentions, m.Agree m' x

section

variable {m m' : Meaning}

mutual

theorem resolveType_congr :
    ∀ t : TypeExpr, t.outline.All (Node.Agrees m m') → t.resolve m = t.resolve m'
  | ⟨form, place⟩, ⟨here, below⟩ => resolveForm_congr place form here below

theorem resolveForm_congr (place : Location) :
    ∀ form : TypeForm, Node.Agrees m m' (.type ⟨form, place⟩) →
      AllOf (Node.Agrees m m') form.outlines → form.resolve m place = form.resolve m' place
  | .reference name generics, here, below => by
      have denoted : m.Agree m' name := here name List.mem_cons_self
      rw [TypeForm.resolve, TypeForm.resolve, resolveAll_congr generics below]
      exact congrArg _ (funext fun arguments => by rw [denoted arguments])
  | .array t, _, ⟨element, _⟩ => by
      rw [TypeForm.resolve, TypeForm.resolve, resolveType_congr t element]
  | .union l r, _, ⟨left, right, _⟩ | .intersection l r, _, ⟨left, right, _⟩ => by
      rw [TypeForm.resolve, TypeForm.resolve, resolveType_congr l left, resolveType_congr r right]
  | .infer, _, _ | .void, _, _ | .null, _, _ | .undefined, _, _ => rfl

theorem resolveAll_congr :
    ∀ ts : List TypeExpr, AllOf (Node.Agrees m m') (typeOutlines ts) →
      resolveAll m ts = resolveAll m' ts
  | [], _ => rfl
  | t :: ts, ⟨first, rest⟩ => by
      rw [resolveAll, resolveAll, resolveType_congr t first, resolveAll_congr ts rest]

end

namespace TypeExpr

variable {t : TypeExpr}

theorem Agrees.withGenerics (h : t.Agrees m m') (generics : List Ident) :
    t.Agrees (m.withGenerics generics) (m'.withGenerics generics) :=
  fun x hx => (h x hx).withGenerics generics

theorem Agrees.resolve_eq (h : t.Agrees m m') : t.resolve m = t.resolve m' := by
  refine resolveType_congr t (t.outline.all_of_walk fun n hn x hx => ?_)
  exact h x (List.mem_flatMap.mpr ⟨n, hn, hx⟩)

theorem Agrees.resolveOrVoid_eq (h : t.Agrees m m') : t.resolveOrVoid m = t.resolveOrVoid m' := by
  unfold resolveOrVoid
  rw [h.resolve_eq]

end TypeExpr

/-! ### Entries -/

namespace Signature

theorem functionEntry_congr (name : Ident) (generics : List Ident) (modifiers : Modifiers)
    {params : List Param} {returns : Option TypeExpr}
    (hparams : ∀ p ∈ params, p.type.Agrees m m') (hreturns : ∀ t ∈ returns, t.Agrees m m') :
    functionEntry m name generics params returns modifiers =
      functionEntry m' name generics params returns modifiers := by
  have parameters :
      params.map (fun p => (p.name.text, p.type.resolveOrVoid (m.withGenerics generics))) =
        params.map fun p => (p.name.text, p.type.resolveOrVoid (m'.withGenerics generics)) :=
    List.map_congr_left fun p hp => by
      rw [((hparams p hp).withGenerics generics).resolveOrVoid_eq]
  have result : returns.map (·.resolveOrVoid (m.withGenerics generics))
      = returns.map (·.resolveOrVoid (m'.withGenerics generics)) :=
    Option.map_congr fun t ht => ((hreturns t ht).withGenerics generics).resolveOrVoid_eq
  simp only [functionEntry, parameters, result]

theorem ofStruct_congr {d : TypeDeclaration} (h : ∀ f ∈ d.fields, f.type.Agrees m m') :
    ofStruct m d = ofStruct m' d := by
  have fields :
      d.fields.map (fun f => (f.name.text, f.type.resolveOrVoid (m.withGenerics d.generics))) =
        d.fields.map fun f => (f.name.text, f.type.resolveOrVoid (m'.withGenerics d.generics)) :=
    List.map_congr_left fun f hf => by
      rw [((h f hf).withGenerics d.generics).resolveOrVoid_eq]
  simp only [ofStruct, fields]

theorem addMember_congr {className : Ident} {c : ClassEntry} {member : ClassMember}
    (h : ∀ t ∈ member.signatureTypes, t.Agrees m m') :
    addMember m className c member = addMember m' className c member := by
  unfold ClassMember.signatureTypes at h
  unfold addMember
  cases form : member.form with
  | property d =>
      have type : d.type.Agrees m m' := h d.type (by simp [form])
      simp only [ofProperty, type.resolveOrVoid_eq]
  | method name s body | operator symbol isUnary s body =>
      simp only [form, List.forall_mem_append, List.forall_mem_map, List.forall_mem_singleton] at h
      have returns : ∀ t ∈ some s.returns, t.Agrees m m' := by simpa using h.2
      have entry := fun name => functionEntry_congr name s.generics member.modifiers h.1 returns
      simp only [entry]
  | constructor params body =>
      simp only [form, List.forall_mem_map] at h
      have noReturns : ∀ t ∈ none, TypeExpr.Agrees m m' t := nofun
      have entry := functionEntry_congr className [] member.modifiers h noReturns
      simp only [entry]

theorem classTy_congr {d : ClassDeclaration} (hsuper : ∀ t ∈ d.superclass, t.Agrees m m')
    (hinterfaces : ∀ t ∈ d.interfaces, t.Agrees m m') : classTy m d = classTy m' d := by
  have superclass :
      d.superclass.map (·.resolveOrVoid m) = d.superclass.map (·.resolveOrVoid m') :=
    Option.map_congr fun t ht => (hsuper t ht).resolveOrVoid_eq
  have interfaces :
      d.interfaces.map (·.resolveOrVoid m) = d.interfaces.map (·.resolveOrVoid m') :=
    List.map_congr_left fun t ht => (hinterfaces t ht).resolveOrVoid_eq
  simp only [classTy, superclass, interfaces]

theorem ofClass_congr {d : ClassDeclaration} (hsuper : ∀ t ∈ d.superclass, t.Agrees m m')
    (hinterfaces : ∀ t ∈ d.interfaces, t.Agrees m m')
    (hmembers : ∀ member ∈ d.members, ∀ t ∈ member.signatureTypes, t.Agrees m m') :
    ofClass m d = ofClass m' d := by
  have type := classTy_congr (d := d) (fun t ht => (hsuper t ht).withGenerics d.generics)
    fun t ht => (hinterfaces t ht).withGenerics d.generics
  simp only [ofClass, type]
  exact List.foldl_ext _ _ _ fun c member hmember =>
    addMember_congr fun t ht => (hmembers member hmember t ht).withGenerics d.generics

end Signature

namespace Statement

variable {s : Statement}

/-- The entry of a type or class depends on what the names denote that its signature mentions. -/
theorem completed_congr (type : (CompletionOrder.typeName? s).isSome)
    (h : ∀ x ∈ s.signatureMentions, m.Agree m' x) : s.completed? m = s.completed? m' := by
  have written : ∀ t ∈ s.signatureTypes, t.Agrees m m' := fun t ht x hx =>
    h x (List.mem_flatMap.mpr ⟨t, ht, hx⟩)
  unfold signatureTypes at written
  unfold completed?
  cases form : s.form with
  | structType d =>
      simp only [form, List.forall_mem_map] at written
      simp only [Signature.ofStruct_congr written]
  | classType d =>
      simp only [form, List.forall_mem_append, List.forall_mem_flatMap, Option.mem_toList]
        at written
      obtain ⟨⟨superclass, interfaces⟩, members⟩ := written
      simp only [Signature.ofClass_congr superclass interfaces members]
  | _ => simp [CompletionOrder.typeName?, form] at type

/-- The entry of any declaration depends on what names denote. -/
theorem completed_congr_of_agree (h : ∀ x, m.Agree m' x) : s.completed? m = s.completed? m' := by
  cases form : s.form with
  | structType d | classType d =>
      exact completed_congr (by simp [CompletionOrder.typeName?, form]) fun x _ => h x
  | function d =>
      have entry : Signature.ofFunction m d = Signature.ofFunction m' d :=
        Signature.functionEntry_congr _ _ _ (fun _ _ x _ => h x) fun _ _ x _ => h x
      simp only [completed?, form, entry]
  | _ => simp only [completed?, form]

end Statement

end

/-! ### Names in the course of completion -/

namespace Hoisted

variable {b : Hoisted} {m m' : Meaning}

/-- A declaration among those of a block is a type or class, or else a function. -/
theorem typeName_or_isFunction {s : Statement} (h : s ∈ b.declared) :
    (CompletionOrder.typeName? s).isSome ∨ s.isFunction := by
  obtain ⟨_, _, provisional, _⟩ := b.known s h
  unfold Statement.provisional? at provisional
  unfold CompletionOrder.typeName? Statement.isFunction
  split at provisional <;> simp_all

theorem aheadName_of_typeName {s : Statement} {x : String}
    (h : CompletionOrder.typeName? s = some x) : s.aheadName? = some x := by
  unfold CompletionOrder.typeName? at h
  unfold Statement.aheadName? Statement.provisional?
  split at h <;> simp_all

/-- In the course of completion, a name denotes the same types unless a type or class has it. -/
theorem Reached.agree (h : b.Reached m) (h' : b.Reached m') {x : String}
    (same : ∀ s ∈ b.declared, CompletionOrder.typeName? s = some x → m x = m' x) :
    m.Agree m' x := by
  by_cases hx : b.Names x
  · obtain ⟨s, hs, name⟩ := List.mem_map.mp hx
    rcases typeName_or_isFunction hs with type | isFunction
    · obtain ⟨y, hy⟩ := Option.isSome_iff_exists.mp type
      obtain rfl : y = x := Option.some.inj ((aheadName_of_typeName hy).symm.trans name)
      exact .of_eq (same s hs hy)
    · have function : ∀ {m : Meaning}, b.Reached m → (m x).any Entry.isType = false := by
        intro m h
        obtain ⟨e, found, declares⟩ := h.inside s hs x name
        unfold Entry.Declares at declares
        unfold Statement.isFunction at isFunction
        rw [found]
        cases form : s.form <;> cases e <;> simp_all [Entry.isType]
      exact .of_not_type (function h) (function h')
  · exact .of_eq ((h.outside x hx).trans (h'.outside x hx).symm)

end Hoisted
end ScriptFront
