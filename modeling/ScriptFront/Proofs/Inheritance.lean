import Mathlib.Data.List.Induction
import Mathlib.Logic.Relation
import ScriptFront.Proofs.Completion

/-!
What the recorded type of a class knows of its superclasses. A clause that names a class completed
later sees the entry of the round before, so each such link on the way up costs a round, and two
rounds carry a chain of superclasses over one of them and up to the class behind the next. The order
of completion itself is taken as it comes.
-/

namespace ScriptFront

open Relation

/-! ### Written types that denote classes -/

/-- A name stands for a class, or another type, that is or inherits from the named class. -/
def Meaning.Inherits (m : Meaning) (x a : String) : Prop :=
  (∃ c, m x = some (.cls c) ∧ c.type.toTy.descendsFrom a = true) ∨
    ∃ t, m x = some (.named t) ∧ t.type.descendsFrom a = true

theorem ClassTy.descendsFrom_generics (c : ClassTy) (generics : List Ty) (a : String) :
    ({ c with generics := generics } : ClassTy).toTy.descendsFrom a = true ↔
      c.toTy.descendsFrom a = true := by
  simp only [toTy, Ty.descendsFrom_class]

theorem Meaning.typeNamed?_descends {m : Meaning} {x a : String} (arguments : List Ty) :
    (∃ t, m.typeNamed? x arguments = some t ∧ t.descendsFrom a = true) ↔ m.Inherits x a := by
  unfold typeNamed? Inherits
  cases h : m x with
  | none => simp
  | some e =>
      cases e with
      | var v | param v | func f => simp
      | cls c =>
          simp only [Option.some.injEq, exists_eq_left', Entry.cls.injEq, reduceCtorEq, false_and,
            exists_false, or_false]
          split
          · rfl
          · rw [ClassTy.descendsFrom_generics]
      | named t =>
          simp only [Option.some.injEq, Entry.named.injEq, reduceCtorEq, false_and, exists_false,
            false_or, exists_eq_left']
          cases t.type <;> simp [Ty.descendsFrom]

/-- Only a reference can denote a class. -/
theorem TypeExpr.resolve_descends {m : Meaning} {t : TypeExpr} {a : String} :
    (∃ ty, t.resolve m = .ok ty ∧ ty.descendsFrom a = true) ↔
      ∃ x arguments place, t = ⟨.reference x arguments, place⟩ ∧
        (∃ tys, resolveAll m arguments = .ok tys) ∧ m.Inherits x a := by
  obtain ⟨form, place⟩ := t
  constructor
  · rintro ⟨ty, h, descends⟩
    cases form with
    | reference x arguments =>
        simp only [resolve, TypeForm.resolve] at h
        cases hargs : resolveAll m arguments with
        | error e => simp [hargs, bind, Except.bind] at h
        | ok tys =>
            refine ⟨x, arguments, place, rfl, ⟨tys, hargs⟩, ?_⟩
            refine (Meaning.typeNamed?_descends tys).mp ⟨ty, ?_, descends⟩
            simp only [hargs, bind, Except.bind] at h
            split at h
            · next t ht => cases h; exact ht
            · cases h
    | array t =>
        simp only [resolve, TypeForm.resolve] at h
        cases ht : t.resolve m with
        | error e => simp [ht, bind, Except.bind] at h
        | ok u =>
            simp only [ht, bind, Except.bind, pure, Except.pure, Except.ok.injEq] at h
            simp [← h, Ty.descendsFrom] at descends
    | union l r | intersection l r =>
        simp only [resolve, TypeForm.resolve] at h
        cases hl : l.resolve m with
        | error e => simp [hl, bind, Except.bind] at h
        | ok u =>
            cases hr : r.resolve m with
            | error e => simp [hl, hr, bind, Except.bind] at h
            | ok v =>
                simp only [hl, hr, bind, Except.bind, pure, Except.pure, Except.ok.injEq] at h
                simp [← h, Ty.descendsFrom] at descends
    | infer | void | null | undefined =>
        simp only [resolve, TypeForm.resolve, Except.ok.injEq] at h
        simp [← h, Ty.descendsFrom, Ty.inferred] at descends
  · rintro ⟨x, arguments, place', same, ⟨tys, hargs⟩, inherits⟩
    cases same
    obtain ⟨ty, named, descends⟩ := (Meaning.typeNamed?_descends tys).mpr inherits
    refine ⟨ty, ?_, descends⟩
    simp [resolve, TypeForm.resolve, hargs, named, bind, Except.bind]

/-! ### What names denote types -/

/-- Whether an entry is that of a type. -/
def Entry.isType : Entry → Bool
  | .cls _ | .named _ => true
  | _ => false

theorem Meaning.isSome_typeNamed? (m : Meaning) (x : String) (arguments : List Ty) :
    (m.typeNamed? x arguments).isSome = (m x).any Entry.isType := by
  unfold typeNamed?
  cases m x with
  | none => rfl
  | some e =>
      cases e with
      | var v | param v | func f | cls c => rfl
      | named t => cases h : t.type <;> simp [h, Entry.isType]

/-- Under two meanings the same names denote types. -/
def Meaning.Alike (m m' : Meaning) : Prop :=
  ∀ x, (m x).any Entry.isType = (m' x).any Entry.isType

theorem Meaning.withGenerics_of_none {generics : List Ident} {x : String}
    (h : generics.find? (·.text == x) = none) (m : Meaning) : m.withGenerics generics x = m x := by
  unfold withGenerics
  rw [h]

theorem Meaning.withGenerics_of_some {generics : List Ident} {x : String} {g : Ident}
    (h : generics.find? (·.text == x) = some g) (m : Meaning) :
    m.withGenerics generics x = some (.ofGeneric g.text g.location) := by
  unfold withGenerics
  rw [h]

theorem Meaning.inherits_withGenerics {m : Meaning} {generics : List Ident} {x a : String} :
    (m.withGenerics generics).Inherits x a ↔
      generics.find? (·.text == x) = none ∧ m.Inherits x a := by
  cases hg : generics.find? (·.text == x) with
  | none => simp [Inherits, withGenerics_of_none hg]
  | some g => simp [Inherits, withGenerics_of_some hg, Entry.ofGeneric, Ty.descendsFrom]

theorem Meaning.Alike.withGenerics {m m' : Meaning} (h : m.Alike m') (generics : List Ident) :
    (m.withGenerics generics).Alike (m'.withGenerics generics) := by
  intro x
  cases hg : generics.find? (·.text == x) with
  | none => rw [withGenerics_of_none hg, withGenerics_of_none hg, h x]
  | some g => rw [withGenerics_of_some hg, withGenerics_of_some hg]

theorem isOk_bind {α β : Type} {x x' : Except SemanticError α} {f f' : α → Except SemanticError β}
    (hx : x.isOk = x'.isOk) (hf : ∀ a a', (f a).isOk = (f' a').isOk) :
    (x >>= f).isOk = (x' >>= f').isOk := by
  cases x with
  | error e =>
      cases x' with
      | error e' => rfl
      | ok a' => cases hx
  | ok a =>
      cases x' with
      | error e' => cases hx
      | ok a' => exact hf a a'

mutual

/-- The same written types denote types where the same names do. -/
theorem isOk_resolveType {m m' : Meaning} (h : m.Alike m') :
    ∀ t : TypeExpr, (t.resolve m).isOk = (t.resolve m').isOk
  | ⟨form, place⟩ => isOk_resolveForm h place form

theorem isOk_resolveForm {m m' : Meaning} (h : m.Alike m') (place : Location) :
    ∀ form : TypeForm, (form.resolve m place).isOk = (form.resolve m' place).isOk
  | .reference name generics => by
      refine isOk_bind (isOk_resolveAll h generics) fun tys tys' => ?_
      have denotes : (m.typeNamed? name tys).isSome = (m'.typeNamed? name tys').isSome := by
        rw [Meaning.isSome_typeNamed?, Meaning.isSome_typeNamed?, h name]
      cases ht : m.typeNamed? name tys <;> cases ht' : m'.typeNamed? name tys' <;>
        simp_all [Except.isOk, Except.toBool]
  | .array t => isOk_bind (isOk_resolveType h t) fun _ _ => rfl
  | .union l r | .intersection l r =>
      isOk_bind (isOk_resolveType h l) fun _ _ => isOk_bind (isOk_resolveType h r) fun _ _ => rfl
  | .infer | .void | .null | .undefined => rfl

theorem isOk_resolveAll {m m' : Meaning} (h : m.Alike m') :
    ∀ ts : List TypeExpr, (resolveAll m ts).isOk = (resolveAll m' ts).isOk
  | [] => rfl
  | t :: ts =>
      isOk_bind (isOk_resolveType h t) fun _ _ => isOk_bind (isOk_resolveAll h ts) fun _ _ => rfl

end

/--
The clause of a class refers to a name for what the class extends: the name is no generic parameter
of the class, and its arguments denote types.
-/
def ClassDeclaration.Refers (d : ClassDeclaration) (m : Meaning) (x : String) : Prop :=
  ∃ arguments place, d.superclass = some ⟨.reference x arguments, place⟩ ∧
    d.generics.find? (·.text == x) = none ∧
    ∃ tys, resolveAll (m.withGenerics d.generics) arguments = .ok tys

theorem ClassDeclaration.refers_alike {m m' : Meaning} (h : m.Alike m') {d : ClassDeclaration}
    {x : String} (refers : d.Refers m x) : d.Refers m' x := by
  obtain ⟨arguments, place, clause, notGeneric, tys, hargs⟩ := refers
  have ok := isOk_resolveAll (h.withGenerics d.generics) arguments
  rw [hargs] at ok
  cases hargs' : resolveAll (m'.withGenerics d.generics) arguments with
  | error e => simp [hargs', Except.isOk, Except.toBool] at ok
  | ok tys' => exact ⟨arguments, place, clause, notGeneric, tys', hargs'⟩

/-- A class that is completed inherits what the entry of the name that it refers to inherits. -/
theorem Signature.ofClass_descends {m : Meaning} {d : ClassDeclaration} {a : String} :
    (ofClass m d).type.toTy.descendsFrom a = true ↔
      d.name.text = a ∨ ∃ x, d.Refers m x ∧ m.Inherits x a := by
  rw [type_ofClass, classTy, ClassTy.toTy, Ty.descendsFrom_class]
  refine or_congr_right ⟨?_, ?_⟩
  · rintro ⟨parent, hparent, descends⟩
    obtain ⟨hmap, _⟩ := Option.filter_eq_some_iff.mp hparent
    obtain ⟨t, ht, hty⟩ := Option.map_eq_some_iff.mp hmap
    have resolved : t.resolve (m.withGenerics d.generics) = .ok parent := by
      unfold TypeExpr.resolveOrVoid at hty
      split at hty
      · next ty h => rw [h, hty]
      · simp [← hty, Ty.descendsFrom] at descends
    obtain ⟨x, arguments, place, rfl, hargs, inherits⟩ :=
      TypeExpr.resolve_descends.mp ⟨parent, resolved, descends⟩
    obtain ⟨notGeneric, inherits⟩ := Meaning.inherits_withGenerics.mp inherits
    exact ⟨x, ⟨arguments, place, ht, notGeneric, hargs⟩, inherits⟩
  · rintro ⟨x, ⟨arguments, place, clause, notGeneric, hargs⟩, inherits⟩
    obtain ⟨ty, resolved, descends⟩ := TypeExpr.resolve_descends.mpr
      ⟨x, arguments, place, rfl, hargs, Meaning.inherits_withGenerics.mpr ⟨notGeneric, inherits⟩⟩
    have isClass : ty.isClass = true := by
      cases ty <;> simp_all [Ty.isClass, Ty.descendsFrom]
    refine ⟨ty, ?_, descends⟩
    simp [clause, TypeExpr.resolveOrVoid, resolved, Option.filter, isClass]

/-! ### Blocks of declarations -/

/-- An entry is of the kind of a declaration. -/
def Entry.Declares (e : Entry) (s : Statement) : Prop :=
  match s.form, e with
  | .classType _, .cls _ | .function _, .func _ => True
  | .structType _, .named t => ∃ fields generics, t.type = .struct fields generics
  | _, _ => False

theorem Statement.declares_provisional {s : Statement} {name : Ident} {e : Entry}
    (h : s.provisional? = some (name, e)) : e.Declares s := by
  unfold provisional? at h
  split at h <;> cases h
  · next d hd => simp [Entry.Declares, hd]
  · next d hd => simp [Entry.Declares, hd]
  · next d hd => simp [Entry.Declares, hd]

theorem Statement.declares_completed {s : Statement} {m : Meaning} {e : Entry}
    (h : s.completed? m = some e) : e.Declares s := by
  unfold completed? at h
  split at h <;> cases h
  · next d hd => simp [Entry.Declares, hd, Signature.ofStruct]
  · next d hd => simp [Entry.Declares, hd]
  · next d hd => simp [Entry.Declares, hd]

/-- The declarations of a block, and what names stand for when they were declared ahead. -/
structure Hoisted where
  declared : List Statement
  meaning : Meaning
  nodup : (declared.map (·.aheadName?)).Nodup
  known : ∀ s ∈ declared, ∃ name e, s.provisional? = some (name, e) ∧ meaning name.text = some e

namespace Hoisted

/-- The block of statements that are checked in some state. -/
def ofBody (body : List Statement) (c : Checker) : Hoisted where
  declared := ((Check.declareAhead body).run c).1
  meaning := ((Check.declareAhead body).run c).2.scopes.lookup
  nodup := (Check.declareAhead_accepted body c).nodup
  known s hs := by
    obtain ⟨name, e, provisional, _, found⟩ := (Check.declareAhead_accepted body c).entries s hs
    exact ⟨name, e, provisional, Scopes.lookup_of_current found⟩

variable (b : Hoisted)

/-- A name is that of a declaration of the block. -/
def Names (x : String) : Prop := some x ∈ b.declared.map (·.aheadName?)

/-- A name is that of a class of the block. -/
def IsClass (x : String) : Prop :=
  ∃ s ∈ b.declared, ∃ d, s.form = .classType d ∧ d.name.text = x

/-- In the course of completion, names of the block stand for entries of the same kinds. -/
structure Reached (m : Meaning) : Prop where
  outside : ∀ x, ¬ b.Names x → m x = b.meaning x
  inside : ∀ s ∈ b.declared, ∀ x, s.aheadName? = some x → ∃ e, m x = some e ∧ e.Declares s

variable {b} {m m' : Meaning}

theorem eq_of_aheadName {s t : Statement} (hs : s ∈ b.declared) (ht : t ∈ b.declared)
    (same : s.aheadName? = t.aheadName?) : s = t :=
  List.inj_on_of_nodup_map b.nodup hs ht same

theorem reached_meaning : b.Reached b.meaning where
  outside _ _ := rfl
  inside s hs x hx := by
    obtain ⟨name, e, provisional, found⟩ := b.known s hs
    simp only [Statement.aheadName?, provisional, Option.map_some, Option.some.injEq] at hx
    exact ⟨e, hx ▸ found, Statement.declares_provisional provisional⟩

theorem Reached.complete (h : b.Reached m) {s : Statement} (hs : s ∈ b.declared) :
    b.Reached (m.complete s) where
  outside x hx := by
    have other : ¬ s.aheadName? = some x := fun e => hx (List.mem_map.mpr ⟨s, hs, e⟩)
    rw [Meaning.complete, if_neg other, h.outside x hx]
  inside t ht x hx := by
    rw [Meaning.complete]
    split
    · next same =>
        obtain rfl := eq_of_aheadName hs ht (same.trans hx.symm)
        obtain ⟨name, e, provisional, _⟩ := b.known s hs
        obtain ⟨e', completed, _⟩ := Statement.completed_of_provisional provisional m
        exact ⟨e', completed, Statement.declares_completed completed⟩
    · exact h.inside t ht x hx

theorem Reached.completeAll (h : b.Reached m) {ss : List Statement}
    (hs : ∀ s ∈ ss, s ∈ b.declared) :
    b.Reached (m.completeAll ss) := by
  induction ss generalizing m with
  | nil => exact h
  | cons s ss ih =>
      exact ih (h.complete (hs s (List.mem_cons_self ..)))
        fun t ht => hs t (List.mem_cons_of_mem _ ht)

theorem isType_of_declares {e e' : Entry} {s : Statement} (h : e.Declares s)
    (h' : e'.Declares s) : e.isType = e'.isType := by
  unfold Entry.Declares at h h'
  cases hs : s.form <;> cases e <;> cases e' <;> simp_all [Entry.isType]

theorem Reached.alike (h : b.Reached m) (h' : b.Reached m') : m.Alike m' := by
  intro x
  by_cases hx : b.Names x
  · obtain ⟨s, hs, name⟩ := List.mem_map.mp hx
    obtain ⟨e, he, declares⟩ := h.inside s hs x name
    obtain ⟨e', he', declares'⟩ := h'.inside s hs x name
    rw [he, he']
    exact isType_of_declares declares declares'
  · rw [h.outside x hx, h'.outside x hx]

/-! ### Superclasses -/

variable (b)

/-- A class of the block extends what a name stands for, by its clause. -/
def Links (c x : String) : Prop :=
  ∃ s ∈ b.declared, ∃ d, s.form = .classType d ∧ d.name.text = c ∧ d.Refers b.meaning x

/-- One declaration is completed before another one in each round. -/
def Before (x c : String) : Prop :=
  ∃ before after, (CompletionOrder.of b.declared).map (·.aheadName?) = before ++ some c :: after ∧
    some x ∈ before

/--
From one class of the block, clauses lead up to another one. They are counted where they are late:
the class that the clause names is not completed before the class that has the clause.
-/
inductive Ascends : String → String → Nat → Prop
  | refl (c : String) : Ascends c c 0
  | early {c x a n} : b.Links c x → b.IsClass x → b.Before x c → Ascends x a n → Ascends c a n
  | late {c x a n} : b.Links c x → b.IsClass x → ¬ b.Before x c → Ascends x a n →
      Ascends c a (n + 1)

/--
A class has a declared superclass, with so many late clauses on the way before the last one. The
last clause names the superclass, or a type from outside of the block that inherits from it.
-/
def Superclass (c a : String) (n : Nat) : Prop :=
  ∃ c' x, b.Ascends c c' n ∧ b.Links c' x ∧
    (b.IsClass x ∧ x = a ∨ ¬ b.Names x ∧ b.meaning.Inherits x a)

/-- What a class knows of after some rounds: itself, and superclasses with fewer late clauses. -/
def KnownAfter (rounds : Nat) (c a : String) : Prop :=
  c = a ∨ ∃ n, n + 1 ≤ rounds ∧ b.Superclass c a n

variable {b}

theorem superclass_iff {c a : String} {n : Nat} :
    b.Superclass c a n ↔ ∃ x, b.Links c x ∧
      (n = 0 ∧ (b.IsClass x ∧ x = a ∨ ¬ b.Names x ∧ b.meaning.Inherits x a) ∨
        b.IsClass x ∧ (b.Before x c ∧ b.Superclass x a n ∨
          ¬ b.Before x c ∧ ∃ k, n = k + 1 ∧ b.Superclass x a k)) := by
  constructor
  · rintro ⟨c', y, ascends, links, last⟩
    cases ascends with
    | refl => exact ⟨y, links, .inl ⟨rfl, last⟩⟩
    | early step isClass before rest =>
        exact ⟨_, step, .inr ⟨isClass, .inl ⟨before, c', y, rest, links, last⟩⟩⟩
    | late step isClass after rest =>
        exact ⟨_, step, .inr ⟨isClass, .inr ⟨after, _, rfl, c', y, rest, links, last⟩⟩⟩
  · rintro ⟨x, step, ⟨rfl, last⟩ | ⟨isClass, ⟨before, c', y, rest, links, last⟩ |
      ⟨after, k, rfl, c', y, rest, links, last⟩⟩⟩
    · exact ⟨c, x, .refl c, step, last⟩
    · exact ⟨c', y, .early step isClass before rest, links, last⟩
    · exact ⟨c', y, .late step isClass after rest, links, last⟩

/-- One more round lets a class know what the names on its clause knew when it was completed. -/
theorem knownAfter_succ {rounds : Nat} {c a : String} :
    b.KnownAfter (rounds + 1) c a ↔ c = a ∨ ∃ x, b.Links c x ∧
      (b.IsClass x ∧ (b.Before x c ∧ b.KnownAfter (rounds + 1) x a ∨
          ¬ b.Before x c ∧ b.KnownAfter rounds x a) ∨
        ¬ b.Names x ∧ b.meaning.Inherits x a) := by
  refine or_congr_right ⟨?_, ?_⟩
  · rintro ⟨n, bound, superclass⟩
    obtain ⟨x, step, ⟨rfl, ⟨isClass, same⟩ | outside⟩ | ⟨isClass, ⟨before, rest⟩ |
      ⟨after, k, rfl, rest⟩⟩⟩ := superclass_iff.mp superclass
    · by_cases before : b.Before x c
      · exact ⟨x, step, .inl ⟨isClass, .inl ⟨before, .inl same⟩⟩⟩
      · exact ⟨x, step, .inl ⟨isClass, .inr ⟨before, .inl same⟩⟩⟩
    · exact ⟨x, step, .inr outside⟩
    · exact ⟨x, step, .inl ⟨isClass, .inl ⟨before, .inr ⟨n, bound, rest⟩⟩⟩⟩
    · exact ⟨x, step, .inl ⟨isClass, .inr ⟨after, .inr ⟨k, by omega, rest⟩⟩⟩⟩
  · rintro ⟨x, step, ⟨isClass, ⟨before, same | ⟨n, bound, rest⟩⟩ |
      ⟨after, same | ⟨n, bound, rest⟩⟩⟩ | outside⟩
    · exact ⟨0, by omega, superclass_iff.mpr ⟨x, step, .inl ⟨rfl, .inl ⟨isClass, same⟩⟩⟩⟩
    · exact ⟨n, bound, superclass_iff.mpr ⟨x, step, .inr ⟨isClass, .inl ⟨before, rest⟩⟩⟩⟩
    · exact ⟨0, by omega, superclass_iff.mpr ⟨x, step, .inl ⟨rfl, .inl ⟨isClass, same⟩⟩⟩⟩
    · exact ⟨n + 1, by omega,
        superclass_iff.mpr ⟨x, step, .inr ⟨isClass, .inr ⟨after, n, rfl, rest⟩⟩⟩⟩
    · exact ⟨0, by omega, superclass_iff.mpr ⟨x, step, .inl ⟨rfl, .inr outside⟩⟩⟩

/-! ### Rounds -/

variable (b)

/-- What names stand for after some rounds of completion. -/
def round : Nat → Meaning
  | 0 => b.meaning
  | r + 1 => (round r).completeAll (CompletionOrder.of b.declared)

/-- An entry of a class knows the superclasses that it should know after some rounds. -/
def Knows (m : Meaning) (rounds : Nat) (c : String) : Prop :=
  ∃ e, m c = some (.cls e) ∧ ∀ a, e.type.toTy.descendsFrom a = true ↔ b.KnownAfter rounds c a

variable {b}

theorem reached_round (r : Nat) : b.Reached (b.round r) := by
  induction r with
  | zero => exact reached_meaning
  | succ r ih => exact ih.completeAll fun s hs => CompletionOrder.mem_of_mem_of hs

/-- Where a round comes to a declaration, it is completed from what names stand for by then. -/
theorem round_at {s : Statement} {before after : List Statement}
    (order : CompletionOrder.of b.declared = before ++ s :: after) {x : String}
    (name : s.aheadName? = some x) (r : Nat) :
    b.round (r + 1) x = s.completed? ((b.round r).completeAll before) := by
  rw [round, order, Meaning.completeAll_at (order ▸ CompletionOrder.nodup_of b.nodup) name]

/-- In the middle of a round, only names of declarations before stand for their new entries. -/
theorem round_midway {before after : List Statement}
    (order : CompletionOrder.of b.declared = before ++ after) (r : Nat) (x : String) :
    (b.round r).completeAll before x =
      if some x ∈ before.map (·.aheadName?) then b.round (r + 1) x else b.round r x := by
  rw [round, order]
  exact Meaning.completeAll_before (order ▸ CompletionOrder.nodup_of b.nodup) x

theorem reached_midway {before after : List Statement}
    (order : CompletionOrder.of b.declared = before ++ after) (r : Nat) :
    b.Reached ((b.round r).completeAll before) :=
  (reached_round r).completeAll fun _ hs =>
    CompletionOrder.mem_of_mem_of (order ▸ List.mem_append_left _ hs)

theorem aheadName_of_class {s : Statement} {d : ClassDeclaration} (h : s.form = .classType d) :
    s.aheadName? = some d.name.text := by
  simp [Statement.aheadName?, Statement.provisional?, h]

theorem IsClass.names {x : String} (h : b.IsClass x) : b.Names x := by
  obtain ⟨s, hs, d, form, rfl⟩ := h
  exact List.mem_map.mpr ⟨s, hs, aheadName_of_class form⟩

/-- What a name inherits is known by a class of the block, or comes from outside of it. -/
theorem Reached.inherits_iff (h : b.Reached m) {x a : String} :
    m.Inherits x a ↔
      b.IsClass x ∧ (∃ e, m x = some (.cls e) ∧ e.type.toTy.descendsFrom a = true) ∨
        ¬ b.Names x ∧ b.meaning.Inherits x a := by
  by_cases hx : b.Names x
  · obtain ⟨s, hs, name⟩ := List.mem_map.mp hx
    obtain ⟨e, he, declares⟩ := h.inside s hs x name
    constructor
    · intro inherits
      refine .inl ?_
      rcases inherits with ⟨c, hc, descends⟩ | ⟨t, ht, descends⟩
      · rw [he] at hc
        cases hc
        refine ⟨?_, c, he, descends⟩
        cases form : s.form with
        | classType d =>
            rw [aheadName_of_class form] at name
            exact ⟨s, hs, d, form, Option.some.inj name⟩
        | _ => simp [Entry.Declares, form] at declares
      · rw [he] at ht
        cases ht
        cases form : s.form with
        | structType d =>
            simp only [Entry.Declares, form] at declares
            obtain ⟨fields, generics, ht⟩ := declares
            simp [ht, Ty.descendsFrom] at descends
        | _ => simp [Entry.Declares, form] at declares
    · rintro (⟨_, c, hc, descends⟩ | ⟨outside, _⟩)
      · exact .inl ⟨c, hc, descends⟩
      · exact absurd hx outside
  · have notClass : ¬ b.IsClass x := fun isClass => hx isClass.names
    simp only [notClass, false_and, hx, not_false_eq_true, true_and, false_or]
    unfold Meaning.Inherits
    rw [h.outside x hx]

theorem knows_meaning {c : String} (h : b.IsClass c) : b.Knows b.meaning 0 c := by
  obtain ⟨s, hs, d, form, rfl⟩ := h
  obtain ⟨name, e, provisional, found⟩ := b.known s hs
  simp only [Statement.provisional?, form, Option.some.injEq, Prod.mk.injEq] at provisional
  obtain ⟨rfl, rfl⟩ := provisional
  refine ⟨_, found, fun a => ?_⟩
  simp [ClassTy.named, ClassTy.toTy, Ty.descendsFrom, KnownAfter]

/-- A class that is completed knows one round more than the names that it can refer to. -/
theorem knows_completed (h : b.Reached m) {s : Statement} (hs : s ∈ b.declared)
    {d : ClassDeclaration} (form : s.form = .classType d) {r : Nat}
    (known : ∀ x, b.IsClass x →
      b.Before x d.name.text ∧ b.Knows m (r + 1) x ∨
        ¬ b.Before x d.name.text ∧ b.Knows m r x) (a : String) :
    (Signature.ofClass m d).type.toTy.descendsFrom a = true ↔
      b.KnownAfter (r + 1) d.name.text a := by
  rw [Signature.ofClass_descends, knownAfter_succ]
  refine or_congr_right (exists_congr fun x => ?_)
  have links : d.Refers m x ↔ b.Links d.name.text x := by
    constructor
    · intro refers
      exact ⟨s, hs, d, form, rfl, d.refers_alike (h.alike reached_meaning) refers⟩
    · rintro ⟨s', hs', d', form', name, refers⟩
      have same : s' = s := eq_of_aheadName hs' hs (by
        rw [aheadName_of_class form, aheadName_of_class form', name])
      rw [same, form] at form'
      cases form'
      exact d.refers_alike (reached_meaning.alike h) refers
  rw [links, h.inherits_iff]
  refine and_congr_right fun _ => or_congr_left (and_congr_right fun isClass => ?_)
  rcases known x isClass with ⟨before, e, he, knows⟩ | ⟨after, e, he, knows⟩
  · simp [he, knows, before]
  · simp [he, knows, after]

/-- Each name is completed once in a round. -/
theorem before_of_names (before after : List (Option String)) {x c : String}
    (names : (CompletionOrder.of b.declared).map (·.aheadName?) = before ++ some c :: after) :
    b.Before x c ↔ some x ∈ before := by
  have nodup := CompletionOrder.nodup_of b.nodup
  constructor
  · rintro ⟨before', after', split, hx⟩
    rw [names] at nodup split
    have once := (List.nodup_cons.mp (List.nodup_middle.mp nodup)).1
    obtain ⟨notBefore, notAfter⟩ := not_or.mp (List.mem_append.not.mp once)
    obtain ⟨same, _⟩ := (List.append_cons_inj_of_notMem notBefore notAfter).mp split
    exact same ▸ hx
  · exact fun hx => ⟨before, after, names, hx⟩

/-- Where a round comes to a declaration, the ones before it are those that it has completed. -/
theorem before_iff {before after : List Statement} {s : Statement} {x c : String}
    (order : CompletionOrder.of b.declared = before ++ s :: after) (name : s.aheadName? = some c) :
    b.Before x c ↔ some x ∈ before.map (·.aheadName?) :=
  before_of_names _ (after.map (·.aheadName?)) (by
    rw [order, List.map_append, List.map_cons, name])

/-- Along the order of a round, each class is completed when those before it were. -/
theorem knows_along {r : Nat} (earlier : ∀ y, b.IsClass y → b.Knows (b.round r) r y)
    (before after : List Statement) (order : CompletionOrder.of b.declared = before ++ after)
    {x : String} (isClass : b.IsClass x) (hx : some x ∈ before.map (·.aheadName?)) :
    b.Knows (b.round (r + 1)) (r + 1) x := by
  induction before using List.reverseRecOn generalizing after x with
  | nil => simp at hx
  | append_singleton before s ih =>
      rw [List.append_assoc, List.singleton_append] at order
      rw [List.map_append, List.mem_append, List.map_singleton, List.mem_singleton] at hx
      rcases hx with hx | hx
      · exact ih (s :: after) order isClass hx
      · obtain ⟨t, ht, d, form, rfl⟩ := isClass
        have placed : s ∈ b.declared :=
          CompletionOrder.mem_of_mem_of (order ▸ List.mem_append_cons_self)
        obtain rfl := eq_of_aheadName ht placed ((aheadName_of_class form).trans hx)
        have known : ∀ y, b.IsClass y →
            b.Before y d.name.text ∧ b.Knows ((b.round r).completeAll before) (r + 1) y ∨
              ¬ b.Before y d.name.text ∧ b.Knows ((b.round r).completeAll before) r y := by
          intro y isClass
          rw [before_iff order hx.symm, Knows, Knows, round_midway order]
          split
          · next hy => exact .inl ⟨hy, ih (t :: after) order isClass hy⟩
          · next hy => exact .inr ⟨hy, earlier y isClass⟩
        have value : b.round (r + 1) d.name.text
            = some (.cls (Signature.ofClass ((b.round r).completeAll before) d)) := by
          rw [round_at order hx.symm, Statement.completed?, form]
        exact ⟨_, value, knows_completed (reached_midway order r) ht form known⟩

theorem knows_round (r : Nat) {c : String} (h : b.IsClass c) : b.Knows (b.round r) r c := by
  induction r generalizing c with
  | zero => exact knows_meaning h
  | succ r ih =>
      obtain ⟨s, hs, d, form, rfl⟩ := h
      have placed := CompletionOrder.mem_of_of_mem hs (by simp [CompletionOrder.typeName?, form])
      refine knows_along (fun _ => ih) _ [] (List.append_nil _).symm ⟨s, hs, d, form, rfl⟩ ?_
      exact List.mem_map.mpr ⟨s, placed, aheadName_of_class form⟩

/-- Functions are completed last, and change no class. -/
theorem lookup_class (body : List Statement) (c : Checker) {x : String}
    (h : (ofBody body c).IsClass x) :
    ((Check.hoist body).run c).2.scopes.lookup x = (ofBody body c).round 2 x := by
  obtain ⟨s, hs, d, form, rfl⟩ := h
  have other : some d.name.text ∉
      (((ofBody body c).declared.filter (·.isFunction)).map (·.aheadName?)) := by
    intro hx
    obtain ⟨t, ht, name⟩ := List.mem_map.mp hx
    obtain ⟨ht, isFunction⟩ := List.mem_filter.mp ht
    obtain rfl := eq_of_aheadName ht hs (name.trans (aheadName_of_class form).symm)
    simp [Statement.isFunction, form] at isFunction
  rw [Check.lookup_hoist]
  exact Meaning.completeAll_of_not_mem other

/-! ### Chains of superclasses -/

variable (b)

/-- A class of the block extends another one, by its clause. -/
def Extends (c a : String) : Prop := b.Links c a ∧ b.IsClass a

/-- A class of the block is a declared superclass, with so many late clauses before the last. -/
def Above (c a : String) (n : Nat) : Prop := ∃ c', b.Ascends c c' n ∧ b.Extends c' a

variable {b}

theorem links_unique {c x y : String} (h : b.Links c x) (h' : b.Links c y) : x = y := by
  obtain ⟨s, hs, d, form, rfl, arguments, place, clause, _⟩ := h
  obtain ⟨s', hs', d', form', name, arguments', place', clause', _⟩ := h'
  have same : s' = s := eq_of_aheadName hs' hs (by
    rw [aheadName_of_class form, aheadName_of_class form', name])
  rw [same, form] at form'
  cases form'
  rw [clause] at clause'
  cases clause'
  rfl

theorem Ascends.reflTransGen {c a : String} {n : Nat} (h : b.Ascends c a n) :
    ReflTransGen b.Extends c a := by
  induction h with
  | refl c => exact .refl
  | early step isClass _ _ ih | late step isClass _ _ ih => exact .head ⟨step, isClass⟩ ih

/-- Each superclass of the block is reached with some number of late clauses. -/
theorem exists_above {c a : String} (h : TransGen b.Extends c a) : ∃ n, b.Above c a n := by
  induction h using TransGen.head_induction_on with
  | single last => exact ⟨0, _, .refl _, last⟩
  | @head c x step _ ih =>
      obtain ⟨n, c', ascends, last⟩ := ih
      by_cases before : b.Before x c
      · exact ⟨n, c', .early step.1 step.2 before ascends, last⟩
      · exact ⟨n + 1, c', .late step.1 step.2 before ascends, last⟩

theorem Above.superclass {c a : String} {n : Nat} (h : b.Above c a n) : b.Superclass c a n := by
  obtain ⟨c', ascends, step, isClass⟩ := h
  exact ⟨c', a, ascends, step, .inl ⟨isClass, rfl⟩⟩

/-- Where no class extends itself, a superclass is met first at its place in the block. -/
theorem Above.le (acyclic : ∀ x, ¬ TransGen b.Extends x x) {c a : String} {n m : Nat}
    (h : b.Above c a n) (h' : b.Superclass c a m) : n ≤ m := by
  obtain ⟨c', ascends, last⟩ := h
  induction ascends generalizing m with
  | refl c => exact Nat.zero_le m
  | @early c x c' n step isClass before ascends ih =>
      obtain ⟨y, step', hy⟩ := superclass_iff.mp h'
      obtain rfl := links_unique step step'
      obtain ⟨_, ⟨_, rfl⟩ | ⟨outside, _⟩⟩ | ⟨_, ⟨_, rest⟩ | ⟨after, _⟩⟩ := hy
      · exact absurd (TransGen.tail' ascends.reflTransGen last) (acyclic x)
      · exact absurd isClass.names outside
      · exact ih rest last
      · exact absurd before after
  | @late c x c' n step isClass after ascends ih =>
      obtain ⟨y, step', hy⟩ := superclass_iff.mp h'
      obtain rfl := links_unique step step'
      obtain ⟨_, ⟨_, rfl⟩ | ⟨outside, _⟩⟩ | ⟨_, ⟨before, _⟩ | ⟨_, k, rfl, rest⟩⟩ := hy
      · exact absurd (TransGen.tail' ascends.reflTransGen last) (acyclic x)
      · exact absurd isClass.names outside
      · exact absurd before after
      · exact Nat.succ_le_succ (ih rest last)

theorem Above.knownAfter_iff (acyclic : ∀ x, ¬ TransGen b.Extends x x) {c a : String}
    {n rounds : Nat} (h : b.Above c a n) : b.KnownAfter rounds c a ↔ n + 1 ≤ rounds := by
  constructor
  · rintro (rfl | ⟨m, bound, superclass⟩)
    · obtain ⟨c', ascends, last⟩ := h
      exact absurd (TransGen.tail' ascends.reflTransGen last) (acyclic c)
    · exact Nat.le_trans (Nat.succ_le_succ (h.le acyclic superclass)) bound
  · exact fun bound => .inr ⟨n, bound, h.superclass⟩

end Hoisted

/-! ### Classes written from the top down -/

section

open Hoisted

/-- A class with one field, whose type makes the class mention another name. -/
def ClassDeclaration.withField (name : String) (superclass : Option String) (field : String) :
    ClassDeclaration where
  modifiers := .empty
  name := ⟨name, .nowhere⟩
  generics := []
  superclass := superclass.map (TypeExpr.named · .nowhere)
  interfaces := []
  members := [⟨.empty, .property ⟨⟨"f", .nowhere⟩, .named field .nowhere, none⟩, .nowhere⟩]

theorem ClassDeclaration.refers_withField {name field x : String} {superclass : Option String}
    {m : Meaning} : (withField name superclass field).Refers m x ↔ superclass = some x := by
  constructor
  · rintro ⟨arguments, place, clause, _⟩
    obtain ⟨y, rfl, same⟩ := Option.map_eq_some_iff.mp clause
    cases same
    rfl
  · rintro rfl
    exact ⟨[], .nowhere, rfl, rfl, [], rfl⟩

/-- Four classes, each of which is the superclass of the next and mentions it in a field. -/
def upwards : List ClassDeclaration :=
  [.withField "A" none "B", .withField "B" (some "A") "C", .withField "C" (some "B") "D",
    .withField "D" (some "C") "int"]

def upwardsBody : List Statement := upwards.map fun d => ⟨.classType d, .nowhere⟩

abbrev upwardsBlock : Hoisted := ofBody upwardsBody default

theorem isClass_upwards {x : String} :
    upwardsBlock.IsClass x ↔ x = "A" ∨ x = "B" ∨ x = "C" ∨ x = "D" := by
  have declared : upwardsBlock.declared = upwardsBody := rfl
  simp [IsClass, declared, upwardsBody, upwards, ClassDeclaration.withField, eq_comm]

theorem extends_upwards {c a : String} :
    upwardsBlock.Extends c a ↔ c = "B" ∧ a = "A" ∨ c = "C" ∧ a = "B" ∨ c = "D" ∧ a = "C" := by
  have declared : upwardsBlock.declared = upwardsBody := rfl
  rw [Extends, isClass_upwards]
  simp only [Links, declared, upwardsBody, upwards, List.map_cons, List.map_nil, List.mem_cons,
    List.not_mem_nil, or_false, exists_eq_or_imp, exists_eq_left, StatementForm.classType.injEq,
    exists_eq_left', ClassDeclaration.refers_withField]
  simp only [ClassDeclaration.withField]
  grind

theorem upwards_acyclic (x : String) : ¬ TransGen upwardsBlock.Extends x x := by
  have down : ∀ c a, upwardsBlock.Extends c a → a < c := by
    intro c a h
    obtain ⟨rfl, rfl⟩ | ⟨rfl, rfl⟩ | ⟨rfl, rfl⟩ := extends_upwards.mp h <;> decide
  intro cycle
  have below : ∀ a, TransGen upwardsBlock.Extends x a → a < x := by
    intro a h
    induction h with
    | single step => exact down _ _ step
    | tail _ step ih => exact String.lt_trans (down _ _ step) ih
  exact String.lt_irrefl x (below x cycle)

end

/-! ### Assignment to a superclass -/

/-- A value of a class goes where another class is expected if that one is among its ancestors. -/
theorem ClassTy.fits_class (c : ClassTy) (a : String) (superclass : Option Ty)
    (interfaces generics : List Ty) :
    c.toTy.fits (.class_ a superclass interfaces generics) = c.toTy.descendsFrom a := by
  simp only [toTy, Ty.fits, Ty.widen]
  cases same : (Ty.class_ c.name c.superclass c.interfaces c.generics).same
      (.class_ a superclass interfaces generics) with
  | false => rfl
  | true =>
      simp only [Ty.same, Bool.and_eq_true, beq_iff_eq] at same
      rw [Bool.true_or, eq_comm, Ty.descendsFrom_class]
      exact .inl same.1.1.1

open Hoisted in
/--
After a block is declared ahead, its classes know exactly the superclasses that are behind at most
one late clause, and only those are what their values can be assigned to.
-/
theorem hoist_descends_exactly (body : List Statement) (c : Checker)
    (acyclic : ∀ x, ¬ TransGen (ofBody body c).Extends x x) (name : String)
    (isClass : (ofBody body c).IsClass name) :
    ∃ e, ((Check.hoist body).run c).2.scopes.lookup name = some (.cls e) ∧
      (∀ a, e.type.toTy.descendsFrom a = true ↔
        name = a ∨ ∃ n ≤ 1, (ofBody body c).Superclass name a n) ∧
      (∀ a, TransGen (ofBody body c).Extends name a → ∃ n, (ofBody body c).Above name a n) ∧
      ∀ a n, (ofBody body c).Above name a n →
        (e.type.toTy.descendsFrom a = true ↔ n ≤ 1) ∧
        ∀ superclass interfaces generics,
          e.type.toTy.fits (.class_ a superclass interfaces generics) = true ↔ n ≤ 1 := by
  obtain ⟨e, found, knows⟩ := knows_round 2 isClass
  have descends : ∀ a n, (ofBody body c).Above name a n →
      (e.type.toTy.descendsFrom a = true ↔ n ≤ 1) := by
    intro a n above
    rw [knows, above.knownAfter_iff acyclic]
    omega
  refine ⟨e, (lookup_class body c isClass).trans found, fun a => ?_, fun a => exists_above, ?_⟩
  · rw [knows, KnownAfter]
    simp only [Nat.reduceLeDiff]
  · intro a n above
    refine ⟨descends a n above, fun superclass interfaces generics => ?_⟩
    rw [ClassTy.fits_class, descends a n above]

open Hoisted in
/-- Four classes in a row, each completed before its superclass. -/
theorem upwards_cut :
    ∃ e, ((Check.hoist upwardsBody).run default).2.scopes.lookup "D" = some (.cls e) ∧
      TransGen upwardsBlock.Extends "D" "A" ∧ e.type.toTy.descendsFrom "B" = true ∧
      e.type.toTy.descendsFrom "A" = false := by
  have order : (CompletionOrder.of upwardsBlock.declared).map (·.aheadName?) =
      [some "D", some "C", some "B", some "A"] := by decide +kernel
  have dc : upwardsBlock.Extends "D" "C" := extends_upwards.mpr (by simp)
  have cb : upwardsBlock.Extends "C" "B" := extends_upwards.mpr (by simp)
  have ba : upwardsBlock.Extends "B" "A" := extends_upwards.mpr (by simp)
  have dc_late : ¬ upwardsBlock.Before "C" "D" := by
    rw [before_of_names [] _ order]
    simp
  have cb_late : ¬ upwardsBlock.Before "B" "C" := by
    rw [before_of_names [some "D"] _ order]
    simp
  obtain ⟨e, found, _, _, known⟩ := hoist_descends_exactly upwardsBody default upwards_acyclic "D"
    (isClass_upwards.mpr (by simp))
  have toB := known "B" 1 ⟨"C", .late dc.1 dc.2 dc_late (.refl _), cb⟩
  have toA := known "A" 2 ⟨"B", .late dc.1 dc.2 dc_late (.late cb.1 cb.2 cb_late (.refl _)), ba⟩
  refine ⟨e, found, .head dc (.head cb (.single ba)), toB.1.mpr (Nat.le_refl 1), ?_⟩
  simpa using toA.1

end ScriptFront
