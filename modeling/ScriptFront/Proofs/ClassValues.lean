import Mathlib.Logic.Relation
import ScriptFront.Proofs.Assignability

/-!
Where values of a class fit. Another class is found among the superclasses, and a structure among
the interfaces: those of the class itself and, where an interface is a class, those of that class.
The interfaces of superclasses do not count.
-/

namespace ScriptFront
namespace Ty

open Relation

/-- A class and the class that it extends, as it stands in its type. -/
inductive Extends : Ty → Ty → Prop
  | intro {name parent superclass interfaces generics inner others} :
      Extends (class_ name (some (class_ parent superclass inner others)) interfaces generics)
        (class_ parent superclass inner others)

/-- A class and a type that it implements. -/
inductive Implements : Ty → Ty → Prop
  | intro {name superclass interfaces generics i} : i ∈ interfaces →
      Implements (class_ name superclass interfaces generics) i

/-- Among what a type implements, at any remove, is something that is no class and fits a target. -/
def Provides (t target : Ty) : Prop :=
  ∃ i, TransGen Implements t i ∧ i.isClass = false ∧ i.fits target = true

variable {t c d : Ty} {fields : List (String × Ty)} {others : List Ty}

theorem Implements.part {i : Ty} (h : Implements t i) : i ∈ t.parts := by
  cases h with
  | intro mem => simp [parts, mem]

theorem Implements.fits {i : Ty} (h : Implements t i)
    (inner : i.fits (struct fields others) = true) : t.fits (struct fields others) = true := by
  cases h with
  | intro mem => exact Suits.fits (.implementer mem inner) rfl

/-- A class fits a structure only by something that it implements. -/
theorem exists_implements (isClass : t.isClass = true) (h : t.fits (struct fields others) = true) :
    ∃ i, Implements t i ∧ i.fits (struct fields others) = true := by
  cases t with
  | class_ name superclass interfaces generics =>
      rcases (widen_of_whole rfl).mp h with same | ⟨_, generic⟩ | test
      · obtain ⟨_, _, _, struct, _⟩ := same_class.mp same
        cases struct
      · cases generic
      · obtain ⟨i, mem, inner⟩ := anyFits_iff.mp test
        exact ⟨i, .intro mem, inner⟩
  | _ => cases isClass

theorem fits_of_provides (h : t.Provides (struct fields others)) :
    t.fits (struct fields others) = true := by
  obtain ⟨i, implements, _, inner⟩ := h
  induction implements using TransGen.head_induction_on with
  | single step => exact step.fits inner
  | head step _ ih => exact step.fits ih

theorem class_fits_struct_iff (isClass : t.isClass = true) :
    t.fits (struct fields others) = true ↔ t.Provides (struct fields others) := by
  refine ⟨fun h => ?_, fits_of_provides⟩
  induction t using induct_parts with
  | step t ih =>
      obtain ⟨i, implements, inner⟩ := exists_implements isClass h
      cases interface : i.isClass with
      | false => exact ⟨i, .single implements, interface, inner⟩
      | true =>
          obtain ⟨j, far, plain, fits⟩ := ih i implements.part interface inner
          exact ⟨j, .head implements far, plain, fits⟩

/-- What implements as much provides as much. -/
theorem Provides.of_implements {u : Ty} (more : ∀ i, Implements t i → TransGen Implements c i)
    (h : t.Provides u) : c.Provides u := by
  obtain ⟨i, implements, plain, fits⟩ := h
  refine ⟨i, ?_, plain, fits⟩
  rcases TransGen.head'_iff.mp implements with ⟨j, step, far⟩
  exact (more j step).trans_left far

theorem isClass_of_chain (above : ReflTransGen Extends c d) (isClass : c.isClass = true) :
    d.isClass = true := by
  induction above with
  | refl => exact isClass
  | tail _ step _ =>
      cases step
      rfl

/-- A class fits every class on the way up from it. -/
theorem fits_of_chain (above : ReflTransGen Extends c d) (isClass : c.isClass = true) :
    c.fits d = true := by
  have classes := isClass_of_chain above isClass
  cases d with
  | class_ a superclass interfaces generics =>
      have descends : c.descendsFrom a = true := by
        induction above using ReflTransGen.head_induction_on with
        | refl => exact (descendsFrom_class _ _ _ _ _).mpr (.inl rfl)
        | head step _ ih =>
            cases step
            exact (descendsFrom_class _ _ _ _ _).mpr (.inr ⟨_, rfl, ih rfl⟩)
      cases c with
      | class_ name superclass' interfaces' generics' =>
          exact Suits.fits (.descendant descends) rfl
      | _ => cases isClass
  | _ => cases classes

/--
A class fits the classes above it, and each of them fits the structures that it provides itself. So
a structure that a class above it fits is one that the class fits if it implements as much, and
otherwise only by interfaces of its own: with another superclass it fits the same structures.
-/
theorem class_fits_struct_by_own_interfaces (name : String) (superclass : Option Ty)
    (interfaces generics : List Ty)
    (above : ReflTransGen Extends (class_ name superclass interfaces generics) d)
    (fields : List (String × Ty)) (others : List Ty) :
    let c := class_ name superclass interfaces generics
    let s := struct fields others
    c.fits d = true ∧ (d.fits s = true ↔ d.Provides s) ∧ (c.fits s = true ↔ c.Provides s) ∧
      ((∀ i, Implements d i → TransGen Implements c i) → d.fits s = true → c.fits s = true) ∧
      ∀ superclass', (class_ name superclass' interfaces generics).fits s = c.fits s := by
  intro c s
  have upper : d.fits s = true ↔ d.Provides s :=
    class_fits_struct_iff (isClass_of_chain above rfl)
  have own : c.fits s = true ↔ c.Provides s := class_fits_struct_iff rfl
  refine ⟨fits_of_chain above rfl, upper, own, fun more h => ?_, fun superclass' => rfl⟩
  exact own.mpr (Provides.of_implements more (upper.mp h))

/-- What only the superclass implements is provided by the superclass alone. -/
theorem interface_of_superclass_lost :
    let s := struct [("x", int)] []
    let base := class_ "D" none [s] []
    let derived := class_ "C" (some base) [] []
    ReflTransGen Extends derived base ∧ derived.fits base = true ∧ base.fits s = true ∧
      base.Provides s ∧ ¬ derived.Provides s ∧ derived.fits s = false := by
  intro s base derived
  have above : ReflTransGen Extends derived base := .single .intro
  obtain ⟨upwards, provided, own, _⟩ :=
    class_fits_struct_by_own_interfaces "C" (some base) [] [] above [("x", int)] []
  have fits : base.fits s = true := by decide
  have refused : derived.fits s = false := by decide
  exact ⟨above, upwards, fits, provided.mp fits,
    fun h => Bool.false_ne_true (refused.symm.trans (own.mpr h)), refused⟩

end Ty
end ScriptFront
