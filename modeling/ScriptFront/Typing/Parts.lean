import ScriptFront.Typing.Ty

/-!
The types inside a type, and what holds of a type and of all types inside it. The two tests of this
kind are that structures name their fields once, and that there are neither classes nor generics.
-/

namespace ScriptFront
namespace Ty

/-- The types that a type is made of. -/
def parts : Ty → List Ty
  | .primitive _ | .generic _ => []
  | .array t => [t]
  | .struct fields generics => fields.map (·.2) ++ generics
  | .class_ _ superclass interfaces generics => superclass.toList ++ interfaces ++ generics
  | .function params returns generics _ => params ++ returns :: generics
  | .union l r | .intersection l r => [l, r]

mutual

/-- Whether a test holds of a type and of every type inside it. -/
def all (test : Ty → Bool) : Ty → Bool
  | .primitive p => test (.primitive p)
  | .array t => test (.array t) && t.all test
  | .struct fields generics =>
    test (.struct fields generics) && (allFields test fields && allTypes test generics)
  | .class_ name superclass interfaces generics =>
    test (.class_ name superclass interfaces generics)
      && (allOptional test superclass && allTypes test interfaces && allTypes test generics)
  | .function params returns generics variadic =>
    test (.function params returns generics variadic)
      && (allTypes test params && (returns.all test && allTypes test generics))
  | .union l r => test (.union l r) && (l.all test && r.all test)
  | .intersection l r => test (.intersection l r) && (l.all test && r.all test)
  | .generic name => test (.generic name)

def allTypes (test : Ty → Bool) : List Ty → Bool
  | [] => true
  | t :: ts => t.all test && allTypes test ts

def allOptional (test : Ty → Bool) : Option Ty → Bool
  | none => true
  | some t => t.all test

def allFields (test : Ty → Bool) : List (String × Ty) → Bool
  | [] => true
  | (_, t) :: fields => t.all test && allFields test fields

end

/-- Whether a structure names each of its fields once. -/
def namesOnce : Ty → Bool
  | .struct fields _ => decide (fields.map (·.1)).Nodup
  | _ => true

/-- Whether a type is neither a class nor a generic. -/
def isStructural : Ty → Bool
  | .class_ .. | .generic _ => false
  | _ => true

/-- Every structure in the type names each of its fields once. -/
def WellFormed (t : Ty) : Prop := t.all namesOnce = true

/-- There is no class and no generic anywhere in the type. -/
def Structural (t : Ty) : Prop := t.all isStructural = true

instance (t : Ty) : Decidable t.WellFormed := inferInstanceAs (Decidable (t.all namesOnce = true))

instance (t : Ty) : Decidable t.Structural :=
  inferInstanceAs (Decidable (t.all isStructural = true))

variable {test : Ty → Bool}

theorem allTypes_eq (ts : List Ty) : allTypes test ts = ts.all (all test) := by
  induction ts with
  | nil => rfl
  | cons t ts ih => rw [allTypes, List.all_cons, ih]

theorem allOptional_eq (t : Option Ty) : allOptional test t = t.toList.all (all test) := by
  cases t with
  | none => rfl
  | some t => exact (Bool.and_true _).symm

theorem allFields_eq (fields : List (String × Ty)) :
    allFields test fields = (fields.map (·.2)).all (all test) := by
  induction fields with
  | nil => rfl
  | cons f fields ih => rw [allFields, List.map_cons, List.all_cons, ih]

theorem all_eq (t : Ty) : t.all test = (test t && t.parts.all (all test)) := by
  cases t <;> simp [all, parts, allTypes_eq, allOptional_eq, allFields_eq, Bool.and_assoc]

theorem all_iff {t : Ty} :
    t.all test = true ↔ test t = true ∧ ∀ u ∈ t.parts, u.all test = true := by
  rw [all_eq, Bool.and_eq_true, List.all_eq_true]

theorem WellFormed.part {t u : Ty} (h : t.WellFormed) (inside : u ∈ t.parts) : u.WellFormed :=
  (all_iff.mp h).2 u inside

theorem Structural.part {t u : Ty} (h : t.Structural) (inside : u ∈ t.parts) : u.Structural :=
  (all_iff.mp h).2 u inside

theorem WellFormed.nodup {fields : List (String × Ty)} {generics : List Ty}
    (h : (struct fields generics).WellFormed) : (fields.map (·.1)).Nodup :=
  of_decide_eq_true (all_iff.mp h).1

theorem mem_parts_of_field {fields : List (String × Ty)} {generics : List Ty} {f : String × Ty}
    (field : f ∈ fields) : f.2 ∈ (struct fields generics).parts :=
  List.mem_append_left _ (List.mem_map_of_mem field)

/-- A type is larger than those inside it. -/
theorem sizeOf_part {t u : Ty} (inside : u ∈ t.parts) : sizeOf u < sizeOf t := by
  -- a type inside is one of a list, or stands by itself
  have listed {ts : List Ty} {n : Nat} (mem : u ∈ ts) (le : sizeOf ts ≤ n) : sizeOf u < n :=
    Nat.lt_of_lt_of_le (List.sizeOf_lt_of_mem mem) le
  cases t with
  | primitive _ | generic _ => cases inside
  | array t =>
      cases List.mem_singleton.mp inside
      simp only [array.sizeOf_spec]
      omega
  | struct fields generics =>
      rcases List.mem_append.mp inside with field | generic
      · obtain ⟨⟨n, t⟩, mem, rfl⟩ := List.mem_map.mp field
        have := List.sizeOf_lt_of_mem mem
        simp only [Prod.mk.sizeOf_spec, struct.sizeOf_spec] at this ⊢
        omega
      · exact listed generic (by simp only [struct.sizeOf_spec]; omega)
  | class_ name superclass interfaces generics =>
      simp only [parts, List.mem_append, Option.mem_toList] at inside
      rcases inside with (rfl | interface) | generic
      · simp only [class_.sizeOf_spec, Option.some.sizeOf_spec]
        omega
      · exact listed interface (by simp only [class_.sizeOf_spec]; omega)
      · exact listed generic (by simp only [class_.sizeOf_spec]; omega)
  | function params returns generics variadic =>
      rcases List.mem_append.mp inside with param | other
      · exact listed param (by simp only [function.sizeOf_spec]; omega)
      · rcases List.mem_cons.mp other with rfl | generic
        · simp only [function.sizeOf_spec]
          omega
        · exact listed generic (by simp only [function.sizeOf_spec]; omega)
  | union l r | intersection l r =>
      simp only [parts, List.mem_cons, List.not_mem_nil, or_false] at inside
      simp only [union.sizeOf_spec, intersection.sizeOf_spec]
      rcases inside with rfl | rfl
      · omega
      · omega

/-- What holds of a type if it holds of those inside it holds of all types. -/
theorem induct_parts {motive : Ty → Prop} (step : ∀ t : Ty, (∀ u ∈ t.parts, motive u) → motive t)
    (t : Ty) : motive t := by
  induction hn : sizeOf t using Nat.strongRecOn generalizing t with
  | ind n ih => exact step t fun u inside => ih _ (hn ▸ sizeOf_part inside) u rfl

/-! ### The fields of structures -/

theorem names_setField (name : String) (t : Ty) (fields : List (String × Ty)) :
    (setField name t fields).map (·.1) =
      if name ∈ fields.map (·.1) then fields.map (·.1) else fields.map (·.1) ++ [name] := by
  induction fields with
  | nil => rfl
  | cons f fields ih =>
      obtain ⟨n, u⟩ := f
      by_cases here : n = name
      · simp [setField, here]
      · have other : ¬ name = n := fun same => here same.symm
        simp only [setField, if_neg here, List.map_cons, ih, List.mem_cons, other, false_or]
        split <;> rfl

/-- The fields that a declaration gives a structure have different names. -/
theorem namesOnce_ofFields (fields : List (String × Ty)) (generics : List Ty) :
    namesOnce (.struct (ofFields fields) generics) = true := by
  have nodup : ∀ before : List (String × Ty), (before.map (·.1)).Nodup →
      ((fields.foldl (fun fs f => setField f.1 f.2 fs) before).map (·.1)).Nodup := by
    induction fields with
    | nil => exact fun _ h => h
    | cons f fields ih =>
        intro before distinct
        refine ih _ ?_
        rw [names_setField]
        split
        · exact distinct
        · next new =>
            refine List.nodup_append.mpr ⟨distinct, by simp, fun n known m last same => new ?_⟩
            rwa [← List.mem_singleton.mp last, ← same]
  exact decide_eq_true (nodup [] List.nodup_nil)

end Ty
end ScriptFront
