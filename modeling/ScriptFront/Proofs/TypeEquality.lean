import Mathlib.Data.List.Nodup
import Mathlib.Data.List.Perm.Subperm
import ScriptFront.Typing.Parts

/-!
Equality of types. What equals a type has its form, with equal types in it; for structures the order
of the fields does not count. Equality is transitive, and types that name their fields once equal
themselves.
-/

namespace ScriptFront
namespace Ty

variable {t u v : Ty}

/-! ### The forms of equal types -/

theorem same_primitive {p : Primitive} : (primitive p).same t = true ↔ t = primitive p := by
  cases t <;> simp [same, @eq_comm _ p]

theorem same_array {e : Ty} :
    (array e).same t = true ↔ ∃ e', t = array e' ∧ e.same e' = true := by
  cases t <;> simp [same]

theorem same_struct {fields : List (String × Ty)} {generics : List Ty} :
    (struct fields generics).same t = true ↔ ∃ fields' generics', t = struct fields' generics' ∧
      fields.length = fields'.length ∧ sameFields fields fields' = true ∧
        sameAll generics generics' = true := by
  cases t <;> simp [same, and_assoc]

theorem same_class {name : String} {superclass : Option Ty} {interfaces generics : List Ty} :
    (class_ name superclass interfaces generics).same t = true ↔
      ∃ superclass' interfaces' generics', t = class_ name superclass' interfaces' generics' ∧
        sameOptional superclass superclass' = true ∧ sameAll interfaces interfaces' = true ∧
          sameAll generics generics' = true := by
  cases t with
  | class_ name' superclass' interfaces' generics' =>
      simp only [same, Bool.and_eq_true, beq_iff_eq, class_.injEq]
      constructor
      · rintro ⟨⟨⟨rfl, above⟩, inner⟩, others⟩
        exact ⟨_, _, _, ⟨rfl, rfl, rfl, rfl⟩, above, inner, others⟩
      · rintro ⟨_, _, _, ⟨rfl, rfl, rfl, rfl⟩, above, inner, others⟩
        exact ⟨⟨⟨rfl, above⟩, inner⟩, others⟩
  | _ => simp [same]

theorem same_function {params generics : List Ty} {returns : Ty} {variadic : Bool} :
    (function params returns generics variadic).same t = true ↔
      ∃ params' returns' generics', t = function params' returns' generics' variadic ∧
        sameAll params params' = true ∧ returns.same returns' = true ∧
          sameAll generics generics' = true := by
  cases t with
  | function params' returns' generics' variadic' =>
      simp only [same, Bool.and_eq_true, beq_iff_eq, function.injEq]
      constructor
      · rintro ⟨⟨⟨taken, given⟩, others⟩, rfl⟩
        exact ⟨_, _, _, ⟨rfl, rfl, rfl, rfl⟩, taken, given, others⟩
      · rintro ⟨_, _, _, ⟨rfl, rfl, rfl, rfl⟩, taken, given, others⟩
        exact ⟨⟨⟨taken, given⟩, others⟩, rfl⟩
  | _ => simp [same]

theorem same_union {l r : Ty} : (union l r).same t = true ↔
    ∃ l' r', t = union l' r' ∧ l.same l' = true ∧ r.same r' = true := by
  cases t <;> simp [same]

theorem same_intersection {l r : Ty} : (intersection l r).same t = true ↔
    ∃ l' r', t = intersection l' r' ∧ l.same l' = true ∧ r.same r' = true := by
  cases t <;> simp [same]

theorem same_union_right {l r : Ty} : t.same (union l r) = true ↔
    ∃ l' r', t = union l' r' ∧ l'.same l = true ∧ r'.same r = true := by
  cases t <;> simp [same]

theorem same_intersection_right {l r : Ty} : t.same (intersection l r) = true ↔
    ∃ l' r', t = intersection l' r' ∧ l'.same l = true ∧ r'.same r = true := by
  cases t <;> simp [same]

theorem same_generic {name : String} : (generic name).same t = true ↔ t = generic name := by
  cases t <;> simp [same, @eq_comm _ name]

/-! ### Fields by their names -/

theorem mem_of_lookup {fields : List (String × Ty)} {name : String}
    (found : fields.lookup name = some t) : (name, t) ∈ fields := by
  obtain ⟨before, after, rfl, _⟩ := List.lookup_eq_some_iff.mp found
  exact List.mem_append_right _ List.mem_cons_self

theorem lookup_of_mem {fields : List (String × Ty)} {name : String}
    (distinct : (fields.map (·.1)).Nodup) (field : (name, t) ∈ fields) :
    fields.lookup name = some t := by
  obtain ⟨before, after, rfl⟩ := List.append_of_mem field
  refine List.lookup_eq_some_iff.mpr ⟨before, after, rfl, fun f early => ?_⟩
  rw [List.map_append, List.nodup_append] at distinct
  have other := distinct.2.2 f.1 (List.mem_map_of_mem early) name (by simp)
  simpa using Ne.symm other

theorem sameFields_iff {fields others : List (String × Ty)} :
    sameFields fields others = true ↔
      ∀ f ∈ fields, ∃ u, others.lookup f.1 = some u ∧ f.2.same u = true := by
  induction fields with
  | nil => simp [sameFields]
  | cons f fields ih =>
      obtain ⟨n, t⟩ := f
      simp only [sameFields, Bool.and_eq_true, ih, List.mem_cons, forall_eq_or_imp]
      cases others.lookup n <;> simp

/-- As many fields with different names, all of which are found, leave no others to be found. -/
theorem field_of_sameFields {fields others : List (String × Ty)}
    (distinct : (fields.map (·.1)).Nodup) (length : fields.length = others.length)
    (equal : sameFields fields others = true) {f : String × Ty} (field : f ∈ others) :
    ∃ t, fields.lookup f.1 = some t ∧ t.same f.2 = true := by
  rw [sameFields_iff] at equal
  have names : fields.map (·.1) ⊆ others.map (·.1) := by
    intro n known
    obtain ⟨g, mem, rfl⟩ := List.mem_map.mp known
    obtain ⟨u, found, _⟩ := equal g mem
    exact List.mem_map.mpr ⟨_, mem_of_lookup found, rfl⟩
  have perm : (fields.map (·.1)).Perm (others.map (·.1)) :=
    (List.subperm_of_subset distinct names).perm_of_length_le (by simp [length])
  obtain ⟨⟨n, t⟩, mem, rfl⟩ := List.mem_map.mp (perm.mem_iff.mpr (List.mem_map_of_mem field))
  obtain ⟨u, found, equal⟩ := equal _ mem
  cases found.symm.trans (lookup_of_mem (perm.nodup_iff.mp distinct) field)
  exact ⟨t, lookup_of_mem distinct mem, equal⟩

/-! ### Reflexivity -/

theorem sameAll_self {ts : List Ty} (h : ∀ t ∈ ts, t.same t = true) : sameAll ts ts = true := by
  induction ts with
  | nil => rfl
  | cons t ts ih =>
      obtain ⟨here, later⟩ := List.forall_mem_cons.mp h
      exact Bool.and_eq_true_iff.mpr ⟨here, ih later⟩

theorem sameOptional_iff {t u : Option Ty} :
    sameOptional t u = true ↔ sameAll t.toList u.toList = true := by
  cases t <;> cases u <;> simp [sameOptional, sameAll]

theorem WellFormed.same_self (h : t.WellFormed) : t.same t = true := by
  induction t using induct_parts with
  | step t ih =>
      have inner : ∀ u ∈ t.parts, u.same u = true := fun u inside => ih u inside (h.part inside)
      cases t with
      | primitive p => exact same_primitive.mpr rfl
      | generic name => exact same_generic.mpr rfl
      | array e => exact same_array.mpr ⟨e, rfl, inner e (List.mem_singleton_self e)⟩
      | struct fields generics =>
          refine same_struct.mpr ⟨_, _, rfl, rfl, sameFields_iff.mpr fun f field => ?_, ?_⟩
          · exact ⟨f.2, lookup_of_mem h.nodup field, inner f.2 (mem_parts_of_field field)⟩
          · exact sameAll_self fun g mem => inner g (List.mem_append_right _ mem)
      | class_ name superclass interfaces generics =>
          refine same_class.mpr ⟨_, _, _, rfl, sameOptional_iff.mpr ?_, ?_, ?_⟩
          · exact sameAll_self fun c mem => inner c (by simp [parts, Option.mem_toList.mp mem])
          · exact sameAll_self fun i mem => inner i (by simp [parts, mem])
          · exact sameAll_self fun g mem => inner g (by simp [parts, mem])
      | function params returns generics variadic =>
          refine same_function.mpr ⟨_, _, _, rfl, ?_, ?_, ?_⟩
          · exact sameAll_self fun p mem => inner p (by simp [parts, mem])
          · exact inner returns (by simp [parts])
          · exact sameAll_self fun g mem => inner g (by simp [parts, mem])
      | union l r =>
          exact same_union.mpr ⟨l, r, rfl, inner l (by simp [parts]), inner r (by simp [parts])⟩
      | intersection l r =>
          exact same_intersection.mpr
            ⟨l, r, rfl, inner l (by simp [parts]), inner r (by simp [parts])⟩

/-! ### Transitivity -/

theorem sameAll_trans {ts us vs : List Ty}
    (trans : ∀ t ∈ ts, ∀ u v, t.same u = true → u.same v = true → t.same v = true)
    (h : sameAll ts us = true) (h' : sameAll us vs = true) : sameAll ts vs = true := by
  induction ts generalizing us vs with
  | nil =>
      cases us with
      | nil => exact h'
      | cons _ _ => cases h
  | cons t ts ih =>
      cases us with
      | nil => cases h
      | cons u us =>
          cases vs with
          | nil => cases h'
          | cons v vs =>
              obtain ⟨here, later⟩ := Bool.and_eq_true_iff.mp h
              obtain ⟨here', later'⟩ := Bool.and_eq_true_iff.mp h'
              exact Bool.and_eq_true_iff.mpr ⟨trans t List.mem_cons_self u v here here',
                ih (fun t mem => trans t (List.mem_cons_of_mem _ mem)) later later'⟩

theorem sameFields_trans {fields others more : List (String × Ty)}
    (trans : ∀ f ∈ fields, ∀ u v, f.2.same u = true → u.same v = true → f.2.same v = true)
    (h : sameFields fields others = true) (h' : sameFields others more = true) :
    sameFields fields more = true := by
  rw [sameFields_iff] at h h' ⊢
  intro f field
  obtain ⟨u, found, equal⟩ := h f field
  obtain ⟨v, found', equal'⟩ := h' _ (mem_of_lookup found)
  exact ⟨v, found', trans f field u v equal equal'⟩

theorem same_trans (h : t.same u = true) (h' : u.same v = true) : t.same v = true := by
  induction t using induct_parts generalizing u v with
  | step t ih =>
      have inner : ∀ t' ∈ t.parts, ∀ u v, t'.same u = true → u.same v = true → t'.same v = true :=
        fun t' inside u v h h' => ih t' inside h h'
      cases t with
      | primitive p =>
          cases same_primitive.mp h
          exact h'
      | generic name =>
          cases same_generic.mp h
          exact h'
      | array e =>
          obtain ⟨e', rfl, equal⟩ := same_array.mp h
          obtain ⟨e'', rfl, equal'⟩ := same_array.mp h'
          exact inner e (List.mem_singleton_self e) e' e'' equal equal'
      | struct fields generics =>
          obtain ⟨fields', generics', rfl, length, equal, others⟩ := same_struct.mp h
          obtain ⟨fields'', generics'', rfl, length', equal', others'⟩ := same_struct.mp h'
          refine same_struct.mpr ⟨_, _, rfl, length.trans length', ?_, ?_⟩
          · exact sameFields_trans (fun f field => inner f.2 (mem_parts_of_field field))
              equal equal'
          · exact sameAll_trans (fun g mem => inner g (List.mem_append_right _ mem)) others others'
      | class_ name superclass interfaces generics =>
          obtain ⟨superclass', interfaces', generics', rfl, above, equal, others⟩ :=
            same_class.mp h
          obtain ⟨superclass'', interfaces'', generics'', rfl, above', equal', others'⟩ :=
            same_class.mp h'
          refine same_class.mpr ⟨_, _, _, rfl, ?_, ?_, ?_⟩
          · rw [sameOptional_iff] at above above' ⊢
            exact sameAll_trans (fun c mem => inner c (by simp [parts, Option.mem_toList.mp mem]))
              above above'
          · exact sameAll_trans (fun i mem => inner i (by simp [parts, mem])) equal equal'
          · exact sameAll_trans (fun g mem => inner g (by simp [parts, mem])) others others'
      | function params returns generics variadic =>
          obtain ⟨params', returns', generics', rfl, taken, given, others⟩ := same_function.mp h
          obtain ⟨params'', returns'', generics'', rfl, taken', given', others'⟩ :=
            same_function.mp h'
          refine same_function.mpr ⟨_, _, _, rfl, ?_, ?_, ?_⟩
          · exact sameAll_trans (fun p mem => inner p (by simp [parts, mem])) taken taken'
          · exact inner returns (by simp [parts]) returns' returns'' given given'
          · exact sameAll_trans (fun g mem => inner g (by simp [parts, mem])) others others'
      | union l r =>
          obtain ⟨l', r', rfl, left, right⟩ := same_union.mp h
          obtain ⟨l'', r'', rfl, left', right'⟩ := same_union.mp h'
          exact same_union.mpr ⟨_, _, rfl, inner l (by simp [parts]) l' l'' left left',
            inner r (by simp [parts]) r' r'' right right'⟩
      | intersection l r =>
          obtain ⟨l', r', rfl, left, right⟩ := same_intersection.mp h
          obtain ⟨l'', r'', rfl, left', right'⟩ := same_intersection.mp h'
          exact same_intersection.mpr ⟨_, _, rfl, inner l (by simp [parts]) l' l'' left left',
            inner r (by simp [parts]) r' r'' right right'⟩

end Ty
end ScriptFront
