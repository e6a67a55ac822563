import Mathlib.Data.List.Basic
import ScriptFront.Scope.OpenTables

/-!
Tables that are linked from an inner one to the one around all. Along the links a name is looked up
as in the frames of the tables one after another, and a read of it is recorded in the first of them
that declares it.
-/

namespace ScriptFront

namespace Frame

variable {f : Frame} {e : Entry} {name : String}

theorem mem_used_markUsed (f : Frame) (name n : String) :
    n ∈ (f.markUsed name).used ↔ n ∈ f.used ∨ n = name := by
  unfold markUsed
  split
  · next known =>
      refine ⟨.inl, fun h => h.elim id fun same => ?_⟩
      rw [same]
      exact List.contains_iff_mem.mp known
  · rw [List.mem_cons, or_comm]

theorem declares_iff (f : Frame) (name : String) :
    f.declares name = true ↔ name ∈ f.entries.map Entry.name := by
  unfold declares find?
  rw [List.find?_isSome, List.mem_map]
  simp only [beq_iff_eq]

theorem define_taken {old : Entry} (h : f.find? e.name = some old) : f.define e = .error old := by
  unfold define
  rw [h]

theorem define_free (h : f.find? e.name = none) :
    f.define e = .ok { f with entries := f.entries ++ [e] } := by
  unfold define
  rw [h]

end Frame

namespace Tables

variable {ts ts' : Tables} {id outer : Nat} {ids : List Nat} {name : String}

/-! ### Single tables -/

theorem get?_modifyFrame (ts : Tables) (id : Nat) (change : Frame → Frame) (j : Nat) :
    (ts.modifyFrame id change).get? j = (ts.get? j).map fun t =>
      if id = j then { t with frame := change t.frame } else t := by
  unfold modifyFrame get?
  rw [List.getElem?_modify]
  cases ts.slots[j]? with
  | none => rfl
  | some slot => cases slot <;> by_cases same : id = j <;> simp [same]

theorem get?_addChild (ts : Tables) (parent j : Nat) :
    (ts.addChild parent).1.get? j =
      if j = ts.slots.length then some ⟨.empty, some parent⟩ else ts.get? j := by
  unfold addChild get?
  rcases Nat.lt_trichotomy j ts.slots.length with less | same | more
  · rw [List.getElem?_append_left less, if_neg (Nat.ne_of_lt less)]
  · subst same
    simp
  · rw [if_neg (Nat.ne_of_gt more), List.getElem?_eq_none (Nat.le_of_lt more),
      List.getElem?_eq_none (by rw [List.length_append]; exact more)]

theorem get?_drop (ts : Tables) (id j : Nat) :
    (ts.drop id).get? j = if id = j then none else ts.get? j := by
  unfold drop get?
  rw [List.getElem?_set]
  by_cases same : id = j
  · rw [if_pos same, if_pos same]
    split <;> rfl
  · rw [if_neg same, if_neg same]

theorem lt_of_get? {t : Table} (h : ts.get? id = some t) : id < ts.slots.length := by
  refine Nat.lt_of_not_le fun beyond => ?_
  rw [get?, List.getElem?_eq_none beyond] at h
  cases h

theorem frame_eq {t : Table} (h : ts.get? id = some t) : ts.frame id = t.frame := by
  rw [frame, h]
  rfl

theorem frame_modifyFrame {t : Table} (h : ts.get? id = some t) (change : Frame → Frame) (j : Nat) :
    (ts.modifyFrame id change).frame j = if id = j then change (ts.frame j) else ts.frame j := by
  rw [frame, frame, get?_modifyFrame]
  by_cases same : id = j
  · subst same
    rw [h, if_pos rfl]
    simp
  · rw [if_neg same]
    cases ts.get? j with
    | none => rfl
    | some t' => simp [same]

/-! ### Links -/

/-- Open tables, each of which is inside the next one, down to one inside none. -/
inductive Linked (ts : Tables) : List Nat → Prop
  | last {id t} : ts.get? id = some t → t.parent = none → Linked ts [id]
  | link {id outer ids t} : ts.get? id = some t → t.parent = some outer → outer < id →
      Linked ts (outer :: ids) → Linked ts (id :: outer :: ids)

namespace Linked

theorem get? (h : Linked ts ids) (mem : id ∈ ids) : ∃ t, ts.get? id = some t := by
  induction h with
  | last found _ =>
      rw [List.mem_singleton.mp mem]
      exact ⟨_, found⟩
  | link found _ _ _ ih =>
      rcases List.mem_cons.mp mem with rfl | mem
      · exact ⟨_, found⟩
      · exact ih mem

/-- Numbers fall along the links. -/
theorem descending (h : Linked ts ids) : ids.Pairwise (· > ·) := by
  induction h with
  | last _ _ => exact List.pairwise_singleton _ _
  | link _ _ less _ ih =>
      refine List.pairwise_cons.mpr ⟨fun j mem => ?_, ih⟩
      rcases List.mem_cons.mp mem with rfl | mem
      · exact less
      · exact Nat.lt_trans ((List.pairwise_cons.mp ih).1 j mem) less

theorem of_cons (h : Linked ts (id :: ids)) (inside : ids ≠ []) : Linked ts ids := by
  cases h with
  | last _ _ => exact absurd rfl inside
  | link _ _ _ further => exact further

/-- Links depend on nothing but the tables linked and what is around each. -/
theorem congr (h : Linked ts ids)
    (same : ∀ id ∈ ids, (ts'.get? id).map Table.parent = (ts.get? id).map Table.parent) :
    Linked ts' ids := by
  induction h with
  | last found alone =>
      have here := same _ (List.mem_singleton_self _)
      rw [found] at here
      obtain ⟨t, found', parent⟩ := Option.map_eq_some_iff.mp here
      exact .last found' (parent.trans alone)
  | link found inside less _ ih =>
      have here := same _ List.mem_cons_self
      rw [found] at here
      obtain ⟨t, found', parent⟩ := Option.map_eq_some_iff.mp here
      exact .link found' (parent.trans inside) less
        (ih fun id mem => same id (List.mem_cons_of_mem _ mem))

theorem modifyFrame (h : Linked ts ids) (id : Nat) (change : Frame → Frame) :
    Linked (ts.modifyFrame id change) ids := by
  refine h.congr fun j _ => ?_
  rw [get?_modifyFrame, Option.map_map]
  cases ts.get? j with
  | none => rfl
  | some t =>
      simp only [Option.map_some, Function.comp_apply]
      split <;> rfl

/-! ### Walks along the links -/

/-- A lookup ends at the first table that declares the name. -/
theorem lookup_owner (h : Linked ts (id :: ids)) (name : String) :
    ts.lookup id name = ((id :: ids).find? fun j => (ts.frame j).declares name).bind
      fun owner => (ts.frame owner).find? name := by
  induction ids generalizing id with
  | nil =>
      cases h with
      | last found alone =>
          rw [Tables.lookup, List.find?_cons, frame_eq found, found, Frame.declares]
          dsimp only
          cases here : (_ : Frame).find? name with
          | some e => rw [Option.isSome_some, Option.bind_some, frame_eq found, here]
          | none =>
              rw [alone]
              rfl
  | cons outer ids ih =>
      cases h with
      | link found inside less further =>
          rw [Tables.lookup, List.find?_cons, frame_eq found, found, Frame.declares]
          dsimp only
          cases here : (_ : Frame).find? name with
          | some e => rw [Option.isSome_some, Option.bind_some, frame_eq found, here]
          | none =>
              rw [inside]
              dsimp only
              rw [if_pos less]
              exact ih further

/-- The walk that records a read ends at the table that a lookup of the name ends at. -/
theorem markUsed_owner (h : Linked ts (id :: ids)) (name : String) :
    ts.markUsed id name = match (id :: ids).find? fun j => (ts.frame j).declares name with
      | some owner => ts.modifyFrame owner (·.markUsed name)
      | none => ts := by
  induction ids generalizing id with
  | nil =>
      cases h with
      | last found alone =>
          rw [Tables.markUsed, List.find?_cons, frame_eq found, found]
          dsimp only
          cases (_ : Frame).declares name with
          | true => rfl
          | false =>
              rw [alone]
              rfl
  | cons outer ids ih =>
      cases h with
      | link found inside less further =>
          rw [Tables.markUsed, List.find?_cons, frame_eq found, found]
          dsimp only
          cases (_ : Frame).declares name with
          | true => rfl
          | false =>
              rw [if_neg Bool.false_ne_true, inside]
              dsimp only
              rw [if_pos less]
              exact ih further

end Linked

/-- The first of some frames that declares a name is the first that has an entry of the name. -/
theorem findSome?_frames (ts : Tables) (ids : List Nat) (name : String) :
    (ids.find? fun j => (ts.frame j).declares name).bind (fun owner => (ts.frame owner).find? name)
      = (ids.map ts.frame).findSome? (·.find? name) := by
  induction ids with
  | nil => rfl
  | cons id ids ih =>
      rw [List.find?_cons, List.map_cons, List.findSome?_cons, Frame.declares]
      cases found : (ts.frame id).find? name with
      | none => exact ih
      | some e => exact found

end Tables
end ScriptFront
