import ScriptFront.Check.State
import ScriptFront.Proofs.LinkedTables
import ScriptFront.Proofs.TwinScopes

/-!
Single steps through scopes. What a step does to open tables is said once: which tables are open
afterwards, and what becomes of the frame of each. From this, the frames of the open tables, from
the innermost one outwards, are the stack that a check makes of them by the same step.
-/

namespace ScriptFront

namespace Frame

/-- A frame after an entry was declared in it; nothing changes if the name was taken. -/
def declare (f : Frame) (e : Entry) : Frame :=
  match f.define e with
  | .ok g => g
  | .error _ => f

variable {f : Frame} {e : Entry}

theorem declare_taken (h : f.declares e.name = true) : f.declare e = f := by
  obtain ⟨old, found⟩ := Option.isSome_iff_exists.mp h
  rw [declare, define_taken found]

theorem declare_free (h : f.declares e.name = false) :
    f.declare e = { f with entries := f.entries ++ [e] } := by
  have free : f.find? e.name = none :=
    Option.isNone_iff_eq_none.mp (Option.isSome_eq_false_iff.mp h)
  rw [declare, define_free free]

theorem find?_declare (f : Frame) (e : Entry) (name : String) :
    (f.declare e).find? name = (f.find? name).or (if e.name = name then some e else none) := by
  cases taken : f.declares e.name with
  | true =>
      rw [declare_taken taken]
      by_cases same : e.name = name
      · obtain ⟨old, found⟩ := Option.isSome_iff_exists.mp taken
        rw [← same, found, Option.some_or]
      · rw [if_neg same, Option.or_none]
  | false =>
      rw [declare_free taken, find?, List.find?_append, List.find?_singleton, find?]
      simp only [beq_iff_eq]

theorem used_declare (f : Frame) (e : Entry) : (f.declare e).used = f.used := by
  cases taken : f.declares e.name with
  | true => rw [declare_taken taken]
  | false => rw [declare_free taken]

theorem names_declare (f : Frame) (e : Entry) :
    (f.declare e).entries.map Entry.name =
      if e.name ∈ f.entries.map Entry.name then f.entries.map Entry.name
      else f.entries.map Entry.name ++ [e.name] := by
  cases taken : f.declares e.name with
  | true => rw [declare_taken taken, if_pos ((f.declares_iff _).mp taken)]
  | false =>
      rw [declare_free taken, if_neg fun mem => ?_]
      · exact List.map_append
      · exact Bool.eq_false_iff.mp taken ((f.declares_iff _).mpr mem)

theorem names_complete (f : Frame) (e : Entry) :
    (f.complete e).entries.map Entry.name = f.entries.map Entry.name := by
  rw [complete, List.map_map]
  refine List.map_congr_left fun old _ => ?_
  rw [Function.comp_apply]
  split
  · next same => exact (beq_iff_eq.mp same).symm
  · rfl

end Frame

namespace OpenTables

variable {s t : OpenTables} {step : ScopeStep} {id : Nat} {e : Entry} {name : String}

/-! ### Open tables -/

/-- Open tables are linked, from the innermost one to the global one. -/
def Sound (s : OpenTables) : Prop := s.tables.Linked s.numbers

/-- A table that is open, or that there has not been yet. -/
def Known (s : OpenTables) (id : Nat) : Prop := id ∈ s.numbers ∨ s.tables.slots.length ≤ id

theorem start_sound : start.Sound := .last (t := ⟨.empty, none⟩) rfl rfl

theorem numbers_eq (s : OpenTables) : s.numbers = s.current :: s.numbers.tail := by
  obtain ⟨tables, inner⟩ := s
  cases inner <;> rfl

theorem current_mem (s : OpenTables) : s.current ∈ s.numbers := by
  rw [numbers_eq]
  exact List.mem_cons_self

theorem frames_eq (s : OpenTables) :
    s.frames = s.frame s.current :: s.numbers.tail.map s.frame := by
  rw [frames, numbers_eq]
  rfl

namespace Sound

theorem get? (h : s.Sound) (mem : id ∈ s.numbers) : ∃ t, s.tables.get? id = some t :=
  Tables.Linked.get? h mem

theorem lt_size (h : s.Sound) (mem : id ∈ s.numbers) : id < s.tables.slots.length := by
  obtain ⟨t, found⟩ := h.get? mem
  exact Tables.lt_of_get? found

theorem nodup (h : s.Sound) : s.numbers.Nodup := h.descending.imp Nat.ne_of_gt

/-- The innermost table is not among those around it. -/
theorem current_notMem (h : s.Sound) : s.current ∉ s.numbers.tail := by
  have nodup := h.nodup
  rw [numbers_eq] at nodup
  exact (List.nodup_cons.mp nodup).1

theorem lookup_owner (h : s.Sound) (name : String) :
    s.lookup name = (s.owner? name).bind fun owner => (s.frame owner).find? name := by
  unfold Sound at h
  rw [owner?, lookup]
  rw [numbers_eq] at h ⊢
  exact h.lookup_owner name

theorem markUsed_owner (h : s.Sound) (name : String) :
    s.tables.markUsed s.current name = match s.owner? name with
      | some owner => s.tables.modifyFrame owner (·.markUsed name)
      | none => s.tables := by
  unfold Sound at h
  rw [owner?]
  rw [numbers_eq] at h ⊢
  exact h.markUsed_owner name

theorem lookup_frames (h : s.Sound) (name : String) :
    s.lookup name = s.frames.findSome? (·.find? name) :=
  (h.lookup_owner name).trans (Tables.findSome?_frames _ _ _)

end Sound

theorem mem_of_owner? (h : s.owner? name = some id) : id ∈ s.numbers :=
  List.mem_of_find?_eq_some h

theorem declares_of_owner? (h : s.owner? name = some id) : (s.frame id).declares name = true :=
  List.find?_some (p := fun id => (s.frame id).declares name) h

/-- A table that there has not been counts as empty. -/
theorem frame_of_le (h : s.tables.slots.length ≤ id) : s.frame id = .empty := by
  rw [frame, Tables.frame, Tables.get?, List.getElem?_eq_none h]
  rfl

/-! ### What a step does -/

/-- The numbers of the open tables after a step. -/
def numbersAfter (s : OpenTables) : ScopeStep → List Nat
  | .enter => s.tables.slots.length :: s.numbers
  | .leave => s.numbers.tail
  | _ => s.numbers

/-- The frame of a table after a step that does not drop the table. -/
def frameAfter (s : OpenTables) (id : Nat) : ScopeStep → Frame
  | .declare e _ => if s.current = id then (s.frame id).declare e else s.frame id
  | .complete e => if s.current = id then (s.frame id).complete e else s.frame id
  | .read name => if s.owner? name = some id then (s.frame id).markUsed name else s.frame id
  | _ => s.frame id

/-- What there is to know of the state after a step. -/
structure Taken (s : OpenTables) (step : ScopeStep) (t : OpenTables) : Prop where
  sound : t.Sound
  numbers : t.numbers = s.numbersAfter step
  known : ∀ id, t.Known id → s.Known id
  frame : ∀ id, t.Known id → t.frame id = s.frameAfter id step

/-- A step that changes the frame of one table that is open. -/
theorem taken_modifyFrame (h : s.Sound) (mem : id ∈ s.numbers) (change : Frame → Frame)
    (numbers : s.numbersAfter step = s.numbers)
    (frame : ∀ j, s.frameAfter j step = if id = j then change (s.frame j) else s.frame j) :
    s.Taken step ⟨s.tables.modifyFrame id change, s.inner⟩ where
  sound := Tables.Linked.modifyFrame h id change
  numbers := numbers.symm
  known j known := by
    rwa [Known, Tables.modifyFrame, List.length_modify] at known
  frame j _ := by
    obtain ⟨t, found⟩ := h.get? mem
    rw [frame]
    exact Tables.frame_modifyFrame found change j

/-- A step that changes nothing. -/
theorem taken_self (h : s.Sound) (numbers : s.numbersAfter step = s.numbers)
    (frame : ∀ j, s.frameAfter j step = s.frame j) : s.Taken step s :=
  ⟨h, numbers.symm, fun _ known => known, fun j _ => (frame j).symm⟩

theorem enter_taken (h : s.Sound) : s.Taken .enter s.enter where
  sound := by
    have kept {j : Nat} (mem : j ∈ s.numbers) :
        (s.tables.addChild s.current).1.get? j = s.tables.get? j := by
      rw [Tables.get?_addChild, if_neg (Nat.ne_of_lt (h.lt_size mem))]
    have inner : (s.tables.addChild s.current).1.Linked s.numbers :=
      Tables.Linked.congr h fun j mem => by rw [kept mem]
    change Tables.Linked _ (s.tables.slots.length :: s.numbers)
    rw [numbers_eq] at inner ⊢
    exact .link ((s.tables.get?_addChild s.current _).trans (if_pos rfl)) rfl
      (h.lt_size s.current_mem) inner
  numbers := rfl
  known j known := by
    rcases known with mem | beyond
    · rcases List.mem_cons.mp mem with rfl | mem
      · exact .inr (Nat.le_refl _)
      · exact .inl mem
    · refine .inr (Nat.le_trans (Nat.le_succ _) ?_)
      rwa [enter, Tables.addChild, List.length_append] at beyond
  frame j _ := by
    -- a new table is empty, as one that there has not been counts as empty
    change (s.tables.addChild s.current).1.frame j = s.frame j
    rw [Tables.frame, Tables.get?_addChild]
    split
    · next new => exact (frame_of_le (Nat.le_of_eq new.symm)).symm
    · rfl

theorem leave_taken (h : s.Sound) (taken : s.leave? = some t) : s.Taken .leave t := by
  have fresh := h.current_notMem
  have links : s.tables.Linked s.numbers := h
  have below := h.lt_size s.current_mem
  unfold leave? at taken
  split at taken
  · cases taken
  · next k rest inner =>
      cases taken
      have current : s.current = k := by rw [OpenTables.current, inner]; rfl
      have numbers : s.numbers = k :: (rest ++ [0]) := by rw [OpenTables.numbers, inner]; rfl
      have tail : s.numbers.tail = rest ++ [0] := by rw [numbers]; rfl
      rw [current] at below fresh
      rw [numbers] at links
      rw [tail] at fresh
      have kept {j : Nat} (other : k ≠ j) : (s.tables.drop k).get? j = s.tables.get? j := by
        rw [Tables.get?_drop, if_neg other]
      refine ⟨?_, tail.symm, fun j known => ?_, fun j known => ?_⟩
      · refine (links.of_cons (by simp)).congr fun j mem => ?_
        rw [kept fun same => fresh (same ▸ mem)]
      · refine known.imp (fun mem => ?_) fun beyond => ?_
        · rw [numbers]
          exact List.mem_cons_of_mem _ mem
        · rwa [Tables.drop, List.length_set] at beyond
      · have other : k ≠ j := by
          rcases known with mem | beyond
          · exact fun same => fresh (same ▸ mem)
          · rw [Tables.drop, List.length_set] at beyond
            exact Nat.ne_of_lt (Nat.lt_of_lt_of_le below beyond)
        rw [OpenTables.frame, Tables.frame, kept other]
        rfl

theorem declare_taken (h : s.Sound) (e : Entry) (place : Location) :
    s.Taken (.declare e place) (s.declare e) := by
  obtain ⟨t, found⟩ := h.get? s.current_mem
  have here : s.frame s.current = t.frame := Tables.frame_eq found
  unfold OpenTables.declare Tables.define
  rw [found]
  dsimp only
  cases defined : t.frame.define e with
  | error old =>
      refine taken_self h rfl fun j => ?_
      rw [frameAfter]
      split
      · next same =>
          rw [← same, here, Frame.declare, defined]
      · rfl
  | ok f =>
      refine taken_modifyFrame h s.current_mem (fun _ => f) rfl fun j => ?_
      rw [frameAfter]
      split
      · next same =>
          rw [← same, here, Frame.declare, defined]
      · rfl

theorem complete_taken (h : s.Sound) (e : Entry) : s.Taken (.complete e) (s.complete e) :=
  taken_modifyFrame h s.current_mem (·.complete e) rfl fun _ => rfl

theorem read_taken (h : s.Sound) (name : String) : s.Taken (.read name) (s.read name) := by
  unfold OpenTables.read
  rw [h.lookup_owner, h.markUsed_owner]
  cases found : s.owner? name with
  | none =>
      rw [Option.bind_none, if_neg (by rw [Option.isSome_none]; exact Bool.false_ne_true)]
      refine taken_self h rfl fun j => ?_
      rw [frameAfter, found, if_neg nofun]
  | some owner =>
      have declared : ((s.frame owner).find? name).isSome = true := declares_of_owner? found
      rw [Option.bind_some, if_pos declared]
      refine taken_modifyFrame h (mem_of_owner? found) (·.markUsed name) rfl fun j => ?_
      rw [frameAfter, found]
      simp only [Option.some.injEq]

theorem taken_of_step? (h : s.Sound) (taken : s.step? step = some t) : s.Taken step t := by
  cases step with
  | enter =>
      cases taken
      exact enter_taken h
  | leave => exact leave_taken h taken
  | declare e place =>
      cases taken
      exact declare_taken h e place
  | complete e =>
      cases taken
      exact complete_taken h e
  | read name =>
      cases taken
      exact read_taken h name

/-! ### Frames -/

theorem Taken.frames (taken : s.Taken step t) :
    t.frames = (s.numbersAfter step).map (s.frameAfter · step) := by
  rw [OpenTables.frames, taken.numbers]
  refine List.map_congr_left fun id mem => taken.frame id (.inl ?_)
  rwa [taken.numbers]

/-- A change of the frame of the innermost table is one of the first frame. -/
theorem Sound.map_current (h : s.Sound) (change : Frame → Frame) :
    s.numbers.map (fun id => if s.current = id then change (s.frame id) else s.frame id)
      = change (s.frame s.current) :: s.numbers.tail.map s.frame := by
  have fresh := h.current_notMem
  rw [numbers_eq, List.map_cons, if_pos rfl, List.tail_cons]
  refine congrArg _ (List.map_congr_left fun id mem => if_neg fun same => fresh ?_)
  rw [same]
  exact mem

/-- A read is recorded in the first frame that declares the name. -/
theorem readFrames_map {ids : List Nat} (nodup : ids.Nodup) (frame : Nat → Frame) (name : String) :
    readFrames name (ids.map frame) = ids.map fun id =>
      if (ids.find? fun id => (frame id).declares name) = some id then (frame id).markUsed name
      else frame id := by
  induction ids with
  | nil => rfl
  | cons id ids ih =>
      obtain ⟨fresh, nodup⟩ := List.nodup_cons.mp nodup
      rw [List.map_cons, readFrames_cons, List.find?_cons, List.map_cons]
      cases declared : (frame id).declares name with
      | true =>
          rw [if_pos rfl, if_pos rfl]
          refine congrArg _ (List.map_congr_left fun j mem => (if_neg fun same => fresh ?_).symm)
          rw [Option.some.inj same]
          exact mem
      | false =>
          rw [if_neg Bool.false_ne_true, ih nodup, if_neg]
          exact fun found => fresh (List.mem_of_find?_eq_some found)

theorem frames_enter (h : s.Sound) : s.enter.frames = .empty :: s.frames := by
  rw [(enter_taken h).frames]
  exact congrArg (· :: s.frames) (frame_of_le (Nat.le_refl _))

theorem frames_leave (h : s.Sound) (taken : s.leave? = some t) :
    s.frames = s.frame s.current :: t.frames := by
  rw [(leave_taken h taken).frames]
  exact s.frames_eq

theorem frames_declare (h : s.Sound) (e : Entry) :
    (s.declare e).frames = (s.frame s.current).declare e :: s.numbers.tail.map s.frame :=
  (declare_taken h e .nowhere).frames.trans (h.map_current (·.declare e))

theorem frames_complete (h : s.Sound) (e : Entry) :
    (s.complete e).frames = (s.frame s.current).complete e :: s.numbers.tail.map s.frame :=
  (complete_taken h e).frames.trans (h.map_current (·.complete e))

theorem frames_read (h : s.Sound) (name : String) :
    (s.read name).frames = readFrames name s.frames :=
  (read_taken h name).frames.trans (readFrames_map h.nodup s.frame name).symm

end OpenTables

/-! ### Checks -/

/-- A step as a check takes it. -/
def ScopeStep.check : ScopeStep → Check Unit
  | .enter => Check.enterScope
  | .leave => Check.leaveScope
  | .declare e place => Check.declare e place
  | .complete e => modify fun c => { c with scopes := c.scopes.complete e }
  | .read name => discard (Check.readName name)

theorem Scopes.frames_define (s : Scopes) (e : Entry) :
    (match s.define e with
      | .ok t => t.frames
      | .error _ => s.frames) = s.current.declare e :: s.outer := by
  unfold define Frame.declare
  cases s.current.define e with
  | error old => exact s.frames_eq
  | ok f =>
      dsimp only
      rw [frames_eq, current_modifyCurrent, outer_modifyCurrent]

namespace OpenTables

variable {s t : OpenTables} {step : ScopeStep} {c : Checker}

/-- Open tables whose frames are the stack of a check stay so. -/
theorem step_frames (h : s.Sound) (taken : s.step? step = some t)
    (same : s.frames = c.scopes.frames) : t.frames = (step.check.run c).2.scopes.frames := by
  have both := same
  rw [frames_eq, Scopes.frames_eq] at both
  obtain ⟨current, outer⟩ := List.cons.inj both
  cases step with
  | enter =>
      cases taken
      rw [frames_enter h, same]
      rfl
  | leave =>
      rw [frames_leave h taken] at same
      have inside : 1 < c.scopes.frames.length := by
        rw [← same, frames, numbers_eq]
        exact Nat.succ_lt_succ (Nat.succ_pos _)
      obtain ⟨scopes, left⟩ := Scopes.leave?_isSome inside
      have rest := Scopes.frames_leave left
      rw [← same] at rest
      rw [(List.cons.inj rest).2]
      change _ = (Check.leaveScope.run c).2.scopes.frames
      rw [Check.leaveScope, Check.run_get_bind, left]
      rfl
  | declare e place =>
      cases taken
      rw [frames_declare h, current, outer, ← Scopes.frames_define]
      change _ = ((Check.declare e place).run c).2.scopes.frames
      rw [Check.declare, Check.run_get_bind]
      cases c.scopes.define e <;> rfl
  | complete e =>
      cases taken
      rw [frames_complete h, current, outer, ← Scopes.frames_complete]
      rfl
  | read name =>
      cases taken
      rw [frames_read h, same, ← Scopes.frames_markUsed]
      rfl

end OpenTables
end ScriptFront
