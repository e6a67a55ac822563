import Mathlib.Data.List.Infix
import ScriptFront.Proofs.ScopeSteps

/-!
Runs through scopes of any length. As long as no scope is left that was not entered, a run of the
tables goes on, and the frames of the open tables are the stack that a check has after the same
steps. So a name stands for the entry of the innermost frame that declares it, its reads are
recorded in that frame, a scope leaves nothing behind but reads, and the entries that a frame has as
unused are those that were never read while it was the innermost one to declare them.
-/

namespace ScriptFront

open ScopeStep

namespace OpenTables

variable {s t u : OpenTables} {steps : List ScopeStep} {step : ScopeStep} {id : Nat}

/-! ### Runs -/

theorem run?_cons (s : OpenTables) (step : ScopeStep) (steps : List ScopeStep) :
    s.run? (step :: steps) = (s.step? step).bind (·.run? steps) := rfl

theorem run?_append (s : OpenTables) (steps more : List ScopeStep) :
    s.run? (steps ++ more) = (s.run? steps).bind (·.run? more) := List.foldlM_append

theorem run?_concat (s : OpenTables) (steps : List ScopeStep) (step : ScopeStep) :
    s.run? (steps ++ [step]) = (s.run? steps).bind (·.step? step) := by
  rw [run?_append]
  refine congrArg _ (funext fun t => ?_)
  exact Option.bind_fun_some _

theorem along_concat {β : Type} {worth : OpenTables → ScopeStep → List β}
    (run : s.run? steps = some t) (step : ScopeStep) :
    along worth s (steps ++ [step]) = along worth s steps ++ worth t step := by
  induction steps generalizing s with
  | nil =>
      cases run
      rw [List.nil_append, along, along, List.nil_append]
      cases t.step? step with
      | none => exact List.append_nil _
      | some u => exact List.append_nil _
  | cons first steps ih =>
      obtain ⟨u, taken, rest⟩ := Option.bind_eq_some_iff.mp run
      rw [List.cons_append, along, along, taken, List.append_assoc]
      exact congrArg _ (ih rest)

theorem Sound.run (h : s.Sound) (run : s.run? steps = some t) : t.Sound := by
  induction steps generalizing s with
  | nil =>
      cases run
      exact h
  | cons step steps ih =>
      obtain ⟨u, taken, rest⟩ := Option.bind_eq_some_iff.mp run
      exact ih (taken_of_step? h taken).sound rest

/-- The frames of the open tables are the stack that a check has after the same steps. -/
theorem Sound.run_frames (h : s.Sound) (run : s.run? steps = some t) {c : Checker}
    (same : s.frames = c.scopes.frames) :
    t.frames = ((steps.forM ScopeStep.check).run c).2.scopes.frames := by
  induction steps generalizing s c with
  | nil =>
      cases run
      exact same
  | cons step steps ih =>
      obtain ⟨u, taken, rest⟩ := Option.bind_eq_some_iff.mp run
      exact ih (taken_of_step? h taken).sound rest (step_frames h taken same)

/-- As many tables are open as were entered and not left. -/
theorem Sound.run_length (h : s.Sound) (run : s.run? steps = some t) :
    t.numbers.length + steps.countP isLeave = s.numbers.length + steps.countP isEnter := by
  induction steps generalizing s with
  | nil =>
      cases run
      rfl
  | cons step steps ih =>
      obtain ⟨u, taken, rest⟩ := Option.bind_eq_some_iff.mp run
      have effect := taken_of_step? h taken
      have length := ih effect.sound rest
      have numbers := congrArg List.length effect.numbers
      rw [List.countP_cons, List.countP_cons]
      cases step with
      | leave =>
          have split := congrArg List.length s.numbers_eq
          simp only [numbersAfter, List.length_cons, isEnter, isLeave] at split numbers ⊢
          simp only [if_true, Bool.false_eq_true, if_false]
          omega
      | _ =>
          simp only [numbersAfter, List.length_cons, isEnter, isLeave] at numbers ⊢
          simp only [if_true, Bool.false_eq_true, if_false]
          omega

theorem leave?_isSome (h : 1 < s.numbers.length) : ∃ t, s.leave? = some t := by
  obtain ⟨tables, inner⟩ := s
  cases inner with
  | nil => exact absurd h (Nat.lt_irrefl 1)
  | cons id inner => exact ⟨_, rfl⟩

end OpenTables

/-! ### Confined runs -/

namespace ScopeStep

variable {steps : List ScopeStep} {step : ScopeStep}

theorem Confined.of_concat (h : Confined (steps ++ [step])) : Confined steps :=
  fun before start => h before (start.trans (List.prefix_append _ _))

theorem Confined.count_le (h : Confined steps) : steps.countP isLeave ≤ steps.countP isEnter :=
  h steps (List.prefix_refl _)

instance (steps : List ScopeStep) : Decidable (Confined steps) :=
  decidable_of_iff (∀ before ∈ steps.inits, before.countP isLeave ≤ before.countP isEnter)
    (forall_congr' fun _ => imp_congr_left (List.mem_inits _ _))

end ScopeStep

namespace OpenTables

variable {s t u : OpenTables} {steps mid : List ScopeStep} {step : ScopeStep} {id : Nat}
  {own : List Nat}

theorem run?_of_confined (h : s.Sound) (confined : Confined steps) :
    ∃ t, s.run? steps = some t := by
  induction steps using List.reverseRecOn with
  | nil => exact ⟨s, rfl⟩
  | append_singleton steps step ih =>
      obtain ⟨t, run⟩ := ih confined.of_concat
      rw [run?_concat, run]
      cases step with
      | leave =>
          have length := h.run_length run
          have bound := confined.count_le
          simp only [List.countP_append, List.countP_singleton, isLeave, isEnter] at bound
          have here := congrArg List.length s.numbers_eq
          rw [List.length_cons] at here
          simp only [if_true, Bool.false_eq_true, if_false] at bound
          exact leave?_isSome (by omega)
      | _ => exact ⟨_, rfl⟩

/-- Of tables around the innermost one a step leaves the entries as they were. -/
theorem entries_frameAfter (s : OpenTables) (step : ScopeStep) (other : s.current ≠ id) :
    (s.frameAfter id step).entries = (s.frame id).entries := by
  cases step with
  | enter | leave => rfl
  | declare e place | complete e => rw [frameAfter, if_neg other]
  | read name =>
      rw [frameAfter]
      split
      · exact entries_markUsed _ _
      · rfl

/-- A state in which the tables of another one are still open, with the same entries. -/
structure Inside (s : OpenTables) (own : List Nat) (t : OpenTables) : Prop where
  sound : t.Sound
  numbers : t.numbers = own ++ s.numbers
  entries : ∀ id ∈ s.numbers, (t.frame id).entries = (s.frame id).entries

theorem Inside.next (h : s.Inside own t) (inside : own ≠ []) (taken : t.step? step = some u) :
    ∃ own, s.Inside own u := by
  have effect := taken_of_step? h.sound taken
  -- declarations and completions are made in a table further inside
  have first : t.current ∉ s.numbers := by
    have fresh := h.sound.current_notMem
    obtain ⟨id, own, rfl⟩ := List.exists_cons_of_ne_nil inside
    rw [h.numbers] at fresh
    exact fun mem => fresh (List.mem_append_right _ mem)
  have still : ∃ own, u.numbers = own ++ s.numbers := by
    have numbers := effect.numbers
    cases step with
    | enter => exact ⟨_ :: own, by rw [numbers, numbersAfter, h.numbers]; rfl⟩
    | leave =>
        obtain ⟨id, own, rfl⟩ := List.exists_cons_of_ne_nil inside
        exact ⟨own, by rw [numbers, numbersAfter, h.numbers]; rfl⟩
    | declare _ _ | complete _ | read _ => exact ⟨own, numbers.trans h.numbers⟩
  obtain ⟨own, numbers⟩ := still
  refine ⟨own, effect.sound, numbers, fun id mem => ?_⟩
  have known : u.Known id := .inl (by rw [numbers]; exact List.mem_append_right _ mem)
  rw [effect.frame id known, entries_frameAfter t step fun same => first (same ▸ mem)]
  exact h.entries id mem

theorem inside_enter (h : s.Sound) : s.Inside [s.tables.slots.length] s.enter where
  sound := (enter_taken h).sound
  numbers := rfl
  entries id mem := by
    have known : s.enter.Known id := .inl (List.mem_cons_of_mem _ mem)
    rw [(enter_taken h).frame id known]
    rfl

/-- The tables around a scope are open, with the same entries, until the scope is left. -/
theorem inside_run (h : s.Sound) (confined : Confined mid) (run : s.enter.run? mid = some t) :
    ∃ own, own ≠ [] ∧ s.Inside own t := by
  induction mid using List.reverseRecOn generalizing t with
  | nil =>
      cases run
      exact ⟨_, List.cons_ne_nil _ _, inside_enter h⟩
  | append_singleton mid step ih =>
      have length := (enter_taken h).sound.run_length run
      rw [run?_concat] at run
      obtain ⟨u, before, taken⟩ := Option.bind_eq_some_iff.mp run
      obtain ⟨own, inside, within⟩ := ih confined.of_concat before
      obtain ⟨own', within'⟩ := within.next inside taken
      refine ⟨own', fun none => ?_, within'⟩
      -- as long as no more scopes are left than were entered inside, the scope itself is open
      have bound := confined.count_le
      have numbers : s.enter.numbers.length = s.numbers.length + 1 := rfl
      rw [within'.numbers, none, List.nil_append] at length
      omega

theorem lookup_congr (hs : s.Sound) (ht : t.Sound) (numbers : t.numbers = s.numbers)
    (entries : ∀ id ∈ s.numbers, (t.frame id).entries = (s.frame id).entries) :
    t.lookup = s.lookup := by
  funext name
  rw [hs.lookup_frames, ht.lookup_frames]
  refine (FramesAlike.of_entries ?_).find name
  rw [frames, frames, numbers, List.map_map, List.map_map]
  exact List.map_congr_left entries

/-- When a scope is left, everything around is as it was when it was entered, but for reads. -/
theorem leave_restores (h : s.Sound) (confined : Confined mid)
    (even : mid.countP isEnter = mid.countP isLeave) :
    ∃ t, s.run? (.enter :: mid ++ [.leave]) = some t ∧ t.numbers = s.numbers ∧
      (∀ id ∈ s.numbers, (t.frame id).entries = (s.frame id).entries) ∧ t.lookup = s.lookup := by
  have entered := (enter_taken h).sound
  obtain ⟨u, run⟩ := run?_of_confined entered confined
  obtain ⟨own, inside, within⟩ := inside_run h confined run
  have length := entered.run_length run
  have wider : s.enter.numbers.length = s.numbers.length + 1 := rfl
  rw [even, wider, within.numbers, List.length_append] at length
  obtain ⟨id, rfl⟩ : ∃ id, own = [id] := List.length_eq_one_iff.mp (by omega)
  obtain ⟨t, left⟩ := leave?_isSome (s := u) (by
    rw [within.numbers, s.numbers_eq]
    exact Nat.succ_lt_succ (Nat.succ_pos _))
  have effect := leave_taken within.sound left
  have numbers : t.numbers = s.numbers := by
    rw [effect.numbers, numbersAfter, within.numbers]
    rfl
  have taken : u.step? .leave = some t := left
  obtain ⟨own, within'⟩ := within.next inside taken
  refine ⟨t, ?_, numbers, within'.entries, lookup_congr h effect.sound numbers within'.entries⟩
  rw [run?_concat, run?_cons]
  change (s.enter.run? mid).bind _ = _
  rw [run]
  exact left

/-! ### Lookups -/

/-- A declaration gives a meaning to its own name, if that is free, and to no other. -/
theorem lookup_declare (h : s.Sound) (e : Entry) (name : String) :
    (s.declare e).lookup name =
      if e.name = name ∧ (s.frame s.current).declares name = false then some e
      else s.lookup name := by
  rw [(declare_taken h e .nowhere).sound.lookup_frames, h.lookup_frames, frames_declare h,
    frames_eq, List.findSome?_cons, List.findSome?_cons, Frame.find?_declare, Frame.declares]
  cases found : (s.frame s.current).find? name with
  | some old => simp
  | none => by_cases same : e.name = name <;> simp [same]

/-- A read is recorded in the frame that the meaning of the name is found in, and in no other. -/
theorem used_read (h : s.Sound) (name : String) (mem : id ∈ s.numbers) :
    ((s.read name).frame id).entries = (s.frame id).entries ∧
      ∀ n, n ∈ ((s.read name).frame id).used ↔
        n ∈ (s.frame id).used ∨ n = name ∧ s.owner? name = some id := by
  have effect := read_taken h name
  have known : (s.read name).Known id := .inl (by rwa [effect.numbers])
  rw [effect.frame id known, frameAfter]
  by_cases owner : s.owner? name = some id
  · rw [if_pos owner]
    refine ⟨entries_markUsed _ _, fun n => ?_⟩
    rw [Frame.mem_used_markUsed]
    simp only [owner, and_true]
  · rw [if_neg owner]
    refine ⟨rfl, fun n => ?_⟩
    simp only [owner, and_false, or_false]

/-! ### Records -/

/-- Only the first occurrence of each name counts. -/
theorem eraseDups_concat (names : List String) (name : String) :
    (names ++ [name]).eraseDups =
      if name ∈ names.eraseDups then names.eraseDups else names.eraseDups ++ [name] := by
  rw [List.eraseDups_append]
  by_cases mem : name ∈ names
  · rw [if_pos (List.mem_eraseDups.mpr mem)]
    simp [List.removeAll, mem]
  · rw [if_neg (mt List.mem_eraseDups.mp mem)]
    simp [List.removeAll, mem, List.eraseDups_cons]

/-- Frames with the names that were declared in them, and the reads that found them. -/
structure Recorded (steps : List ScopeStep) (s : OpenTables) : Prop where
  names : ∀ id, s.Known id →
    (s.frame id).entries.map Entry.name = (declaredIn id steps).eraseDups
  used : ∀ id, s.Known id → ∀ n, n ∈ (s.frame id).used ↔ n ∈ readIn id steps

theorem recorded_start : Recorded [] start := by
  have none {id : Nat} (known : start.Known id) : start.frame id = .empty := by
    rcases known with mem | beyond
    · rw [List.mem_singleton.mp mem]
      rfl
    · exact frame_of_le beyond
  refine ⟨fun id known => ?_, fun id known n => ?_⟩ <;> rw [none known]
  · rfl
  · rfl

theorem declaredIn_concat (run : start.run? steps = some s) (id : Nat) (step : ScopeStep) :
    declaredIn id (steps ++ [step]) = declaredIn id steps ++ match step with
      | .declare e _ => if s.current = id then [e.name] else []
      | _ => [] := along_concat run step

theorem readIn_concat (run : start.run? steps = some s) (id : Nat) (step : ScopeStep) :
    readIn id (steps ++ [step]) = readIn id steps ++ match step with
      | .read name => if s.owner? name = some id then [name] else []
      | _ => [] := along_concat run step

theorem Recorded.next (h : Recorded steps s) (run : start.run? steps = some s)
    (effect : s.Taken step t) : Recorded (steps ++ [step]) t where
  names id known := by
    have before := h.names id (effect.known id known)
    rw [effect.frame id known, declaredIn_concat run]
    cases step with
    | enter | leave =>
        rw [List.append_nil]
        exact before
    | declare e place =>
        rw [frameAfter]
        by_cases here : s.current = id
        · dsimp only
          rw [if_pos here, if_pos here, Frame.names_declare, eraseDups_concat, before]
        · dsimp only
          rw [if_neg here, if_neg here, List.append_nil, before]
    | complete e =>
        rw [frameAfter, List.append_nil, ← before]
        split
        · exact Frame.names_complete _ _
        · rfl
    | read name =>
        rw [frameAfter, List.append_nil, ← before]
        split
        · rw [entries_markUsed]
        · rfl
  used id known n := by
    have before := h.used id (effect.known id known) n
    rw [effect.frame id known, readIn_concat run, List.mem_append, ← before]
    cases step with
    | enter | leave => simp [frameAfter]
    | declare e place =>
        rw [frameAfter]
        split
        · simp [Frame.used_declare]
        · simp
    | complete e =>
        rw [frameAfter]
        split
        · simp [Frame.complete]
        · simp
    | read name =>
        rw [frameAfter]
        dsimp only
        split
        · rw [Frame.mem_used_markUsed, List.mem_singleton]
        · simp

theorem recorded_run (run : start.run? steps = some s) : Recorded steps s := by
  induction steps using List.reverseRecOn generalizing s with
  | nil =>
      cases run
      exact recorded_start
  | append_singleton steps step ih =>
      rw [run?_concat] at run
      obtain ⟨u, before, taken⟩ := Option.bind_eq_some_iff.mp run
      exact (ih before).next before (taken_of_step? (start_sound.run before) taken)

/-- Unused are the entries, among those that reads are recorded of, that no read has found. -/
theorem Recorded.unused (h : Recorded steps s) (mem : id ∈ s.numbers) :
    (s.frame id).unused = (s.frame id).entries.filter fun e =>
      e.isTracked && !(readIn id steps).contains e.name := by
  refine List.filter_congr fun e _ => ?_
  have same : (s.frame id).used.contains e.name = (readIn id steps).contains e.name := by
    rw [Bool.eq_iff_iff, List.contains_iff_mem, List.contains_iff_mem, h.used id (.inl mem)]
  rw [same]

/-! ### Tables and frames -/

/-- Open tables that were reached by some steps are a stack of frames. -/
structure RefinesFrames (steps : List ScopeStep) (s : OpenTables) : Prop where
  /-- They have the frames of a check that has taken the same steps, and names the meanings there. -/
  checked : ∀ c : Checker, c.scopes = ⟨[], .empty⟩ →
    s.frames = ((steps.forM ScopeStep.check).run c).2.scopes.frames ∧
    s.lookup = ((steps.forM ScopeStep.check).run c).2.scopes.lookup
  /-- A name stands for the entry in the innermost frame that declares it. -/
  lookup : ∀ name, s.lookup name = (s.owner? name).bind fun id => (s.frame id).find? name
  /-- A declaration changes what its own name stands for, unless the innermost frame declares it. -/
  declare : ∀ e name, (s.declare e).lookup name =
    if e.name = name ∧ (s.frame s.current).declares name = false then some e else s.lookup name
  /-- A read is recorded where the entry is found, and nowhere else. -/
  read : ∀ name, (s.read name).numbers = s.numbers ∧ ∀ id ∈ s.numbers,
    ((s.read name).frame id).entries = (s.frame id).entries ∧
    ∀ n, n ∈ ((s.read name).frame id).used ↔
      n ∈ (s.frame id).used ∨ n = name ∧ s.owner? name = some id
  /-- When a scope is left, the frames around have the entries that they had before. -/
  leave : ∀ mid, Confined mid → mid.countP isEnter = mid.countP isLeave →
    ∃ t, s.run? (.enter :: mid ++ [.leave]) = some t ∧ t.numbers = s.numbers ∧
      (∀ id ∈ s.numbers, (t.frame id).entries = (s.frame id).entries) ∧ t.lookup = s.lookup
  /-- Each frame has its names in the order of their declarations, and knows those never read. -/
  unused : ∀ id ∈ s.numbers,
    (s.frame id).entries.map Entry.name = (declaredIn id steps).eraseDups ∧
    (s.frame id).unused = (s.frame id).entries.filter fun e =>
      e.isTracked && !(readIn id steps).contains e.name

/-- Linked tables refine a stack of frames, over all runs that leave no scope but those entered. -/
theorem run_refines_frames (steps : List ScopeStep) (confined : Confined steps) :
    ∃ s, start.run? steps = some s ∧ RefinesFrames steps s := by
  obtain ⟨s, run⟩ := run?_of_confined start_sound confined
  have sound := start_sound.run run
  have recorded := recorded_run run
  refine ⟨s, run, {
    checked := fun c fresh => ?_
    lookup := sound.lookup_owner
    declare := lookup_declare sound
    read := fun name => ⟨(read_taken sound name).numbers, fun id mem => used_read sound name mem⟩
    leave := fun mid => leave_restores sound
    unused := fun id mem => ⟨recorded.names id (.inl mem), recorded.unused mem⟩ }⟩
  have frames : s.frames = ((steps.forM ScopeStep.check).run c).2.scopes.frames := by
    refine start_sound.run_frames run ?_
    rw [fresh]
    rfl
  refine ⟨frames, funext fun name => ?_⟩
  rw [sound.lookup_frames, frames]
  rfl

/-- Two variables in a scope, and reads of both where an inner scope shadows the second one. -/
def shadowing : List ScopeStep :=
  let variable_ (name : String) : ScopeStep :=
    .declare (.var ⟨name, .int, false, true, .empty, none⟩) .nowhere
  [.enter, variable_ "a", variable_ "b", .enter, variable_ "b", .read "a", .read "b",
    .read "missing", .leave]

/-- The shadowed variable stays unread. -/
theorem shadowed_variable_unused : Confined shadowing ∧ ∃ s, start.run? shadowing = some s ∧
    s.frames.map (fun f => f.unused.map Entry.name) = [["b"], []] := by
  have confined : Confined shadowing := by decide
  obtain ⟨s, run, refines⟩ := run_refines_frames shadowing confined
  refine ⟨confined, s, run, ?_⟩
  rw [(refines.checked ⟨⟨[], .empty⟩, [], false, [], []⟩ rfl).1]
  decide

end OpenTables
end ScriptFront
