import ScriptFront.Proofs.MemberLookup
import ScriptFront.Tree.Places

/-!
Checks in twin scopes. Two stacks of frames are twins if some innermost frames are the same in both,
and around these every name stands for the same. A check that opens and leaves its scopes in pairs
does the same in both: it yields the same value, reports the same findings, all of them at places
of what is checked, and leaves the frames around as they were. Which names it reads is left open.
-/

namespace ScriptFront

/-! ### Twin frames -/

/-- Frames in which every name stands for the same. The number of entries bounds walks upwards. -/
structure FramesAlike (fs gs : List Frame) : Prop where
  find : ∀ name, fs.findSome? (·.find? name) = gs.findSome? (·.find? name)
  count : (fs.flatMap (·.entries)).length = (gs.flatMap (·.entries)).length

/-- Frames of which the first so many are the same, and the others alike. -/
inductive FramesTwin : Nat → List Frame → List Frame → Prop
  | outer {fs gs} : fs ≠ [] → gs ≠ [] → FramesAlike fs gs → FramesTwin 0 fs gs
  | inner {n fs gs} (f : Frame) : FramesTwin n fs gs → FramesTwin (n + 1) (f :: fs) (f :: gs)

variable {n : Nat} {fs gs hs : List Frame} {name : String} {Q : Finding → Prop}

theorem findSome?_find?_entries (fs : List Frame) (name : String) :
    fs.findSome? (·.find? name)
      = (fs.map Frame.entries).findSome? (·.find? (·.name == name)) := by
  rw [List.findSome?_map]
  rfl

theorem FramesAlike.of_entries (h : fs.map Frame.entries = gs.map Frame.entries) :
    FramesAlike fs gs where
  find name := by rw [findSome?_find?_entries, h, ← findSome?_find?_entries]
  count := by rw [List.flatMap_def, h, ← List.flatMap_def]

theorem FramesAlike.symm (h : FramesAlike fs gs) : FramesAlike gs fs :=
  ⟨fun name => (h.find name).symm, h.count.symm⟩

theorem FramesAlike.trans (h : FramesAlike fs gs) (h' : FramesAlike gs hs) : FramesAlike fs hs :=
  ⟨fun name => (h.find name).trans (h'.find name), h.count.trans h'.count⟩

theorem FramesTwin.length_lt (h : FramesTwin n fs gs) : n < fs.length := by
  induction h with
  | outer some _ _ => exact List.length_pos_of_ne_nil some
  | inner _ _ ih => exact Nat.succ_lt_succ ih

theorem FramesTwin.symm (h : FramesTwin n fs gs) : FramesTwin n gs fs := by
  induction h with
  | outer some some' alike => exact .outer some' some alike.symm
  | inner f _ ih => exact .inner f ih

theorem FramesTwin.alike (h : FramesTwin n fs gs) : FramesAlike fs gs := by
  induction h with
  | outer _ _ alike => exact alike
  | inner f _ ih =>
      refine ⟨fun name => ?_, ?_⟩
      · rw [List.findSome?_cons, List.findSome?_cons, ih.find]
      · rw [List.flatMap_cons, List.flatMap_cons, List.length_append, List.length_append, ih.count]

/-! ### Reads -/

/-- Frames after a read of a name. -/
def readFrames (name : String) (fs : List Frame) : List Frame :=
  (Scopes.markFrames name fs).getD fs

theorem readFrames_cons (f : Frame) (fs : List Frame) :
    readFrames name (f :: fs) =
      if f.declares name then f.markUsed name :: fs else f :: readFrames name fs := by
  unfold readFrames
  rw [Scopes.markFrames]
  split
  · rfl
  · cases Scopes.markFrames name fs <;> rfl

theorem entries_markUsed (f : Frame) (name : String) : (f.markUsed name).entries = f.entries := by
  unfold Frame.markUsed
  split <;> rfl

theorem entries_readFrames (fs : List Frame) (name : String) :
    (readFrames name fs).map Frame.entries = fs.map Frame.entries := by
  induction fs with
  | nil => rfl
  | cons f fs ih =>
      rw [readFrames_cons]
      split
      · rw [List.map_cons, List.map_cons, entries_markUsed]
      · rw [List.map_cons, List.map_cons, ih]

theorem FramesTwin.read (h : FramesTwin n fs gs) (name : String) :
    FramesTwin n (readFrames name fs) (readFrames name gs) := by
  induction h with
  | @outer fs gs some some' alike =>
      have kept (hs : List Frame) : FramesAlike (readFrames name hs) hs :=
        .of_entries (entries_readFrames hs name)
      have nonempty {hs : List Frame} (h : hs ≠ []) : readFrames name hs ≠ [] := by
        intro none
        have same := entries_readFrames hs name
        rw [none, List.map_nil, eq_comm, List.map_eq_nil_iff] at same
        exact h same
      exact .outer (nonempty some) (nonempty some') (((kept fs).trans alike).trans (kept gs).symm)
  | inner f twin ih =>
      rw [readFrames_cons, readFrames_cons]
      split
      · exact .inner _ twin
      · exact .inner f ih

namespace Scopes

theorem frames_markUsed (s : Scopes) (name : String) :
    (s.markUsed name).frames = readFrames name s.frames := by
  have split (inner : List Frame) (global : Frame) :
      markFrames name (inner ++ [global]) = ((markFrames name inner).map (· ++ [global])).or
        (if global.declares name then some (inner ++ [global.markUsed name]) else none) := by
    induction inner with
    | nil =>
        rw [List.nil_append, markFrames, markFrames]
        split <;> rfl
    | cons f inner ih =>
        rw [List.cons_append, markFrames, ih, markFrames]
        split
        · rfl
        · cases markFrames name inner with
          | some marked => rfl
          | none =>
              cases global.declares name <;> simp
  obtain ⟨inner, global⟩ := s
  rw [frames, readFrames, frames, split]
  unfold markUsed
  cases markFrames name inner with
  | some marked => rfl
  | none =>
      cases global.declares name <;> simp

theorem frames_ne_nil (s : Scopes) : s.frames ≠ [] := by
  rw [frames_eq]
  exact List.cons_ne_nil _ _

theorem frames_leave {s t : Scopes} (h : s.leave? = some t) : s.frames = s.current :: t.frames := by
  unfold leave? at h
  split at h
  · cases h
  · next inner =>
      cases h
      rw [frames, frames, current, inner]
      rfl

theorem leave?_isSome {s : Scopes} (h : 1 < s.frames.length) : ∃ t, s.leave? = some t := by
  obtain ⟨inner, global⟩ := s
  cases inner with
  | nil => exact absurd h (Nat.lt_irrefl 1)
  | cons f inner => exact ⟨_, rfl⟩

theorem frames_complete (s : Scopes) (e : Entry) :
    (s.complete e).frames = s.current.complete e :: s.outer := by
  rw [frames_eq, current_complete, complete, outer_modifyCurrent]

/-- Whether an entry can be defined is up to the innermost frame. -/
theorem define_congr {s t : Scopes} (same : s.current = t.current) (e : Entry) :
    (∃ existing, s.define e = .error existing ∧ t.define e = .error existing) ∨
      ∃ f s' t', s.current.define e = .ok f ∧ s.define e = .ok s' ∧ t.define e = .ok t' ∧
        s'.frames = f :: s.outer ∧ t'.frames = f :: t.outer := by
  unfold define
  rw [← same]
  cases s.current.define e with
  | error existing => exact .inl ⟨existing, rfl, rfl⟩
  | ok f =>
      refine .inr ⟨f, _, _, rfl, rfl, rfl, ?_, ?_⟩ <;>
        rw [frames_eq, current_modifyCurrent, outer_modifyCurrent]

theorem memberFrom_congr {s t : Scopes} (same : s.lookup = t.lookup) (member : String)
    (steps : Nat) : s.memberFrom member steps = t.memberFrom member steps := by
  induction steps with
  | zero => rfl
  | succ steps ih =>
      funext visited className
      rw [memberFrom, memberFrom, same, ih]

/-- Members are found alike where every name stands for the same. -/
theorem classMember_congr {s t : Scopes} (alike : FramesAlike s.frames t.frames)
    (className member : String) : s.classMember className member = t.classMember className member := by
  have size : s.size = t.size := by rw [size_eq, size_eq, entries, entries, alike.count]
  rw [classMember, classMember, size]
  rw [memberFrom_congr (funext alike.find)]

end Scopes

/-! ### Twin states -/

/-- All findings at a place have a property; that the global scope was left is none of them. -/
def AllAt (Q : Finding → Prop) (place : Location) : Prop :=
  ∀ f : Finding, f.location = place → f.kind ≠ .malformed → Q f

/-- If reads of an entry are recorded, the warning that there were none has a property. -/
def Entry.Within (Q : Finding → Prop) (e : Entry) : Prop :=
  e.isTracked = true → ∀ w, Check.unusedWarning? e = some w → Q (.warning w.1 w.2)

theorem Entry.within_of_place {e : Entry}
    (h : e.isTracked = true → AllAt Q (e.location.getD .nowhere)) : e.Within Q := by
  intro tracked w warning
  refine h tracked _ ?_ (by cases w.1 <;> simp [Finding.kind, Warning.kind])
  unfold Check.unusedWarning? at warning
  split at warning
  · cases warning
  · dsimp only at warning
    split at warning <;> cases warning <;> rfl

/-- The entries of the first so many frames. -/
def FramesWithin (Q : Finding → Prop) (n : Nat) (fs : List Frame) : Prop :=
  ∀ es ∈ (fs.map Frame.entries).take n, ∀ e ∈ es, e.Within Q

/-- States that differ only around the first so many frames, and in what was found before. -/
structure Checker.Twin (n : Nat) (c d : Checker) : Prop where
  frames : FramesTwin n c.scopes.frames d.scopes.frames
  classes : c.classes = d.classes
  inConstructor : c.inConstructor = d.inConstructor
  imported : c.imported = d.imported

/--
A later state has the entries of an earlier one around the first `j` frames, of which there were
`i` in the earlier one.
-/
structure Checker.Keeps (i j : Nat) (c d : Checker) : Prop where
  entries :
    (d.scopes.frames.map Frame.entries).drop j = (c.scopes.frames.map Frame.entries).drop i
  classes : d.classes = c.classes
  inConstructor : c.inConstructor = false → d.inConstructor = false
  imported : d.imported = c.imported

theorem FramesWithin.of_entries (h : FramesWithin Q n fs)
    (same : gs.map Frame.entries = fs.map Frame.entries) : FramesWithin Q n gs := by
  unfold FramesWithin
  rwa [same]

theorem framesWithin_cons (f : Frame) (fs : List Frame) :
    FramesWithin Q (n + 1) (f :: fs) ↔ (∀ e ∈ f.entries, e.Within Q) ∧ FramesWithin Q n fs := by
  unfold FramesWithin
  rw [List.map_cons, List.take_succ_cons, List.forall_mem_cons]

theorem framesWithin_zero (Q : Finding → Prop) (fs : List Frame) : FramesWithin Q 0 fs := nofun

namespace Checker

variable {c d e : Checker} {i j k : Nat}

/-- Without frames in common, what names stand for is all that counts. -/
theorem Twin.self (c : Checker) : c.Twin 0 c :=
  ⟨.outer c.scopes.frames_ne_nil c.scopes.frames_ne_nil ⟨fun _ => rfl, rfl⟩, rfl, rfl, rfl⟩

theorem Twin.lookup (h : c.Twin n d) : c.scopes.lookup = d.scopes.lookup :=
  funext h.frames.alike.find

/-- Inside of twin scopes the innermost frames are the same. -/
theorem Twin.current (h : c.Twin (n + 1) d) :
    c.scopes.current = d.scopes.current ∧ FramesTwin n c.scopes.outer d.scopes.outer := by
  have frames := h.frames
  rw [Scopes.frames_eq, Scopes.frames_eq] at frames
  generalize c.scopes.current = f at frames
  generalize d.scopes.current = g at frames
  cases frames with
  | inner _ rest => exact ⟨rfl, rest⟩

theorem Keeps.refl (c : Checker) : c.Keeps i i c := ⟨rfl, rfl, id, rfl⟩

theorem Keeps.trans (h : c.Keeps i j d) (h' : d.Keeps j k e) : c.Keeps i k e where
  entries := h'.entries.trans h.entries
  classes := h'.classes.trans h.classes
  inConstructor out := h'.inConstructor (h.inConstructor out)
  imported := h'.imported.trans h.imported

end Checker

/-! ### Balanced checks -/

namespace Check

variable {α β : Type} {i j k : Nat}

/--
A check that ran in two twin states yields one value, ends in twin states, leaves the frames around
as they were, and adds the same findings, which have a property.
-/
structure InStep (Q : Finding → Prop) (i j : Nat) (c d : Checker) (r r' : α × Checker) : Prop where
  value : r.1 = r'.1
  twin : r.2.Twin j r'.2
  within : FramesWithin Q j r.2.scopes.frames
  keeps : c.Keeps i j r.2
  found : ∃ found, r.2.findings = c.findings ++ found ∧ r'.2.findings = d.findings ++ found ∧
    ∀ f ∈ found, Q f

/-- A check that goes from `i` to `j` local frames does the same in twin states. -/
def Balanced (Q : Finding → Prop) (i j : Nat) (m : Check α) : Prop :=
  ∀ c d, c.Twin i d → FramesWithin Q i c.scopes.frames → InStep Q i j c d (m.run c) (m.run d)

/-- A balanced check goes on where two runs are in step. -/
theorem InStep.next {c d c' d' : Checker} {a a' : α} (h : InStep Q i j c d (a, c') (a', d'))
    {m : Check β} (hm : Balanced Q j k m) : InStep Q i k c d (m.run c') (m.run d') := by
  obtain ⟨-, twin, within, keeps, found, first, first', at_⟩ := h
  obtain ⟨value, twin', within', keeps', more, second, second', at_'⟩ := hm _ _ twin within
  refine ⟨value, twin', within', keeps.trans keeps', found ++ more, ?_, ?_, ?_⟩
  · rw [second, first, List.append_assoc]
  · rw [second', first', List.append_assoc]
  · exact List.forall_mem_append.mpr ⟨at_, at_'⟩

theorem Balanced.bind {m : Check α} {f : α → Check β} (hm : Balanced Q i j m)
    (hf : ∀ a, Balanced Q j k (f a)) : Balanced Q i k (m >>= f) := by
  intro c d twin within
  have step := hm c d twin within
  rw [StateT.run_bind, StateT.run_bind]
  change InStep Q i k c d ((f (m.run c).1).run (m.run c).2) ((f (m.run d).1).run (m.run d).2)
  rw [← step.value]
  exact step.next (hf _)

/-- A check that changes nothing and reads the same in twin states. -/
theorem balanced_of_same {m : Check α} (state : ∀ c, (m.run c).2 = c)
    (value : ∀ c d, c.Twin i d → (m.run c).1 = (m.run d).1) : Balanced Q i i m := by
  intro c d twin within
  have out := value c d twin
  revert out
  generalize hr : m.run c = r
  generalize hr' : m.run d = r'
  obtain rfl : r.2 = c := hr ▸ state c
  obtain rfl : r'.2 = d := hr' ▸ state d
  intro out
  exact ⟨out, twin, within, .refl _, [], (List.append_nil _).symm, (List.append_nil _).symm, nofun⟩

theorem balanced_pure (a : α) : Balanced Q i i (pure a : Check α) :=
  balanced_of_same (fun _ => rfl) fun _ _ _ => rfl

theorem Balanced.map {m : Check α} (hm : Balanced Q i j m) (f : α → β) :
    Balanced Q i j (f <$> m) := hm.bind fun _ => balanced_pure _

/-- A check that starts with a look at something which is the same in twin states. -/
theorem balanced_get_bind {f : Checker → Check α} (g : β → Check α) (look : Checker → β)
    (same : ∀ c d, c.Twin i d → look c = look d) (hf : ∀ c, f c = g (look c))
    (hg : ∀ b, Balanced Q i j (g b)) : Balanced Q i j (get >>= f) := by
  obtain rfl : f = fun c => g (look c) := funext hf
  intro c d twin within
  have step := hg (look c) c d twin within
  rw [run_get_bind, run_get_bind, ← same c d twin]
  exact step

theorem balanced_forM {l : List α} {f : α → Check Unit} (h : ∀ a ∈ l, Balanced Q i i (f a)) :
    Balanced Q i i (l.forM f) := by
  induction l with
  | nil => exact balanced_pure _
  | cons a l ih =>
      obtain ⟨here, below⟩ := List.forall_mem_cons.mp h
      exact here.bind fun _ => ih below

/-! ### Single steps -/

/-- A check that reports a finding. -/
theorem balanced_report {f : Finding} (h : Q f) :
    Balanced Q i i (modify fun c => { c with findings := c.findings ++ [f] } : Check Unit) :=
  fun _ _ twin within =>
    ⟨rfl, ⟨twin.frames, twin.classes, twin.inConstructor, twin.imported⟩, within,
      ⟨rfl, rfl, id, rfl⟩, [f], rfl, rfl, List.forall_mem_singleton.mpr h⟩

theorem error_balanced {fault : SemanticFault} {place : Location} (h : AllAt Q place)
    (h' : fault.kind ≠ .malformed) : Balanced Q i i (error fault place) :=
  balanced_report (h _ rfl h')

theorem warn_balanced (w : Warning) {place : Location} (h : AllAt Q place) :
    Balanced Q i i (warn w place) :=
  balanced_report (h _ rfl (by cases w <;> simp [Finding.kind, Warning.kind]))

theorem meaning_balanced : Balanced Q i i meaning :=
  balanced_of_same (fun _ => rfl) fun _ _ twin => twin.lookup

theorem lookup_balanced (name : String) : Balanced Q i i (lookup name) :=
  balanced_of_same (fun _ => rfl) fun _ _ twin => congrFun twin.lookup name

theorem markUsed_balanced (name : String) :
    Balanced Q i i (modify fun c => { c with scopes := c.scopes.markUsed name } : Check Unit) := by
  intro c d twin within
  have entries : (c.scopes.markUsed name).frames.map Frame.entries
      = c.scopes.frames.map Frame.entries := by
    rw [Scopes.frames_markUsed, entries_readFrames]
  have frames : FramesTwin i (c.scopes.markUsed name).frames (d.scopes.markUsed name).frames := by
    rw [Scopes.frames_markUsed, Scopes.frames_markUsed]
    exact twin.frames.read name
  exact ⟨rfl, ⟨frames, twin.classes, twin.inConstructor, twin.imported⟩,
    within.of_entries entries, ⟨congrArg (·.drop i) entries, rfl, id, rfl⟩,
    [], (List.append_nil _).symm, (List.append_nil _).symm, nofun⟩

theorem readName_balanced (name : String) : Balanced Q i i (readName name) :=
  (lookup_balanced name).bind fun _ => (markUsed_balanced name).bind fun _ => balanced_pure _

theorem resolveName_balanced (name : String) {place : Location} (h : AllAt Q place) :
    Balanced Q i i (resolveName name place) := by
  refine (readName_balanced name).bind fun entry => ?_
  split
  · exact (error_balanced h (by simp [SemanticFault.kind])).bind fun _ => balanced_pure _
  · exact balanced_pure _

/-- In twin states a name is free in the innermost frame in both, or taken in both. -/
theorem define_inStep {c d : Checker} {e : Entry} (he : e.Within Q) (twin : c.Twin (i + 1) d)
    (within : FramesWithin Q (i + 1) c.scopes.frames) :
    (∃ existing, c.scopes.define e = .error existing ∧ d.scopes.define e = .error existing) ∨
      ∃ s t, c.scopes.define e = .ok s ∧ d.scopes.define e = .ok t ∧
        InStep Q (i + 1) (i + 1) c d ((), { c with scopes := s }) ((), { d with scopes := t }) := by
  obtain ⟨current, outer⟩ := twin.current
  obtain taken | ⟨f, s, t, new, free, free', fs, ft⟩ := Scopes.define_congr current e
  · exact .inl taken
  · have entries : f.entries = c.scopes.current.entries ++ [e] := by
      unfold Frame.define at new
      split at new
      · cases new
      · rw [← Except.ok.inj new]
    rw [Scopes.frames_eq, framesWithin_cons] at within
    refine .inr ⟨s, t, free, free', rfl, ⟨?_, twin.classes, twin.inConstructor, twin.imported⟩, ?_,
      ⟨?_, rfl, id, rfl⟩, [], (List.append_nil _).symm, (List.append_nil _).symm,
      List.forall_mem_nil _⟩
    · change FramesTwin (i + 1) s.frames t.frames
      rw [fs, ft]
      exact .inner f outer
    · change FramesWithin Q (i + 1) s.frames
      rw [fs, framesWithin_cons, entries]
      exact ⟨List.forall_mem_append.mpr ⟨within.1, List.forall_mem_singleton.mpr he⟩, within.2⟩
    · change (s.frames.map Frame.entries).drop (i + 1) = _
      rw [fs, Scopes.frames_eq c.scopes]
      rfl

theorem declare_balanced {e : Entry} {place : Location} (h : AllAt Q place) (he : e.Within Q) :
    Balanced Q (i + 1) (i + 1) (declare e place) := by
  intro c d twin within
  unfold declare
  rw [run_get_bind, run_get_bind]
  obtain ⟨existing, taken, taken'⟩ | ⟨s, t, free, free', step⟩ := define_inStep he twin within
  · simp only [taken, taken']
    exact error_balanced h (by simp [SemanticFault.kind]) c d twin within
  · simp only [free, free']
    exact step

theorem declareGenerics_balanced {generics : List Ident}
    (h : ∀ g ∈ generics, AllAt Q g.location) :
    Balanced Q (i + 1) (i + 1) (declareGenerics generics) :=
  balanced_forM fun g mem => declare_balanced (h g mem) nofun

theorem enterScope_balanced : Balanced Q i (i + 1) enterScope := by
  intro c d twin within
  refine ⟨rfl, ⟨.inner .empty twin.frames, twin.classes, twin.inConstructor, twin.imported⟩, ?_,
    ⟨rfl, rfl, id, rfl⟩, [], (List.append_nil _).symm, (List.append_nil _).symm, nofun⟩
  exact (framesWithin_cons _ _).mpr ⟨nofun, within⟩

theorem leaveScope_balanced : Balanced Q (i + 1) i leaveScope := by
  intro c d twin within
  have deep (n : Nat) (h : i + 1 < n) : 1 < n := Nat.lt_of_le_of_lt (Nat.le_add_left 1 i) h
  obtain ⟨s, left⟩ := Scopes.leave?_isSome (deep _ twin.frames.length_lt)
  obtain ⟨t, left'⟩ := Scopes.leave?_isSome (deep _ twin.frames.symm.length_lt)
  have fs := Scopes.frames_leave left
  have ft := Scopes.frames_leave left'
  have frames := twin.frames
  rw [fs, ft] at frames
  rw [fs, framesWithin_cons] at within
  unfold leaveScope
  rw [run_get_bind, run_get_bind]
  simp only [left, left']
  refine ⟨rfl, ⟨?_, twin.classes, twin.inConstructor, twin.imported⟩, within.2, ⟨?_, rfl, id, rfl⟩,
    [], (List.append_nil _).symm, (List.append_nil _).symm, nofun⟩
  · change FramesTwin i s.frames t.frames
    generalize c.scopes.current = f at frames
    generalize d.scopes.current = g at frames
    cases frames with
    | inner _ rest => exact rest
  · change (s.frames.map Frame.entries).drop i = _
    rw [fs]
    rfl

theorem leaveLocalScope_balanced : Balanced Q (i + 1) i leaveLocalScope := by
  intro c d twin within
  have unread : ∀ w ∈ c.scopes.current.unused.filterMap unusedWarning?, Q (.warning w.1 w.2) := by
    intro w mem
    rw [Scopes.frames_eq, framesWithin_cons] at within
    obtain ⟨e, unread, warning⟩ := List.mem_filterMap.mp mem
    obtain ⟨inside, tracked⟩ := List.mem_filter.mp unread
    exact within.1 e inside (Bool.and_eq_true_iff.mp tracked).1 w warning
  have warned : Balanced Q (i + 1) (i + 1) ((c.scopes.current.unused.filterMap
      unusedWarning?).forM fun w => warn w.1 w.2) :=
    balanced_forM fun w mem => balanced_report (unread w mem)
  have step := (warned.bind fun _ => leaveScope_balanced) c d twin within
  unfold leaveLocalScope
  rw [run_get_bind, run_get_bind, ← twin.current.1]
  exact step

end Check
end ScriptFront
