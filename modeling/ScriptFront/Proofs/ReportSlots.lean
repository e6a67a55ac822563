import ScriptFront.Proofs.PropertyWrites
import ScriptFront.Proofs.UnreadNames

/-!
Slots for what can be reported. A slot is a kind of diagnostic at a place. Every node of a tree has
the slots for what a check can find wrong with the node itself, each of them once, and what is found
wrong below it has slots of its own. Which slots of a tree are the same is left open.
-/

namespace ScriptFront

/-- A kind of diagnostic at a place. -/
abbrev Slot := DiagnosticKind × Location

/-- The slot of a finding. -/
def Finding.slot (f : Finding) : Slot := (f.kind, f.location)

/-- The slot for a name that is taken. -/
def Ident.taken (i : Ident) : Slot := (.redeclaration, i.location)

/-- The slots for a name that can be taken, or else never read. -/
def Ident.slots (unread : DiagnosticKind) (i : Ident) : List Slot := [i.taken, (unread, i.location)]

/--
Whether a write can be refused for what the target is: a name, or a member of `this` or of what a
name stands for.
-/
def Expr.isGuarded (target : Expr) : Bool :=
  match target.form with
  | .identifier _ => true
  | .member object _ false => Check.isDirect object
  | _ => false

/-- The slot for a refused write. -/
def Expr.writeSlots (target : Expr) : List Slot :=
  if target.isGuarded then [(.invalidAssignment, target.location)] else []

/-- The slot for a value that does not fit. -/
def Expr.valueSlot (value : Expr) : Slot := (.type, value.location)

/-- The slots of an expression itself, which stands at a place. -/
def ExprForm.slots (place : Location) : ExprForm → List Slot
  | .identifier _ => [(.reference, place), (.functionNotFound, place)]
  | .this => [(.reference, place)]
  | .update _ _ operand => operand.writeSlots
  | .call .. => [(.argumentCountMismatch, place)]
  | .new className _ _ => [(.reference, className.location), (.argumentCountMismatch, place)]
  | _ => []

/-- The slots of a pattern itself. -/
def PatternForm.slots (place : Location) : PatternForm → List Slot
  | .identifier _ | .member _ => [(.reference, place)]
  | .binding name => (⟨name, place⟩ : Ident).slots .unusedDeclaration
  | _ => []

/-- The slots of a written type itself. -/
def TypeForm.slots (place : Location) : TypeForm → List Slot
  | .reference .. => [(.unknownType, place)]
  | _ => []

namespace StatementForm

/-- The slots for the name of a declaration that is made ahead of its block. -/
def aheadSlots : StatementForm → List Slot
  | .function d => [d.name.taken]
  | .classType d => [d.name.taken]
  | .structType d => [d.name.taken]
  | _ => []

/-- The slots of a statement itself, names that are declared ahead apart. -/
def slots : StatementForm → List Slot
  | .varGroup d =>
    d.init.toList.map Expr.valueSlot ++ d.names.flatMap (Ident.slots .unusedDeclaration)
  | .assignment target value => target.writeSlots ++ [value.valueSlot]
  | .expression e => [(.unusedExpression, e.location)]
  | .tryCatch _ handlers _ => handlers.flatMap (·.name.slots .unusedDeclaration)
  | .function d => d.signature.generics.map Ident.taken
  | .classType d =>
    d.generics.map Ident.taken ++ d.superclass.toList.map fun t => (.reference, t.location)
  | .structType d => d.generics.map Ident.taken
  | _ => []

end StatementForm

namespace MemberForm

/-- The slots for the name of a member, under which it is known in its class. -/
def nameSlots : MemberForm → List Slot
  | .method name _ _ => [name.taken]
  | .property d => d.name.slots .unusedDeclaration
  | _ => []

/-- The slots of a member itself, its name apart. -/
def slots : MemberForm → List Slot
  | .method _ signature _ | .operator _ _ signature _ => signature.generics.map Ident.taken
  | .property d => d.init.toList.map Expr.valueSlot
  | .constructor .. => []

end MemberForm

/-- The slots of a node itself. -/
def Node.slots : Node → List Slot
  | .statement s => (.unreachableCode, s.location) :: (s.form.aheadSlots ++ s.form.slots)
  | .member m => m.form.nameSlots ++ m.form.slots
  | .expression e => e.form.slots e.location
  | .pattern p => p.form.slots p.location
  | .type t => t.form.slots t.location
  | .parameter p => p.name.slots .unusedParameter
  | .program _ | .importing _ | .block _ => []

mutual

/-- The slots of a tree. -/
def Outline.slots : Outline → List Slot
  | .node root children => root.slots ++ slotsOf children

/-- The slots of some trees. -/
def slotsOf : List Outline → List Slot
  | [] => []
  | o :: os => o.slots ++ slotsOf os

end

theorem slotsOf_append (os os' : List Outline) :
    slotsOf (os ++ os') = slotsOf os ++ slotsOf os' := by
  induction os with
  | nil => rfl
  | cons o os ih => rw [List.cons_append, slotsOf, ih, slotsOf, List.append_assoc]

theorem slotsOf_map {α : Type} (f : α → Outline) (as : List α) :
    slotsOf (as.map f) = as.flatMap fun a => (f a).slots := by
  induction as with
  | nil => rfl
  | cons a as ih => rw [List.map_cons, slotsOf, ih, List.flatMap_cons]

/-! ### The slots that a check has filled -/

/-- The slot of an entry that is reported in the end if it is never read. -/
def Entry.pending (e : Entry) : List Slot :=
  if e.isTracked then (Check.unusedWarning? e).toList.map fun u => (u.1.kind, u.2) else []

/-- The kind of report for an entry that is never read. -/
def Entry.unread : Entry → DiagnosticKind
  | .param _ => .unusedParameter
  | _ => .unusedDeclaration

def Frame.pending (f : Frame) : List Slot := f.entries.flatMap Entry.pending

def Scopes.pending (s : Scopes) : List Slot := s.frames.flatMap Frame.pending

/--
The slots of what was found, and of the names and the imports that can still be found to be unread.
-/
def Checker.filled (c : Checker) : List Slot :=
  c.findings.map Finding.slot ++ c.scopes.pending ++ c.imported.map fun i => (.unusedImport, i.2)

/--
A check came from one state to another one by filling some slots at most, each as often as it is
listed, and there are as many scopes as before.
-/
structure Checker.Filled (slots : List Slot) (c d : Checker) : Prop where
  depth : d.scopes.inner.length = c.scopes.inner.length
  count : ∀ x, d.filled.count x ≤ c.filled.count x + slots.count x

/-- Frames with the same entries can be left with the same findings, however much was read. -/
theorem Scopes.pending_of_entries {s t : Scopes}
    (h : s.frames.map Frame.entries = t.frames.map Frame.entries) : s.pending = t.pending := by
  have eq (u : Scopes) :
      u.pending = (u.frames.map Frame.entries).flatMap fun es => es.flatMap Entry.pending := by
    rw [List.flatMap_map]
    rfl
  rw [eq, eq, h]

theorem Scopes.pending_eq (s : Scopes) :
    s.pending = s.current.pending ++ s.outer.flatMap Frame.pending := by
  rw [pending, frames_eq, List.flatMap_cons]

theorem Frame.pending_define {f g : Frame} {e : Entry} (h : f.define e = .ok g) :
    g.pending = f.pending ++ e.pending := by
  unfold define at h
  split at h
  · cases h
  · cases h
    rw [pending, List.flatMap_append, List.flatMap_singleton, pending]

/-- An entry that takes the place of others is of no variable and no parameter. -/
theorem Frame.count_pending_complete {e : Entry} (untracked : e.isTracked = false) (f : Frame)
    (x : Slot) : (f.complete e).pending.count x ≤ f.pending.count x := by
  obtain ⟨entries, used⟩ := f
  unfold complete pending
  induction entries with
  | nil => exact Nat.le_refl _
  | cons old entries ih =>
      rw [List.map_cons, List.flatMap_cons, List.flatMap_cons, List.count_append,
        List.count_append]
      refine Nat.add_le_add ?_ ih
      split
      · rw [Entry.pending, untracked]
        exact Nat.zero_le _
      · exact Nat.le_refl _

namespace Checker

variable {c d e : Checker} {slots more : List Slot}

theorem Filled.trans (h : Filled slots c d) (h' : Filled more d e) :
    Filled (slots ++ more) c e := by
  refine ⟨h'.depth.trans h.depth, fun x => ?_⟩
  have first := h.count x
  have second := h'.count x
  rw [List.count_append]
  omega

theorem Filled.weaken (h : Filled slots c d) (le : ∀ x, slots.count x ≤ more.count x) :
    Filled more c d :=
  ⟨h.depth, fun x => Nat.le_trans (h.count x) (Nat.add_le_add_left (le x) _)⟩

theorem filled_refl (c : Checker) : Filled [] c c := ⟨rfl, fun _ => Nat.le_refl _⟩

end Checker

namespace Check

variable {α β : Type} {m : Check α} {f : α → Check β} {slots more : List Slot}

/-- In every state, a check fills some slots at most. -/
def Fills (slots : List Slot) (m : Check α) : Prop := ∀ c : Checker, c.Filled slots (m.run c).2

theorem Fills.bind (hm : Fills slots m) (hf : ∀ a, Fills more (f a)) :
    Fills (slots ++ more) (m >>= f) := fun c => (hm c).trans (hf _ _)

theorem Fills.weaken (h : Fills slots m) (le : ∀ x, slots.count x ≤ more.count x) :
    Fills more m := fun c => (h c).weaken le

/-- What comes last may fill nothing. -/
theorem Fills.last (hm : Fills slots m) (hf : ∀ a, Fills [] (f a)) : Fills slots (m >>= f) :=
  List.append_nil slots ▸ hm.bind hf

/-- What comes first may fill nothing. -/
theorem Fills.next (hm : Fills [] m) (hf : ∀ a, Fills slots (f a)) : Fills slots (m >>= f) :=
  hm.bind hf

/-- Slots may stay empty. -/
theorem Fills.none (h : Fills [] m) (slots : List Slot) : Fills slots m :=
  h.weaken fun _ => Nat.zero_le _

theorem fills_pure (a : α) : Fills [] (pure a : Check α) := Checker.filled_refl

theorem fills_of_same (h : ∀ c, (m.run c).2 = c) : Fills [] m := by
  intro c
  rw [h c]
  exact c.filled_refl

theorem fills_forM {γ : Type} {f : γ → Check Unit} {slots : γ → List Slot}
    (h : ∀ a, Fills (slots a) (f a)) (l : List γ) : Fills (l.flatMap slots) (l.forM f) := by
  induction l with
  | nil => exact fills_pure _
  | cons a l ih => exact (h a).bind fun _ => ih

/-- A change of something else than scopes, findings and imports. -/
theorem modify_fills (change : Checker → Checker) (scopes : ∀ c, (change c).scopes = c.scopes)
    (findings : ∀ c, (change c).findings = c.findings)
    (imported : ∀ c, (change c).imported = c.imported) :
    Fills [] (modify change : Check Unit) := by
  intro c
  refine ⟨congrArg (·.inner.length) (scopes c), fun x => ?_⟩
  have same : (change c).filled = c.filled := by
    rw [Checker.filled, Checker.filled, scopes, findings, imported]
  exact Nat.le_of_eq (congrArg (List.count x) same)

/-! ### Reports -/

theorem Checker.filled_report (c : Checker) (found : Finding) :
    c.Filled [found.slot] { c with findings := c.findings ++ [found] } := by
  refine ⟨rfl, fun x => ?_⟩
  simp only [Checker.filled, List.map_append, List.map_cons, List.map_nil, List.count_append]
  omega

theorem error_fills (fault : SemanticFault) (place : Location) :
    Fills [(fault.kind, place)] (error fault place) :=
  fun c => Checker.filled_report c (.error ⟨fault, place⟩)

theorem warn_fills (w : Warning) (place : Location) : Fills [(w.kind, place)] (warn w place) :=
  fun c => Checker.filled_report c (.warning w place)

theorem lookup_fills (name : String) : Fills [] (lookup name) := fills_of_same fun _ => rfl

/-- Reads of names change nothing but what was read. -/
theorem Checker.filled_of_entries {c d : Checker}
    (entries : d.scopes.frames.map Frame.entries = c.scopes.frames.map Frame.entries)
    (findings : d.findings = c.findings) (imported : d.imported = c.imported) :
    c.Filled [] d := by
  have frames := congrArg List.length entries
  have length (s : Scopes) : s.frames.length = s.inner.length + 1 := List.length_append
  rw [List.length_map, List.length_map, length, length] at frames
  refine ⟨Nat.add_right_cancel frames, fun x => Nat.le_of_eq ?_⟩
  rw [Checker.filled, findings, imported, Scopes.pending_of_entries entries]
  rfl

theorem readName_fills (name : String) : Fills [] (readName name) := fun c =>
  Checker.filled_of_entries (by
    change (c.scopes.markUsed name).frames.map Frame.entries = _
    rw [Scopes.frames_markUsed, entries_readFrames]) rfl rfl

theorem resolveName_fills (name : String) (place : Location) :
    Fills [(.reference, place)] (resolveName name place) := by
  refine (readName_fills name).next fun entry => ?_
  dsimp only
  split
  · exact (error_fills (.undefinedReference name) place).last fun _ => fills_pure _
  · exact (fills_pure _).none _

/-! ### Scopes -/

theorem inner_modifyCurrent (s : Scopes) (f : Frame → Frame) :
    (s.modifyCurrent f).inner.length = s.inner.length := by
  obtain ⟨inner, global⟩ := s
  cases inner <;> rfl

/-- An entry that is defined can be found to be unread. -/
theorem define_filled {c : Checker} {e : Entry} {s : Scopes} (h : c.scopes.define e = .ok s) :
    c.Filled e.pending { c with scopes := s } := by
  have frame := Frame.pending_define (Scopes.current_define h)
  unfold Scopes.define at h
  split at h
  · cases h
    refine ⟨inner_modifyCurrent _ _, fun x => ?_⟩
    simp only [Checker.filled, Scopes.pending_eq, frame, Scopes.outer_modifyCurrent,
      List.count_append]
    omega
  · cases h

theorem declare_fills (e : Entry) (place : Location) :
    Fills ((.redeclaration, place) :: e.pending) (declare e place) := by
  intro c
  cases defined : c.scopes.define e with
  | error existing =>
      rw [run_declare_taken defined]
      refine (Checker.filled_report c (.error ⟨.redeclaration existing.name, place⟩)).weaken ?_
      exact fun x => (List.singleton_sublist.mpr (List.mem_cons_self ..)).count_le x
  | ok s =>
      rw [run_declare_free defined]
      exact (define_filled defined).weaken (List.sublist_cons_self ..).count_le

theorem complete_filled (c : Checker) {e : Entry} (untracked : e.isTracked = false) :
    c.Filled [] { c with scopes := c.scopes.complete e } := by
  refine ⟨inner_modifyCurrent _ _, fun x => ?_⟩
  have frame := Frame.count_pending_complete untracked c.scopes.current x
  have outer : (c.scopes.complete e).outer = c.scopes.outer := Scopes.outer_modifyCurrent _ _
  simp only [Checker.filled, Scopes.pending_eq, Scopes.current_complete, outer,
    List.count_append]
  omega

/-- A scope that was entered is the innermost one when it is left. -/
theorem entered_of_depth {c d : Checker} {slots : List Slot}
    (h : Checker.Filled slots { c with scopes := c.scopes.enter } d) :
    ∃ f rest, d.scopes.inner = f :: rest :=
  List.exists_cons_of_length_pos (h.depth ▸ Nat.succ_pos _)

theorem leaveScope_filled {c d : Checker} {slots : List Slot}
    (h : Checker.Filled slots { c with scopes := c.scopes.enter } d) :
    c.Filled slots (leaveScope.run d).2 := by
  obtain ⟨f, rest, inner⟩ := entered_of_depth h
  have run : (leaveScope.run d).2 = { d with scopes := ⟨rest, d.scopes.global⟩ } := by
    unfold leaveScope
    rw [run_get_bind, Scopes.leave?, inner]
    rfl
  have depth := h.depth
  rw [inner] at depth
  refine run ▸ ⟨Nat.succ.inj depth, fun x => ?_⟩
  have count := h.count x
  have entered : c.scopes.enter.pending = c.scopes.pending := rfl
  have left : d.scopes.pending = f.pending ++ Scopes.pending ⟨rest, d.scopes.global⟩ := by
    rw [Scopes.pending, Scopes.frames, inner]
    rfl
  simp only [Checker.filled, entered, left, List.count_append] at count ⊢
  omega

/-- What is found when a frame is left was pending. -/
theorem sublist_pending (f : Frame) :
    ((warnings (f.unused.filterMap unusedWarning?)).map Finding.slot).Sublist f.pending := by
  obtain ⟨entries, used⟩ := f
  unfold Frame.unused Frame.pending
  induction entries with
  | nil => exact List.Sublist.refl _
  | cons e entries ih =>
      rw [List.filter_cons, List.flatMap_cons]
      split
      · next unused =>
          have tracked := (Bool.and_eq_true_iff.mp unused).1
          rw [Entry.pending, tracked, List.filterMap_cons]
          cases unusedWarning? e with
          | none => exact ih
          | some u => exact ih.cons_cons _
      · exact ih.trans (List.sublist_append_right _ _)

theorem leaveLocalScope_filled {c d : Checker} {slots : List Slot}
    (h : Checker.Filled slots { c with scopes := c.scopes.enter } d) :
    c.Filled slots (leaveLocalScope.run d).2 := by
  obtain ⟨f, rest, inner⟩ := entered_of_depth h
  have current : d.scopes.current = f := by rw [Scopes.current, inner]; rfl
  have run : (leaveLocalScope.run d).2 = { d with
      scopes := ⟨rest, d.scopes.global⟩
      findings := d.findings ++ warnings (f.unused.filterMap unusedWarning?) } := by
    unfold leaveLocalScope
    rw [run_get_bind, current]
    change (leaveScope.run (((f.unused.filterMap unusedWarning?).forM _ : Check Unit).run d).2).2 = _
    rw [run_warnings]
    unfold leaveScope
    rw [run_get_bind, Scopes.leave?, inner]
    rfl
  have depth := h.depth
  rw [inner] at depth
  refine run ▸ ⟨Nat.succ.inj depth, fun x => ?_⟩
  have count := h.count x
  have found := (sublist_pending f).count_le x
  have entered : c.scopes.enter.pending = c.scopes.pending := rfl
  have left : d.scopes.pending = f.pending ++ Scopes.pending ⟨rest, d.scopes.global⟩ := by
    rw [Scopes.pending, Scopes.frames, inner]
    rfl
  simp only [Checker.filled, entered, left, List.count_append, List.map_append] at count ⊢
  omega

/-- A scope of local names, and what comes behind it. -/
theorem Fills.within (hm : Fills slots m) (hf : ∀ a, Fills more (f a)) :
    Fills (slots ++ more) (do
      enterScope
      let a ← m
      leaveLocalScope
      f a) :=
  fun c => (leaveLocalScope_filled (hm { c with scopes := c.scopes.enter })).trans (hf _ _)

theorem Fills.scope {m : Check Unit} (hm : Fills slots m) :
    Fills slots (do
      enterScope
      m
      leaveLocalScope) :=
  fun c => leaveLocalScope_filled (hm { c with scopes := c.scopes.enter })

end Check
end ScriptFront
