import ScriptFront.Proofs.CheckCourses
import ScriptFront.Proofs.PropertyWrites

/-!
Where a class may write its read-only properties. The mark that a check is in a constructor is set
by each constructor and cleared at its end, whatever class it belongs to. So a write is allowed in a
constructor, and anywhere in the classes that are declared in it, until the end of the first
constructor in there; from then on it is refused, in the rest of the outer constructor as well.
-/

namespace ScriptFront

/-! ### Places in a course -/

/--
A class around a place, which is in one of its members: the members before this one, and what comes
before the place in it.
-/
structure Stage where
  cls : ClassCheck
  past : List Passage
  isConstructor : Bool
  earlier : List Encounter

/-- A write in a course: what comes before it, and the classes around it, the innermost first. -/
structure Place where
  earlier : List Encounter
  stages : List Stage
  write : Write

/--
The write at a position of a course, if there is one. For each class around it, from the outermost
one inwards, a path has the position of the class and that of its member.
-/
def place? : List Encounter → List (Nat × Nat) → Nat → Option Place
  | es, [], n =>
    match es[n]? with
    | some (.write w) => some ⟨es.take n, [], w⟩
    | _ => none
  | es, (i, j) :: path, n =>
    match es[i]? with
    | some (.classBody k members) =>
      members[j]?.bind fun member => (place? member.inside path n).map fun l =>
        ⟨es.take i, l.stages ++ [⟨k, members.take j, member.isConstructor, l.earlier⟩],
          l.write⟩
    | _ => none

namespace Stage

/-- The mark at a place in a class, if there is a given one where the class starts. -/
def marks (s : Stage) (outside : Bool) : Bool :=
  (s.isConstructor || (outside && !membersConstruct s.past)) && !constructsAny s.earlier

/-- The mark at a place in classes inside of each other. -/
def mark (stages : List Stage) (outside : Bool) : Bool := stages.foldr marks outside

/-- No constructor ends between the start of a class and a place in a member of it. -/
def Quiet (s : Stage) : Prop := membersConstruct s.past = false ∧ constructsAny s.earlier = false

/--
A place in classes inside of each other counts as one in a constructor: one of the members around it
is a constructor, and no other one has ended in there before the place.
-/
def Constructing (stages : List Stage) : Prop :=
  ∃ inner s outer, stages = inner ++ s :: outer ∧ s.isConstructor = true ∧
    constructsAny s.earlier = false ∧ ∀ t ∈ inner, t.Quiet

theorem constructing_cons {s : Stage} {outer : List Stage} :
    Constructing (s :: outer) ↔ constructsAny s.earlier = false ∧
      (s.isConstructor = true ∨ membersConstruct s.past = false ∧ Constructing outer) := by
  constructor
  · rintro ⟨_ | ⟨t, inner⟩, u, rest, same, isConstructor, quiet, all⟩
    · obtain ⟨rfl, rfl⟩ := List.cons.inj same
      exact ⟨quiet, .inl isConstructor⟩
    · obtain ⟨rfl, rfl⟩ := List.cons.inj same
      obtain ⟨here, below⟩ := List.forall_mem_cons.mp all
      exact ⟨here.2, .inr ⟨here.1, inner, u, rest, rfl, isConstructor, quiet, below⟩⟩
  · rintro ⟨quiet, isConstructor | ⟨past, inner, u, rest, rfl, isConstructor, quiet', all⟩⟩
    · exact ⟨[], s, outer, rfl, isConstructor, quiet, List.forall_mem_nil _⟩
    · exact ⟨s :: inner, u, rest, rfl, isConstructor, quiet',
        List.forall_mem_cons.mpr ⟨⟨past, quiet⟩, all⟩⟩

/-- Outside of all classes the mark is clear, and inside it is set at the places that count. -/
theorem mark_iff (stages : List Stage) : mark stages false = true ↔ Constructing stages := by
  induction stages with
  | nil =>
      refine iff_of_false Bool.false_ne_true ?_
      rintro ⟨inner, s, outer, same, -⟩
      exact List.append_ne_nil_of_right_ne_nil _ (List.cons_ne_nil _ _) same.symm
  | cons s outer ih =>
      rw [constructing_cons, ← ih]
      simp only [mark, List.foldr_cons, marks, Bool.and_eq_true, Bool.or_eq_true, Bool.not_eq_true']
      tauto

end Stage

theorem eq_of_getElem? {α : Type} {l : List α} {i : Nat} {a : α} (h : l[i]? = some a) :
    l = l.take i ++ a :: l.drop (i + 1) := by
  obtain ⟨inside, rfl⟩ := List.getElem?_eq_some_iff.mp h
  rw [← List.drop_eq_getElem_cons inside, List.take_append_drop]

/-- A write is checked with the classes around it, and with the mark that they leave. -/
theorem state_of_place {es : List Encounter} {path : List (Nat × Nat)} {n : Nat} {l : Place}
    (h : place? es path n = some l) {classes : List ClassEntry} {mark : Bool}
    (marked : MarkedAll classes mark es) :
    l.write.state.classes = l.stages.map (·.cls.known) ++ classes ∧
      l.write.state.inConstructor = Stage.mark l.stages (mark && !constructsAny l.earlier) := by
  induction path generalizing es classes mark l with
  | nil =>
      rw [place?] at h
      split at h
      · next w here =>
          cases h
          rw [eq_of_getElem? here, markedAll_append] at marked
          exact marked.2.1
      · cases h
  | cons step path ih =>
      obtain ⟨i, j⟩ := step
      rw [place?] at h
      split at h
      · next k members here =>
          obtain ⟨⟨isConstructor, inside⟩, there, h⟩ := Option.bind_eq_some_iff.mp h
          obtain ⟨l, below, rfl⟩ := Option.map_eq_some_iff.mp h
          rw [eq_of_getElem? here, markedAll_append] at marked
          have members := marked.2.1
          rw [Encounter.Marked, eq_of_getElem? there, membersMarked_append] at members
          obtain ⟨around, flag⟩ := ih below members.2.1
          refine ⟨?_, ?_⟩
          · rw [around, List.map_append, List.append_assoc]
            rfl
          · rw [flag, Stage.mark, Stage.mark, List.foldr_append]
            rfl
      · cases h

/-! ### Writes to properties of `this` -/

/-- The property of `this` that is written by its name, if the target is one. -/
def Write.ownProperty? (w : Write) : Option String :=
  match w.target.form with
  | .member ⟨.this, _, _⟩ ⟨.identifier m, _, _⟩ false => some m
  | _ => none

/-- A class has a property of a name, its own or inherited, that must not be written. -/
def Checker.Guards (c : Checker) (known : ClassEntry) (m : String) : Prop :=
  (c.scopes.classMember known.type.name m).any (·.2.isImmutable) = true

instance (c : Checker) (known : ClassEntry) (m : String) : Decidable (c.Guards known m) :=
  inferInstanceAs (Decidable (_ = true))

/-- A write to a guarded property of `this` is refused unless the mark of a constructor is set. -/
theorem Write.refusals_of_ownProperty {w : Write} {m : String} {known : ClassEntry}
    (own : w.ownProperty? = some m) (innermost : w.state.classes.head? = some known)
    (guarded : w.state.Guards known m) :
    w.refusals = if w.state.inConstructor then []
      else [.error ⟨.invalidAssignment (.readOnly m), w.target.location⟩] := by
  unfold ownProperty? at own
  split at own
  · next place height m place' height' form =>
      cases own
      have type : (Check.objectType ⟨.this, place, height⟩).run { w.state with findings := [] }
          = (w.state.classes.head?.map (·.type.toTy), { w.state with findings := [] }) := rfl
      have guards : Check.guards { w.state with findings := [] } (some known.type.toTy) m = true :=
        guarded
      rw [Write.refusals, Check.reported, Check.run_writable form rfl, type, innermost,
        Option.map_some]
      dsimp only
      rw [List.nil_append, Check.refusal, guards, Check.isThis, Bool.and_true, Bool.true_and]
      cases w.state.inConstructor <;> rfl
  · cases own

/--
What an analysis refuses to write is refused along its course. There a write to a guarded property
of `this` is allowed if and only if it is in a constructor of some class around it, and no
constructor has ended in that one before the write. So the innermost member decides alone where no
constructor has ended in it before the write, and where it is in no constructor of another class.
-/
theorem own_write_allowed_iff (importer : Importer) (file : Path) (p : Program)
    (state : FileState) (session : Session) :
    let bound := p.imports.foldl (Workspace.bind importer file) (.opening file state session)
    let course := Check.bodyCourse p { bound.checker with findings := [] }
    (∃ (found : List Finding) (tail : List Diagnostic),
      (analyzeWith importer file p state session).session.log.items
        = bound.session.log.items ++ found.map (·.toDiagnostic file) ++ tail ∧
      found.filter (·.isRefusal) = (writesOf course).flatMap Write.refusals ∧
      ∀ d ∈ tail, d.kind ≠ .invalidAssignment) ∧
    ∀ path n earlier s outer w m, place? course path n = some ⟨earlier, s :: outer, w⟩ →
      w.ownProperty? = some m → w.state.Guards s.cls.known m →
      (Stage.Constructing (s :: outer) → w.refusals = []) ∧
      (¬ Stage.Constructing (s :: outer) →
        w.refusals = [.error ⟨.invalidAssignment (.readOnly m), w.target.location⟩]) ∧
      (constructsAny s.earlier = false → (∀ t ∈ outer, t.isConstructor = false) →
        (w.refusals = [] ↔ s.isConstructor = true)) := by
  rw [Workspace.analyzeWith_eq]
  intro bound course
  have outside : bound.checker.inConstructor = false := outside_imported importer file state session _
  obtain ⟨-, -, ⟨found, findings, refusals⟩, marked⟩ :=
    Check.body_goes p { bound.checker with findings := [] }
  rw [List.nil_append] at findings
  obtain ⟨tail, last, items⟩ := Workspace.log_closing file p bound
  rw [Check.reported, findings] at items
  refine ⟨⟨found, tail, by rw [items], refusals, fun d mem same => ?_⟩, ?_⟩
  · obtain ⟨-, kind | kind⟩ := last d mem <;> exact absurd (same.symm.trans kind) (by decide)
  intro path n earlier s outer w m place own guarded
  obtain ⟨classes, mark⟩ := state_of_place place marked
  rw [outside, Bool.false_and] at mark
  have innermost : w.state.classes.head? = some s.cls.known := by rw [classes]; rfl
  have refused := Write.refusals_of_ownProperty own innermost guarded
  have allowed : w.refusals = [] ↔ Stage.Constructing (s :: outer) := by
    rw [refused, mark, ← Stage.mark_iff]
    cases Stage.mark (s :: outer) false <;> simp
  refine ⟨allowed.mpr, fun other => ?_, fun quiet around => ?_⟩
  · rw [← Stage.mark_iff, ← mark] at other
    rw [refused, if_neg other]
  · rw [allowed, Stage.constructing_cons, and_iff_right quiet]
    refine or_iff_left ?_
    rintro ⟨-, inner, t, rest, same, isConstructor, -⟩
    have clear := around t (same ▸ List.mem_append_right _ List.mem_cons_self)
    exact Bool.false_ne_true (clear.symm.trans isConstructor)

/-! ### A constructor in a constructor -/

/-- A class whose constructor declares another class with a constructor before it writes. -/
def constructorInConstructor : Program :=
  let write (property : String) (offset : Nat) : Statement :=
    let place : Location := ⟨offset, 1, offset + 1⟩
    let target : Expr := ⟨.member ⟨.this, place, 1⟩ ⟨.identifier property, place, 1⟩ false, place, 2⟩
    ⟨.assignment target ⟨.number default false, place, 1⟩, place⟩
  let property (modifiers : Modifiers) (name : String) : ClassMember :=
    ⟨modifiers, .property ⟨⟨name, .nowhere⟩, ⟨.reference "int" [], .nowhere⟩, none⟩, .nowhere⟩
  let declared (name : String) (members : List ClassMember) : Statement :=
    ⟨.classType ⟨.empty, ⟨name, .nowhere⟩, [], none, [], members⟩, .nowhere⟩
  let constructor_ (body : List Statement) : ClassMember :=
    ⟨.empty, .constructor [] ⟨body, .nowhere⟩, .nowhere⟩
  let inner := declared "B" [property .empty "y", constructor_ [write "y" 10]]
  let outer := declared "A"
    [property (.set .empty .readonly) "x", constructor_ [inner, write "x" 20]]
  { (default : Program) with body := [outer] }

/-- The outer constructor is refused to write what it may write if it declares no class before. -/
theorem write_behind_constructor :
    let bound := Workspace.opening ⟨"main.ky"⟩ .fresh (.start .empty)
    let course := Check.bodyCourse constructorInConstructor { bound.checker with findings := [] }
    ∃ earlier s w, place? course [(0, 1)] 1 = some ⟨earlier, [s], w⟩ ∧ s.isConstructor = true ∧
      w.ownProperty? = some "x" ∧ w.state.Guards s.cls.known "x" ∧
      w.refusals = [.error ⟨.invalidAssignment (.readOnly "x"), ⟨20, 1, 21⟩⟩] := by
  intro bound course
  have found : ((place? course [(0, 1)] 1).any fun l =>
      decide (l.stages.length = 1 ∧ l.write.ownProperty? = some "x" ∧
        l.write.target.location = ⟨20, 1, 21⟩ ∧
        ∀ s ∈ l.stages, s.isConstructor = true ∧ l.write.state.Guards s.cls.known "x" ∧
          constructsAny s.earlier = true)) = true := by decide +kernel
  obtain ⟨⟨earlier, stages, w⟩, place, holds⟩ := (Option.any_eq_true _ _).mp found
  obtain ⟨single, own, target, all⟩ := of_decide_eq_true holds
  obtain ⟨s, rfl⟩ := List.length_eq_one_iff.mp single
  obtain ⟨isConstructor, guarded, before⟩ := List.forall_mem_singleton.mp all
  have refused := (own_write_allowed_iff (importFiles .empty 0) ⟨"main.ky"⟩
    constructorInConstructor .fresh (.start .empty)).2 _ _ _ _ _ _ _ place own guarded
  refine ⟨earlier, s, w, place, isConstructor, own, guarded, target ▸ refused.2.1 fun inside => ?_⟩
  exact Bool.false_ne_true ((Stage.constructing_cons.mp inside).1.symm.trans before)

end ScriptFront
