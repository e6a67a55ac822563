import ScriptFront.Proofs.CheckCourses
import ScriptFront.Proofs.LookupCourses

/-!
Checks look names up along their courses. A name that stands for nothing of use is reported where it
is looked up, and nothing else is reported of names that do not resolve; and every name that is
looked up is one that the tree mentions. What is done with the entries that are found is left open.
-/

namespace ScriptFront

/-- The finding is about a name that does not resolve, or about an import that is not used. -/
def Finding.isOfName : Finding → Bool
  | .error ⟨.undefinedReference _, _⟩ | .error ⟨.functionNotFound _, _⟩
  | .error ⟨.unknownType _, _⟩ | .warning (.unusedImport _) _ => true
  | _ => false

theorem Finding.isOfName_of_isRefusal {f : Finding} (h : f.isRefusal = true) :
    f.isOfName = false := by
  cases f with
  | error e =>
      obtain ⟨fault, place⟩ := e
      cases fault <;> first | rfl | cases h
  | warning w place => cases w <;> first | rfl | cases h

/-- All names that a node mentions have a property. -/
def Node.Names (N : String → Prop) (n : Node) : Prop := ∀ x ∈ n.mentions, N x

variable {N : String → Prop}

/-! ### Look-ups in written types and signatures -/

section Types

variable {m : Meaning} {purpose : Purpose}

mutual

theorem TypeExpr.named_lookups :
    ∀ t : TypeExpr, t.outline.All (Node.Names N) → ∀ l ∈ t.lookups purpose m, N l.name
  | ⟨form, place⟩, h => form.named_lookups place h.1 h.2

theorem TypeForm.named_lookups (place : Location) :
    ∀ form : TypeForm, (Node.type ⟨form, place⟩).Names N → AllOf (Node.Names N) form.outlines →
      ∀ l ∈ form.lookups purpose m place, N l.name
  | .reference name generics, here, below => by
      refine List.forall_mem_append.mpr ⟨named_typeLookups generics below, ?_⟩
      split
      · exact List.forall_mem_singleton.mpr (here name List.mem_cons_self)
      · exact List.forall_mem_nil _
  | .array t, _, below => t.named_lookups below.1
  | .union l r, _, below | .intersection l r, _, below => by
      refine List.forall_mem_append.mpr ⟨l.named_lookups below.1, ?_⟩
      split
      · exact r.named_lookups below.2.1
      · exact List.forall_mem_nil _
  | .infer, _, _ | .void, _, _ | .null, _, _ | .undefined, _, _ => List.forall_mem_nil _

theorem named_typeLookups :
    ∀ ts : List TypeExpr, AllOf (Node.Names N) (typeOutlines ts) →
      ∀ l ∈ typeLookups purpose m ts, N l.name
  | [], _ => List.forall_mem_nil _
  | t :: ts, h => by
      refine List.forall_mem_append.mpr ⟨t.named_lookups h.1, ?_⟩
      split
      · exact named_typeLookups ts h.2
      · exact List.forall_mem_nil _

end

/-- What is reported of an outcome: its error. -/
def complaints {α : Type} : Except SemanticError α → List Finding
  | .ok _ => []
  | .error e => [.error e]

/-- The look-up of a name of a type fails if it denotes none. -/
theorem complaint_type (arguments : List Ty) (name : String) (place : Location) :
    Lookup.complaint? ⟨name, .type, place, m name⟩ =
      match m.typeNamed? name arguments with
      | some _ => none
      | none => some (.error ⟨.unknownType name, place⟩) := by
  unfold Lookup.complaint? Meaning.typeNamed?
  cases m name with
  | none => rfl
  | some e =>
      cases e with
      | named t =>
          dsimp only
          cases t.type <;> rfl
      | _ => rfl

mutual

/-- A written type that denotes nothing fails at the last name that is looked up. -/
theorem TypeExpr.complaints_lookups (m : Meaning) :
    ∀ t : TypeExpr, (t.lookups .type m).filterMap Lookup.complaint? = complaints (t.resolve m)
  | ⟨form, place⟩ => form.complaints_lookups m place

theorem TypeForm.complaints_lookups (m : Meaning) (place : Location) :
    ∀ form : TypeForm,
      (form.lookups .type m place).filterMap Lookup.complaint? = complaints (form.resolve m place)
  | .reference name generics => by
      rw [TypeForm.lookups, List.filterMap_append, complaints_typeLookups m generics,
        TypeForm.resolve]
      cases resolveAll m generics with
      | error e => rfl
      | ok arguments =>
          change [(⟨name, .type, place, m name⟩ : Lookup)].filterMap Lookup.complaint? =
            complaints (match m.typeNamed? name arguments with
              | some t => .ok t
              | none => .error ⟨.unknownType name, place⟩)
          rw [List.filterMap_cons, complaint_type arguments]
          cases m.typeNamed? name arguments <;> rfl
  | .array t => by
      rw [TypeForm.lookups, t.complaints_lookups m, TypeForm.resolve]
      cases t.resolve m <;> rfl
  | .union l r | .intersection l r => by
      rw [TypeForm.lookups, List.filterMap_append, l.complaints_lookups m, TypeForm.resolve]
      cases l.resolve m with
      | error e => rfl
      | ok ty =>
          refine (r.complaints_lookups m).trans ?_
          cases r.resolve m <;> rfl
  | .infer | .void | .null | .undefined => rfl

theorem complaints_typeLookups (m : Meaning) :
    ∀ ts : List TypeExpr,
      (typeLookups .type m ts).filterMap Lookup.complaint? = complaints (resolveAll m ts)
  | [] => rfl
  | t :: ts => by
      rw [typeLookups, List.filterMap_append, t.complaints_lookups m, resolveAll]
      cases t.resolve m with
      | error e => rfl
      | ok ty =>
          refine (complaints_typeLookups m ts).trans ?_
          cases resolveAll m ts <;> rfl

end

/-- What is looked up for a signature is not complained of. -/
def Uncomplaining (N : String → Prop) (ls : List Lookup) : Prop :=
  ∀ l ∈ ls, N l.name ∧ l.complaint? = none

mutual

theorem TypeExpr.quiet_lookups (m : Meaning) :
    ∀ t : TypeExpr, ∀ l ∈ t.lookups .quiet m, l.complaint? = none
  | ⟨form, place⟩ => form.quiet_lookups m place

theorem TypeForm.quiet_lookups (m : Meaning) (place : Location) :
    ∀ form : TypeForm, ∀ l ∈ form.lookups .quiet m place, l.complaint? = none
  | .reference name generics => by
      refine List.forall_mem_append.mpr ⟨quiet_typeLookups m generics, ?_⟩
      split
      · exact List.forall_mem_singleton.mpr rfl
      · exact List.forall_mem_nil _
  | .array t => t.quiet_lookups m
  | .union l r | .intersection l r => by
      refine List.forall_mem_append.mpr ⟨l.quiet_lookups m, ?_⟩
      split
      · exact r.quiet_lookups m
      · exact List.forall_mem_nil _
  | .infer | .void | .null | .undefined => List.forall_mem_nil _

theorem quiet_typeLookups (m : Meaning) :
    ∀ ts : List TypeExpr, ∀ l ∈ typeLookups .quiet m ts, l.complaint? = none
  | [] => List.forall_mem_nil _
  | t :: ts => by
      refine List.forall_mem_append.mpr ⟨t.quiet_lookups m, ?_⟩
      split
      · exact quiet_typeLookups m ts
      · exact List.forall_mem_nil _

end

theorem uncomplaining_append {ls ls' : List Lookup} :
    Uncomplaining N (ls ++ ls') ↔ Uncomplaining N ls ∧ Uncomplaining N ls' :=
  List.forall_mem_append

theorem uncomplaining_lookupsUnder (generics : List Ident) {types : List TypeExpr}
    (h : AllOf (Node.Names N) (types.map TypeExpr.outline)) :
    Uncomplaining N (lookupsUnder m generics types) := by
  intro l mem
  obtain ⟨t, inside, part⟩ := List.mem_flatMap.mp mem
  exact ⟨t.named_lookups (allOf_map.mp h t inside) l part, t.quiet_lookups _ l part⟩

/-- The types of parameters. -/
theorem allOf_types {P : Node → Prop} {ps : List Param} (h : AllOf P (ps.map Param.outline)) :
    AllOf P ((ps.map (·.type)).map TypeExpr.outline) := by
  refine allOf_map.mpr (List.forall_mem_map.mpr fun p mem => ?_)
  exact (allOf_map.mp h p mem).2.1

theorem Signature.allOf_types {P : Node → Prop} {s : Signature} (h : AllOf P s.outlines) :
    AllOf P (s.types.map TypeExpr.outline) := by
  obtain ⟨params, returns⟩ := allOf_append.mp h
  rw [types, List.map_append]
  exact allOf_append.mpr ⟨ScriptFront.allOf_types params, returns⟩

theorem ClassMember.uncomplaining_lookups {member : ClassMember}
    (h : member.outline.All (Node.Names N)) : Uncomplaining N (member.lookups m) := by
  obtain ⟨modifiers, form, place⟩ := member
  obtain ⟨-, below⟩ := h
  cases form with
  | property d => exact uncomplaining_lookupsUnder [] ⟨below.1, trivial⟩
  | method name s body | operator symbol isUnary s body =>
      exact uncomplaining_lookupsUnder _ (Signature.allOf_types (allOf_append.mp below).1)
  | constructor params body =>
      exact uncomplaining_lookupsUnder [] (allOf_types (allOf_append.mp below).1)

theorem Statement.uncomplaining_lookups {s : Statement} (h : s.outline.All (Node.Names N)) :
    Uncomplaining N (s.lookups m) := by
  obtain ⟨form, place⟩ := s
  obtain ⟨-, below⟩ := h
  cases form with
  | function d =>
      obtain ⟨modifiers, name, signature, body⟩ := d
      exact uncomplaining_lookupsUnder _ (Signature.allOf_types (allOf_append.mp below).1)
  | structType d =>
      refine uncomplaining_lookupsUnder _ (allOf_map.mpr (List.forall_mem_map.mpr fun f mem => ?_))
      exact allOf_map.mp below f mem
  | classType d =>
      obtain ⟨modifiers, name, generics, superclass, interfaces, members⟩ := d
      obtain ⟨parents, members⟩ := allOf_append.mp below
      refine uncomplaining_append.mpr ⟨uncomplaining_lookupsUnder _ ?_, fun l mem => ?_⟩
      · rw [List.map_append, ← typeOutlines_eq interfaces]
        exact parents
      · obtain ⟨member, inside, part⟩ := List.mem_flatMap.mp mem
        rw [memberOutlines_eq] at members
        have known : Uncomplaining N (member.lookups (m.withGenerics generics)) :=
          ClassMember.uncomplaining_lookups (allOf_map.mp members member inside)
        exact known l part
  | _ => exact List.forall_mem_nil _

end Types

/-! ### Checks look up along their courses -/

/--
A check came from one state to another one by some look-ups: what it reported of names that do not
resolve are their complaints, and their names have a property.
-/
structure Checker.Looked (N : String → Prop) (c d : Checker) (ls : List Lookup) : Prop where
  found : ∃ found, d.findings = c.findings ++ found ∧
    found.filter (·.isOfName) = ls.filterMap Lookup.complaint?
  named : ∀ l ∈ ls, N l.name

theorem Checker.Looked.trans {c d e : Checker} {ls ls' : List Lookup} (h : c.Looked N d ls)
    (h' : d.Looked N e ls') : c.Looked N e (ls ++ ls') := by
  obtain ⟨found, first, here⟩ := h.found
  obtain ⟨more, second, there⟩ := h'.found
  refine ⟨⟨found ++ more, ?_, ?_⟩, List.forall_mem_append.mpr ⟨h.named, h'.named⟩⟩
  · rw [second, first, List.append_assoc]
  · rw [List.filter_append, here, there, List.filterMap_append]

theorem Checker.looked_of_uncomplaining {c d : Checker} {ls : List Lookup}
    (h : Uncomplaining N ls) (silent : ∃ found, d.findings = c.findings ++ found ∧
      found.filter (·.isOfName) = []) : c.Looked N d ls := by
  obtain ⟨found, findings, none_⟩ := silent
  refine ⟨⟨found, findings, none_.trans ?_⟩, fun l mem => (h l mem).1⟩
  exact (List.filterMap_eq_nil_iff.mpr fun l mem => (h l mem).2).symm

namespace Check

variable {α β : Type}

/-- A check looks names up along a course, all of which have a property. -/
def Looks (N : String → Prop) (m : Check α) (course : Checker → List Lookup) : Prop :=
  ∀ c : Checker, c.Looked N (m.run c).2 (course c)

section Looks

variable {m : Check α} {f : α → Check β} {here : Checker → List Lookup}
  {rest : α → Checker → List Lookup}

theorem Looks.along (hm : Looks N m here) (hf : ∀ a, Looks N (f a) (rest a)) :
    Looks N (m >>= f) (along m here rest) :=
  fun c => (hm c).trans (hf (m.run c).1 (m.run c).2)

theorem Looks.after (hm : Looks N m nothing) (hf : ∀ a, Looks N (f a) (rest a)) :
    Looks N (m >>= f) (after m rest) :=
  fun c => (hm c).trans (hf (m.run c).1 (m.run c).2)

/-- What comes last may look nothing up. -/
theorem Looks.last (hm : Looks N m here) (hf : ∀ a, Looks N (f a) nothing) :
    Looks N (m >>= f) here :=
  fun c => List.append_nil (here c) ▸ (hm c).trans (hf (m.run c).1 _)

theorem looks_pure (a : α) : Looks N (pure a : Check α) nothing :=
  fun _ => ⟨⟨[], (List.append_nil _).symm, rfl⟩, nofun⟩

theorem looks_each {as : List α} {check : α → Check Unit} {course : α → Checker → List Lookup}
    (h : ∀ a ∈ as, Looks N (check a) (course a)) :
    Looks N (as.forM check) (eachLookups check course as) := by
  induction as with
  | nil => exact looks_pure _
  | cons a as ih =>
      obtain ⟨first, others⟩ := List.forall_mem_cons.mp h
      exact first.along fun _ => ih others

end Looks

/-! ### Checks that look nothing up -/

/-- A check that reports nothing of names that do not resolve. -/
def Silent (m : Check α) : Prop :=
  ∀ c, ∃ found, (m.run c).2.findings = c.findings ++ found ∧
    found.filter (·.isOfName) = []

section Silent

variable {m : Check α} {f : α → Check β}

theorem Silent.looks (h : Silent m) : Looks N m nothing := fun c => ⟨h c, nofun⟩

theorem silent_of_same (h : ∀ c, (m.run c).2.findings = c.findings) : Silent m :=
  fun c => ⟨[], by rw [h c, List.append_nil], rfl⟩

theorem silent_pure (a : α) : Silent (pure a : Check α) := silent_of_same fun _ => rfl

theorem Silent.bind (hm : Silent m) (hf : ∀ a, Silent (f a)) : Silent (m >>= f) := by
  intro c
  obtain ⟨found, first, here⟩ := hm c
  obtain ⟨more, second, there⟩ := hf (m.run c).1 (m.run c).2
  refine ⟨found ++ more, ?_, ?_⟩
  · rw [← List.append_assoc, ← first]
    exact second
  · rw [List.filter_append, here, there]
    rfl

theorem silent_forM {as : List α} {check : α → Check Unit} (h : ∀ a ∈ as, Silent (check a)) :
    Silent (as.forM check) := by
  induction as with
  | nil => exact silent_pure _
  | cons a as ih =>
      obtain ⟨first, others⟩ := List.forall_mem_cons.mp h
      exact first.bind fun _ => ih others

end Silent

theorem error_silent {fault : SemanticFault} {place : Location}
    (h : (Finding.error ⟨fault, place⟩).isOfName = false) : Silent (error fault place) :=
  fun _ => ⟨_, rfl, by rw [List.filter_cons_of_neg (Bool.not_eq_true _ ▸ h)]; rfl⟩

theorem warn_silent {w : Warning} {place : Location}
    (h : (Finding.warning w place).isOfName = false) : Silent (warn w place) :=
  fun _ => ⟨_, rfl, by rw [List.filter_cons_of_neg (Bool.not_eq_true _ ▸ h)]; rfl⟩

theorem enterScope_silent : Silent enterScope := silent_of_same fun _ => rfl

theorem leaveScope_silent : Silent leaveScope := by
  intro c
  unfold leaveScope
  rw [run_get_bind]
  split
  · exact ⟨[], (List.append_nil _).symm, rfl⟩
  · exact error_silent rfl c

theorem leaveLocalScope_silent : Silent leaveLocalScope := by
  intro c
  unfold leaveLocalScope
  rw [run_get_bind]
  refine ((silent_forM fun (w, place) mem => warn_silent ?_).bind fun _ => leaveScope_silent) c
  obtain ⟨e, -, warned⟩ := List.mem_filterMap.mp mem
  unfold unusedWarning? at warned
  split at warned
  · cases warned
  · dsimp only at warned
    split at warned <;> cases warned <;> rfl

theorem declare_silent (e : Entry) (place : Location) : Silent (declare e place) := by
  intro c
  unfold declare
  rw [run_get_bind]
  split
  · exact ⟨[], (List.append_nil _).symm, rfl⟩
  · exact error_silent rfl c

theorem declareGenerics_silent (generics : List Ident) : Silent (declareGenerics generics) :=
  silent_forM fun _ _ => declare_silent _ _

theorem declareAhead_silent (ss : List Statement) : Silent (declareAhead ss) := by
  induction ss with
  | nil => exact silent_pure _
  | cons s ss rest =>
      unfold declareAhead
      split
      · exact rest
      · intro c
        rw [run_get_bind]
        split
        · next scopes _ => exact (rest.bind fun _ => silent_pure _) { c with scopes := scopes }
        · exact ((error_silent rfl).bind fun _ => rest) c

theorem call_silent (name : String) (callee : Ty) (count : Nat) (place : Location) :
    Silent (call name callee count place) := by
  unfold call
  split
  · dsimp only
    split
    · exact (error_silent rfl).bind fun _ => silent_pure _
    · exact silent_pure _
  · exact silent_pure _

theorem classMember_silent (className member : String) : Silent (classMember className member) :=
  silent_of_same fun _ => rfl

theorem memberType_silent (object : Option Ty) (property : Expr) :
    Silent (memberType object property) := by
  unfold memberType
  split
  · exact (classMember_silent _ _).bind fun _ => silent_pure _
  · exact silent_pure _
  · exact silent_pure _

theorem assignable?_silent (found expected : Option Ty) (place : Location) :
    Silent (assignable? found expected place) := by
  unfold assignable? assignable
  split
  · split
    · exact error_silent rfl
    · exact silent_pure _
  · exact silent_pure _

theorem alarm_silent (ended warned : Bool) (s : Statement) : Silent (alarm ended warned s) := by
  unfold alarm
  split
  · exact warn_silent rfl
  · exact silent_pure _

/-! ### Look-ups of single names -/

/-- What is reported by a look-up of one name is up to what the name stands for. -/
theorem looks_named {m : Check α} {purpose : Purpose} {name : String} {place : Location}
    (h : N name)
    (reports : ∀ c, ∃ found, (m.run c).2.findings = c.findings ++ found ∧
      found.filter (·.isOfName)
        = (Lookup.complaint? ⟨name, purpose, place, c.scopes.lookup name⟩).toList) :
    Looks N m (named purpose name place) := by
  intro c
  obtain ⟨found, findings, unresolved⟩ := reports c
  refine ⟨⟨found, findings, unresolved.trans ?_⟩, List.forall_mem_singleton.mpr h⟩
  rw [named, List.filterMap_cons]
  cases Lookup.complaint? ⟨name, purpose, place, c.scopes.lookup name⟩ <;> rfl

theorem run_resolveName_bind (name : String) (place : Location) (f : Option Entry → Check β)
    (c : Checker) :
    (resolveName name place >>= f).run c = (do
      if (c.scopes.lookup name).isNone then error (.undefinedReference name) place
      f (c.scopes.lookup name)).run { c with scopes := c.scopes.markUsed name } := by
  cases found : c.scopes.lookup name <;>
    simp only [resolveName, readName, bind_assoc, run_lookup_bind, found] <;> rfl

/-- A name that is read, where the rest looks nothing up if it stands for something. -/
theorem resolveName_looks {name : String} (h : N name) (place : Location)
    {f : Option Entry → Check β} (hf : ∀ entry, Silent (f entry)) :
    Looks N (resolveName name place >>= f) (named .value name place) := by
  refine looks_named h fun c => ?_
  rw [run_resolveName_bind]
  cases c.scopes.lookup name with
  | none =>
      obtain ⟨found, findings, silent⟩ := hf none
        { c with
          scopes := c.scopes.markUsed name
          findings := c.findings ++ [.error ⟨.undefinedReference name, place⟩] }
      refine ⟨.error ⟨.undefinedReference name, place⟩ :: found, findings.trans ?_, ?_⟩
      · exact List.append_assoc _ _ _
      · rw [List.filter_cons_of_pos rfl, silent]
        rfl
  | some e => exact hf (some e) { c with scopes := c.scopes.markUsed name }

theorem callee_looks {name : String} (h : N name) (place location : Location) (count : Nat) :
    Looks N (do
      match ← readName name with
      | some entry => call name entry.valueType count place
      | none => do
        error (.functionNotFound name) location
        return none) (named .callee name location) := by
  refine looks_named h fun c => ?_
  have run (f : Option Entry → Check (Option Ty)) : (readName name >>= f).run c
      = (f (c.scopes.lookup name)).run { c with scopes := c.scopes.markUsed name } := rfl
  rw [run]
  cases c.scopes.lookup name with
  | none => exact ⟨_, rfl, rfl⟩
  | some e => exact call_silent name e.valueType count place _

theorem resolveType_looks {t : TypeExpr} (h : t.outline.All (Node.Names N)) :
    Looks N (resolveType t) (typeCourse t) := by
  intro c
  refine ⟨?_, t.named_lookups h⟩
  unfold resolveType typeCourse
  rw [run_meaning_bind, t.complaints_lookups]
  cases resolved : t.resolve c.scopes.lookup with
  | ok ty => exact ⟨[], (List.append_nil _).symm, rfl⟩
  | error e =>
      refine ⟨[.error e], rfl, ?_⟩
      have unknown := (typeExpr_error_at c.scopes.lookup t (within_anything _) e resolved).2
      obtain ⟨fault, place⟩ := e
      cases fault <;> first | rfl | cases unknown

theorem mentioned_looks {t : TypeExpr} (h : t.outline.All (Node.Names N)) :
    Looks N (mentioned t) (typeCourse t) :=
  (resolveType_looks h).last fun _ => looks_pure _

theorem genericTypes_looks {ts : List TypeExpr} (h : AllOf (Node.Names N) (typeOutlines ts)) :
    Looks N (genericTypes ts) (genericLookups ts) := by
  induction ts with
  | nil => exact looks_pure _
  | cons t ts ih =>
      exact (resolveType_looks h.1).along fun _ => (ih h.2).last fun _ => looks_pure _

/-- A write looks at the name that is written to, or at that of the object. -/
theorem uncomplaining_writeLookups {target : Expr} (h : target.outline.All (Node.Names N))
    (c : Checker) : Uncomplaining N (writeLookups target c) := by
  obtain ⟨form, place, height⟩ := target
  obtain ⟨here, below⟩ := h
  cases form with
  | identifier name => exact List.forall_mem_singleton.mpr ⟨here name List.mem_cons_self, rfl⟩
  | member object property computed =>
      cases computed with
      | true => exact List.forall_mem_nil _
      | false =>
          obtain ⟨form, place', height'⟩ := object
          obtain ⟨⟨here, -⟩, -⟩ := below
          cases form with
          | identifier name =>
              exact List.forall_mem_singleton.mpr ⟨here name List.mem_cons_self, rfl⟩
          | _ => exact List.forall_mem_nil _
  | _ => exact List.forall_mem_nil _

theorem writable_looks {target : Expr} (h : target.outline.All (Node.Names N)) :
    Looks N (writable target) (writeLookups target) := by
  intro c
  obtain ⟨found, run, refusals⟩ := writable_refuses target c
  refine Checker.looked_of_uncomplaining (uncomplaining_writeLookups h c) ⟨found, by rw [run], ?_⟩
  refine List.filter_eq_nil_iff.mpr fun f mem => Bool.not_eq_true _ ▸ ?_
  exact Finding.isOfName_of_isRefusal (refusals f mem)

/-! ### Expressions -/

mutual

theorem expr_looks :
    ∀ e : Expr, e.outline.All (Node.Names N) → Looks N (expr e) (exprLookups e)
  | ⟨form, place, _⟩, h => exprForm_looks place form h.1 h.2

theorem exprForm_looks (place : Location) {height : Nat} :
    ∀ form : ExprForm, (Node.expression ⟨form, place, height⟩).Names N →
      AllOf (Node.Names N) form.outlines → Looks N (exprForm place form) (formLookups place form)
  | .number .., _, _ | .string _, _, _ | .boolean _, _, _ | .null, _, _ | .undefined, _, _
  | .nan, _, _ => looks_pure _
  | .identifier name, here, _ =>
      resolveName_looks (here name List.mem_cons_self) place fun _ => silent_pure _
  | .this, _, _ => by
      have type : Silent thisType := silent_of_same fun _ => rfl
      refine Silent.looks (type.bind fun t => ?_)
      dsimp only
      split
      · exact (error_silent rfl).bind fun _ => silent_pure _
      · exact silent_pure _
  | .binary op left right, _, ⟨hl, hr, _⟩ => by
      refine (expr_looks left hl).along fun l => (expr_looks right hr).last fun r => ?_
      split
      · exact looks_pure _
      · exact looks_pure _
  | .logical _ left right, _, ⟨hl, hr, _⟩ =>
      (expr_looks left hl).along fun _ => (expr_looks right hr).last fun _ => looks_pure _
  | .conditional test yes no, _, ⟨ht, hy, hn, _⟩ =>
      (expr_looks test ht).along fun _ =>
        (expr_looks yes hy).along fun _ => (expr_looks no hn).last fun _ => looks_pure _
  | .unary op operand, _, ⟨h, _⟩ => by
      refine (expr_looks operand h).last fun t => ?_
      split
      · exact looks_pure _
      · exact looks_pure _
  | .update _ _ operand, _, ⟨h, _⟩ =>
      (expr_looks operand h).along fun _ => (writable_looks h).last fun _ => looks_pure _
  | .await operand, _, ⟨h, _⟩ => expr_looks operand h
  | .call callee generics args, _, ⟨hcallee, below⟩ => by
      obtain ⟨hgenerics, hargs⟩ := allOf_append.mp below
      have inside := expr_looks callee hcallee
      unfold exprForm formLookups
      refine (genericTypes_looks hgenerics).along fun _ =>
        (exprs_looks args hargs).along fun _ => ?_
      obtain ⟨form, location, height⟩ := callee
      cases form with
      | identifier name => exact callee_looks (hcallee.1 name List.mem_cons_self) _ _ _
      | member object property computed =>
          cases computed with
          | false =>
              refine inside.last fun t => ?_
              split
              · exact (call_silent _ _ _ _).looks
              · exact looks_pure _
          | true => exact inside.last fun _ => looks_pure _
      | _ => exact inside.last fun _ => looks_pure _
  | .member object property computed, _, ⟨hobject, hproperty⟩ => by
      unfold exprForm formLookups
      refine (expr_looks object hobject).along fun o => ?_
      cases computed with
      | true => exact (expr_looks property hproperty.1).last fun _ => looks_pure _
      | false => exact (memberType_silent _ _).looks
  | .array items, _, h => (exprs_looks items h).last fun _ => looks_pure _
  | .object properties, _, h => (propertyTypes_looks properties h).last fun _ => looks_pure _
  | .new className generics args, here, below => by
      obtain ⟨hgenerics, hargs⟩ := allOf_append.mp below
      refine (genericTypes_looks hgenerics).along fun _ =>
        (exprs_looks args hargs).along fun _ => ?_
      refine resolveName_looks (here className.text List.mem_cons_self) _ fun entry => ?_
      split
      · dsimp only
        split
        · exact (call_silent _ _ _ _).bind fun _ => silent_pure _
        · exact silent_pure _
      · exact (error_silent rfl).bind fun _ => silent_pure _
      · exact silent_pure _
  | .match_ value arms, _, ⟨hvalue, harms⟩ =>
      (expr_looks value hvalue).along fun subject =>
        (armTypes_looks subject arms harms).last fun _ => looks_pure _
  | .is subject _ target, _, ⟨hsubject, htarget, _⟩ =>
      (expr_looks subject hsubject).along fun _ =>
        (expr_looks target htarget).last fun _ => looks_pure _

theorem exprs_looks :
    ∀ es : List Expr, AllOf (Node.Names N) (exprOutlines es) →
      Looks N (exprs es) (exprsLookups es)
  | [], _ => looks_pure _
  | e :: es, ⟨he, hes⟩ =>
      (expr_looks e he).along fun _ => (exprs_looks es hes).last fun _ => looks_pure _

theorem propertyTypes_looks :
    ∀ ps : List Property, AllOf (Node.Names N) (propertyOutlines ps) →
      Looks N (propertyTypes ps) (propertiesLookups ps)
  | [], _ => looks_pure _
  | ⟨_, value, _⟩ :: ps, ⟨hvalue, hps⟩ =>
      (expr_looks value hvalue).along fun _ =>
        (propertyTypes_looks ps hps).last fun _ => looks_pure _

theorem armTypes_looks (subject : Option Ty) :
    ∀ arms : List MatchArm, AllOf (Node.Names N) (armOutlines arms) →
      Looks N (armTypes subject arms) (armsLookups subject arms)
  | [], _ => looks_pure _
  | ⟨p, body, _⟩ :: arms, ⟨hp, hbody, harms⟩ =>
      enterScope_silent.looks.after fun _ =>
        (pattern_looks subject p hp).along fun _ =>
          (expr_looks body hbody).along fun _ =>
            leaveLocalScope_silent.looks.after fun _ =>
              (armTypes_looks subject arms harms).last fun _ => looks_pure _

theorem pattern_looks (subject : Option Ty) :
    ∀ p : Pattern, p.outline.All (Node.Names N) →
      Looks N (pattern subject p) (patternLookups subject p)
  | ⟨form, place⟩, h => patternForm_looks subject place form h.1 h.2

theorem patternForm_looks (subject : Option Ty) (place : Location) :
    ∀ form : PatternForm, (Node.pattern ⟨form, place⟩).Names N →
      AllOf (Node.Names N) form.outlines →
      Looks N (patternForm subject place form) (patternFormLookups subject place form)
  | .literal _, _, _ | .range .., _, _ | .wildcard, _, _ => looks_pure _
  | .identifier name, here, _ =>
      resolveName_looks (here name List.mem_cons_self) place fun _ => silent_pure _
  | .member path, here, _ => by
      unfold patternForm patternFormLookups
      cases path with
      | nil => exact looks_pure _
      | cons name path =>
          exact resolveName_looks (here name List.mem_cons_self) place fun _ => silent_pure _
  | .binding _, _, _ => (declare_silent _ _).looks
  | .guarded p guard, _, ⟨hp, hguard, _⟩ =>
      (pattern_looks subject p hp).along fun _ =>
        (expr_looks guard hguard).last fun _ => looks_pure _

end

end Check
end ScriptFront
