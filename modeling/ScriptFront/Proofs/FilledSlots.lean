import ScriptFront.Proofs.ReportSlots

/-!
Checks fill the slots of what they check. Each expression, pattern, statement and class reports at
most one finding for each slot of its tree, whatever the names around it stand for; a name that is
declared can be reported as unread once its scope is left, and its slot is kept until then. So what
the check of a program reports twice has two slots in its tree. Which slots are filled is left open.
-/

namespace ScriptFront
namespace Check

variable {α β : Type} {m : Check α} {f : α → Check β}

/-! ### Types, values and calls -/

mutual

/-- The error of a written type has a slot of the type. -/
theorem slot_of_resolve (means : Meaning) : ∀ t : TypeExpr,
    Fails (fun e => (e.fault.kind, e.location) ∈ t.outline.slots) (t.resolve means)
  | ⟨form, place⟩ => slot_of_resolveForm means place form

theorem slot_of_resolveForm (means : Meaning) (place : Location) : ∀ form : TypeForm,
    Fails (fun e => (e.fault.kind, e.location) ∈ form.slots place ++ slotsOf form.outlines)
      (form.resolve means place)
  | .reference name generics => by
      refine fails_bind (fun e failed => List.mem_append_right (TypeForm.slots place _)
        (slot_of_resolveAll means generics e failed)) fun arguments => ?_
      split
      · exact fails_ok _
      · intro e failed
        cases failed
        exact List.mem_cons_self ..
  | .array t =>
      fails_bind (fun e failed => List.mem_append_left [] (slot_of_resolve means t e failed))
        fun _ => fails_ok _
  | .union l r | .intersection l r =>
      fails_bind (fun e failed => List.mem_append_left (slotsOf [r.outline])
        (slot_of_resolve means l e failed)) fun _ =>
        fails_bind (fun e failed => List.mem_append_right l.outline.slots
          (List.mem_append_left [] (slot_of_resolve means r e failed))) fun _ => fails_ok _
  | .infer | .void | .null | .undefined => fails_ok _

theorem slot_of_resolveAll (means : Meaning) : ∀ ts : List TypeExpr,
    Fails (fun e => (e.fault.kind, e.location) ∈ slotsOf (typeOutlines ts))
      (resolveAll means ts)
  | [] => fails_ok _
  | t :: ts =>
      fails_bind (fun e failed => List.mem_append_left _ (slot_of_resolve means t e failed))
        fun _ => fails_bind (fun e failed => List.mem_append_right t.outline.slots
          (slot_of_resolveAll means ts e failed)) fun _ => fails_ok _

end

/-- A single report fills any slots that have one for it. -/
theorem error_fills_of_mem {fault : SemanticFault} {place : Location} {slots : List Slot}
    (h : (fault.kind, place) ∈ slots) : Fills slots (error fault place) :=
  (error_fills fault place).weaken (List.singleton_sublist.mpr h).count_le

theorem resolveType_fills (t : TypeExpr) : Fills t.outline.slots (resolveType t) := by
  refine (fills_of_same fun _ => rfl : Fills [] meaning).next fun means => ?_
  cases failed : t.resolve means with
  | ok ty => exact (fills_pure _).none _
  | error e =>
      exact (error_fills_of_mem (slot_of_resolve means t e failed)).last fun _ => fills_pure _

theorem genericTypes_fills (ts : List TypeExpr) :
    Fills (slotsOf (typeOutlines ts)) (genericTypes ts) := by
  induction ts with
  | nil => exact fills_pure _
  | cons t ts ih => exact (resolveType_fills t).bind fun _ => ih.last fun _ => fills_pure _

theorem assignable?_fills (found expected : Option Ty) (place : Location) :
    Fills [(.type, place)] (assignable? found expected place) := by
  unfold assignable? assignable
  split
  · split
    · exact error_fills_of_mem (List.mem_singleton.mpr rfl)
    · exact (fills_pure _).none _
  · exact (fills_pure _).none _

theorem call_fills (name : String) (callee : Ty) (count : Nat) (place : Location) :
    Fills [(.argumentCountMismatch, place)] (call name callee count place) := by
  unfold call
  split
  · dsimp only
    split
    · refine (error_fills_of_mem ?_).last fun _ => fills_pure _
      exact List.mem_singleton.mpr rfl
    · exact (fills_pure _).none _
  · exact (fills_pure _).none _

theorem classMember_fills (className member : String) : Fills [] (classMember className member) :=
  fills_of_same fun _ => rfl

theorem memberType_fills (object : Option Ty) (property : Expr) :
    Fills [] (memberType object property) := by
  unfold memberType
  split
  · exact (classMember_fills _ _).next fun _ => fills_pure _
  · exact fills_pure _
  · exact fills_pure _

/-- A write is refused for what the target is, or not at all. -/
theorem writable_fills (target : Expr) : Fills target.writeSlots (writable target) := by
  obtain ⟨form, place, height⟩ := target
  have refused (fault : WriteFault) : Fills [(.invalidAssignment, place)]
      (error (.invalidAssignment fault) place) := error_fills (.invalidAssignment fault) place
  cases form with
  | identifier name =>
      refine (lookup_fills name).next fun entry => ?_
      cases nameFault? name entry with
      | some fault => exact refused fault
      | none => exact (fills_pure _).none _
  | member object property computed =>
      cases computed with
      | true => exact fills_pure _
      | false =>
          cases direct : isDirect object with
          | true =>
              have slots : Expr.writeSlots ⟨.member object property false, place, height⟩
                  = [(.invalidAssignment, place)] := if_pos direct
              have type : Fills [] (objectType object) := by
                unfold objectType
                split
                · exact fills_of_same fun _ => rfl
                · exact (lookup_fills _).next fun _ => fills_pure _
                · exact fills_pure _
              rw [slots]
              refine type.next fun type => ?_
              split
              · refine (classMember_fills _ _).next fun found => ?_
                split
                · intro c
                  rw [run_get_bind]
                  dsimp only
                  split
                  · exact refused _ c
                  · exact (fills_pure _).none _ c
                · exact (fills_pure _).none _
              · exact (fills_pure _).none _
          | false =>
              refine (fills_of_same fun c => ?_).none _
              unfold writable
              dsimp only
              rw [StateT.run_bind, objectType_of_not_isDirect direct]
              cases property.form <;> rfl
  | _ => exact fills_pure _

/-- A name that stands for nothing, and one that stands for no class, are reported in one place. -/
theorem created_fills (className : Ident) (generics : List Ty) (count : Nat) (place : Location) :
    Fills [(.reference, className.location), (.argumentCountMismatch, place)]
      (created className generics count place) := by
  unfold created resolveName
  simp only [bind_assoc]
  refine (readName_fills className.text).next fun entry => ?_
  cases entry with
  | none =>
      have unknown := error_fills (.undefinedReference className.text) className.location
      exact (unknown.last fun _ => fills_pure (none : Option Ty)).weaken
        (List.sublist_append_left [_] [_]).count_le
  | some e =>
      cases e with
      | cls c =>
          have le := (List.sublist_append_right [(DiagnosticKind.reference, className.location)]
            [(.argumentCountMismatch, place)]).count_le
          refine Fills.weaken ?_ le
          simp only [Option.isNone_some, Bool.false_eq_true, if_false, pure_bind]
          split
          · exact (call_fills _ _ _ _).last fun _ => fills_pure _
          · exact (fills_pure _).none _
      | _ =>
          have other := error_fills (.notAClass className.text) className.location
          exact (other.last fun _ => fills_pure (none : Option Ty)).weaken
            (List.sublist_append_left [_] [_]).count_le

/-- A name is reported as unread where it is declared, if at all. -/
theorem pending_sublist {e : Entry} {place : Location} (here : e.location = some place) :
    e.pending.Sublist [(e.unread, place)] := by
  unfold Entry.pending unusedWarning?
  dsimp only
  rw [here]
  split
  · split
    · exact List.nil_sublist _
    · cases e <;> exact List.Sublist.refl _
  · exact List.nil_sublist _

theorem declare_var_fills {v : VariableEntry} (name : Ident)
    (here : v.location = some name.location) :
    Fills (name.slots .unusedDeclaration) (declare (.var v) name.location) :=
  (declare_fills (.var v) name.location).weaken
    (List.Sublist.cons_cons _ (pending_sublist (e := .var v) here)).count_le

theorem declare_param_fills {v : VariableEntry} (name : Ident)
    (here : v.location = some name.location) :
    Fills (name.slots .unusedParameter) (declare (.param v) name.location) :=
  (declare_fills (.param v) name.location).weaken
    (List.Sublist.cons_cons _ (pending_sublist (e := .param v) here)).count_le

mutual

theorem expr_fills : ∀ e : Expr, Fills e.outline.slots (expr e)
  | ⟨form, place, _⟩ => exprForm_fills place form

theorem exprForm_fills (place : Location) : ∀ form : ExprForm,
    Fills (form.slots place ++ slotsOf form.outlines) (exprForm place form)
  | .number .. | .string _ | .boolean _ | .null | .undefined | .nan => fills_pure _
  | .identifier name =>
      ((resolveName_fills name place).last fun _ => fills_pure _).weaken
        (List.sublist_append_left [_] [_]).count_le
  | .this => by
      refine (fills_of_same fun _ => rfl : Fills [] thisType).next fun t => ?_
      dsimp only
      split
      · exact (error_fills .thisOutsideClass place).last fun _ => fills_pure _
      · exact (fills_pure _).none _
  | .binary op left right => by
      refine (expr_fills left).bind fun l => (expr_fills right).bind fun r => ?_
      split
      · exact fills_pure _
      · exact fills_pure _
  | .logical _ left right =>
      (expr_fills left).bind fun _ => (expr_fills right).bind fun _ => fills_pure _
  | .conditional test yes no =>
      (expr_fills test).bind fun _ =>
        (expr_fills yes).bind fun _ => (expr_fills no).bind fun _ => fills_pure _
  | .unary op operand => by
      refine (expr_fills operand).bind fun t => ?_
      split
      · exact fills_pure _
      · exact fills_pure _
  | .update _ _ operand => by
      have inside := (expr_fills operand).bind fun t =>
        (writable_fills operand).last fun _ => fills_pure t
      refine inside.weaken fun x => ?_
      simp only [ExprForm.slots, ExprForm.outlines, slotsOf, List.count_append]
      omega
  | .await operand => (expr_fills operand).weaken (List.sublist_append_left _ _).count_le
  | .call callee generics args => by
      have checked := expr_fills callee
      have whole : Fills (slotsOf (typeOutlines generics) ++ (slotsOf (exprOutlines args) ++
          (callee.outline.slots ++ [(.argumentCountMismatch, place)])))
          (exprForm place (.call callee generics args)) := by
        refine (genericTypes_fills generics).bind fun _ => (exprs_fills args).bind fun _ => ?_
        split
        · next name form =>
          refine ((readName_fills name).next fun entry => ?_)
          split
          · exact (call_fills _ _ _ _).weaken (List.sublist_append_right _ _).count_le
          · refine (error_fills_of_mem (List.mem_append_left _ ?_)).last fun _ => fills_pure _
            obtain ⟨_, location, height⟩ := callee
            cases form
            exact List.mem_cons_of_mem _ (List.mem_cons_self ..)
        · refine checked.bind fun t => ?_
          split
          · exact call_fills _ _ _ _
          · exact (fills_pure _).none _
        · exact checked.bind fun _ => (fills_pure _).none _
      refine whole.weaken fun x => ?_
      simp only [ExprForm.slots, ExprForm.outlines, slotsOf, slotsOf_append, List.count_append]
      omega
  | .member object property computed => by
      cases computed with
      | true =>
          exact (expr_fills object).bind fun o => (expr_fills property).bind fun _ => fills_pure _
      | false => exact (expr_fills object).bind fun o => memberType_fills _ _
  | .array items => (exprs_fills items).last fun _ => fills_pure _
  | .object properties => (propertyTypes_fills properties).last fun _ => fills_pure _
  | .new className generics args => by
      have whole := (genericTypes_fills generics).bind fun gs => (exprs_fills args).bind fun _ =>
        created_fills className gs args.length place
      refine whole.weaken fun x => ?_
      simp only [ExprForm.slots, ExprForm.outlines, slotsOf_append, List.count_append]
      omega
  | .match_ value arms =>
      (expr_fills value).bind fun subject =>
        (armTypes_fills subject arms).last fun _ => fills_pure _
  | .is subject _ target =>
      (expr_fills subject).bind fun _ => (expr_fills target).bind fun _ => fills_pure _

theorem exprs_fills : ∀ es : List Expr, Fills (slotsOf (exprOutlines es)) (exprs es)
  | [] => fills_pure _
  | e :: es => (expr_fills e).bind fun _ => (exprs_fills es).last fun _ => fills_pure _

theorem propertyTypes_fills :
    ∀ ps : List Property, Fills (slotsOf (propertyOutlines ps)) (propertyTypes ps)
  | [] => fills_pure _
  | ⟨_, value, _⟩ :: ps =>
      (expr_fills value).bind fun _ => (propertyTypes_fills ps).last fun _ => fills_pure _

theorem armTypes_fills (subject : Option Ty) :
    ∀ arms : List MatchArm, Fills (slotsOf (armOutlines arms)) (armTypes subject arms)
  | [] => fills_pure _
  | ⟨p, body, _⟩ :: arms => by
      have arm := (pattern_fills subject p).bind fun _ => expr_fills body
      have whole := arm.within fun t => (armTypes_fills subject arms).last fun ts =>
        fills_pure (t :: ts)
      simp only [bind_assoc, List.append_assoc] at whole
      exact whole

theorem pattern_fills (subject : Option Ty) :
    ∀ p : Pattern, Fills p.outline.slots (pattern subject p)
  | ⟨form, place⟩ => patternForm_fills subject place form

theorem patternForm_fills (subject : Option Ty) (place : Location) : ∀ form : PatternForm,
    Fills (form.slots place ++ slotsOf form.outlines) (patternForm subject place form)
  | .literal _ | .range .. | .wildcard => fills_pure _
  | .identifier name => (resolveName_fills name place).last fun _ => fills_pure _
  | .member path => by
      unfold patternForm
      split
      · exact (resolveName_fills _ place).last fun _ => fills_pure _
      · exact (fills_pure _).none _
  | .binding name => declare_var_fills ⟨name, place⟩ rfl
  | .guarded p guard =>
      (pattern_fills subject p).bind fun _ => (expr_fills guard).bind fun _ => fills_pure _

end

/-! ### Declarations -/

theorem fills_each {γ : Type} {f : γ → Check Unit} {slot : γ → Slot}
    (h : ∀ a, Fills [slot a] (f a)) (l : List γ) : Fills (l.map slot) (l.forM f) :=
  List.map_eq_flatMap ▸ fills_forM h l

theorem fills_none_forM {γ : Type} {f : γ → Check Unit} (h : ∀ a, Fills [] (f a)) (l : List γ) :
    Fills [] (l.forM f) := by
  induction l with
  | nil => exact fills_pure _
  | cons a l ih => exact (h a).next fun _ => ih

theorem declareGenerics_fills (generics : List Ident) :
    Fills (generics.map Ident.taken) (declareGenerics generics) := by
  have one (g : Ident) : Fills [g.taken] (declare (.ofGeneric g.text g.location) g.location) :=
    declare_fills (.ofGeneric g.text g.location) g.location
  exact fills_each one generics

/-- What a statement declares ahead is no variable, and has one slot. -/
theorem provisional?_slots {s : Statement} {name : Ident} {e : Entry}
    (h : s.provisional? = some (name, e)) : s.form.aheadSlots = [name.taken] ∧ e.pending = [] := by
  obtain ⟨form, place⟩ := s
  cases form <;> cases h <;> exact ⟨rfl, rfl⟩

theorem declareAhead_fills (ss : List Statement) :
    Fills (ss.flatMap (·.form.aheadSlots)) (declareAhead ss) := by
  induction ss with
  | nil => exact fills_pure _
  | cons s ss rest =>
      unfold declareAhead
      split
      · exact rest.weaken (List.sublist_append_right _ _).count_le
      · next name e declared =>
          obtain ⟨ahead, untracked⟩ := provisional?_slots declared
          rw [List.flatMap_cons, ahead]
          intro c
          rw [run_get_bind]
          have step := declare_fills e name.location c
          rw [untracked] at step
          split
          · next scopes free =>
              rw [run_declare_free free] at step
              exact step.trans ((rest.last fun _ => fills_pure _) { c with scopes := scopes })
          · exact ((error_fills (.redeclaration name.text) name.location).bind fun _ => rest) c

theorem completeEntry_fills (s : Statement) : Fills [] (completeEntry s) := by
  refine (fills_of_same fun _ => rfl : Fills [] meaning).next fun means => ?_
  split
  · next e completed =>
      have untracked : e.isTracked = false := by
        obtain ⟨form, place⟩ := s
        cases form <;> cases completed <;> rfl
      exact fun c => complete_filled c untracked
  · exact fills_pure _

theorem hoist_fills (body : List Statement) :
    Fills (body.flatMap (·.form.aheadSlots)) (hoist body) :=
  (declareAhead_fills body).last fun _ => fills_none_forM completeEntry_fills _

theorem optionalExpr_fills (e : Option Expr) :
    Fills (slotsOf (ScriptFront.optionalExpr e)) (optionalExpr e) := by
  cases e with
  | none => exact fills_pure _
  | some e => exact (expr_fills e).weaken (List.sublist_append_left _ _).count_le

theorem patterns_fills (subject : Option Ty) (ps : List Pattern) :
    Fills (slotsOf (ps.map Pattern.outline)) (ps.forM (pattern subject)) :=
  slotsOf_map Pattern.outline ps ▸ fills_forM (pattern_fills subject) ps

theorem variableType_fills (d : VariableDeclaration) :
    Fills (slotsOf (ScriptFront.optionalExpr d.init) ++ (d.type.outline.slots ++
      d.init.toList.map Expr.valueSlot)) (variableType d) := by
  refine (optionalExpr_fills d.init).bind fun found => ?_
  split
  · exact (fills_pure _).none _
  · refine (resolveType_fills _).bind fun _ => ?_
    dsimp only
    cases d.init with
    | none => exact fills_pure _
    | some init => exact (assignable?_fills _ _ _).last fun _ => fills_pure _

theorem varGroup_fills (d : VariableDeclaration) :
    Fills ((StatementForm.varGroup d).slots ++ slotsOf (StatementForm.varGroup d).outlines)
      (varGroup d) := by
  have one (type : Ty) (name : Ident) : Fills (name.slots .unusedDeclaration)
      (declare (variableEntry d name type) name.location) := declare_var_fills _ rfl
  have whole := (variableType_fills d).bind fun type => fills_forM (one type) d.names
  rw [varGroup_eq]
  refine whole.weaken fun x => ?_
  simp only [StatementForm.slots, StatementForm.outlines, slotsOf, List.count_append]
  omega

theorem property_fills (d : PropertyDefinition) :
    Fills ((MemberForm.property d).slots ++ slotsOf (MemberForm.property d).outlines)
      (property d) := by
  obtain ⟨name, type, init⟩ := d
  cases init with
  | none =>
      have value (declared : Option Ty) : Fills [] (pure () : Check Unit) := fills_pure ()
      unfold property
      dsimp only
      split
      · exact ((fills_pure none).bind value).none _
      · exact (resolveType_fills type).bind value
  | some init =>
      have value (declared : Option Ty) : Fills (init.outline.slots ++ [init.valueSlot]) (do
          assignable? (← expr init) declared init.location) :=
        (expr_fills init).bind fun _ => assignable?_fills _ _ _
      have whole : Fills (type.outline.slots ++ (init.outline.slots ++ [init.valueSlot]))
          (property ⟨name, type, some init⟩) := by
        unfold property
        dsimp only
        split
        · exact ((fills_pure none).none _).bind value
        · exact (resolveType_fills type).bind value
      refine whole.weaken fun x => ?_
      simp only [MemberForm.slots, MemberForm.outlines, ScriptFront.optionalExpr, slotsOf,
        List.count_append, Option.toList_some, List.map_cons, List.map_nil]
      omega

theorem params_fills (ps : List Param) : Fills (slotsOf (ps.map Param.outline)) (params ps) := by
  have one (p : Param) : Fills p.outline.slots (do
      let type := (← resolveType p.type).getD .inferred
      declare (.param (localVariable p.name.text type p.name.location)) p.name.location) := by
    have declared (type : Ty) : Fills (p.name.slots .unusedParameter) (declare
        (.param (localVariable p.name.text type p.name.location)) p.name.location) :=
      declare_param_fills _ rfl
    have whole := (resolveType_fills p.type).bind fun type => declared (type.getD .inferred)
    refine Fills.weaken whole fun x => ?_
    simp only [Param.outline, Outline.slots, slotsOf, Node.slots, Ident.slots, Ident.taken,
      List.count_append]
    omega
  exact slotsOf_map Param.outline ps ▸ fills_forM one ps

theorem caught_fills (type : TypeExpr) (name : Ident) :
    Fills (type.outline.slots ++ name.slots .unusedDeclaration) (caught type name) :=
  (resolveType_fills type).bind fun _ => declare_var_fills _ rfl

theorem structType_fills (d : TypeDeclaration) :
    Fills ((StatementForm.structType d).slots ++ slotsOf (StatementForm.structType d).outlines)
      (structType d) := by
  have field (f : TypeField) : Fills f.type.outline.slots (do let _ ← resolveType f.type) :=
    (resolveType_fills f.type).last fun _ => fills_pure _
  have inside := (declareGenerics_fills d.generics).bind fun _ => fills_forM field d.fields
  rw [← slotsOf_map] at inside
  exact fun c => leaveScope_filled (inside { c with scopes := c.scopes.enter })

theorem parents_fills (superclass : Option TypeExpr) (interfaces : List TypeExpr) :
    Fills ((superclass.toList.map fun t => (.reference, t.location))
      ++ slotsOf (superclass.toList.map TypeExpr.outline ++ typeOutlines interfaces))
      (parents superclass interfaces) := by
  have one (t : TypeExpr) : Fills t.outline.slots (do let _ ← resolveType t) :=
    (resolveType_fills t).last fun _ => fills_pure _
  have others := fills_forM one interfaces
  rw [← slotsOf_map, ← typeOutlines_eq] at others
  unfold parents
  dsimp only
  cases superclass with
  | none => exact others
  | some t =>
      let refused : List Slot := [(.reference, t.location)]
      suffices whole : Fills (t.outline.slots ++ (refused ++ slotsOf (typeOutlines interfaces)))
          _ from whole.weaken fun x => by
        simp only [refused, Option.toList_some, List.map_cons, List.map_nil, List.cons_append,
          List.nil_append, slotsOf, List.count_append, List.count_cons]
        omega
      refine (resolveType_fills t).bind fun type => ?_
      split
      · split
        · exact (error_fills (.notAClass _) t.location).bind fun _ => others
        · exact others.weaken (List.sublist_append_right _ _).count_le
      · exact others.weaken (List.sublist_append_right _ _).count_le

/-- A member that is known in its class has the slots of its name. -/
theorem sublist_nameSlots {c : ClassEntry} {m : ClassMember} {x : Entry × Location}
    (h : memberInScope? c m = some x) :
    ((.redeclaration, x.2) :: x.1.pending).Sublist m.form.nameSlots := by
  obtain ⟨modifiers, form, place⟩ := m
  cases form with
  | property d =>
      obtain ⟨v, -, rfl⟩ := Option.map_eq_some_iff.mp h
      exact List.Sublist.cons_cons _ (pending_sublist rfl)
  | method name signature body =>
      obtain ⟨f, -, rfl⟩ := Option.map_eq_some_iff.mp h
      exact List.Sublist.refl _
  | _ => cases h

theorem bodyEntries_fills (c : ClassEntry) (ms : List ClassMember) :
    Fills (ms.flatMap (·.form.nameSlots)) (bodyEntries c ms) := by
  have one (x : Entry × Location) : Fills ((.redeclaration, x.2) :: x.1.pending)
      (declare x.1 x.2) := declare_fills x.1 x.2
  refine (fills_forM one (ms.filterMap (memberInScope? c))).weaken fun y =>
    List.Sublist.count_le y ?_
  induction ms with
  | nil => exact List.Sublist.refl _
  | cons m ms ih =>
      rw [List.filterMap_cons, List.flatMap_cons]
      split
      · exact ih.trans (List.sublist_append_right _ _)
      · next known => exact (sublist_nameSlots known).append ih

theorem callableHead_fills (generics : List Ident) (ps : List Param) (returns : Option TypeExpr) :
    Fills (generics.map Ident.taken ++
      (slotsOf (returns.toList.map TypeExpr.outline) ++ slotsOf (ps.map Param.outline))) (do
      declareGenerics generics
      match returns with
      | some t => let _ ← resolveType t
      | none => pure ()
      params ps) := by
  refine (declareGenerics_fills generics).bind fun _ => ?_
  cases returns with
  | some t =>
      have whole := (resolveType_fills t).bind fun _ => params_fills ps
      refine whole.weaken fun x => ?_
      simp only [Option.toList_some, List.map_cons, List.map_nil, slotsOf, List.count_append]
      omega
  | none => exact params_fills ps

theorem alarm_fills (ended warned : Bool) (s : Statement) :
    Fills [(.unreachableCode, s.location)] (alarm ended warned s) := by
  unfold alarm
  split
  · exact warn_fills .unreachableCode s.location
  · exact (fills_pure _).none _

end Check

/-! ### Statements and classes -/

/-- The slots of a statement in a block, apart from those of a name that is declared ahead. -/
def Statement.laterSlots (s : Statement) : List Slot :=
  (.unreachableCode, s.location) :: (s.form.slots ++ slotsOf s.form.outlines)

/-- The slots of a member of a class, apart from those of its name. -/
def ClassMember.laterSlots (m : ClassMember) : List Slot := m.form.slots ++ slotsOf m.form.outlines

theorem count_statementSlots (ss : List Statement) (x : Slot) :
    (slotsOf (statementOutlines ss)).count x
      = (ss.flatMap (·.form.aheadSlots)).count x + (ss.flatMap Statement.laterSlots).count x := by
  induction ss with
  | nil => rfl
  | cons s ss ih =>
      obtain ⟨form, place⟩ := s
      simp only [statementOutlines, slotsOf, Statement.outline, Outline.slots, Node.slots,
        List.flatMap_cons, Statement.laterSlots, List.count_append, List.cons_append,
        List.count_cons] at ih ⊢
      omega

theorem count_memberSlots (ms : List ClassMember) (x : Slot) :
    (slotsOf (memberOutlines ms)).count x
      = (ms.flatMap (·.form.nameSlots)).count x + (ms.flatMap ClassMember.laterSlots).count x := by
  induction ms with
  | nil => rfl
  | cons m ms ih =>
      obtain ⟨modifiers, form, place⟩ := m
      simp only [memberOutlines, slotsOf, ClassMember.outline, Outline.slots, Node.slots,
        List.flatMap_cons, ClassMember.laterSlots, List.count_append] at ih ⊢
      omega

namespace Check

/-- The statements of a block, what they declare ahead included. -/
theorem hoisted_fills {body : List Statement} {ended warned : Bool}
    (h : Fills (body.flatMap Statement.laterSlots) (statements ended warned body)) :
    Fills (slotsOf (statementOutlines body)) (do
      hoist body
      statements ended warned body) :=
  ((hoist_fills body).bind fun _ => h).weaken fun x => Nat.le_of_eq (by
    rw [count_statementSlots, List.count_append])

mutual

theorem statement_fills : ∀ s : Statement,
    Fills (s.form.slots ++ slotsOf s.form.outlines) (statement s)
  | ⟨form, _⟩ => statementForm_fills form

theorem statementForm_fills : ∀ form : StatementForm,
    Fills (form.slots ++ slotsOf form.outlines) (statementForm form)
  | .varGroup d => varGroup_fills d
  | .assignment target value => by
      have whole := (expr_fills value).bind fun found => (expr_fills target).bind fun expected =>
        (writable_fills target).bind fun _ => assignable?_fills found expected value.location
      refine Fills.weaken whole fun x => ?_
      simp only [StatementForm.slots, StatementForm.outlines, slotsOf, List.count_append,
        Expr.valueSlot]
      omega
  | .expression e => by
      have alone : Fills [(.unusedExpression, e.location)]
          (if !hasEffect e then warn .unusedExpression e.location else pure ()) := by
        split
        · exact warn_fills .unusedExpression e.location
        · exact (fills_pure _).none _
      refine Fills.weaken ((expr_fills e).bind fun _ => alone) fun x => ?_
      simp only [StatementForm.slots, StatementForm.outlines, slotsOf, List.count_append]
      omega
  | .block b => (block_fills b).weaken (List.sublist_append_left _ _).count_le
  | .conditional test body elifs otherwise => by
      have whole := (expr_fills test).bind fun _ => (block_fills body).bind fun _ =>
        (elifClauses_fills elifs).bind fun _ => optionalBlock_fills otherwise
      rw [← slotsOf_append] at whole
      exact whole
  | .whileLoop test body => by
      refine ((expr_fills test).bind fun _ => block_fills body).weaken fun x => ?_
      simp only [StatementForm.slots, StatementForm.outlines, slotsOf, List.count_append]
      omega
  | .forLoop init test update body => by
      have inside := (optionalStatement_fills init).bind fun _ =>
        (optionalExpr_fills test).bind fun _ =>
          (optionalStatement_fills update).bind fun _ => block_fills body
      have whole := inside.scope
      simp only [bind_assoc] at whole
      refine Fills.weaken whole fun x => ?_
      simp only [StatementForm.slots, StatementForm.outlines, slotsOf_append, slotsOf,
        List.count_append]
      omega
  | .returns value => (optionalExpr_fills value).last fun _ => fills_pure _
  | .breaks | .continues => fills_pure _
  | .throws value => (expr_fills value).bind fun _ => fills_pure _
  | .tryCatch body handlers ⟨last, _⟩ => by
      have whole := (block_fills body).bind fun _ => (catchClauses_fills handlers).bind fun _ =>
        block_fills last
      refine Fills.weaken whole fun x => ?_
      simp only [StatementForm.slots, StatementForm.outlines, slotsOf_append, slotsOf,
        List.count_append]
      omega
  | .switch value cases otherwise => by
      have whole := (expr_fills value).bind fun subject =>
        (switchCases_fills subject cases).bind fun _ => defaultCase_fills subject otherwise
      rw [← slotsOf_append] at whole
      exact whole
  | .function ⟨_, _, signature, body⟩ => by
      refine (callable_fills _ _ (some signature.returns) body).weaken fun x => ?_
      simp only [StatementForm.slots, StatementForm.outlines, Signature.outlines, slotsOf_append,
        slotsOf, Option.toList_some, List.map_cons, List.map_nil, List.count_append]
      omega
  | .classType ⟨_, name, generics, superclass, interfaces, members⟩ => by
      intro c
      have entered (known : ClassEntry) := (declareGenerics_fills generics).bind fun _ =>
        (parents_fills superclass interfaces).bind fun _ =>
          (bodyEntries_fills known members).bind fun _ =>
            (modify_fills (fun s => { s with classes := known :: s.classes })
              (fun _ => rfl) (fun _ => rfl) fun _ => rfl).next fun _ =>
                (classMembers_fills members).last fun _ =>
                  modify_fills (fun s => { s with classes := s.classes.tail })
                    (fun _ => rfl) (fun _ => rfl) fun _ => rfl
      unfold statementForm
      rw [run_lookup_bind]
      cases c.scopes.lookup name.text with
      | none => exact (fills_pure _).none _ c
      | some e =>
          cases e with
          | cls known =>
              have inside := entered known { c with scopes := c.scopes.enter }
              have left := leaveScope_filled inside
              refine Checker.Filled.weaken left fun x => ?_
              simp only [StatementForm.slots, StatementForm.outlines, slotsOf_append,
                count_memberSlots, List.count_append]
              omega
          | _ => exact (fills_pure _).none _ c
  | .structType d => structType_fills d

theorem statements_fills (ended warned : Bool) : ∀ ss : List Statement,
    Fills (ss.flatMap Statement.laterSlots) (statements ended warned ss)
  | [] => fills_pure _
  | s :: ss => by
      have whole := (alarm_fills ended warned s).bind fun _ => (statement_fills s).bind fun _ =>
        statements_fills (ended || s.isTerminator) (warned || (ended && !warned)) ss
      rw [statements_cons]
      refine Fills.weaken whole fun x => ?_
      simp only [List.flatMap_cons, Statement.laterSlots, List.count_append, List.count_cons,
        List.cons_append, List.nil_append]
      omega

theorem optionalStatement_fills : ∀ s : Option Statement,
    Fills (slotsOf (ScriptFront.optionalStatement s)) (optionalStatement s)
  | none => fills_pure _
  | some ⟨form, place⟩ => by
      refine (statementForm_fills form).weaken fun x => ?_
      simp only [ScriptFront.optionalStatement, Statement.outline, slotsOf, Outline.slots,
        Node.slots, List.count_append, List.count_cons]
      omega

theorem block_fills : ∀ b : Block, Fills b.outline.slots (block b)
  | ⟨body, _⟩ => by
      have whole := (hoisted_fills (statements_fills false false body)).scope
      simp only [bind_assoc] at whole
      exact whole

theorem optionalBlock_fills : ∀ b : Option Block,
    Fills (slotsOf (ScriptFront.optionalBlock b)) (optionalBlock b)
  | none => fills_pure _
  | some b => (block_fills b).weaken (List.sublist_append_left _ _).count_le

theorem elifClauses_fills : ∀ clauses : List ElifClause,
    Fills (slotsOf (elifOutlines clauses)) (elifClauses clauses)
  | [] => fills_pure _
  | ⟨test, body, _⟩ :: clauses =>
      (expr_fills test).bind fun _ => (block_fills body).bind fun _ => elifClauses_fills clauses

theorem catchClauses_fills : ∀ handlers : List CatchClause,
    Fills ((handlers.flatMap fun h => h.name.slots .unusedDeclaration) ++
      slotsOf (catchOutlines handlers)) (catchClauses handlers)
  | [] => fills_pure _
  | ⟨type, name, body, _⟩ :: handlers => by
      have inside := (caught_fills type name).bind fun _ => block_fills body
      intro c
      have first := leaveScope_filled (inside { c with scopes := c.scopes.enter })
      refine Checker.Filled.weaken (first.trans (catchClauses_fills handlers _)) fun x => ?_
      simp only [catchOutlines, slotsOf, List.flatMap_cons, List.count_append]
      omega

theorem switchCases_fills (subject : Option Ty) : ∀ cases : List SwitchCase,
    Fills (slotsOf (caseOutlines cases)) (switchCases subject cases)
  | [] => fills_pure _
  | ⟨patterns, body, _⟩ :: cases => by
      have inside := (patterns_fills subject patterns).bind fun _ =>
        hoisted_fills (statements_fills false false body)
      have whole := inside.within fun _ => switchCases_fills subject cases
      simp only [bind_assoc] at whole
      rw [caseOutlines, slotsOf_append, slotsOf_append]
      exact whole

theorem defaultCase_fills (subject : Option Ty) : ∀ otherwise : Option SwitchCase,
    Fills (slotsOf (optionalCase otherwise)) (defaultCase subject otherwise)
  | none => fills_pure _
  | some ⟨patterns, body, _⟩ => by
      have inside := (patterns_fills subject patterns).bind fun _ =>
        hoisted_fills (statements_fills false false body)
      have whole := inside.scope
      simp only [bind_assoc] at whole
      rw [optionalCase, slotsOf_append]
      exact whole

theorem callable_fills (generics : List Ident) (ps : List Param) (returns : Option TypeExpr) :
    ∀ b : Block, Fills (generics.map Ident.taken ++
      (slotsOf (returns.toList.map TypeExpr.outline) ++ slotsOf (ps.map Param.outline))
        ++ b.outline.slots) (callable generics ps returns b)
  | ⟨body, place⟩ => by
      have inside := (callableHead_fills generics ps returns).bind fun _ =>
        hoisted_fills (statements_fills false false body)
      have whole := inside.scope
      cases returns with
      | some t =>
          simp only [bind_assoc] at whole
          exact whole
      | none =>
          simp only [bind_assoc] at whole
          exact whole

theorem classMembers_fills : ∀ ms : List ClassMember,
    Fills (ms.flatMap ClassMember.laterSlots) (classMembers ms)
  | [] => fills_pure _
  | ⟨_, form, _⟩ :: ms => (memberForm_fills form).bind fun _ => classMembers_fills ms

theorem memberForm_fills : ∀ form : MemberForm,
    Fills (form.slots ++ slotsOf form.outlines) (memberForm form)
  | .constructor ps body => by
      have whole := (modify_fills (fun s => { s with inConstructor := true })
        (fun _ => rfl) (fun _ => rfl) fun _ => rfl).next fun _ =>
          (callable_fills [] ps none body).last fun _ =>
            modify_fills (fun s => { s with inConstructor := false })
              (fun _ => rfl) (fun _ => rfl) fun _ => rfl
      refine Fills.weaken whole fun x => ?_
      simp only [MemberForm.slots, MemberForm.outlines, slotsOf_append, slotsOf, List.map_nil,
        Option.toList_none, List.count_append, List.count_nil]
      omega
  | .method _ signature body | .operator _ _ signature body => by
      refine (callable_fills _ _ (some signature.returns) body).weaken fun x => ?_
      simp only [MemberForm.slots, MemberForm.outlines, Signature.outlines, slotsOf_append,
        slotsOf, Option.toList_some, List.map_cons, List.map_nil, List.count_append]
      omega
  | .property d => property_fills d

end

end Check
end ScriptFront
