import ScriptFront.Proofs.CheckCourses
import ScriptFront.Proofs.FrameNames

/-!
Names that are never read. Whatever a check does to the frames around it, it does what the tree of
scopes of its part of the program says: it declares and marks the names that the tree declares and
uses, and it warns of the names that no use in the tree belongs to. Types play no part in this, and
neither does what else is reported.
-/

namespace ScriptFront

/-! ### Checks that see what a tree says -/

theorem LocalName.isUnread_of_warning? {d : LocalName} {w : Warning} {place : Location}
    (h : d.warning? = some (w, place)) : (Finding.warning w place).isUnread = true := by
  unfold warning? at h
  split at h
  · cases h
  · split at h <;> cases h <;> rfl

/-- Warnings as findings. -/
def warnings (ws : List (Warning × Location)) : List Finding :=
  ws.map fun (w, place) => .warning w place

/--
A check came from one state to another one as some acts say: they tell what became of the frames,
and which names were found to be unread.
-/
structure Checker.Seen (c d : Checker) (acts : List Act) : Prop where
  sight : d.scopes.sight = NameFrame.after (settleAll c.scopes.around acts) c.scopes.sight
  found : ∃ found, d.findings = c.findings ++ found ∧
    found.filter (·.isUnread) = warnings (unreadIn isUnmentioned (settleAll c.scopes.around acts))

namespace Checker

variable {c d e : Checker} {acts more : List Act}

theorem Seen.around (h : c.Seen d acts) :
    d.scopes.around = namesAfter (settleAll c.scopes.around acts) c.scopes.around := by
  rw [Scopes.around, h.sight, NameFrame.names_after]
  rfl

theorem Seen.trans (h : c.Seen d acts) (h' : d.Seen e more) : c.Seen e (acts ++ more) := by
  obtain ⟨found, first, here⟩ := h.found
  obtain ⟨found', second, there⟩ := h'.found
  rw [h.around] at there
  refine ⟨?_, found ++ found', ?_, ?_⟩
  · rw [settleAll_append, NameFrame.after_append, ← h.sight, ← h.around, h'.sight]
  · rw [second, first, List.append_assoc]
  · rw [settleAll_append, unreadIn_append, List.filter_append, here, there, warnings, warnings,
      warnings, List.map_append]

/-- Acts count by what they come to. -/
theorem Seen.congr (h : c.Seen d acts)
    (same : settleAll c.scopes.around acts = settleAll c.scopes.around more) : c.Seen d more := by
  obtain ⟨sight, found⟩ := h
  rw [same] at sight found
  exact ⟨sight, found⟩

/-- A scope was entered and is left: its names are gone, and the scopes around know their reads. -/
theorem Seen.sight_leave (h : Checker.Seen { c with scopes := c.scopes.enter } d acts) (reports : Bool) :
    ∃ s, d.scopes.leave? = some s ∧
      s.sight = NameFrame.after (settleAll c.scopes.around [.scope reports acts]) c.scopes.sight := by
  have entered : c.scopes.enter.sight = .empty :: c.scopes.sight := rfl
  have sight := h.sight
  rw [entered] at sight
  have several : 1 < d.scopes.frames.length := by
    have length := congrArg List.length sight
    have names := congrArg List.length
      (NameFrame.names_after (settleAll ([] :: c.scopes.around) acts) (.empty :: c.scopes.sight))
    have nonempty := List.length_pos_of_ne_nil c.scopes.frames_ne_nil
    rw [List.length_map] at names
    rw [Scopes.sight, List.length_map] at length
    refine Nat.lt_of_lt_of_eq ?_ (length.trans names).symm
    simpa [namesAfter, Scopes.sight] using nonempty
  obtain ⟨s, left⟩ := Scopes.leave?_isSome several
  refine ⟨s, left, ?_⟩
  have tail : s.sight = d.scopes.sight.tail := by
    rw [Scopes.sight, Scopes.sight, Scopes.frames_leave left]
    rfl
  have items : settleAll c.scopes.around [.scope reports acts]
      = [.scope reports (settleAll ([] :: c.scopes.around) acts)] := rfl
  rw [items, NameFrame.after_scope, tail, sight]
  rfl

end Checker

namespace Check

variable {α β : Type} {m : Check α} {f : α → Check β} {acts more : List Act}

/-- A check that does what some acts say, in every state. -/
def Sees (m : Check α) (acts : List Act) : Prop := ∀ c : Checker, c.Seen (m.run c).2 acts

theorem Sees.bind (hm : Sees m acts) (hf : ∀ a, Sees (f a) more) :
    Sees (m >>= f) (acts ++ more) :=
  fun c => (hm c).trans (hf (m.run c).1 (m.run c).2)

/-- What comes last may do nothing. -/
theorem Sees.last (hm : Sees m acts) (hf : ∀ a, Sees (f a) []) : Sees (m >>= f) acts :=
  List.append_nil acts ▸ hm.bind hf

/-- What comes first may do nothing. -/
theorem Sees.next (hm : Sees m []) (hf : ∀ a, Sees (f a) acts) : Sees (m >>= f) acts :=
  hm.bind hf

theorem sees_of_same {c d : Checker} (same : d.scopes = c.scopes) {found : List Finding}
    (findings : d.findings = c.findings ++ found) (quiet : ∀ x ∈ found, x.isUnread = false) :
    c.Seen d [] := by
  refine ⟨?_, found, findings, ?_⟩
  · rw [settleAll, NameFrame.after_nil, same]
  · rw [List.filter_eq_nil_iff.mpr fun x mem => by rw [quiet x mem]; exact Bool.false_ne_true]
    rfl

theorem OnlyReports.sees (h : OnlyReports Finding.Plain m) : Sees m [] := by
  intro c
  obtain ⟨found, run, plain⟩ := h c
  rw [run]
  exact sees_of_same rfl rfl fun x mem => (plain x mem).2

theorem sees_pure (a : α) : Sees (pure a : Check α) [] := (onlyReports_pure a).sees

theorem error_sees {fault : SemanticFault} (h : fault.kind ≠ .invalidAssignment)
    (place : Location) : Sees (error fault place) [] := (error_plain h place).sees

/-- Refused writes are about nothing that is unread. -/
theorem writable_sees (target : Expr) : Sees (writable target) [] := by
  intro c
  obtain ⟨found, run, refusals⟩ := writable_refuses target c
  rw [run]
  refine sees_of_same rfl rfl fun x mem => ?_
  have kind : x.kind = .invalidAssignment := beq_iff_eq.mp (refusals x mem)
  rw [Finding.isUnread, kind]
  rfl

/-- A change of something else than scopes and findings. -/
theorem modify_sees (change : Checker → Checker) (scopes : ∀ c, (change c).scopes = c.scopes)
    (findings : ∀ c, (change c).findings = c.findings) : Sees (modify change : Check Unit) [] :=
  fun c => sees_of_same (scopes c) ((findings c).trans (List.append_nil _).symm) nofun

/-! ### Names -/

theorem readName_sees (name : String) (use : NameUse) :
    Sees (readName name) [.mention name use] := by
  intro c
  refine ⟨?_, [], (List.append_nil _).symm, rfl⟩
  exact (c.scopes.sight_markUsed name).trans (NameFrame.after_mention name use _).symm

theorem resolveName_sees (name : String) (place : Location) (use : NameUse) :
    Sees (resolveName name place) [.mention name use] := by
  refine (readName_sees name use).last fun entry => ?_
  dsimp only
  split
  · exact (error_sees (by simp [SemanticFault.kind]) _).next fun _ => sees_pure _
  · exact sees_pure _

theorem declare_sees (e : Entry) (place : Location) :
    Sees (declare e place) [.declares (.ofEntry e)] := by
  intro c
  obtain ⟨existing, taken, same⟩ | ⟨s, defined, sight⟩ := c.scopes.sight_define e
  · rw [run_declare_taken taken]
    refine ⟨same.symm, [.error ⟨.redeclaration existing.name, place⟩], rfl, rfl⟩
  · rw [run_declare_free defined]
    exact ⟨sight, [], (List.append_nil _).symm, rfl⟩

theorem declares_sees {γ : Type} {f : γ → Check Unit} {name : γ → LocalName}
    (h : ∀ a, Sees (f a) [.declares (name a)]) (l : List γ) :
    Sees (l.forM f) ((l.map name).map .declares) := by
  induction l with
  | nil => exact sees_pure _
  | cons a l ih => exact (h a).bind fun _ => ih

theorem declareGenerics_sees (generics : List Ident) :
    Sees (declareGenerics generics) ((genericNames generics).map .declares) := by
  have one (g : Ident) : Sees (declare (.ofGeneric g.text g.location) g.location)
      [.declares ⟨g.text, .other⟩] := declare_sees _ _
  exact declares_sees one generics

/-! ### Scopes -/

/-- A scope that reports nothing is left. -/
theorem leaveScope_seen {c d : Checker}
    (h : Checker.Seen { c with scopes := c.scopes.enter } d acts) :
    c.Seen (leaveScope.run d).2 [.scope false acts] := by
  obtain ⟨s, left, sight⟩ := h.sight_leave false
  have run : (leaveScope.run d).2 = { d with scopes := s } := by
    unfold leaveScope
    rw [run_get_bind, left]
    rfl
  obtain ⟨found, findings, unread⟩ := h.found
  rw [run]
  refine ⟨sight, found, findings, unread.trans (congrArg warnings ?_)⟩
  change _ = (unreadIn isUnmentioned _ ++ []) ++ []
  rw [List.append_nil, List.append_nil]
  rfl

theorem run_warnings (ws : List (Warning × Location)) (d : Checker) :
    (ws.forM fun (w, place) => warn w place).run d
      = ((), { d with findings := d.findings ++ warnings ws }) := by
  induction ws generalizing d with
  | nil => rw [warnings, List.map_nil, List.append_nil]; rfl
  | cons first ws ih =>
      obtain ⟨w, place⟩ := first
      refine (ih _).trans ?_
      rw [List.append_assoc]
      rfl

/-- A scope of local names is left with the warnings for those that no use belongs to. -/
theorem leaveLocalScope_seen {c d : Checker}
    (h : Checker.Seen { c with scopes := c.scopes.enter } d acts) :
    c.Seen (leaveLocalScope.run d).2 [.scope true acts] := by
  obtain ⟨s, left, sight⟩ := h.sight_leave true
  let items := settleAll ([] :: c.scopes.around) acts
  have current : d.scopes.current.sight = ⟨declaredNames items [], fun n => ownUse anyUse n items⟩ := by
    have frames := h.sight
    rw [Scopes.sight, Scopes.frames_eq, List.map_cons] at frames
    refine (List.cons.inj frames).1.trans ?_
    change (⟨declaredNames items [], fun n => false || ownUse anyUse n items⟩ : NameFrame) = _
    simp only [Bool.false_or]
  have unused : d.scopes.current.unused.filterMap unusedWarning? = unreadHere isUnmentioned items := by
    rw [Frame.unused_sight, current]
    rfl
  have run : (leaveLocalScope.run d).2 =
      { d with scopes := s, findings := d.findings ++ warnings (unreadHere isUnmentioned items) } := by
    unfold leaveLocalScope
    rw [run_get_bind, unused]
    change (leaveScope.run (((unreadHere isUnmentioned items).forM fun (w, place) => warn w place :
      Check Unit).run d).2).2 = _
    rw [run_warnings]
    unfold leaveScope
    rw [run_get_bind, left]
    rfl
  have local_ : (warnings (unreadHere isUnmentioned items)).filter (·.isUnread)
      = warnings (unreadHere isUnmentioned items) := by
    refine List.filter_eq_self.mpr fun x mem => ?_
    obtain ⟨⟨w, place⟩, inside, rfl⟩ := List.mem_map.mp mem
    obtain ⟨d, -, warned⟩ := List.mem_filterMap.mp inside
    exact LocalName.isUnread_of_warning? warned
  obtain ⟨found, findings, unread⟩ := h.found
  rw [run]
  refine ⟨sight, found ++ warnings (unreadHere isUnmentioned items), ?_, ?_⟩
  · rw [← List.append_assoc]
    exact congrArg (· ++ _) findings
  · rw [List.filter_append, unread, local_, warnings, warnings, ← List.map_append]
    refine congrArg warnings ?_
    change _ = (unreadIn isUnmentioned items ++ unreadHere isUnmentioned items) ++ []
    rw [List.append_nil]
    rfl

/-- A scope of local names, and what comes behind it. -/
theorem Sees.within (hm : Sees m acts) (hf : ∀ a, Sees (f a) more) :
    Sees (do
      enterScope
      let a ← m
      leaveLocalScope
      f a) (.scope true acts :: more) :=
  fun c => (leaveLocalScope_seen (hm { c with scopes := c.scopes.enter })).trans (hf _ _)

theorem Sees.scope {m : Check Unit} (hm : Sees m acts) :
    Sees (do
      enterScope
      m
      leaveLocalScope) [.scope true acts] :=
  fun c => leaveLocalScope_seen (hm { c with scopes := c.scopes.enter })

/-! ### Expressions -/

theorem created_sees (className : Ident) (generics : List Ty) (count : Nat) (place : Location) :
    Sees (created className generics count place) [.mention className.text .read] := by
  refine (resolveName_sees _ _ _).last fun entry => ?_
  split
  · dsimp only
    split
    · exact (call_plain _ _ _ _).sees.next fun _ => sees_pure _
    · exact sees_pure _
  · exact (error_sees (by simp [SemanticFault.kind]) _).next fun _ => sees_pure _
  · exact sees_pure _

mutual

theorem expr_sees : ∀ e : Expr, Sees (expr e) (exprActs e)
  | ⟨form, place, _⟩ => exprForm_sees place form

theorem exprForm_sees (place : Location) :
    ∀ form : ExprForm, Sees (exprForm place form) (formActs form)
  | .number .. | .string _ | .boolean _ | .null | .undefined | .nan => sees_pure _
  | .identifier name => (resolveName_sees name place .read).last fun _ => sees_pure _
  | .this => by
      refine thisType_onlyReports.sees.next fun t => ?_
      dsimp only
      split
      · exact (error_sees (by simp [SemanticFault.kind]) _).next fun _ => sees_pure _
      · exact sees_pure _
  | .binary op left right => by
      refine (expr_sees left).bind fun l => (expr_sees right).last fun r => ?_
      split
      · exact sees_pure _
      · exact sees_pure _
  | .logical _ left right =>
      (expr_sees left).bind fun _ => (expr_sees right).last fun _ => sees_pure _
  | .conditional test yes no =>
      (expr_sees test).bind fun _ =>
        (expr_sees yes).bind fun _ => (expr_sees no).last fun _ => sees_pure _
  | .unary op operand => by
      refine (expr_sees operand).last fun t => ?_
      split
      · exact sees_pure _
      · exact sees_pure _
  | .update _ _ operand =>
      (expr_sees operand).last fun _ => (writable_sees operand).next fun _ => sees_pure _
  | .await operand => expr_sees operand
  | .call callee generics args => by
      have inside := expr_sees callee
      refine (genericTypes_plain generics).sees.next fun _ => (exprs_sees args).bind fun _ => ?_
      obtain ⟨form, location, height⟩ := callee
      cases form with
      | identifier name =>
          refine (readName_sees name .read).last fun entry => ?_
          split
          · exact (call_plain _ _ _ _).sees
          · exact (error_sees (by simp [SemanticFault.kind]) _).next fun _ => sees_pure _
      | member object property computed =>
          cases computed with
          | false =>
              refine inside.last fun t => ?_
              split
              · exact (call_plain _ _ _ _).sees
              · exact sees_pure _
          | true => exact inside.last fun _ => sees_pure _
      | _ => exact inside.last fun _ => sees_pure _
  | .member object property computed => by
      refine (expr_sees object).bind fun o => ?_
      cases computed with
      | true => exact (expr_sees property).last fun _ => sees_pure _
      | false => exact (memberType_plain _ _).sees
  | .array items => (exprs_sees items).last fun _ => sees_pure _
  | .object properties => (propertyTypes_sees properties).last fun _ => sees_pure _
  | .new className generics args =>
      (genericTypes_plain generics).sees.next fun _ =>
        (exprs_sees args).bind fun _ => created_sees _ _ _ _
  | .match_ value arms =>
      (expr_sees value).bind fun subject => (armTypes_sees subject arms).last fun _ => sees_pure _
  | .is subject _ target =>
      (expr_sees subject).bind fun _ => (expr_sees target).last fun _ => sees_pure _

theorem exprs_sees : ∀ es : List Expr, Sees (exprs es) (exprsActs es)
  | [] => sees_pure _
  | e :: es => (expr_sees e).bind fun _ => (exprs_sees es).last fun _ => sees_pure _

theorem propertyTypes_sees : ∀ ps : List Property, Sees (propertyTypes ps) (propertiesActs ps)
  | [] => sees_pure _
  | ⟨_, value, _⟩ :: ps =>
      (expr_sees value).bind fun _ => (propertyTypes_sees ps).last fun _ => sees_pure _

theorem armTypes_sees (subject : Option Ty) :
    ∀ arms : List MatchArm, Sees (armTypes subject arms) (armsActs arms)
  | [] => sees_pure _
  | ⟨p, body, _⟩ :: arms => by
      have arm := (pattern_sees subject p).bind fun _ => expr_sees body
      have whole := arm.within fun t => (armTypes_sees subject arms).last fun ts =>
        sees_pure (t :: ts)
      simp only [bind_assoc] at whole
      exact whole

theorem pattern_sees (subject : Option Ty) :
    ∀ p : Pattern, Sees (pattern subject p) (patternActs p)
  | ⟨form, place⟩ => patternForm_sees subject place form

theorem patternForm_sees (subject : Option Ty) (place : Location) :
    ∀ form : PatternForm, Sees (patternForm subject place form) (patternFormActs place form)
  | .literal _ | .range .. | .wildcard => sees_pure _
  | .identifier name => (resolveName_sees name place .read).last fun _ => sees_pure _
  | .member path => by
      unfold patternForm patternFormActs
      cases path.head? with
      | some name => exact (resolveName_sees name place .read).last fun _ => sees_pure _
      | none => exact sees_pure _
  | .binding _ => declare_sees _ _
  | .guarded p guard =>
      (pattern_sees subject p).bind fun _ => (expr_sees guard).last fun _ => sees_pure _

end

/-! ### Statements and classes -/

/-- What is declared ahead of a block is what its statements declare ahead. -/
theorem hoist_sees (body : List Statement) : Sees (hoist body) (aheadActs body) := by
  intro c
  obtain ⟨sight, found, findings, kinds⟩ := sight_hoist body c
  have settled := settleAll_declares (body.filterMap Statement.aheadLocal?) c.scopes.around
  have frames : c.scopes.sight = c.scopes.current.sight :: c.scopes.outer.map Frame.sight := by
    rw [Scopes.sight, Scopes.frames_eq, List.map_cons]
  refine ⟨?_, found, findings, ?_⟩
  · rw [aheadActs, settled, frames, NameFrame.after_declares]
    exact sight
  · rw [aheadActs, settled, unreadIn_declares]
    refine List.filter_eq_nil_iff.mpr fun x mem => ?_
    rw [Finding.isUnread, kinds x mem]
    exact Bool.false_ne_true

theorem optionalExpr_sees : ∀ e : Option Expr, Sees (optionalExpr e) (optionalActs e)
  | none => sees_pure _
  | some e => expr_sees e

theorem patterns_sees (subject : Option Ty) (ps : List Pattern) :
    Sees (ps.forM (pattern subject)) (ps.flatMap patternActs) := by
  induction ps with
  | nil => exact sees_pure _
  | cons p ps ih => exact (pattern_sees subject p).bind fun _ => ih

/-- A check of a target reads its name all the same. -/
theorem target_sees (target : Expr) : Sees (expr target) (targetActs target) := by
  have whole := expr_sees target
  obtain ⟨form, place, height⟩ := target
  cases form with
  | identifier name => exact (resolveName_sees name place .target).last fun _ => sees_pure _
  | _ => exact whole

theorem variableType_sees (d : VariableDeclaration) :
    Sees (variableType d) (optionalActs d.init) := by
  refine (optionalExpr_sees d.init).last fun found => ?_
  split
  · exact sees_pure _
  · refine (resolveType_plain _).sees.next fun _ => ?_
    dsimp only
    split
    · exact (assignable?_plain _ _ _).sees.next fun _ => sees_pure _
    · exact sees_pure _

theorem varGroup_sees (d : VariableDeclaration) :
    Sees (varGroup d) (statementFormActs (.varGroup d)) := by
  have one (type : Ty) (name : Ident) : Sees (declare (variableEntry d name type) name.location)
      [.declares ⟨name.text, .variable name.location⟩] := declare_sees _ _
  rw [varGroup_eq]
  exact (variableType_sees d).bind fun type => declares_sees (one type) d.names

theorem property_sees (d : PropertyDefinition) : Sees (property d) (optionalActs d.init) := by
  obtain ⟨name, type, init⟩ := d
  cases init with
  | some init =>
      have value (declared : Option Ty) : Sees (do
          assignable? (← expr init) declared init.location) (exprActs init) :=
        (expr_sees init).last fun _ => (assignable?_plain _ _ _).sees
      unfold property
      dsimp only
      split
      · exact (sees_pure _).next value
      · exact (resolveType_plain type).sees.next value
  | none =>
      unfold property
      dsimp only
      split
      · exact sees_pure _
      · exact (resolveType_plain type).sees.next fun _ => sees_pure _

theorem params_sees (ps : List Param) :
    Sees (params ps) ((ps.map fun p => (⟨p.name.text, .parameter p.name.location⟩ : LocalName)).map
      .declares) := by
  refine declares_sees (fun p => ?_) ps
  exact (resolveType_plain _).sees.next fun _ => declare_sees _ _

/-- What comes before the body of a callable, inside of its scope. -/
theorem parameters_sees (generics : List Ident) (ps : List Param) (returns : Option TypeExpr) :
    Sees (do
      declareGenerics generics
      match returns with
      | some t => let _ ← resolveType t
      | none => pure ()
      params ps) ((headNames generics ps).map .declares) := by
  rw [headNames, List.map_append]
  refine (declareGenerics_sees generics).bind fun _ => ?_
  cases returns with
  | some t => exact (resolveType_plain t).sees.next fun _ => params_sees ps
  | none => exact params_sees ps

theorem structType_sees (d : TypeDeclaration) :
    Sees (structType d) [.scope false ((genericNames d.generics).map .declares)] := by
  have fields : Sees (d.fields.forM fun f => do let _ ← resolveType f.type) [] :=
    (onlyReports_forM fun f _ => (resolveType_plain f.type).bind fun _ => onlyReports_pure _).sees
  have inside := (declareGenerics_sees d.generics).last fun _ => fields
  exact fun c => leaveScope_seen (inside { c with scopes := c.scopes.enter })

theorem caught_sees (type : TypeExpr) (name : Ident) :
    Sees (caught type name) [.declares ⟨name.text, .variable name.location⟩] :=
  (resolveType_plain _).sees.next fun _ => declare_sees _ _

/-- What comes before the members of a class, inside of its scope. -/
theorem classHead_sees (known : ClassEntry) (generics : List Ident)
    (superclass : Option TypeExpr) (interfaces : List TypeExpr) (members : List ClassMember) :
    Sees (do
      declareGenerics generics
      parents superclass interfaces
      bodyEntries known members)
      ((classNames (fun n => (known.field? n).isSome) (fun n => (known.method? n).isSome) generics
        members).map .declares) := by
  have names : (members.filterMap (memberInScope? known)).map (fun x => LocalName.ofEntry x.1)
      = members.filterMap (·.localName? (fun n => (known.field? n).isSome)
        fun n => (known.method? n).isSome) := by
    rw [List.map_filterMap]
    exact List.filterMap_congr fun member _ => localName_memberInScope known member
  have one (x : Entry × Location) : Sees (declare x.1 x.2) [.declares (.ofEntry x.1)] :=
    declare_sees x.1 x.2
  have entries := declares_sees one (members.filterMap (memberInScope? known))
  rw [classNames, List.map_append, ← names]
  exact (declareGenerics_sees generics).bind fun _ =>
    (parents_plain superclass interfaces).sees.next fun _ => entries

/-- The body of a class is walked if its name stands for a class. -/
theorem settleAll_classBody {around : List (List LocalName)} {name : String}
    {generics : List Ident} {members : List ClassMember} {acts : List Act} {n : String}
    {fields methods : String → Bool} (known : nameAmong around name = some ⟨n, .cls fields methods⟩) :
    settleAll around [.scope false ((classNames fields methods generics members).map .declares
        ++ acts)]
      = settleAll around [.classBody name generics members acts] := by
  have walked : Act.settle around (.classBody name generics members acts)
      = [.scope false ((classNames fields methods generics members).map .declares
        ++ settleAll (Signature.insertAll (·.name) (classNames fields methods generics members) []
          :: around) acts)] := by
    rw [Act.settle, known]
  have declared : declaredNames ((classNames fields methods generics members).map .declares) []
      = Signature.insertAll (·.name) (classNames fields methods generics members) [] := by
    have same : Item.declared? ∘ Item.declares = some := rfl
    rw [declaredNames, List.filterMap_map, same, List.filterMap_some]
  have single (a : Act) : settleAll around [a] = a.settle around := by
    rw [settleAll, settleAll, List.append_nil]
  rw [single, single, walked, Act.settle, settleAll_append, settleAll_declares, namesAfter,
    declared]

mutual

theorem statement_sees : ∀ s : Statement, Sees (statement s) (statementActs s)
  | ⟨form, _⟩ => statementForm_sees form

theorem statementForm_sees :
    ∀ form : StatementForm, Sees (statementForm form) (statementFormActs form)
  | .varGroup d => varGroup_sees d
  | .assignment target value =>
      (expr_sees value).bind fun _ => (target_sees target).last fun _ =>
        (writable_sees target).next fun _ => (assignable?_plain _ _ _).sees
  | .expression e => by
      refine (expr_sees e).last fun _ => ?_
      split
      · exact (warn_plain rfl _).sees
      · exact sees_pure _
  | .block b => block_sees b
  | .conditional test body elifs otherwise =>
      (expr_sees test).bind fun _ => (block_sees body).bind fun _ =>
        (elifClauses_sees elifs).bind fun _ => optionalBlock_sees otherwise
  | .whileLoop test body => (expr_sees test).bind fun _ => block_sees body
  | .forLoop init test update body => by
      have inside := (optionalStatement_sees init).bind fun _ =>
        (optionalExpr_sees test).bind fun _ =>
          (optionalStatement_sees update).bind fun _ => block_sees body
      have whole := inside.scope
      simp only [bind_assoc] at whole
      exact whole
  | .returns value => (optionalExpr_sees value).last fun _ => sees_pure _
  | .breaks | .continues => sees_pure _
  | .throws value => (expr_sees value).last fun _ => sees_pure _
  | .tryCatch body handlers ⟨last, _⟩ =>
      (block_sees body).bind fun _ => (catchClauses_sees handlers).bind fun _ => block_sees last
  | .switch value cases otherwise =>
      (expr_sees value).bind fun subject =>
        (switchCases_sees subject cases).bind fun _ => defaultCase_sees subject otherwise
  | .function ⟨_, _, signature, body⟩ => callable_sees _ _ _ body
  | .classType ⟨_, name, generics, superclass, interfaces, members⟩ => by
      intro c
      have among := c.scopes.nameAmong_around name.text
      have skipped (other : Act.settle c.scopes.around
          (.classBody name.text generics members (membersActs members)) = []) :
          c.Seen c [.classBody name.text generics members (membersActs members)] :=
        (sees_pure () c).congr (by rw [settleAll, settleAll, other]; rfl)
      have entered (known : ClassEntry) : Sees (do
          declareGenerics generics
          parents superclass interfaces
          bodyEntries known members
          modify fun s => { s with classes := known :: s.classes }
          classMembers members
          modify fun s => { s with classes := s.classes.tail })
          ((classNames (fun n => (known.field? n).isSome) (fun n => (known.method? n).isSome)
            generics members).map .declares ++ membersActs members) := by
        have whole := (classHead_sees known generics superclass interfaces members).bind fun _ =>
          (modify_sees (fun s => { s with classes := known :: s.classes })
            (fun _ => rfl) fun _ => rfl).next fun _ => (classMembers_sees members).last fun _ =>
              modify_sees (fun s => { s with classes := s.classes.tail })
                (fun _ => rfl) fun _ => rfl
        simp only [bind_assoc] at whole
        exact whole
      unfold statementForm statementFormActs
      rw [run_lookup_bind]
      cases found : c.scopes.lookup name.text with
      | none =>
          rw [found] at among
          exact skipped (by rw [Act.settle, among]; rfl)
      | some e =>
          rw [found] at among
          cases e with
          | cls known =>
              have inside := entered known { c with scopes := c.scopes.enter }
              have left := (leaveScope_seen inside).congr (settleAll_classBody among)
              exact left
          | _ => exact skipped (by rw [Act.settle, among]; rfl)
  | .structType d => structType_sees d

theorem statements_sees (ended warned : Bool) :
    ∀ ss : List Statement, Sees (statements ended warned ss) (statementsActs ss)
  | [] => sees_pure _
  | s :: ss => by
      have alarm : Sees (alarm ended warned s) [] := by
        unfold Check.alarm
        split
        · exact (warn_plain rfl _).sees
        · exact sees_pure _
      rw [statements_cons]
      exact alarm.next fun _ => (statement_sees s).bind fun _ => statements_sees _ _ ss

theorem optionalStatement_sees :
    ∀ s : Option Statement, Sees (optionalStatement s) (optionalStatementActs s)
  | none => sees_pure _
  | some s => statement_sees s

theorem block_sees : ∀ b : Block, Sees (block b) (blockActs b)
  | ⟨body, _⟩ => by
      have whole := ((hoist_sees body).bind fun _ => statements_sees false false body).scope
      simp only [bind_assoc] at whole
      exact whole

theorem optionalBlock_sees : ∀ b : Option Block, Sees (optionalBlock b) (optionalBlockActs b)
  | none => sees_pure _
  | some b => block_sees b

theorem elifClauses_sees :
    ∀ clauses : List ElifClause, Sees (elifClauses clauses) (elifsActs clauses)
  | [] => sees_pure _
  | ⟨test, body, _⟩ :: clauses =>
      (expr_sees test).bind fun _ => (block_sees body).bind fun _ => elifClauses_sees clauses

theorem catchClauses_sees :
    ∀ clauses : List CatchClause, Sees (catchClauses clauses) (catchesActs clauses)
  | [] => sees_pure _
  | ⟨type, name, body, _⟩ :: clauses => fun c =>
      have inside := (caught_sees type name).bind fun _ => block_sees body
      (leaveScope_seen (inside { c with scopes := c.scopes.enter })).trans
        (catchClauses_sees clauses _)

theorem switchCases_sees (subject : Option Ty) :
    ∀ cases : List SwitchCase, Sees (switchCases subject cases) (casesActs cases)
  | [] => sees_pure _
  | ⟨patterns, body, _⟩ :: cases => by
      have inside := (patterns_sees subject patterns).bind fun _ =>
        (hoist_sees body).bind fun _ => statements_sees false false body
      have whole := inside.within fun _ => switchCases_sees subject cases
      simp only [bind_assoc] at whole
      exact whole

theorem defaultCase_sees (subject : Option Ty) :
    ∀ otherwise : Option SwitchCase,
      Sees (defaultCase subject otherwise) (optionalCaseActs otherwise)
  | none => sees_pure _
  | some ⟨patterns, body, _⟩ => by
      have inside := (patterns_sees subject patterns).bind fun _ =>
        (hoist_sees body).bind fun _ => statements_sees false false body
      have whole := inside.scope
      simp only [bind_assoc] at whole
      exact whole

theorem callable_sees (generics : List Ident) (ps : List Param) (returns : Option TypeExpr) :
    ∀ b : Block, Sees (callable generics ps returns b) (callableActs generics ps b)
  | ⟨body, place⟩ => by
      have inside := (parameters_sees generics ps returns).bind fun _ =>
        (hoist_sees body).bind fun _ => statements_sees false false body
      have whole := inside.scope
      cases returns with
      | some t =>
          simp only [bind_assoc] at whole
          exact whole
      | none =>
          simp only [bind_assoc] at whole
          exact whole

theorem classMembers_sees : ∀ ms : List ClassMember, Sees (classMembers ms) (membersActs ms)
  | [] => sees_pure _
  | ⟨_, form, _⟩ :: ms => (memberForm_sees form).bind fun _ => classMembers_sees ms

theorem memberForm_sees : ∀ form : MemberForm, Sees (memberForm form) (memberActs form)
  | .constructor ps body =>
      (modify_sees (fun s => { s with inConstructor := true }) (fun _ => rfl)
        fun _ => rfl).next fun _ => (callable_sees [] ps none body).last fun _ =>
          modify_sees (fun s => { s with inConstructor := false }) (fun _ => rfl)
            fun _ => rfl
  | .method _ _ body | .operator _ _ _ body => callable_sees _ _ (some _) body
  | .property d => property_sees d

end

theorem body_sees (p : Program) : Sees (body p) (programActs p) :=
  (hoist_sees p.body).bind fun _ => statements_sees false false p.body

end Check

/--
An analysis reports exactly the local names that nothing mentions, in the order in which their scopes
end, and each at its declaration. An assignment to a name mentions it: of the names that are never
read, those that are assigned to are passed over, and all others are reported.
-/
theorem unmentioned_locals_reported (importer : Importer) (file : Path) (p : Program)
    (state : FileState) (session : Session) :
    let bound := p.imports.foldl (Workspace.bind importer file) (.opening file state session)
    let items := settleAll bound.checker.scopes.around (programActs p)
    (∃ (found : List Finding) (tail : List Diagnostic),
      (analyzeWith importer file p state session).session.log.items
        = bound.session.log.items ++ found.map (·.toDiagnostic file) ++ tail ∧
      found.filter (·.isUnread) = warnings (unreadIn isUnmentioned items) ∧
      ∀ d ∈ tail, d.kind ≠ .unusedDeclaration ∧ d.kind ≠ .unusedParameter) ∧
    (unreadIn isNeverRead items).Perm
      (unreadIn isUnmentioned items ++ unreadIn isOnlyAssigned items) := by
  rw [Workspace.analyzeWith_eq]
  intro bound items
  obtain ⟨-, found, findings, unread⟩ := Check.body_sees p { bound.checker with findings := [] }
  rw [List.nil_append] at findings
  obtain ⟨tail, last, log⟩ := Workspace.log_closing file p bound
  rw [Check.reported, findings] at log
  refine ⟨⟨found, tail, by rw [log], unread, fun d mem => ?_⟩, unreadIn_perm items⟩
  obtain ⟨-, kind | kind⟩ := last d mem <;> rw [kind] <;> decide

/-- A function whose local variable is assigned to, and not read. -/
def assignedLocal : Program :=
  let name : Ident := ⟨"x", ⟨20, 2, 9⟩⟩
  let one : Expr := ⟨.number default false, .nowhere, 1⟩
  let declaration : Statement :=
    ⟨.varGroup ⟨.empty, false, ⟨.reference "int" [], .nowhere⟩, [name], some one⟩, .nowhere⟩
  let write : Statement := ⟨.assignment ⟨.identifier "x", .nowhere, 1⟩ one, .nowhere⟩
  let void : TypeExpr := ⟨.reference "void" [], .nowhere⟩
  let function : Statement :=
    ⟨.function ⟨.empty, ⟨"f", .nowhere⟩, ⟨[], [], void⟩, ⟨[declaration, write], .nowhere⟩⟩, .nowhere⟩
  { (default : Program) with body := [function] }

example :
    let items := settleAll [[]] (programActs assignedLocal)
    unreadIn isNeverRead items = [(.unusedDeclaration "x", ⟨20, 2, 9⟩)] ∧
      unreadIn isUnmentioned items = [] := by decide +kernel

end ScriptFront
