import ScriptFront.Proofs.BalancedStatements
import ScriptFront.Proofs.ErrorAccounting

/-!
Scopes are nested. Each check comes back to the scopes and the classes that it started with: a
statement may have declared variables in the scope it stands in, and a pattern the names it binds,
but what is around them is as it was. So the global scope is never left, in no file of a run, and
the analysis of a file ends where it started.
-/

namespace ScriptFront

/-! ### Leaving the global scope -/

/-- A finding tells that the global scope was left. -/
def Finding.IsExit (f : Finding) : Prop := ∃ place, f = .error ⟨.exitGlobalScope, place⟩

/-- No other finding is about the grammar of a file. -/
theorem Finding.isExit_iff {f : Finding} : f.IsExit ↔ f.kind = .malformed := by
  constructor
  · rintro ⟨place, rfl⟩
    rfl
  · intro kind
    cases f with
    | error e =>
        obtain ⟨fault, place⟩ := e
        cases fault <;> first | exact ⟨place, rfl⟩ | cases kind
    | warning w place => cases w <;> cases kind

/-- A diagnostic reads as if the global scope was left. -/
def Diagnostic.IsExit (d : Diagnostic) : Prop :=
  d.kind = .malformed ∧ d.message = SemanticFault.exitGlobalScope.message

theorem Finding.isExit_of_toDiagnostic {f : Finding} {file : Path}
    (h : (f.toDiagnostic file).IsExit) : f.IsExit := isExit_iff.mpr h.1

theorem PhaseFailure.not_isExit (f : PhaseFailure) : ¬ f.toDiagnostic.IsExit := by
  obtain ⟨phase, file, errors⟩ := f
  rintro ⟨kind, -⟩
  cases phase <;> cases kind

/-- Rules of the grammar are worded otherwise. -/
theorem GrammarRule.message_ne_exit (rule : GrammarRule) :
    rule.message ≠ SemanticFault.exitGlobalScope.message := by
  have starts (front back : String) (first : front.toList.head? = some 'I') :
      front ++ back ≠ SemanticFault.exitGlobalScope.message := by
    have other : SemanticFault.exitGlobalScope.message.toList.head? ≠ some 'I' := by
      decide +kernel
    intro same
    rw [← same, String.toList_append, List.head?_append, first] at other
    exact other rfl
  cases rule with
  | assignableOperand operator =>
      exact (String.append_assoc ..).trans_ne (starts _ _ (by decide +kernel))
  | numberLiteral text =>
      exact (String.append_assoc ..).trans_ne (starts _ _ (by decide +kernel))
  | _ => decide

/-- Diagnostics that do not tell of the global scope. -/
def WithoutExit (ds : List Diagnostic) : Prop := ∀ d ∈ ds, ¬ d.IsExit

theorem withoutExit_failed {α : Type} {phase : Phase} {file : Path} {errors : List Diagnostic}
    (h : WithoutExit errors) :
    WithoutExit (Report.failed phase file errors : Report α).diagnostics :=
  List.forall_mem_append.mpr ⟨h, List.forall_mem_singleton.mpr (PhaseFailure.not_isExit _)⟩

theorem withoutExit_lexFile (file : Path) (text : String) :
    WithoutExit (lexFile file text).diagnostics := by
  unfold lexFile
  dsimp only
  split
  · exact List.forall_mem_nil _
  · refine withoutExit_failed ?_
    rintro d mem ⟨kind, -⟩
    obtain ⟨⟨fault, place⟩, -, rfl⟩ := List.mem_map.mp mem
    cases fault <;> cases kind

theorem withoutExit_parseTokens (file : Path) (tokens : List Token) :
    WithoutExit (parseTokens file tokens).diagnostics := by
  unfold parseTokens
  split
  · exact List.forall_mem_nil _
  · refine withoutExit_failed ?_
    rintro d mem ⟨kind, message⟩
    obtain ⟨⟨fault, place⟩, -, rfl⟩ := List.mem_map.mp mem
    cases fault with
    | broken rule => exact rule.message_ne_exit message
    | _ => cases kind

/-- Reading a file reports nothing about its scopes. -/
theorem withoutExit_parseFile (file : Path) (text : String) :
    WithoutExit (parseFile file text).diagnostics := by
  unfold parseFile Report.andThen
  split
  · exact withoutExit_lexFile file text
  · exact List.forall_mem_append.mpr
      ⟨withoutExit_lexFile file text, withoutExit_parseTokens file _⟩

/-! ### Coming back to a scope -/

/-- What a check may do to the scope it starts in. -/
inductive ScopeEffect
  | keeps
  | declares
  | hoists

namespace ScopeEffect

/-- The entries of the scope before and after: nothing is new, or only the last ones are. -/
def Allows : ScopeEffect → List Entry → List Entry → Prop
  | keeps, old, new => new = old
  | declares, old, new => old <+: new
  | hoists, old, new => old.map Entry.name <+: new.map Entry.name

variable {r : ScopeEffect} {es fs gs : List Entry}

theorem Allows.refl (r : ScopeEffect) (es : List Entry) : r.Allows es es := by
  cases r with
  | keeps => exact rfl
  | declares => exact List.prefix_rfl
  | hoists => exact List.prefix_rfl

theorem Allows.trans (h : r.Allows es fs) (h' : r.Allows fs gs) : r.Allows es gs := by
  cases r with
  | keeps => exact Eq.trans h' h
  | declares => exact List.IsPrefix.trans h h'
  | hoists => exact List.IsPrefix.trans h h'

theorem allows_of_eq (r : ScopeEffect) (h : fs = es) : r.Allows es fs := h ▸ .refl r es

theorem Allows.hoists (h : declares.Allows es fs) : hoists.Allows es fs := List.IsPrefix.map _ h

end ScopeEffect

/-- A declaration of variables adds to the scope it stands in; no other statement does. -/
def Statement.effect (s : Statement) : ScopeEffect :=
  match s.form with
  | .varGroup _ => .declares
  | _ => .keeps

/--
A state has the scopes and the classes of an earlier one, up to what the innermost scope declares,
and nothing tells that the global scope was left in between.
-/
structure Checker.Back (r : ScopeEffect) (c d : Checker) : Prop where
  current : r.Allows c.scopes.current.entries d.scopes.current.entries
  outer : d.scopes.outer.map Frame.entries = c.scopes.outer.map Frame.entries
  classes : d.classes = c.classes
  found : ∃ found, d.findings = c.findings ++ found ∧ ∀ f ∈ found, ¬ f.IsExit

theorem Scopes.length_outer (s : Scopes) : s.outer.length = s.inner.length := by
  obtain ⟨inner, global⟩ := s
  cases inner with
  | nil => rfl
  | cons f inner => exact List.length_append

namespace Checker

variable {c d e : Checker} {r : ScopeEffect}

theorem Back.refl (r : ScopeEffect) (c : Checker) : c.Back r c :=
  ⟨.refl r _, rfl, rfl, [], (List.append_nil _).symm, List.forall_mem_nil _⟩

theorem Back.trans (h : c.Back r d) (h' : d.Back r e) : c.Back r e := by
  obtain ⟨found, first, here⟩ := h.found
  obtain ⟨more, second, there⟩ := h'.found
  refine ⟨h.current.trans h'.current, h'.outer.trans h.outer, h'.classes.trans h.classes,
    found ++ more, ?_, List.forall_mem_append.mpr ⟨here, there⟩⟩
  rw [second, first, List.append_assoc]

theorem Back.of_keeps (h : c.Back .keeps d) (r : ScopeEffect) : c.Back r d :=
  ⟨r.allows_of_eq h.current, h.outer, h.classes, h.found⟩

theorem Back.hoists (h : c.Back .declares d) : c.Back .hoists d :=
  ⟨h.current.hoists, h.outer, h.classes, h.found⟩

/-- There are as many scopes as before. -/
theorem Back.length_inner (h : c.Back r d) : d.scopes.inner.length = c.scopes.inner.length := by
  have same := congrArg List.length h.outer
  rwa [List.length_map, List.length_map, Scopes.length_outer, Scopes.length_outer] at same

end Checker

namespace Check

variable {α β : Type} {r : ScopeEffect}

/-- In every state, a check comes back to the scopes and the classes that it starts with. -/
def Nests (r : ScopeEffect) (m : Check α) : Prop := ∀ c : Checker, c.Back r (m.run c).2

theorem Nests.bind {m : Check α} {f : α → Check β} (hm : Nests r m) (hf : ∀ a, Nests r (f a)) :
    Nests r (m >>= f) := fun c => (hm c).trans (hf _ _)

theorem Nests.of_keeps {m : Check α} (h : Nests .keeps m) (r : ScopeEffect) : Nests r m :=
  fun c => (h c).of_keeps r

theorem Nests.hoists {m : Check α} (h : Nests .declares m) : Nests .hoists m :=
  fun c => (h c).hoists

theorem nests_pure (a : α) : Nests r (pure a : Check α) := .refl r

theorem nests_forM {l : List α} {f : α → Check Unit} (h : ∀ a ∈ l, Nests r (f a)) :
    Nests r (l.forM f) := by
  induction l with
  | nil => exact nests_pure _
  | cons a l ih =>
      obtain ⟨here, below⟩ := List.forall_mem_cons.mp h
      exact here.bind fun _ => ih below

/-! ### Checks -/

/-- Findings of all other kinds are welcome at every place. -/
theorem allAt_without_exit (place : Location) : AllAt (fun f => ¬ f.IsExit) place :=
  fun _ _ => mt Finding.isExit_iff.mp

/-- Checks of nodes are balanced wherever the nodes are. -/
theorem within_without_exit (o : Outline) : o.All (Node.Within (AllAt fun f => ¬ f.IsExit)) :=
  o.all_of_forall fun _ _ _ => allAt_without_exit _

theorem allOf_without_exit (os : List Outline) :
    AllOf (Node.Within (AllAt fun f => ¬ f.IsExit)) os :=
  allOf_iff.mpr fun o _ => within_without_exit o

theorem nests_of_balanced {m : Check α} (h : Balanced (fun f => ¬ f.IsExit) 0 0 m) :
    Nests .keeps m := by
  intro c
  obtain ⟨-, -, -, keeps, found, added, -, without⟩ := h c c (.self c) (framesWithin_zero _ _)
  have entries := keeps.entries
  rw [List.drop_zero, List.drop_zero, Scopes.frames_eq, Scopes.frames_eq, List.map_cons,
    List.map_cons, List.cons.injEq] at entries
  exact ⟨entries.1, entries.2, keeps.classes, found, added, without⟩

theorem error_nests {fault : SemanticFault} (h : fault.kind ≠ .malformed) (place : Location) :
    Nests r (error fault place) :=
  (nests_of_balanced (error_balanced (allAt_without_exit _) h)).of_keeps r

theorem warn_nests (w : Warning) (place : Location) : Nests r (warn w place) :=
  (nests_of_balanced (warn_balanced w (allAt_without_exit _))).of_keeps r

/-- A name is taken in the innermost scope, or its entry becomes the last one there. -/
theorem define_back {c : Checker} {e : Entry} {s : Scopes} (h : c.scopes.define e = .ok s) :
    c.Back .declares { c with scopes := s } := by
  have current := Scopes.current_define h
  unfold Frame.define at current
  unfold Scopes.define at h
  split at current
  · cases current
  · split at h
    · cases h
      refine ⟨?_, ?_, rfl, [], (List.append_nil _).symm, List.forall_mem_nil _⟩
      · change c.scopes.current.entries <+: _
        rw [← Except.ok.inj current]
        exact List.prefix_append _ _
      · dsimp only
        rw [Scopes.outer_modifyCurrent]
    · cases h

theorem declare_nests (e : Entry) (place : Location) : Nests .declares (declare e place) := by
  intro c
  unfold declare
  rw [run_get_bind]
  split
  · next free => exact define_back free
  · exact error_nests (by simp [SemanticFault.kind]) place c

theorem resolveName_nests (name : String) (place : Location) :
    Nests .keeps (resolveName name place) :=
  nests_of_balanced (resolveName_balanced name (allAt_without_exit _))

theorem expr_nests (e : Expr) : Nests .keeps (expr e) :=
  nests_of_balanced (expr_balanced e (within_without_exit _))

mutual

theorem pattern_nests (subject : Option Ty) : ∀ p : Pattern, Nests .declares (pattern subject p)
  | ⟨form, place⟩ => patternForm_nests subject place form

theorem patternForm_nests (subject : Option Ty) (place : Location) :
    ∀ form : PatternForm, Nests .declares (patternForm subject place form)
  | .literal _ | .range .. | .wildcard => nests_pure _
  | .identifier name =>
      ((resolveName_nests name place).of_keeps _).bind fun _ => nests_pure _
  | .member path => by
      unfold patternForm
      split
      · exact ((resolveName_nests _ place).of_keeps _).bind fun _ => nests_pure _
      · exact nests_pure _
  | .binding _ => declare_nests _ _
  | .guarded p guard =>
      (pattern_nests subject p).bind fun _ =>
        ((expr_nests guard).of_keeps _).bind fun _ => nests_pure _

end

theorem varGroup_nests (d : VariableDeclaration) : Nests .declares (varGroup d) := by
  rw [varGroup_eq]
  have type : Nests .keeps (variableType d) :=
    nests_of_balanced (variableType_balanced (within_without_exit _) (allOf_without_exit _))
  exact (type.of_keeps _).bind fun _ => nests_forM fun _ _ => declare_nests _ _

theorem statement_nests (s : Statement) : Nests s.effect (statement s) := by
  obtain ⟨form, place⟩ := s
  cases form with
  | varGroup d => exact varGroup_nests d
  | _ => exact nests_of_balanced (statement_balanced _ (within_without_exit _) nofun)

theorem block_nests (b : Block) : Nests .keeps (block b) :=
  nests_of_balanced (block_balanced b (within_without_exit _))

theorem callable_nests (generics : List Ident) (ps : List Param) (returns : Option TypeExpr)
    (b : Block) : Nests .keeps (callable generics ps returns b) :=
  nests_of_balanced (callable_balanced generics ps returns (fun _ _ => allAt_without_exit _)
    (allOf_without_exit _) (allOf_without_exit _) b (within_without_exit _))

theorem classMembers_nests (ms : List ClassMember) : Nests .keeps (classMembers ms) :=
  nests_of_balanced (classMembers_balanced ms (allOf_without_exit _))

theorem statements_nests (ended warned : Bool) (ss : List Statement) :
    Nests .declares (statements ended warned ss) := by
  induction ss generalizing ended warned with
  | nil => exact nests_pure _
  | cons s ss ih =>
      have first : Nests .declares (statement s) := by
        have nests := statement_nests s
        cases effect : s.effect with
        | keeps => exact (effect ▸ nests).of_keeps _
        | declares => exact effect ▸ nests
        | hoists =>
            unfold Statement.effect at effect
            split at effect <;> cases effect
      unfold statements
      dsimp only
      split
      · exact (warn_nests _ _).bind fun _ => first.bind fun _ => ih _ _
      · exact first.bind fun _ => ih _ _

/-! ### Declarations ahead and imports -/

theorem declareAhead_nests (ss : List Statement) : Nests .declares (declareAhead ss) := by
  induction ss with
  | nil => exact nests_pure _
  | cons s ss rest =>
      unfold declareAhead
      split
      · exact rest
      · intro c
        rw [run_get_bind]
        split
        · next free => exact (define_back free).trans ((rest.bind fun _ => nests_pure _) _)
        · exact ((error_nests (by simp [SemanticFault.kind]) _).bind fun _ => rest) c

theorem completeEntry_nests (s : Statement) : Nests .hoists (completeEntry s) := by
  have known : Nests .hoists meaning := (nests_of_balanced meaning_balanced).of_keeps _
  refine known.bind fun m => ?_
  split
  · next e _ =>
      intro c
      refine ⟨?_, ?_, rfl, [], (List.append_nil _).symm, List.forall_mem_nil _⟩
      · -- An entry that takes the place of another one has its name.
        have names : Entry.name ∘ (fun old => if old.name == e.name then e else old)
            = Entry.name := by
          funext old
          dsimp only [Function.comp]
          split
          · next same => exact (beq_iff_eq.mp same).symm
          · rfl
        have same : (c.scopes.complete e).current.entries.map Entry.name
            = c.scopes.current.entries.map Entry.name := by
          rw [Scopes.current_complete, Frame.complete, List.map_map, names]
        change c.scopes.current.entries.map _ <+: (c.scopes.complete e).current.entries.map _
        exact same ▸ List.prefix_rfl
      · change (c.scopes.complete e).outer.map _ = _
        rw [Scopes.complete, Scopes.outer_modifyCurrent]
  · exact nests_pure _

theorem hoist_nests (body : List Statement) : Nests .hoists (hoist body) :=
  (declareAhead_nests body).hoists.bind fun _ => nests_forM fun s _ => completeEntry_nests s

theorem body_nests (p : Program) : Nests .hoists (body p) :=
  (hoist_nests p.body).bind fun _ => (statements_nests false false p.body).hoists

theorem builtins_nests : Nests .declares builtins := by
  refine nests_forM fun e _ c => ?_
  simp only [StateT.run_modify]
  split
  · next free => exact define_back free
  · exact .refl _ c

theorem declareImport_nests (e : Entry) (tracked : Bool) :
    Nests .declares (declareImport e tracked) := by
  have noted : Nests .declares (modify fun c => { c with
      imported := c.imported ++ [(e.name, e.location.getD .nowhere)] } : Check Unit) :=
    fun c => ⟨.refl _ _, rfl, rfl, [], (List.append_nil _).symm, List.forall_mem_nil _⟩
  unfold declareImport
  dsimp only
  split
  · exact noted.bind fun _ => declare_nests _ _
  · exact declare_nests _ _

theorem bindName_nests (i : ImportDeclaration) (wanted : String) (entry : Option Entry)
    (name : Ident) (place : Location) : Nests .declares (bindName i wanted entry name place) := by
  unfold bindName
  split
  · exact declareImport_nests _ _
  · exact error_nests (by simp [SemanticFault.kind]) _

theorem bindImport_nests (i : ImportDeclaration) (exports : ExportTable) :
    Nests .declares (bindImport i exports) := by
  unfold bindImport
  extract_lets named whole
  have namedNests (u : Unit) : Nests .declares (named u) :=
    nests_forM fun _ _ => bindName_nests _ _ _ _ _
  have wholeNests (u : Unit) : Nests .declares (whole u) := by
    dsimp only [whole]
    split
    · exact (bindName_nests _ _ _ _ _).bind namedNests
    · exact namedNests ()
  split
  · exact (nests_forM fun _ _ => declareImport_nests _ _).bind wholeNests
  · exact wholeNests ()

theorem unusedImports_nests (p : Program) : Nests .keeps (unusedImports p) := by
  intro c
  unfold unusedImports
  rw [run_get_bind]
  dsimp only
  split
  · exact nests_pure _ c
  · refine nests_forM (fun i _ => ?_) c
    split
    · exact warn_nests _ _
    · exact nests_pure _

end Check

/-! ### Files -/

/-- From one state of a run to another, nothing is reported about the global scope. -/
def Session.Inside (s t : Session) : Prop :=
  ∃ ds, t.log.items = s.log.items ++ ds ∧ WithoutExit ds

namespace Session

variable {s t u : Session} {ds : List Diagnostic}

theorem inside_of_log (h : t.log = s.log) : s.Inside t :=
  ⟨[], by rw [h, List.append_nil], List.forall_mem_nil _⟩

theorem Inside.trans (h : s.Inside t) (h' : t.Inside u) : s.Inside u := by
  obtain ⟨ds, first, here⟩ := h
  obtain ⟨es, second, there⟩ := h'
  exact ⟨ds ++ es, by rw [second, first, List.append_assoc],
    List.forall_mem_append.mpr ⟨here, there⟩⟩

theorem inside_report (h : WithoutExit ds) : s.Inside (s.report ds) := ⟨ds, s.items_report ds, h⟩

end Session

/-- No import is answered with news about the global scope, in any state of a run. -/
def Importer.Inside (importer : Importer) : Prop :=
  ∀ file i s, s.Inside (importer file i s).2 ∧
    ∀ fault, (importer file i s).1 = .error fault → fault.kind ≠ .malformed

/-- An import of a native module that is not there is another kind of error. -/
theorem Importer.Inside.exportsFor {importer : Importer} (h : importer.Inside) (file : Path)
    (i : ImportDeclaration) (s : Session) :
    s.Inside (Workspace.exportsFor importer file i s).2 ∧
      ∀ fault, (Workspace.exportsFor importer file i s).1 = .error fault →
        fault.kind ≠ .malformed := by
  unfold Workspace.exportsFor
  split
  · split
    · exact ⟨Session.inside_of_log rfl, nofun⟩
    · exact ⟨Session.inside_of_log rfl, fun fault same => by cases same; exact nofun⟩
  · exact h file i s

/-- At the top level of a file, and nothing was reported about its global scope. -/
structure Workspace.AtTop (s : Session) (w : Workspace) : Prop where
  scopes : w.checker.scopes.inner = []
  classes : w.checker.classes = []
  inside : s.Inside w.session

namespace Workspace

variable {s : Session} {w : Workspace} {r : ScopeEffect} {check : Check Unit} {file : Path}
  {importer : Importer}

theorem AtTop.perform (h : w.AtTop s) (nests : Check.Nests r check) (file : Path) :
    (w.perform file check).AtTop s := by
  have back := nests { w.checker with findings := [] }
  obtain ⟨found, added, without⟩ := back.found
  refine ⟨?_, back.classes.trans h.classes, h.inside.trans (Session.inside_report ?_)⟩
  · exact List.eq_nil_of_length_eq_zero (back.length_inner.trans (congrArg List.length h.scopes))
  · intro d mem exit_
    obtain ⟨f, inside, rfl⟩ := List.mem_map.mp mem
    rw [added] at inside
    exact without f inside (Finding.isExit_of_toDiagnostic exit_)

theorem AtTop.on (h : w.AtTop s) {t : Session} (inside : w.session.Inside t) :
    AtTop s { w with session := t } := ⟨h.scopes, h.classes, h.inside.trans inside⟩

theorem opening_atTop (file : Path) (state : FileState) (s : Session) :
    (opening file state s).AtTop s := by
  refine AtTop.perform ⟨?_, ?_, ?_⟩ Check.builtins_nests file
  · rfl
  · rfl
  · exact Session.inside_of_log (t := s.begin file) rfl

theorem AtTop.bind (h : w.AtTop s) (answers : importer.Inside) (i : ImportDeclaration) :
    (w.bind importer file i).AtTop s := by
  obtain ⟨inside, kind⟩ := answers.exportsFor file i w.session
  rw [bind_eq]
  cases answer : (exportsFor importer file i w.session).1 with
  | ok exports => exact (h.on inside).perform (Check.bindImport_nests i exports) file
  | error fault =>
      exact (h.on inside).perform (r := .keeps) (Check.error_nests (kind fault answer) _) file

theorem AtTop.binds (h : w.AtTop s) (answers : importer.Inside) (is : List ImportDeclaration) :
    (is.foldl (Workspace.bind importer file) w).AtTop s := by
  induction is generalizing w with
  | nil => exact h
  | cons i is ih => exact ih (h.bind answers i)

/-- The workspace at the end of an analysis. -/
def finished (importer : Importer) (file : Path) (p : Program) (state : FileState)
    (session : Session) : Workspace :=
  let w := (p.imports.foldl (Workspace.bind importer file) (opening file state session)).perform
    file (Check.body p)
  { w with session := w.session.finish file }.perform file (Check.unusedImports p)

/-- What an analysis results in is read off at its end. -/
theorem analyzeWith_finished (importer : Importer) (file : Path) (p : Program) (state : FileState)
    (session : Session) :
    analyzeWith importer file p state session =
      let w := finished importer file p state session
      let global := w.checker.scopes.global
      if w.errors = 0 then
        ⟨.ok ⟨file, global.entries, .ofProgram p global⟩, ⟨global, w.checker.imported, w.errors⟩,
          w.session⟩
      else
        ⟨.error ⟨.analysis, file, w.errors⟩, ⟨global, w.checker.imported, w.errors⟩,
          w.session.report [PhaseFailure.toDiagnostic ⟨.analysis, file, w.errors⟩]⟩ := rfl

/-- An analysis ends at the top level of its file. -/
theorem finished_atTop (answers : importer.Inside) (file : Path) (p : Program) (state : FileState)
    (session : Session) : (finished importer file p state session).AtTop session := by
  have bound : (p.imports.foldl (Workspace.bind importer file)
      (opening file state session)).AtTop session :=
    (opening_atTop file state session).binds answers p.imports
  have checked := bound.perform (Check.body_nests p) file
  have left (t : Session) : t.Inside (t.finish file) := Session.inside_of_log rfl
  exact (checked.on (left _)).perform (Check.unusedImports_nests p) file

end Workspace

theorem analyzeWith_inside {importer : Importer} (answers : importer.Inside) (file : Path)
    (p : Program) (state : FileState) (session : Session) :
    session.Inside (analyzeWith importer file p state session).session := by
  have top := Workspace.finished_atTop answers file p state session
  rw [Workspace.analyzeWith_finished]
  dsimp only
  split
  · exact top.inside
  · refine top.inside.trans (Session.inside_report ?_)
    exact List.forall_mem_singleton.mpr (PhaseFailure.not_isExit _)

theorem loadFile_inside (fs : Files) {importer : Importer} (answers : importer.Inside)
    (source : String) (p : Path) (s : Session) :
    s.Inside (loadFile fs importer source p s).2 ∧
      ∀ fault, (loadFile fs importer source p s).1 = .error fault → fault.kind ≠ .malformed := by
  have failed (cause : ImportFault) (fault : SemanticFault) (same : (Except.error
      (.importFailed source cause) : Except SemanticFault ExportTable) = .error fault) :
      fault.kind ≠ .malformed := by
    cases same
    exact nofun
  have asked (calls : List FileCall) : s.Inside (s.asked calls) := Session.inside_of_log rfl
  have stored (t : Session) (exports : ExportTable) : t.Inside (t.store p exports) :=
    Session.inside_of_log rfl
  unfold loadFile
  simp only [Session.call_eq_asked, Session.asked_asked]
  split
  · exact ⟨asked _, fun fault same => by cases same; exact nofun⟩
  · split
    · exact ⟨asked _, failed _⟩
    · next text _ =>
        have read (calls : List FileCall) :=
          (asked calls).trans (Session.inside_report (withoutExit_parseFile p text))
        split
        · exact ⟨read _, failed _⟩
        · next program _ =>
            have analyzed (calls : List FileCall) :=
              (read calls).trans (analyzeWith_inside answers p program .fresh _)
            split
            · exact ⟨analyzed _, failed _⟩
            · exact ⟨(analyzed _).trans (stored _ _), nofun⟩

/-- With any number of levels, files are imported without leaving a global scope. -/
theorem importFiles_inside (fs : Files) (depth : Nat) : (importFiles fs depth).Inside := by
  induction depth with
  | zero =>
      intro _ _ s
      refine ⟨Session.inside_of_log rfl, fun fault same => ?_⟩
      cases same
      intro wrong
      cases wrong
  | succ depth ih =>
      intro file i s
      unfold importFiles
      dsimp only
      split
      · refine ⟨Session.inside_of_log rfl, fun fault same => ?_⟩
        cases same
        intro wrong
        cases wrong
      · split
        · refine ⟨Session.inside_of_log rfl, fun fault same => ?_⟩
          cases same
        · exact loadFile_inside fs ih _ _ s

/--
Scopes are nested. In every state, a check comes back to the scopes and the classes that it starts
with, and the global scope is never left; so the analysis of a program as a file, whatever it
imports and whatever state it starts with, reports nothing of the kind and ends at the top level of
the file.
-/
theorem scopes_nest (fs : Files) (file : Path) (p : Program) (state : FileState)
    (session : Session) :
    (∀ s : Statement, Check.Nests s.effect (Check.statement s)) ∧
    (∀ b : Block, Check.Nests .keeps (Check.block b)) ∧
    (∀ generics ps returns b, Check.Nests .keeps (Check.callable generics ps returns b)) ∧
    (∀ members : List ClassMember, Check.Nests .keeps (Check.classMembers members)) ∧
    (∀ subject p, Check.Nests .declares (Check.pattern subject p)) ∧
    (∀ e : Expr, Check.Nests .keeps (Check.expr e)) ∧
    session.Inside (analyze fs file p state session).session ∧
    let last := Workspace.finished (importFiles fs (fs.size + 1)) file p state session
    last.checker.scopes.inner = [] ∧ last.checker.classes = [] := by
  have answers := importFiles_inside fs (fs.size + 1)
  have top := Workspace.finished_atTop answers file p state session
  exact ⟨Check.statement_nests, Check.block_nests, Check.callable_nests, Check.classMembers_nests,
    Check.pattern_nests, Check.expr_nests, analyzeWith_inside answers file p state session,
    top.scopes, top.classes⟩

end ScriptFront
