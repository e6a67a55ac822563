import ScriptFront.Proofs.AnalysisParts
import ScriptFront.Proofs.SteadyChecks

/-!
Bodies of functions are checked in isolation: what an analysis reports outside of the body of a
top-level function, what stands in the global scope afterwards, and what a successful analysis
exports does not depend on the body. Names that were never read are reported where their scope is
left; so there is one thing outside of its body that a function's body decides about, which is
whether the parameters of the function were read.
-/

namespace ScriptFront

/-- What a body decides about: what is found inside of it, and which parameters were never read. -/
def Finding.InBody (ps : List Param) (b : Block) (f : Finding) : Prop :=
  f.location ∈ b.outline.places ∨
    ∃ p ∈ ps, f = .warning (.unusedParameter p.name.text) p.name.location

/-- The declaration of a function, with another body. -/
def FunctionDeclaration.withBody (f : FunctionDeclaration) (place : Location) (b : Block) :
    Statement :=
  ⟨.function { f with body := b }, place⟩

/-- A program around the declaration of a function, with another body. -/
def Program.around (p : Program) (pre post : List Statement) (f : FunctionDeclaration)
    (place : Location) (b : Block) : Program :=
  { p with body := pre ++ f.withBody place b :: post }

namespace Checker.Alike

variable {c d e : Checker}

theorem symm (h : c.Alike d) : d.Alike c :=
  ⟨h.entries.symm, h.classes.symm, h.outside', h.outside, h.imported.symm⟩

theorem trans (h : c.Alike d) (h' : d.Alike e) : c.Alike e :=
  ⟨h.entries.trans h'.entries, h.classes.trans h'.classes, h.outside, h'.outside',
    h.imported.trans h'.imported⟩

theorem self (h : c.Alike d) : c.Alike c := h.trans h.symm

theorem of_outside (h : c.inConstructor = false) : c.Alike c := ⟨rfl, rfl, h, h, rfl⟩

/-- In states that are alike the global scope has the same entries. -/
theorem global (h : c.Alike d) : c.scopes.global.entries = d.scopes.global.entries := by
  have frames := h.entries
  rw [Scopes.frames, Scopes.frames, List.map_append, List.map_append] at frames
  exact List.singleton_inj.mp (List.append_inj_right' frames rfl)

end Checker.Alike

namespace Check

variable {α β : Type}

/-! ### What a callable declares in front of its body -/

/-- All entries that a check adds to the innermost frame have a property. -/
def DeclaresOnly (R : Entry → Prop) (m : Check α) : Prop :=
  ∀ c, (∀ e ∈ c.scopes.current.entries, R e) → ∀ e ∈ (m.run c).2.scopes.current.entries, R e

variable {R : Entry → Prop}

theorem DeclaresOnly.bind {m : Check α} {f : α → Check β} (hm : DeclaresOnly R m)
    (hf : ∀ a, DeclaresOnly R (f a)) : DeclaresOnly R (m >>= f) :=
  fun c h => hf (m.run c).1 _ (hm c h)

theorem declaresOnly_forM {l : List α} {f : α → Check Unit} (h : ∀ a ∈ l, DeclaresOnly R (f a)) :
    DeclaresOnly R (l.forM f) := by
  induction l with
  | nil => exact fun _ h => h
  | cons a l ih =>
      obtain ⟨here, below⟩ := List.forall_mem_cons.mp h
      exact here.bind fun _ => ih below

theorem declare_declaresOnly {e : Entry} (he : R e) (place : Location) :
    DeclaresOnly R (declare e place) := by
  intro c h
  unfold declare
  rw [run_get_bind]
  cases defined : c.scopes.define e with
  | error existing => exact h
  | ok s =>
      have frame := Scopes.current_define defined
      unfold Frame.define at frame
      split at frame
      · cases frame
      · change ∀ e ∈ s.current.entries, R e
        rw [← Except.ok.inj frame]
        exact List.forall_mem_append.mpr ⟨h, List.forall_mem_singleton.mpr he⟩

theorem resolveType_declaresOnly (t : TypeExpr) : DeclaresOnly R (resolveType t) := by
  have scopes (c : Checker) : ((resolveType t).run c).2.scopes = c.scopes := by
    unfold resolveType
    rw [run_meaning_bind]
    cases t.resolve c.scopes.lookup <;> rfl
  intro c h
  rw [scopes]
  exact h

/-- An entry of a generic parameter or of a parameter. -/
def OfSignature (ps : List Param) (e : Entry) : Prop :=
  e.isTracked = false ∨
    ∃ p ∈ ps, ∃ type, e = .param (localVariable p.name.text type p.name.location)

/-- What comes before the body of a callable. -/
def callableHead (generics : List Ident) (ps : List Param) (returns : Option TypeExpr) :
    Check Unit := do
  enterScope
  declareGenerics generics
  match returns with
  | some t => let _ ← resolveType t
  | none => pure ()
  params ps

/-- The body of a callable in the scope of its parameters, which is left. -/
def callableBody (body : List Statement) : Check Unit := do
  hoist body
  statements false false body
  leaveLocalScope

variable (generics : List Ident) (ps : List Param) (returns : Option TypeExpr) (b : Block)

theorem callable_eq :
    callable generics ps returns b = (do
      callableHead generics ps returns
      callableBody b.statements) := by
  obtain ⟨body, place⟩ := b
  cases returns <;> simp only [callable, callableHead, callableBody, bind_assoc]

theorem callableHead_declaresOnly (c : Checker) :
    ∀ e ∈ ((callableHead generics ps returns).run c).2.scopes.current.entries,
      OfSignature ps e := by
  have parameters : DeclaresOnly (OfSignature ps) (params ps) :=
    declaresOnly_forM fun p mem => (resolveType_declaresOnly _).bind fun _ =>
      declare_declaresOnly (.inr ⟨p, mem, _, rfl⟩) _
  have rest : DeclaresOnly (OfSignature ps) (do
      declareGenerics generics
      match returns with
      | some t => let _ ← resolveType t
      | none => pure ()
      params ps) := by
    refine DeclaresOnly.bind (declaresOnly_forM fun _ _ => declare_declaresOnly (.inl rfl) _)
      fun _ => ?_
    split
    · exact (resolveType_declaresOnly _).bind fun _ => parameters
    · exact parameters
  exact rest { c with scopes := c.scopes.enter } (List.forall_mem_nil _)

theorem callableHead_balanced :
    Balanced (fun _ => True) 0 1 (callableHead generics ps returns) := by
  have parameters : Balanced (fun _ => True) 1 1 (params ps) :=
    params_balanced (allOf_iff.mpr fun o _ => within_anything o)
  refine enterScope_balanced.bind fun _ =>
    (declareGenerics_balanced fun _ _ _ _ _ => trivial).bind fun _ => ?_
  split
  · exact (resolveType_balanced (within_anything _)).bind fun _ => parameters
  · exact parameters

theorem within_of_signature {e : Entry} (h : OfSignature ps e) :
    e.Within (Finding.InBody ps b) := by
  obtain untracked | ⟨p, mem, type, rfl⟩ := h
  · exact within_of_untracked untracked
  · intro _ w warning
    unfold unusedWarning? at warning
    split at warning
    · cases warning
    · cases warning
      exact .inr ⟨p, mem, rfl⟩

/-- A body finds what it decides about; but for reads the state is that before the callable. -/
theorem run_callable {c : Checker} (outside : c.inConstructor = false) :
    ∃ inside, (∀ f ∈ inside, f.InBody ps b) ∧
      ((callable generics ps returns b).run c).2.findings
        = ((callableHead generics ps returns).run c).2.findings ++ inside ∧
      c.Alike ((callable generics ps returns b).run c).2 := by
  let entered := ((callableHead generics ps returns).run c).2
  have alike : c.Alike c := .of_outside outside
  obtain ⟨-, twin, -, opened, -⟩ :=
    callableHead_balanced generics ps returns c c alike.twin (framesWithin_zero _ _)
  have signature : FramesWithin (Finding.InBody ps b) 1 entered.scopes.frames := by
    rw [Scopes.frames_eq, framesWithin_cons]
    exact ⟨fun e mem => within_of_signature ps b (callableHead_declaresOnly generics ps returns c e
      mem), framesWithin_zero _ _⟩
  have body : Balanced (Finding.InBody ps b) 1 0 (callableBody b.statements) := by
    obtain ⟨body, place⟩ := b
    have places : (Block.outline ⟨body, place⟩).All
        (Node.Within (AllAt (Finding.InBody ps ⟨body, place⟩))) :=
      Outline.all_within _ fun l mem f here _ => .inl (here ▸ mem)
    exact (hoist_balanced (within_of_statementOutlines places.2)).bind fun _ =>
      (statements_balanced false false body places.2).bind fun _ => leaveLocalScope_balanced
  obtain ⟨-, -, -, closed, inside, found, -, decided⟩ := body entered entered twin signature
  rw [callable_eq]
  exact ⟨inside, decided, found, ⟨(closed.entries.trans opened.entries).symm,
    (closed.classes.trans opened.classes).symm, outside,
    closed.inConstructor (opened.inConstructor outside),
    (closed.imported.trans opened.imported).symm⟩⟩

/-! ### Two runs that part in one body -/

/--
Two runs from one state that end alike. What they find differs in one stretch, where it has certain
properties.
-/
structure Apart (Q Q' : Finding → Prop) (c d d' : Checker) : Prop where
  alike : d.Alike d'
  found : ∃ before inside inside' after,
    d.findings = c.findings ++ (before ++ inside ++ after) ∧
    d'.findings = c.findings ++ (before ++ inside' ++ after) ∧
    (∀ f ∈ inside, Q f) ∧ ∀ f ∈ inside', Q' f

variable {Q Q' : Finding → Prop} {c d d' : Checker}

theorem Apart.after (h : Apart Q Q' c d d') {m : Check α} (hm : Steady m) :
    Apart Q Q' c (m.run d).2 (m.run d').2 := by
  obtain ⟨before, inside, inside', after, first, first', here, here'⟩ := h.found
  obtain ⟨-, alike, found, second, second'⟩ := hm d d' h.alike
  refine ⟨alike, before, inside, inside', after ++ found, ?_, ?_, here, here'⟩
  · rw [second, first, ← List.append_assoc _ after, List.append_assoc]
  · rw [second', first', ← List.append_assoc _ after, List.append_assoc]

theorem Apart.before {m : Check α} (hm : Steady m) (hc : c.Alike c)
    (h : Apart Q Q' (m.run c).2 d d') : Apart Q Q' c d d' := by
  obtain ⟨before, inside, inside', after, first, first', here, here'⟩ := h.found
  obtain ⟨-, -, found, begun, -⟩ := hm c c hc
  refine ⟨h.alike, found ++ before, inside, inside', after, ?_, ?_, here, here'⟩
  · rw [first, begun]
    simp only [List.append_assoc]
  · rw [first', begun]
    simp only [List.append_assoc]

variable (f : FunctionDeclaration) (place : Location) (b b' : Block)

theorem function_apart {c : Checker} (outside : c.inConstructor = false) :
    Apart (Finding.InBody f.signature.params b) (Finding.InBody f.signature.params b') c
      ((statement (f.withBody place b)).run c).2 ((statement (f.withBody place b')).run c).2 := by
  obtain ⟨inside, here, found, alike⟩ :=
    run_callable f.signature.generics f.signature.params (some f.signature.returns) b outside
  obtain ⟨inside', here', found', alike'⟩ :=
    run_callable f.signature.generics f.signature.params (some f.signature.returns) b' outside
  have head := callableHead_balanced f.signature.generics f.signature.params
    (some f.signature.returns) c c (alike.self.twin) (framesWithin_zero _ _)
  obtain ⟨-, -, -, -, before, begun, -, -⟩ := head
  refine ⟨alike.symm.trans alike', before, inside, inside', [], ?_, ?_, here, here'⟩
  · rw [List.append_nil, ← List.append_assoc, ← begun]
    exact found
  · rw [List.append_nil, ← List.append_assoc, ← begun]
    exact found'

theorem statements_apart (ended warned : Bool) (pre post : List Statement) {c : Checker}
    (alike : c.Alike c) :
    Apart (Finding.InBody f.signature.params b) (Finding.InBody f.signature.params b') c
      ((statements ended warned (pre ++ f.withBody place b :: post)).run c).2
      ((statements ended warned (pre ++ f.withBody place b' :: post)).run c).2 := by
  induction pre generalizing ended warned c with
  | nil =>
      have rest {c : Checker} (warned : Bool) (alike : c.Alike c) :=
        (function_apart f place b b' alike.outside).after
          (statements_steady (ended || false) warned post)
      rw [List.nil_append, List.nil_append, statements, statements]
      dsimp only
      split
      · exact .before (warn_steady _ _) alike (rest _ (warn_steady _ _ c c alike).alike)
      · exact rest _ alike
  | cons s pre ih =>
      have rest {c : Checker} (warned : Bool) (alike : c.Alike c) :=
        Apart.before (statement_steady s) alike
          (ih (ended || s.isTerminator) warned (statement_steady s c c alike).alike)
      rw [List.cons_append, List.cons_append, statements, statements]
      dsimp only
      split
      · exact .before (warn_steady _ _) alike (rest _ (warn_steady _ _ c c alike).alike)
      · exact rest _ alike

end Check

/-! ### Analyses of a program with one body or another -/

section Analysis

variable (p : Program) (pre post : List Statement) (f : FunctionDeclaration) (place : Location)
  (b b' : Block)

theorem body_apart {c : Checker} (outside : c.inConstructor = false) :
    Check.Apart (Finding.InBody f.signature.params b) (Finding.InBody f.signature.params b') c
      ((Check.body (p.around pre post f place b)).run c).2
      ((Check.body (p.around pre post f place b')).run c).2 := by
  have same : Check.hoist (pre ++ f.withBody place b :: post)
      = Check.hoist (pre ++ f.withBody place b' :: post) := by
    rw [← Check.hoist_withoutBody, ← Check.hoist_withoutBody (pre ++ f.withBody place b' :: _)]
    simp only [List.map_append, List.map_cons, Statement.withoutBody,
      FunctionDeclaration.withBody]
  have alike := Check.hoist_steady (pre ++ f.withBody place b' :: post) c c (.of_outside outside)
  have checked := Check.statements_apart f place b b' false false pre post alike.alike
  unfold Check.body Program.around
  rw [same]
  exact checked.before (Check.hoist_steady _) (.of_outside outside)

/-- The exports of a program do not depend on bodies, nor on which names were read. -/
theorem exports_around {global global' : Frame} (entries : global.entries = global'.entries) :
    ExportTable.ofProgram (p.around pre post f place b) global
      = ExportTable.ofProgram (p.around pre post f place b') global' := by
  have declared : ExportTable.declaredEntries (p.around pre post f place b) global
      = ExportTable.declaredEntries (p.around pre post f place b') global' := by
    funext i
    have names : (p.around pre post f place b).body[i]?.map (·.declaredNames)
        = (p.around pre post f place b').body[i]?.map (·.declaredNames) := by
      rw [← List.getElem?_map, ← List.getElem?_map, Program.around, Program.around, List.map_append,
        List.map_append, List.map_cons, List.map_cons]
      rfl
    unfold ExportTable.declaredEntries
    rw [names]
    refine congrArg (List.filterMap · _) (funext fun name => ?_)
    rw [Frame.find?, Frame.find?, entries]
  unfold ExportTable.ofProgram
  rw [declared]
  rfl

/-- Nothing outside of constructors is in one when the imports of a file are bound. -/
theorem outside_imported (importer : Importer) (file : Path) (state : FileState)
    (session : Session) (imports : List ImportDeclaration) :
    (imports.foldl (Workspace.bind importer file)
      (.opening file state session)).checker.inConstructor = false := by
  have performed (w : Workspace) {check : Check Unit} (steady : Check.Steady check)
      (outside : w.checker.inConstructor = false) :
      (w.perform file check).checker.inConstructor = false :=
    (steady { w.checker with findings := [] } _ (.of_outside outside)).alike.outside
  have opened : (Workspace.opening file state session).checker.inConstructor = false :=
    performed _ Check.builtins_steady rfl
  generalize Workspace.opening file state session = w at opened
  induction imports generalizing w with
  | nil => exact opened
  | cons i imports ih =>
      exact ih _ (performed { w with session := (Workspace.exportsFor importer file i w.session).2 }
        (Check.importing_steady i _) opened)

/--
Two analyses of programs that differ in the body of one function report the same, but for findings
inside of that body, warnings that a parameter of the function was never read, and at the end
warnings about imports and the aggregate. The global scope has the same entries afterwards, and if
both succeed, the results are the same.
-/
theorem analyzeWith_around (importer : Importer) (file : Path) (p : Program)
    (pre post : List Statement) (f : FunctionDeclaration) (place : Location) (b b' : Block)
    (state : FileState) (session : Session) :
    let a := analyzeWith importer file (p.around pre post f place b) state session
    let a' := analyzeWith importer file (p.around pre post f place b') state session
    (∃ before inside inside' after tail tail',
      a.session.log.items = before ++ inside ++ after ++ tail ∧
      a'.session.log.items = before ++ inside' ++ after ++ tail' ∧
      (∀ x ∈ inside, ∃ g : Finding, g.InBody f.signature.params b ∧ x = g.toDiagnostic file) ∧
      (∀ x ∈ inside', ∃ g : Finding, g.InBody f.signature.params b' ∧ x = g.toDiagnostic file) ∧
      ∀ x ∈ tail ++ tail', x.file = file ∧
        (x.kind = .unusedImport ∨ x.kind = .programAnalysis)) ∧
    a.state.global.entries = a'.state.global.entries ∧
    ∀ m m', a.result = .ok m → a'.result = .ok m' → m = m' := by
  let w := p.imports.foldl (Workspace.bind importer file) (.opening file state session)
  have outside : w.checker.inConstructor = false := outside_imported importer file state session _
  obtain ⟨alike, before, inside, inside', after, found, found', here, here'⟩ :=
    body_apart (c := { w.checker with findings := [] }) p pre post f place b b' outside
  obtain ⟨tail, last, items⟩ := Workspace.log_closing file (p.around pre post f place b) w
  obtain ⟨tail', last', items'⟩ := Workspace.log_closing file (p.around pre post f place b') w
  have entries := alike.global
  have closed (b : Block) : analyzeWith importer file (p.around pre post f place b) state session
      = Workspace.closing file (p.around pre post f place b) w :=
    Workspace.analyzeWith_eq importer file _ state session
  dsimp only
  rw [closed b, closed b']
  clear_value w
  refine ⟨⟨w.session.log.items ++ before.map (·.toDiagnostic file),
    inside.map (·.toDiagnostic file), inside'.map (·.toDiagnostic file),
    after.map (·.toDiagnostic file), tail, tail', ?_, ?_, ?_, ?_, ?_⟩, ?_, ?_⟩
  · refine items.trans ?_
    rw [Check.reported, found, List.nil_append]
    simp only [List.map_append, List.append_assoc]
  · refine items'.trans ?_
    rw [Check.reported, found', List.nil_append]
    simp only [List.map_append, List.append_assoc]
  · intro x mem
    obtain ⟨g, member, rfl⟩ := List.mem_map.mp mem
    exact ⟨g, here g member, rfl⟩
  · intro x mem
    obtain ⟨g, member, rfl⟩ := List.mem_map.mp mem
    exact ⟨g, here' g member, rfl⟩
  · exact List.forall_mem_append.mpr ⟨last, last'⟩
  · rw [Workspace.global_closing, Workspace.global_closing]
    exact entries
  · intro m m' ok ok'
    rw [(Workspace.closing_ok ok).1, (Workspace.closing_ok ok').1, entries,
      exports_around p pre post f place b b' entries]

/-- Whether a parameter was never read is up to the body, and is reported outside of it. -/
theorem unread_parameter_outside_of_body :
    let at_ (offset : Nat) : Location := ⟨offset, 1, offset + 1⟩
    let int : TypeExpr := ⟨.reference "int" [], at_ 10⟩
    let f : FunctionDeclaration :=
      ⟨.empty, ⟨"f", at_ 5⟩, ⟨[], [⟨⟨"x", at_ 7⟩, int, false, at_ 7⟩], int⟩, ⟨[], at_ 20⟩⟩
    let unread : Block := ⟨[], at_ 20⟩
    let read : Block := ⟨[⟨.returns (some ⟨.identifier "x", at_ 29, 1⟩), at_ 22⟩], at_ 20⟩
    let reported (b : Block) : List Diagnostic :=
      (analyzeWith (importFiles .empty 0) ⟨"main.ky"⟩ (Program.around default [] [] f (at_ 0) b)
        .fresh (.start .empty)).session.log.items
    ∃ d ∈ reported unread, d.kind ≠ .unusedImport ∧ d.kind ≠ .programAnalysis ∧
      d.location ∉ unread.outline.places ++ read.outline.places ∧ d ∉ reported read := by
  decide +kernel

end Analysis
end ScriptFront
