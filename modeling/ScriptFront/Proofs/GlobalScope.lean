import ScriptFront.Proofs.DeclaredNames

/-!
The global scope that the analysis of a file leaves, and what is reported about it. It has the first
declarations of all names in the order of the phases; the run hears of each later one where it stands,
and what is reported apart from that has nothing to do with the global scope.
-/

namespace ScriptFront

namespace Workspace

open Declared

/-- The imports of a file, each with the exports that it gave or the reason why it failed. -/
def answers (importer : Importer) (file : Path) : Workspace → List ImportDeclaration →
    List (ImportDeclaration × Except SemanticFault ExportTable)
  | _, [] => []
  | w, i :: is =>
    (i, (exportsFor importer file i w.session).1) :: answers importer file (bind importer file w i) is

/-- What an import declares. -/
def declares : ImportDeclaration × Except SemanticFault ExportTable → List Declared
  | (i, .ok exports) => (Check.boundEntries i exports).map .given
  | (_, .error _) => []

/-- What is declared before the body of a program: the built-in entries, and what imports bind. -/
def known (importer : Importer) (file : Path) (session : Session) (is : List ImportDeclaration) :
    List Declared :=
  Check.builtinEntries.map .given
    ++ ((opening file .fresh session).answers importer file is).flatMap declares

/-- What a program declares in the global scope, in the order in which that is done. -/
def declared (importer : Importer) (file : Path) (session : Session) (p : Program) :
    List Declared :=
  known importer file session p.imports ++ Check.aheads p.body ++ p.body.flatMap Check.grouped

variable {importer : Importer} {file : Path}

/-- What an import declares is declared when it is bound. -/
theorem importing_declares (i : ImportDeclaration) (answer : Except SemanticFault ExportTable)
    {before : List Declared} {c : Checker} (h : c.Shows Means before) :
    ((Check.importing i answer).run c).2.Shows Means (before ++ declares (i, answer)) := by
  cases answer with
  | ok exports => exact (Check.bindImport_declaring i exports before c h).shows
  | error fault =>
      refine Check.shows_of_entries ?_ rfl
      exact (List.append_nil before).symm ▸ h

/-- An import that gives exports reports the names that it declares again, and no others. -/
theorem importing_redeclares (i : ImportDeclaration) (exports : ExportTable)
    {before : List Declared} {c : Checker} (h : c.Shows Means before) :
    (Check.reported (Check.importing i (.ok exports)) c).filter (·.isRedeclaration)
      = (laters before (declares (i, .ok exports))).map redeclaration := by
  obtain ⟨-, found, findings, redeclared, -⟩ :=
    Check.bindImport_declaring i exports before { c with findings := [] }
      (Check.shows_of_entries h rfl)
  have reported : Check.reported (Check.importing i (.ok exports)) c = found := findings
  rw [reported]
  exact redeclared

theorem bind_shows (importer : Importer) (file : Path) (i : ImportDeclaration)
    {before : List Declared} {w : Workspace} (h : w.checker.Shows Means before) :
    (bind importer file w i).checker.Shows Means
      (before ++ declares (i, (exportsFor importer file i w.session).1)) :=
  importing_declares i _ (c := { w.checker with findings := [] }) (Check.shows_of_entries h rfl)

theorem foldl_bind_shows (is : List ImportDeclaration) {before : List Declared} {w : Workspace}
    (h : w.checker.Shows Means before) :
    (is.foldl (bind importer file) w).checker.Shows Means
      (before ++ (w.answers importer file is).flatMap declares) := by
  induction is generalizing before w with
  | nil => exact (List.append_nil before).symm ▸ h
  | cons i is ih =>
      have rest := ih (bind_shows importer file i h)
      rw [List.append_assoc] at rest
      exact rest

theorem perform_shows {w : Workspace} {check : Check Unit} {ds : List Declared}
    (h : (check.run { w.checker with findings := [] }).2.Shows Means ds) :
    (w.perform file check).checker.Shows Means ds := h

theorem opening_shows (file : Path) (session : Session) :
    (opening file .fresh session).checker.Shows Means (Check.builtinEntries.map .given) := by
  have empty : Checker.Shows Means ⟨⟨[], .empty⟩, [], false, [], []⟩ [] := ⟨[], rfl, .nil⟩
  unfold opening
  exact perform_shows (Check.builtins_show empty)

theorem found_builtins (w : Workspace) (file : Path) : w.found file Check.builtins = [] := by
  rw [found, Check.findings_builtins]
  rfl

theorem log_opening (file : Path) (session : Session) :
    (opening file .fresh session).session.log.items = session.log.items := by
  rw [opening, session_perform, found_builtins, Session.report_nil, Session.log_begin]

/-- An import reports behind the files that it has analysed. -/
theorem log_bind (w : Workspace) (i : ImportDeclaration) :
    let answer := exportsFor importer file i w.session
    (bind importer file w i).session.log.items = answer.2.log.items
      ++ (Check.reported (Check.importing i answer.1) w.checker).map (·.toDiagnostic file) := by
  intro answer
  exact Session.items_report answer.2
    (found { w with session := answer.2 } file (Check.importing i answer.1))

variable (importer file) (session : Session)

theorem imports_show (is : List ImportDeclaration) :
    (is.foldl (bind importer file) (opening file .fresh session)).checker.Shows Means
      (known importer file session is) :=
  foldl_bind_shows is (opening_shows file session)

/-- What is known before the body is there as an entry. -/
theorem given_of_mem_known (is : List ImportDeclaration) :
    ∀ d ∈ known importer file session is, ∃ e, d = .given e := by
  intro d mem
  obtain builtIn | bound := List.mem_append.mp mem
  · obtain ⟨e, -, rfl⟩ := List.mem_map.mp builtIn
    exact ⟨e, rfl⟩
  · obtain ⟨⟨i, answer⟩, -, bound⟩ := List.mem_flatMap.mp bound
    cases answer with
    | ok exports =>
        obtain ⟨e, -, rfl⟩ := List.mem_map.mp bound
        exact ⟨e, rfl⟩
    | error fault => cases bound

end Workspace

open Declared

namespace Check

/-- Declarations ahead report the names that are declared again, and nothing else. -/
theorem hoist_reports (body : List Statement) {before : List Declared} {c : Checker}
    (given : ∀ d ∈ before, ∃ e, d = .given e) (h : c.Shows Means before) :
    reported (hoist body) c = (laters before (aheads body)).map redeclaration := by
  obtain ⟨-, found, findings, redeclared, others⟩ :=
    hoist_declares body (c := { c with findings := [] }) given (shows_of_entries h rfl)
  have all : found.filter (·.isRedeclaration) = found :=
    List.filter_eq_self.mpr fun f mem => by
      cases isOne : f.isRedeclaration with
      | true => rfl
      | false => exact (others f mem isOne).elim
  have reported : reported (hoist body) c = found := findings
  rw [reported, ← redeclared, all]

/-- The check of the body of a program up to one of its statements. -/
def upto (body before : List Statement) : Check Unit := do
  hoist body
  statements false false before

theorem upto_shows (body before : List Statement) {ds : List Declared} {c : Checker}
    (given : ∀ d ∈ ds, ∃ e, d = .given e) (h : c.Shows Means ds) :
    ((upto body before).run c).2.Shows Means (ds ++ aheads body ++ before.flatMap grouped) :=
  (statements_show false false before (hoist_declares body given h).shows).1

/-- One statement more is checked in the state that those before it left, but for an alarm. -/
theorem run_statements_concat (ended warned : Bool) (ss : List Statement) (s : Statement)
    (c : Checker) :
    let left := ((statements ended warned ss).run c).2
    ∃ alarm, (∀ f ∈ alarm, f = .warning .unreachableCode s.location) ∧
      ((statements ended warned (ss ++ [s])).run c).2
        = ((statement s).run { left with findings := left.findings ++ alarm }).2 := by
  induction ss generalizing ended warned c with
  | nil =>
      rw [List.nil_append, statements, statements]
      dsimp only
      split
      · exact ⟨[.warning .unreachableCode s.location], List.forall_mem_singleton.mpr rfl, rfl⟩
      · refine ⟨[], List.forall_mem_nil _, ?_⟩
        rw [List.append_nil]
        rfl
  | cons t ss ih =>
      rw [List.cons_append, statements, statements]
      dsimp only
      split <;> exact ih _ _ _

/-- A statement reports the variables that it declares again, after all else. -/
theorem reported_upto_concat (body before : List Statement) (s : Statement) {ds : List Declared}
    {c : Checker} (given : ∀ d ∈ ds, ∃ e, d = .given e) (h : c.Shows Means ds) :
    let left := ((upto body before).run { c with findings := [] }).2
    let declared := ds ++ aheads body ++ before.flatMap grouped
    ∃ alarm, (∀ f ∈ alarm, f = .warning .unreachableCode s.location) ∧
      reported (upto body (before ++ [s])) c
        = left.findings ++ alarm ++ reported (statement (nameless s)) (inside left)
          ++ (laters declared (grouped s)).map redeclaration := by
  intro left declared
  obtain ⟨alarm, unreachable, (run : ((upto body (before ++ [s])).run { c with findings := [] }).2
      = ((statement s).run { left with findings := left.findings ++ alarm }).2)⟩ :=
    run_statements_concat false false before s ((hoist body).run { c with findings := [] }).2
  refine ⟨alarm, unreachable, ?_⟩
  have shown : left.Shows Means declared := upto_shows body before given (shows_of_entries h rfl)
  clear_value left
  obtain ⟨-, found⟩ := statement_shows s (c := { left with findings := left.findings ++ alarm })
    (shows_of_entries shown rfl)
  rw [((nameless_balanced s).sealed left).1, List.append_assoc]
  exact (congrArg Checker.findings run).trans found

end Check

/-- The entries after the analysis of a program, whether it succeeds or not. -/
theorem Workspace.entries_declared (importer : Importer) (file : Path) (session : Session)
    (p : Program) : List.Forall₂ Means (firsts [] (declared importer file session p))
      (analyzeWith importer file p .fresh session).state.global.entries := by
  let imported := (p.imports.foldl (bind importer file) (opening file .fresh session)).checker
  have here : Checker.Shows Means { imported with findings := [] }
      (known importer file session p.imports) :=
    Check.shows_of_entries (imports_show importer file session p.imports) rfl
  have left : ((Check.body p).run { imported with findings := [] }).2.Shows Means
      (declared importer file session p) :=
    Check.upto_shows p.body p.body (given_of_mem_known importer file session p.imports) here
  rw [analyzeWith_eq, global_closing]
  exact left.entries_global

open Check in
/--
The first binding of a name wins in the global scope: of the built-in entries, what imports bind,
what is declared ahead, and variables, each in order, the first ones of their names stand there.
Each import that gives exports, the declarations ahead, and each statement of the top level report
one redeclaration for each of their names that is taken, at its place. What a statement reports
besides is not about the global scope: it reports that inside of one more scope, and declares
nothing there.
-/
theorem analyzeWith_firsts (importer : Importer) (file : Path) (p : Program) (session : Session) :
    let opened := Workspace.opening file .fresh session
    let w := p.imports.foldl (Workspace.bind importer file) opened
    let known (is : List ImportDeclaration) := Workspace.known importer file session is
    let all := Workspace.declared importer file session p
    let a := analyzeWith importer file p .fresh session
    let entries := a.state.global.entries
    List.Forall₂ Means (firsts [] all) entries ∧
    (entries.map Entry.name).Nodup ∧
    (∀ name, name ∈ entries.map Entry.name ↔ name ∈ all.map Declared.name) ∧
    opened.session.log.items = session.log.items ∧
    (∀ before i after, p.imports = before ++ i :: after →
      let v := before.foldl (Workspace.bind importer file) opened
      let answer := Workspace.exportsFor importer file i v.session
      ∃ found : List Finding,
        (Workspace.bind importer file v i).session.log.items
          = answer.2.log.items ++ found.map (·.toDiagnostic file) ∧
        match answer.1 with
        | .ok exports => found.filter (·.isRedeclaration)
            = (laters (known before) (Workspace.declares (i, .ok exports))).map redeclaration
        | .error fault => found = [.error ⟨fault, i.location⟩]) ∧
    reported (upto p.body []) w.checker
      = (laters (known p.imports) (aheads p.body)).map redeclaration ∧
    (∀ before s after, p.body = before ++ s :: after →
      let c := ((upto p.body before).run { w.checker with findings := [] }).2
      let declared := known p.imports ++ aheads p.body ++ before.flatMap grouped
      ∃ alarm, (∀ f ∈ alarm, f = .warning .unreachableCode s.location) ∧
        reported (upto p.body (before ++ [s])) w.checker
          = reported (upto p.body before) w.checker ++ alarm
            ++ reported (statement (nameless s)) (inside c)
            ++ (laters declared (grouped s)).map redeclaration ∧
        ((statement (nameless s)).run (inside c)).2.scopes.frames.map Frame.entries
          = [] :: c.scopes.frames.map Frame.entries) ∧
    ∃ tail, (∀ x ∈ tail, x.file = file ∧ (x.kind = .unusedImport ∨ x.kind = .programAnalysis)) ∧
      a.session.log.items = w.session.log.items
        ++ (reported (upto p.body p.body) w.checker).map (·.toDiagnostic file) ++ tail := by
  have shown := Workspace.entries_declared importer file session p
  have log := Workspace.log_closing file p
    (p.imports.foldl (Workspace.bind importer file) (.opening file .fresh session))
  rw [← Workspace.analyzeWith_eq] at log
  generalize analyzeWith importer file p .fresh session = result at shown log ⊢
  intro opened w known all a entries
  have here : w.checker.Shows Means (known p.imports) :=
    Workspace.imports_show importer file session p.imports
  have given := Workspace.given_of_mem_known importer file session p.imports
  refine ⟨shown, ?_, taken_iff named_means shown, Workspace.log_opening file session, ?_,
    hoist_reports p.body given here, ?_, ?_⟩
  · rw [names_eq named_means shown]
    exact nodup_names_firsts all
  · intro before i after split v answer
    refine ⟨reported (importing i answer.1) v.checker, Workspace.log_bind v i, ?_⟩
    have before := Workspace.imports_show importer file session before
    cases given : answer.1 with
    | ok exports => exact Workspace.importing_redeclares i exports before
    | error fault => rfl
  · intro before s after split c declared
    obtain ⟨alarm, unreachable, found⟩ := reported_upto_concat p.body before s given here
    exact ⟨alarm, unreachable, found, ((nameless_balanced s).sealed c).2⟩
  · exact log

end ScriptFront
