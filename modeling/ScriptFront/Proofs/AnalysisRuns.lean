import ScriptFront.Proofs.CheckFindings

/-!
The analysis of one file, seen from the run it belongs to: the file is entered, its imports are
bound one after another, and it is left with more diagnostics. Two analyses whose imports get the
same answers agree, whatever else differs between their runs. What the answers are is left open.
-/

namespace ScriptFront

/-- Diagnostics about a file that say nothing about cycles of imports. -/
def Quiet (file : Path) (ds : List Diagnostic) : Prop :=
  ∀ d ∈ ds, d.file = file ∧ d.kind ≠ .circularImport

theorem quiet_nil (file : Path) : Quiet file [] := by
  intro d hd
  cases hd

theorem quiet_append {file : Path} {ds es : List Diagnostic} (hd : Quiet file ds)
    (he : Quiet file es) : Quiet file (ds ++ es) := by
  intro d h
  rcases List.mem_append.mp h with h | h
  · exact hd d h
  · exact he d h

namespace Workspace

/-- The diagnostics that a check gives rise to. -/
def found (w : Workspace) (file : Path) (check : Check Unit) : List Diagnostic :=
  (check.run { w.checker with findings := [] }).2.findings.map (·.toDiagnostic file)

theorem session_perform (w : Workspace) (file : Path) (check : Check Unit) :
    (w.perform file check).session = w.session.report (w.found file check) := rfl

theorem perform_session (w : Workspace) (s : Session) (file : Path) (check : Check Unit) :
    { w with session := s }.perform file check =
      { w.perform file check with session := s.report (w.found file check) } := rfl

theorem errors_le_perform (w : Workspace) (file : Path) (check : Check Unit) :
    w.errors ≤ (w.perform file check).errors := Nat.le_add_right _ _

theorem quiet_found {check : Check Unit} (h : Check.Reports Finding.Acyclic check) (w : Workspace)
    (file : Path) : Quiet file (w.found file check) := by
  obtain ⟨findings, he, hf⟩ := h { w.checker with findings := [] }
  intro d hd
  obtain ⟨f, hm, rfl⟩ := List.mem_map.mp hd
  rw [he] at hm
  exact ⟨rfl, hf f (by simpa using hm)⟩

theorem quiet_found_local {check : Check Unit} (h : Check.Reports Finding.Local check)
    (w : Workspace) (file : Path) : Quiet file (w.found file check) :=
  quiet_found (Check.reports_mono h fun _ => Finding.Local.acyclic) w file

/-- The diagnostic of an import that failed. -/
def failure (file : Path) (i : ImportDeclaration) (fault : SemanticFault) : Diagnostic :=
  ⟨fault.kind, fault.message, file, i.location⟩

theorem found_importing_error (w : Workspace) (file : Path) (i : ImportDeclaration)
    (fault : SemanticFault) :
    w.found file (Check.importing i (.error fault)) = [failure file i fault] := rfl

theorem errors_perform_importing_error (w : Workspace) (file : Path) (i : ImportDeclaration)
    (fault : SemanticFault) :
    (w.perform file (Check.importing i (.error fault))).errors = w.errors + 1 := rfl

/-- The workspace of a file that was entered, before its imports are bound. -/
def opening (file : Path) (state : FileState) (session : Session) : Workspace :=
  perform ⟨⟨⟨[], state.global⟩, [], false, state.imported, []⟩, session.begin file, state.errors⟩
    file Check.builtins

/-- What becomes of a program when its imports are bound. -/
def closing (file : Path) (p : Program) (w : Workspace) : Analyzed :=
  let w := w.perform file (Check.body p)
  let w := { w with session := w.session.finish file }.perform file (Check.unusedImports p)
  let global := w.checker.scopes.global
  let state : FileState := ⟨global, w.checker.imported, w.errors⟩
  if w.errors = 0 then
    ⟨.ok ⟨file, global.entries, .ofProgram p global⟩, state, w.session⟩
  else
    let failure : PhaseFailure := ⟨.analysis, file, w.errors⟩
    ⟨.error failure, state, w.session.report [failure.toDiagnostic]⟩

theorem analyzeWith_eq (importer : Importer) (file : Path) (p : Program) (state : FileState)
    (session : Session) :
    analyzeWith importer file p state session =
      closing file p (p.imports.foldl (bind importer file) (opening file state session)) := rfl

theorem session_opening (file : Path) (state : FileState) (session : Session) :
    ∃ ds, Quiet file ds ∧
      (opening file state session).session = (session.begin file).report ds :=
  ⟨_, quiet_found_local Check.builtins_local _ _, rfl⟩

/-- The end of an analysis depends on the run only in what it adds its diagnostics to. -/
theorem closing_spec (file : Path) (p : Program) (w : Workspace) :
    ∃ result state ds, Quiet file ds ∧ (∀ m, result = .ok m → w.errors = 0) ∧
      ∀ session, closing file p { w with session := session } =
        ⟨result, state, (session.finish file).report ds⟩ := by
  let checked := w.perform file (Check.body p)
  let left := checked.perform file (Check.unusedImports p)
  have body : Quiet file (w.found file (Check.body p)) := quiet_found_local (Check.body_local p) _ _
  have unused : Quiet file (checked.found file (Check.unusedImports p)) :=
    quiet_found_local (Check.unusedImports_local p) _ _
  have both := quiet_append body unused
  have errors : w.errors ≤ left.errors :=
    Nat.le_trans (w.errors_le_perform file _) (checked.errors_le_perform file _)
  have session (s : Session) :
      ((s.report (w.found file (Check.body p))).finish file).report
        (checked.found file (Check.unusedImports p)) =
      (s.finish file).report (w.found file (Check.body p)
        ++ checked.found file (Check.unusedImports p)) := by
    rw [Session.finish_report, Session.report_report]
  by_cases h : left.errors = 0
  · refine ⟨.ok ⟨file, left.checker.scopes.global.entries, .ofProgram p left.checker.scopes.global⟩,
      ⟨left.checker.scopes.global, left.checker.imported, left.errors⟩, _, both, ?_, ?_⟩
    · intro m _
      omega
    · intro s
      rw [← session s]
      simp only [closing, perform_session]
      exact if_pos h
  · let failed : PhaseFailure := ⟨.analysis, file, left.errors⟩
    have aggregate : Quiet file [failed.toDiagnostic] := by
      intro d hd
      obtain rfl := List.mem_singleton.mp hd
      exact ⟨rfl, by simp [PhaseFailure.toDiagnostic, PhaseFailure.kind, failed]⟩
    refine ⟨.error failed, ⟨left.checker.scopes.global, left.checker.imported, left.errors⟩,
      _, quiet_append both aggregate, ?_, ?_⟩
    · intro m hm
      cases hm
    · intro s
      rw [← Session.report_report, ← session s]
      simp only [closing, perform_session]
      exact if_neg h

/-! ### What imports do to a run -/

/--
Binding imports takes a session to another one: a native import adds diagnostics, an import of a
file does what the importer does and adds diagnostics as well. If nothing may fail, the importer
gives exports every time.
-/
inductive Binds (importer : Importer) (file : Path) (mayFail : Prop) :
    List ImportDeclaration → Session → Session → Prop
  | nil {s} : Binds importer file mayFail [] s s
  | native {i is ds s t} : i.isNative = true → Quiet file ds →
      Binds importer file mayFail is (s.report ds) t → Binds importer file mayFail (i :: is) s t
  | given {i is ds s s' t exports} : i.isNative = false → importer file i s = (.ok exports, s') →
      Quiet file ds → Binds importer file mayFail is (s'.report ds) t →
      Binds importer file mayFail (i :: is) s t
  | failed {i is s s' t fault} : mayFail → i.isNative = false →
      importer file i s = (.error fault, s') →
      Binds importer file mayFail is (s'.report [failure file i fault]) t →
      Binds importer file mayFail (i :: is) s t

theorem Binds.mono {importer : Importer} {file : Path} {mayFail mayFail' : Prop}
    {is : List ImportDeclaration} {s t : Session} (h : Binds importer file mayFail is s t)
    (weaker : mayFail → mayFail') : Binds importer file mayFail' is s t := by
  induction h with
  | nil => exact .nil
  | native hn quiet _ ih => exact .native hn quiet ih
  | given hn ha quiet _ ih => exact .given hn ha quiet ih
  | failed failing hn ha _ ih => exact .failed (weaker failing) hn ha ih

theorem bind_native (importer : Importer) (file : Path) {i : ImportDeclaration}
    (h : i.isNative = true) (w : Workspace) :
    ∃ ds, Quiet file ds ∧ (bind importer file w i).session = w.session.report ds := by
  cases hm : NativeModule.find? i.source with
  | some m =>
      refine ⟨w.found file (Check.importing i (.ok (.ofNative m))),
        quiet_found (Check.bindImport_acyclic i _) _ _, ?_⟩
      simp [bind, exportsFor, h, hm, session_perform, found]
  | none =>
      refine ⟨[failure file i (.importNotFound i.source)], ?_, ?_⟩
      · intro d hd
        obtain rfl := List.mem_singleton.mp hd
        exact ⟨rfl, by simp [failure, SemanticFault.kind]⟩
      · simp [bind, exportsFor, h, hm, session_perform, found_importing_error]

theorem bind_file {importer : Importer} {file : Path} {i : ImportDeclaration}
    (h : i.isNative = false) (w : Workspace) :
    bind importer file w i =
      { w with session := (importer file i w.session).2 }.perform file
        (Check.importing i (importer file i w.session).1) := by
  simp [bind, exportsFor, h]

theorem errors_le_bind (importer : Importer) (file : Path) (w : Workspace)
    (i : ImportDeclaration) : w.errors ≤ (bind importer file w i).errors :=
  errors_le_perform _ file _

theorem errors_le_foldl_bind (importer : Importer) (file : Path) (is : List ImportDeclaration)
    (w : Workspace) : w.errors ≤ (is.foldl (bind importer file) w).errors := by
  induction is generalizing w with
  | nil => exact Nat.le_refl _
  | cons i is ih => exact Nat.le_trans (errors_le_bind importer file w i) (ih _)

theorem foldl_bind_binds (importer : Importer) (file : Path) (is : List ImportDeclaration)
    (w : Workspace) :
    Binds importer file (0 < (is.foldl (bind importer file) w).errors) is w.session
      (is.foldl (bind importer file) w).session := by
  induction is generalizing w with
  | nil => exact .nil
  | cons i is ih =>
      rw [List.foldl_cons]
      cases hn : i.isNative with
      | true =>
          obtain ⟨ds, quiet, hs⟩ := bind_native importer file hn w
          have rest := ih (bind importer file w i)
          rw [hs] at rest
          exact .native hn quiet rest
      | false =>
          rw [bind_file hn]
          cases ha : importer file i w.session with
          | mk answer s =>
              cases answer with
              | ok exports =>
                  exact .given hn ha (quiet_found (Check.bindImport_acyclic i exports) _ _) (ih _)
              | error fault =>
                  have rest := ih ({ w with session := s }.perform file
                    (Check.importing i (.error fault)))
                  refine .failed ?_ hn ha rest
                  refine Nat.lt_of_lt_of_le ?_ (errors_le_foldl_bind importer file is _)
                  rw [errors_perform_importing_error]
                  exact Nat.succ_pos _

end Workspace

/--
An analysis enters its file, binds the imports, and leaves the file with more diagnostics. If it
succeeds, no import failed.
-/
theorem analyzeWith_binds (importer : Importer) (file : Path) (p : Program) (state : FileState)
    (session : Session) :
    ∃ opened t ds, Quiet file opened ∧ Quiet file ds ∧
      Workspace.Binds importer file
        (¬ ∃ m, (analyzeWith importer file p state session).result = .ok m)
        p.imports ((session.begin file).report opened) t ∧
      (analyzeWith importer file p state session).session = (t.finish file).report ds := by
  obtain ⟨opened, quietOpened, hs⟩ := Workspace.session_opening file state session
  let w := p.imports.foldl (Workspace.bind importer file) (Workspace.opening file state session)
  obtain ⟨result, left, ds, quiet, success, hc⟩ := Workspace.closing_spec file p w
  have ha : analyzeWith importer file p state session =
      ⟨result, left, (w.session.finish file).report ds⟩ := hc w.session
  have binds := Workspace.foldl_bind_binds importer file p.imports
    (Workspace.opening file state session)
  rw [hs] at binds
  refine ⟨opened, w.session, ds, quietOpened, quiet, ?_, by rw [ha]⟩
  refine binds.mono fun failing => ?_
  rintro ⟨m, hm⟩
  rw [ha] at hm
  exact Nat.ne_of_gt failing (success m hm)

/-! ### Two runs side by side -/

namespace Workspace

/-- Workspaces that differ in the run they belong to. -/
structure Related (R : Session → Session → Prop) (v w : Workspace) : Prop where
  checker : v.checker = w.checker
  errors : v.errors = w.errors
  session : R v.session w.session

theorem Related.eq {R : Session → Session → Prop} {v w : Workspace} (h : Related R v w) :
    w = { v with session := w.session } := by
  obtain ⟨checker, errors, _⟩ := h
  cases v
  cases w
  simp_all

/-- A relation of runs that remains when both get the same diagnostics of a file. -/
def Reporting (file : Path) (R : Session → Session → Prop) : Prop :=
  ∀ s t ds, (∀ d ∈ ds, d.file = file) → R s t → R (s.report ds) (t.report ds)

theorem file_found {w : Workspace} {file : Path} {check : Check Unit} :
    ∀ d ∈ w.found file check, d.file = file := by
  intro d hd
  obtain ⟨f, _, rfl⟩ := List.mem_map.mp hd
  rfl

variable {R : Session → Session → Prop} {file : Path}

theorem related_perform (reporting : Reporting file R) {v w : Workspace} (h : Related R v w)
    (check : Check Unit) : Related R (v.perform file check) (w.perform file check) := by
  have found : v.found file check = w.found file check := by simp only [Workspace.found, h.checker]
  refine ⟨by simp only [perform, h.checker], by simp only [perform, h.checker, h.errors], ?_⟩
  rw [session_perform, session_perform, found]
  exact reporting _ _ _ file_found h.session

theorem related_opening (reporting : Reporting file R) {s t : Session}
    (h : R (s.begin file) (t.begin file)) (state : FileState) :
    Related R (opening file state s) (opening file state t) := by
  have entered : Related R
      ⟨⟨⟨[], state.global⟩, [], false, state.imported, []⟩, s.begin file, state.errors⟩
      ⟨⟨⟨[], state.global⟩, [], false, state.imported, []⟩, t.begin file, state.errors⟩ :=
    ⟨rfl, rfl, h⟩
  exact related_perform reporting entered _

/--
Two importers give the same answer to an import in related runs, which stay related; or the first
one fails, where that is allowed.
-/
def Agree (R : Session → Session → Prop) (mayFail : Prop) (importer importer' : Importer)
    (file : Path) (i : ImportDeclaration) : Prop :=
  ∀ s t, R s t →
    (mayFail ∧ ∃ fault, (importer file i s).1 = .error fault) ∨
    ((importer file i s).1 = (importer' file i t).1 ∧
      R (importer file i s).2 (importer' file i t).2)

variable {mayFail : Prop} {importer importer' : Importer}

theorem related_bind (reporting : Reporting file R) {v w : Workspace} {i : ImportDeclaration}
    (h : Related R v w) (agree : i.isNative = false → Agree R mayFail importer importer' file i) :
    (mayFail ∧ 0 < (bind importer file v i).errors) ∨
      Related R (bind importer file v i) (bind importer' file w i) := by
  cases hn : i.isNative with
  | true =>
      right
      have same : exportsFor importer file i v.session =
          ((exportsFor importer' file i w.session).1, v.session) := by
        unfold exportsFor
        simp only [hn, if_true]
        split <;> rfl
      have kept : (exportsFor importer' file i w.session).2 = w.session := by
        unfold exportsFor
        simp only [hn, if_true]
        split <;> rfl
      simp only [bind, same, kept]
      exact related_perform reporting ⟨h.checker, h.errors, h.session⟩ _
  | false =>
      rw [bind_file hn, bind_file hn]
      rcases agree hn v.session w.session h.session with ⟨allowed, fault, failed⟩ | ⟨same, related⟩
      · left
        refine ⟨allowed, ?_⟩
        rw [failed, errors_perform_importing_error]
        exact Nat.succ_pos _
      · right
        have asked : Related R { v with session := (importer file i v.session).2 }
            { w with session := (importer' file i w.session).2 } :=
          ⟨h.checker, h.errors, related⟩
        rw [same]
        exact related_perform reporting asked _

theorem related_foldl_bind (reporting : Reporting file R) {is : List ImportDeclaration}
    (agree : ∀ i ∈ is, i.isNative = false → Agree R mayFail importer importer' file i)
    {v w : Workspace} (h : Related R v w) :
    (mayFail ∧ 0 < (is.foldl (bind importer file) v).errors) ∨
      Related R (is.foldl (bind importer file) v) (is.foldl (bind importer' file) w) := by
  induction is generalizing v w with
  | nil => exact .inr h
  | cons i is ih =>
      rcases related_bind reporting h (agree i (by simp)) with ⟨allowed, failed⟩ | related
      · exact .inl ⟨allowed, Nat.lt_of_lt_of_le failed (errors_le_foldl_bind importer file is _)⟩
      · exact ih (fun j hj => agree j (by simp [hj])) related

end Workspace

/--
Two analyses of a program whose imports get the same answers have the same result, and leave their
file in related runs with the same diagnostics. If an import of the first one fails where that is
allowed, its result is a failure.
-/
theorem analyzeWith_related {R : Session → Session → Prop} {mayFail : Prop}
    {importer importer' : Importer} {file : Path} {p : Program} (state : FileState)
    {s t : Session} (reporting : Workspace.Reporting file R)
    (agree : ∀ i ∈ p.imports, i.isNative = false →
      Workspace.Agree R mayFail importer importer' file i)
    (h : R (s.begin file) (t.begin file)) :
    (mayFail ∧ ∃ f, (analyzeWith importer file p state s).result = .error f) ∨
    ∃ s' t' ds, (∀ d ∈ ds, d.file = file) ∧ R s' t' ∧
      (analyzeWith importer file p state s).result
        = (analyzeWith importer' file p state t).result ∧
      (analyzeWith importer file p state s).state
        = (analyzeWith importer' file p state t).state ∧
      (analyzeWith importer file p state s).session = (s'.finish file).report ds ∧
      (analyzeWith importer' file p state t).session = (t'.finish file).report ds := by
  have opened : Workspace.Related R (.opening file state s) (.opening file state t) :=
    Workspace.related_opening reporting h state
  let v := p.imports.foldl (Workspace.bind importer file) (.opening file state s)
  let w := p.imports.foldl (Workspace.bind importer' file) (.opening file state t)
  obtain ⟨result, left, ds, quiet, success, hc⟩ := Workspace.closing_spec file p v
  have hs : analyzeWith importer file p state s =
      ⟨result, left, (v.session.finish file).report ds⟩ := hc v.session
  rcases Workspace.related_foldl_bind reporting agree opened with ⟨allowed, failed⟩ | related
  · left
    refine ⟨allowed, ?_⟩
    rw [hs]
    cases result with
    | ok m => exact absurd (success m rfl) (Nat.ne_of_gt failed)
    | error f => exact ⟨f, rfl⟩
  · right
    have ht : analyzeWith importer' file p state t =
        ⟨result, left, (w.session.finish file).report ds⟩ := by
      rw [Workspace.analyzeWith_eq, ← hc w.session]
      exact congrArg (Workspace.closing file p) related.eq
    refine ⟨v.session, w.session, ds, fun d hd => (quiet d hd).1, related.session, ?_⟩
    rw [hs, ht]
    exact ⟨rfl, rfl, rfl, rfl⟩

end ScriptFront
