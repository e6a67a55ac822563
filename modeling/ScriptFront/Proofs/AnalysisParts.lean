import ScriptFront.Proofs.AnalysisRuns

/-!
The parts of the analysis of one file, and what they have to do with its result. The body of the
program decides what stands in the global scope and, with the errors that it is added to, whether the
analysis succeeds. What comes after it only reports.
-/

namespace ScriptFront
namespace Check

variable {α β : Type} {Q : Finding → Prop}

/-- What a check finds in a state, apart from what was found before. -/
def reported (m : Check α) (c : Checker) : List Finding :=
  (m.run { c with findings := [] }).2.findings

/-- A check that changes nothing but that it reports findings with a property. -/
def OnlyReports (Q : Finding → Prop) (m : Check α) : Prop :=
  ∀ c, ∃ found, (m.run c).2 = { c with findings := c.findings ++ found } ∧ ∀ f ∈ found, Q f

theorem onlyReports_pure (a : α) : OnlyReports Q (pure a : Check α) :=
  fun c => ⟨[], by rw [List.append_nil]; rfl, nofun⟩

theorem OnlyReports.bind {m : Check α} {f : α → Check β} (hm : OnlyReports Q m)
    (hf : ∀ a, OnlyReports Q (f a)) : OnlyReports Q (m >>= f) := by
  intro c
  obtain ⟨found, first, here⟩ := hm c
  obtain ⟨more, second, there⟩ := hf (m.run c).1 (m.run c).2
  refine ⟨found ++ more, ?_, List.forall_mem_append.mpr ⟨here, there⟩⟩
  change ((f (m.run c).1).run (m.run c).2).2 = _
  rw [second, first, List.append_assoc]

theorem onlyReports_forM {l : List α} {f : α → Check Unit} (h : ∀ a ∈ l, OnlyReports Q (f a)) :
    OnlyReports Q (l.forM f) := by
  induction l with
  | nil => exact onlyReports_pure _
  | cons a l ih =>
      obtain ⟨here, below⟩ := List.forall_mem_cons.mp h
      exact here.bind fun _ => ih below

/-- A warning that an imported name is not used. -/
def OfUnusedImport (f : Finding) : Prop := ∃ name place, f = .warning (.unusedImport name) place

theorem unusedImports_onlyReports (p : Program) : OnlyReports OfUnusedImport (unusedImports p) := by
  intro c
  unfold unusedImports
  rw [run_get_bind]
  dsimp only
  split
  · exact onlyReports_pure _ c
  · refine onlyReports_forM (fun i _ => ?_) c
    split
    · exact fun c => ⟨_, rfl, List.forall_mem_singleton.mpr ⟨_, _, rfl⟩⟩
    · exact onlyReports_pure _

end Check

namespace Workspace

/--
What becomes of a program is up to the state that its body leaves: the errors so far and those of
the body decide, and what is reported in the end are warnings.
-/
theorem closing_eq (file : Path) (p : Program) (w : Workspace) :
    let left := ((Check.body p).run { w.checker with findings := [] }).2
    ∃ (unused : List Finding) (errors : Nat), (∀ f ∈ unused, Check.OfUnusedImport f) ∧
      errors = w.errors + (left.findings.filter (·.isError)).length ∧
      let session := (w.session.finish file).report
        ((left.findings ++ unused).map (·.toDiagnostic file))
      w.closing file p =
        if errors = 0 then
          ⟨.ok ⟨file, left.scopes.global.entries, .ofProgram p left.scopes.global⟩,
            ⟨left.scopes.global, left.imported, errors⟩, session⟩
        else
          ⟨.error ⟨.analysis, file, errors⟩, ⟨left.scopes.global, left.imported, errors⟩,
            session.report [PhaseFailure.toDiagnostic ⟨.analysis, file, errors⟩]⟩ := by
  intro left
  let v := w.perform file (Check.body p)
  let last := { v with session := v.session.finish file }.perform file (Check.unusedImports p)
  obtain ⟨unused, run, warnings⟩ := Check.unusedImports_onlyReports p { left with findings := [] }
  have checker : last.checker = { left with findings := unused } := run
  have none : unused.filter (·.isError) = [] := by
    refine List.filter_eq_nil_iff.mpr fun f mem => ?_
    obtain ⟨name, place, rfl⟩ := warnings f mem
    exact Bool.false_ne_true
  have count : last.errors = w.errors + (left.findings.filter (·.isError)).length := by
    change v.errors + (last.checker.findings.filter (·.isError)).length = _
    rw [checker, none]
    rfl
  have session : last.session = (w.session.finish file).report
      ((left.findings ++ unused).map (·.toDiagnostic file)) := by
    change ((w.session.report (left.findings.map _)).finish file).report
      (last.checker.findings.map _) = _
    rw [checker, Session.finish_report, Session.report_report, List.map_append]
  have closed : w.closing file p =
      if last.errors = 0 then
        ⟨.ok ⟨file, last.checker.scopes.global.entries, .ofProgram p last.checker.scopes.global⟩,
          ⟨last.checker.scopes.global, last.checker.imported, last.errors⟩, last.session⟩
      else
        ⟨.error ⟨.analysis, file, last.errors⟩,
          ⟨last.checker.scopes.global, last.checker.imported, last.errors⟩,
          last.session.report [PhaseFailure.toDiagnostic ⟨.analysis, file, last.errors⟩]⟩ := rfl
  refine ⟨unused, last.errors, warnings, count, ?_⟩
  rw [closed, session, checker]

theorem global_closing (file : Path) (p : Program) (w : Workspace) :
    (w.closing file p).state.global
      = ((Check.body p).run { w.checker with findings := [] }).2.scopes.global := by
  obtain ⟨unused, errors, -, -, closed⟩ := w.closing_eq file p
  rw [closed]
  split <;> rfl

/-- In the end a file is left, and more is reported. -/
theorem session_closing (file : Path) (p : Program) (w : Workspace) :
    ∃ ds, (w.closing file p).session = (w.session.finish file).report ds := by
  obtain ⟨unused, errors, -, -, closed⟩ := w.closing_eq file p
  rw [closed]
  split
  · exact ⟨_, rfl⟩
  · exact ⟨_, Session.report_report _ _ _⟩

/-- A successful analysis gives what stands in the global scope, and nothing was an error. -/
theorem closing_ok {file : Path} {p : Program} {w : Workspace} {m : AnalyzedModule}
    (h : (w.closing file p).result = .ok m) :
    let left := ((Check.body p).run { w.checker with findings := [] }).2
    m = ⟨file, left.scopes.global.entries, .ofProgram p left.scopes.global⟩ ∧ w.errors = 0 ∧
      ∀ f ∈ left.findings, f.isError = false := by
  obtain ⟨unused, errors, -, count, closed⟩ := w.closing_eq file p
  rw [closed] at h
  split at h
  · next none =>
      obtain ⟨before, here⟩ := Nat.add_eq_zero_iff.mp (count.symm.trans none)
      rw [List.length_eq_zero_iff, List.filter_eq_nil_iff] at here
      exact ⟨(Except.ok.inj h).symm, before, fun f mem => Bool.not_eq_true _ ▸ here f mem⟩
  · cases h

/-- Behind what is found in the body there are warnings about imports, and the aggregate at most. -/
theorem log_closing (file : Path) (p : Program) (w : Workspace) :
    ∃ tail, (∀ x ∈ tail, x.file = file ∧ (x.kind = .unusedImport ∨ x.kind = .programAnalysis)) ∧
      (w.closing file p).session.log.items = w.session.log.items
        ++ (Check.reported (Check.body p) w.checker).map (·.toDiagnostic file) ++ tail := by
  obtain ⟨unused, errors, warnings, -, closed⟩ := w.closing_eq file p
  have last : ∀ x ∈ unused.map (·.toDiagnostic file),
      x.file = file ∧ (x.kind = .unusedImport ∨ x.kind = .programAnalysis) := by
    intro x mem
    obtain ⟨f, inside, rfl⟩ := List.mem_map.mp mem
    obtain ⟨name, place, rfl⟩ := warnings f inside
    exact ⟨rfl, .inl rfl⟩
  have aggregate :
      ∀ x ∈ [PhaseFailure.toDiagnostic ⟨.analysis, file, errors⟩],
        x.file = file ∧ (x.kind = .unusedImport ∨ x.kind = .programAnalysis) :=
    List.forall_mem_singleton.mpr ⟨rfl, .inr rfl⟩
  rw [closed, Check.reported]
  split
  · refine ⟨_, last, ?_⟩
    rw [Session.items_report, Session.log_finish, List.map_append, List.append_assoc]
  · refine ⟨_, List.forall_mem_append.mpr ⟨last, aggregate⟩, ?_⟩
    dsimp only
    rw [Session.items_report, Session.items_report, Session.log_finish, List.map_append]
    simp only [List.append_assoc]

end Workspace
end ScriptFront
