import ScriptFront.Proofs.CheckCourses
import ScriptFront.Proofs.FaithfulExports
import ScriptFront.Proofs.FilledSlots
import ScriptFront.Proofs.GlobalScope
import ScriptFront.Proofs.MentionedLookups
import ScriptFront.Proofs.ScatteredStatements
import ScriptFront.Proofs.TokenPlaces

/-!
What the compilation of a text reports more than once. Tokens are at places of their own, a program
that is read from them has a slot twice only if it repeats it, and a check fills no slot more often
than the program has it. So all that is reported twice is said of the target of a compound
assignment, or of calls in a chain. What is said of such a target is in fact reported twice.
-/

namespace ScriptFront

/-! ### Programs from texts -/

/-- No two tokens of a text are at one place. -/
theorem Scan.nodup_locations (source : String) :
    ((ofText source).tokens.map (·.location)).Nodup := by
  have rises := (inPlace_ofChars [] source.toList).tokens.rises
  exact List.Pairwise.of_map (·.offset) (fun _ _ lt same => Nat.ne_of_lt lt (congrArg _ same)) rises

/-- A program that is read from a text has a slot once, and again for each repeat. -/
theorem count_slots_of_parseFile {file : Path} {source : String} {p : Program}
    (parsed : (parseFile file source).result = .ok p) (x : Slot) :
    p.outline.slots.count x ≤ 1 + p.outline.repeats.count x := by
  have scattered := Program.scattered_of_parse (parse_ofText parsed)
  have places : (Cursor.ofTokens (Scan.ofText source).tokens).places.Nodup :=
    (Scan.nodup_locations source).sublist ((List.takeWhile_sublist _).map _)
  have single := scattered.single places x
  rwa [List.nil_append, slotsOf, slotsOf, repeatsOf, repeatsOf, List.append_nil,
    List.append_nil] at single

/-! ### Findings in programs -/

namespace Check

/-- The check of a program fills the slots of its tree. -/
theorem body_fills (p : Program) : Fills p.outline.slots (body p) := by
  have whole := hoisted_fills (statements_fills false false p.body)
  refine Fills.weaken whole fun x => ?_
  have tree : p.outline.slots = slotsOf (p.imports.map ImportDeclaration.outline) ++
      slotsOf (statementOutlines p.body) := by
    rw [statementOutlines_eq, ← slotsOf_append]
    rfl
  rw [tree, List.count_append]
  exact Nat.le_add_left _ _

theorem defineBuiltin_fills (e : Entry) : Fills e.pending (defineBuiltin e) := by
  intro c
  rw [run_defineBuiltin]
  cases defined : c.scopes.define e with
  | error _ => exact (c.filled_refl).weaken fun _ => Nat.zero_le _
  | ok s => exact define_filled defined

/-- Nobody is told that a built-in name is not used. -/
theorem builtins_fills : Fills [] builtins := by
  have untracked : builtinEntries.flatMap Entry.pending = [] := by
    unfold builtinEntries
    decide
  rw [builtins_eq, ← untracked]
  exact fills_forM defineBuiltin_fills _

end Check

namespace Workspace

theorem filled_opening (file : Path) (session : Session) :
    Checker.filled { (opening file .fresh session).checker with findings := [] } = [] := by
  have opened : (opening file .fresh session).checker
      = (Check.builtins.run ⟨⟨[], .empty⟩, [], false, [], []⟩).2 := by
    rw [opening, perform, FileState.fresh]
  have clean := Check.findings_builtins ⟨⟨[], .empty⟩, [], false, [], []⟩
  have filled := (Check.builtins_fills ⟨⟨[], .empty⟩, [], false, [], []⟩).count
  rw [opened]
  generalize (Check.builtins.run ⟨⟨[], .empty⟩, [], false, [], []⟩).2 = c at clean filled ⊢
  obtain ⟨scopes, classes, inConstructor, imported, findings⟩ := c
  dsimp only at clean ⊢
  rw [← clean]
  refine List.eq_nil_iff_forall_not_mem.mpr fun x mem => ?_
  exact absurd (filled x) (Nat.not_le.mpr (List.count_pos_iff.mpr mem))

end Workspace

/-- The slot of a diagnostic. -/
def Diagnostic.slot (d : Diagnostic) : Slot := (d.kind, d.location)

/-- No finding is the failure of a phase. -/
theorem Finding.kind_ne_programAnalysis (f : Finding) : f.kind ≠ .programAnalysis := by
  cases f with
  | error e =>
      obtain ⟨fault, place⟩ := e
      cases fault <;> nofun
  | warning w place => cases w <;> nofun

/-- In the end every finding has its slot, and so has each warning about an import. -/
theorem Checker.count_found_le (c : Checker) (p : Program) (x : Slot) :
    ((c.findings ++ p.unmentioned c.imported).map Finding.slot).count x ≤ c.filled.count x := by
  have unmentioned : ((p.unmentioned c.imported).map Finding.slot).Sublist
      (c.imported.map fun i => (.unusedImport, i.2)) := by
    unfold Program.unmentioned
    rw [List.map_map]
    exact (List.filter_sublist ..).map _
  have le := unmentioned.count_le x
  rw [List.map_append, filled, List.count_append, List.count_append, List.count_append]
  omega

/-- A failure is reported beside the findings, and takes no slot of theirs. -/
theorem count_slots_failing (file : Path) (findings : List Finding)
    {failure : Option PhaseFailure} (phase : ∀ f ∈ failure, f.phase = .analysis) (x : Slot) :
    ((findings.map (·.toDiagnostic file) ++ failure.toList.map PhaseFailure.toDiagnostic).map
      Diagnostic.slot).count x ≤ max 1 ((findings.map Finding.slot).count x) := by
  rw [List.map_append, List.map_map, List.map_map, List.count_append]
  change (findings.map Finding.slot).count x + _ ≤ _
  by_cases aggregate : x.1 = .programAnalysis
  · have absent : (findings.map Finding.slot).count x = 0 := by
      refine List.count_eq_zero.mpr fun mem => ?_
      obtain ⟨f, -, rfl⟩ := List.mem_map.mp mem
      exact f.kind_ne_programAnalysis aggregate
    have one : (failure.toList.map (Diagnostic.slot ∘ PhaseFailure.toDiagnostic)).count x ≤ 1 := by
      refine Nat.le_trans List.count_le_length ?_
      cases failure <;> simp
    omega
  · have absent : (failure.toList.map (Diagnostic.slot ∘ PhaseFailure.toDiagnostic)).count x
        = 0 := by
      refine List.count_eq_zero.mpr fun mem => aggregate ?_
      obtain ⟨f, failed, rfl⟩ := List.mem_map.mp mem
      have kind := phase f (Option.mem_toList.mp failed)
      simp [Diagnostic.slot, PhaseFailure.toDiagnostic, PhaseFailure.kind, kind]
    omega

/--
What is reported of a file without imports is reported once. At a place of a program that is read
from a text nothing of one kind is reported twice, whatever the messages are, but for what the
program repeats: what is said of the target of a compound assignment, which its value starts with,
and of the number of arguments in a chain of calls, which all stand where the chain starts.
-/
theorem analyzeWith_reports_once (importer : Importer) (file : Path) (source : String)
    (p : Program) (session : Session) (parsed : (parseFile file source).result = .ok p)
    (alone : p.imports = []) :
    let ds := (analyzeWith importer file p .fresh session).session.reportedSince session
    (∀ x, (ds.map Diagnostic.slot).count x ≤ 1 + p.outline.repeats.count x) ∧
    (p.outline.repeats = [] → ds.Nodup) := by
  intro ds
  let start := { (Workspace.opening file .fresh session).checker with findings := [] }
  let left := ((Check.body p).run start).2
  let findings := left.findings ++ p.unmentioned left.imported
  obtain ⟨failure, phase, items⟩ := (Workspace.opening file .fresh session).items_failing file p
  have reported : ds = findings.map (·.toDiagnostic file) ++
      failure.toList.map PhaseFailure.toDiagnostic := by
    refine Session.reportedSince_eq ?_
    rw [Workspace.analyzeWith_eq, alone]
    rw [Workspace.log_opening, List.append_assoc] at items
    exact items
  have found (x : Slot) : (findings.map Finding.slot).count x ≤ p.outline.slots.count x := by
    have filled := (Check.body_fills p start).count x
    rw [Workspace.filled_opening, List.count_nil, Nat.zero_add] at filled
    exact Nat.le_trans (left.count_found_le p x) filled
  have bounded (x : Slot) :
      (ds.map Diagnostic.slot).count x ≤ 1 + p.outline.repeats.count x := by
    have slots := count_slots_of_parseFile parsed x
    have here := found x
    have all := count_slots_failing file findings phase x
    rw [reported]
    omega
  refine ⟨bounded, fun once => ?_⟩
  have distinct : (ds.map Diagnostic.slot).Nodup := by
    refine List.nodup_iff_count_le_one.mpr fun x => ?_
    have le := bounded x
    rwa [once] at le
  exact distinct.of_map _

/-- A name that is not known is reported twice where it is the target of a compound assignment. -/
theorem unknown_compound_target_reported_twice :
    let answer (p : Program) := analyze ⟨[]⟩ ⟨"main.ky"⟩ p .fresh (.start .empty)
    let reports (p : Program) :=
      ((answer p).session.reportedSince (.start .empty)).map Diagnostic.slot
    ∃ p, (parseFile ⟨"main.ky"⟩ "x += 1;").result = .ok p ∧ p.imports = [] ∧
      (reports p).count (.reference, .start) = 2 ∧
      ∀ x, (reports p).count x ≤ 1 + p.outline.repeats.count x := by
  intro answer reports
  have evaluated : (parseFile ⟨"main.ky"⟩ "x += 1;").result.toOption.map (fun p =>
      (p.imports.isEmpty, (reports p).count (.reference, .start))) = some (true, 2) := by
    decide +kernel
  obtain ⟨p, parses, outcome⟩ := Option.map_eq_some_iff.mp evaluated
  obtain ⟨isEmpty, twice⟩ := Prod.mk.inj outcome
  have parsed := eq_ok_of_toOption parses
  have alone := List.isEmpty_iff.mp isEmpty
  exact ⟨p, parsed, alone, twice, (analyzeWith_reports_once _ _ _ p _ parsed alone).1⟩

/-! ### Targets of compound assignments -/

namespace Check

theorem constructsAny_writing (ws : Checker → List Write) (c : Checker) :
    constructsAny (writing ws c) = false := by
  unfold writing
  induction ws c with
  | nil => rfl
  | cons w ws ih => exact ih

section Balanced

variable {α β : Type} {Q : Finding → Prop} {m : Check α} {f : α → Check β} {c d : Checker}

/-- A balanced check finds the same in twin states. -/
theorem Balanced.reported_twin (h : Balanced Q 0 0 m) (twin : c.Twin 0 d) :
    reported m d = reported m c := by
  obtain ⟨-, -, -, -, found, first, second, -⟩ :=
    h { c with findings := [] } { d with findings := [] }
      ⟨twin.frames, twin.classes, twin.inConstructor, twin.imported⟩ nofun
  exact second.trans first.symm

/-- What is found behind a check is found in the state that the check leaves. -/
theorem reported_bind (hf : ∀ a, Balanced Q 0 0 (f a)) (c : Checker) :
    reported (m >>= f) c = reported m c ++
      reported (f (m.run { c with findings := [] }).1) (m.run { c with findings := [] }).2 :=
  (hf _).reports _

end Balanced

/-- All that an expression changes is which names were read, and what was found. -/
theorem expr_twin (e : Expr) (c : Checker) :
    c.Twin 0 ((expr e).run { c with findings := [] }).2 := by
  let start := { c with findings := [] }
  have balanced : Balanced (fun _ => True) 0 0 (expr e) := expr_balanced e (within_anything _)
  have keeps := (balanced start start (.self _) nofun).keeps
  have mark := (expr_goes e start).inConstructor
  rw [constructsAny_writing, Bool.not_false, Bool.and_true] at mark
  exact ⟨.outer c.scopes.frames_ne_nil (Scopes.frames_ne_nil _) (.of_entries keeps.entries.symm),
    keeps.classes.symm, mark.symm, keeps.imported.symm⟩

/--
What is found in the target of a compound assignment is found in its value as well, which starts
with the target, and it is reported both times.
-/
theorem compound_target_reported_twice (target right : Expr) (op : BinaryOp) (place : Location)
    (c : Checker) :
    ∃ between behind, reported (assignment target (.of (.binary op target right) place)) c
      = reported (expr target) c ++ between ++ (reported (expr target) c ++ behind) := by
  have balanced (e : Expr) : Balanced (fun _ => True) 0 0 (expr e) :=
    expr_balanced e (within_anything _)
  let value : Expr := .of (.binary op target right) place
  have inside : ∃ between, reported (expr value) c = reported (expr target) c ++ between := by
    refine ⟨_, reported_bind (Q := fun _ => True) (fun l => (balanced right).bind fun r => ?_) c⟩
    split <;> exact balanced_pure _
  have rest (found expected : Option Ty) : Balanced (fun _ => True) 0 0 (do
      writable target
      assignable? found expected value.location) :=
    (writable_balanced (by simp [AllAt])).bind fun _ => assignable?_balanced _ _ (by simp [AllAt])
  obtain ⟨between, first⟩ := inside
  have whole := reported_bind (m := expr value) (fun found =>
    (balanced target).bind fun expected => rest found expected) c
  rw [first, reported_bind (m := expr target) fun expected => rest _ expected,
    (balanced target).reported_twin (expr_twin value c)] at whole
  exact ⟨between, _, whole⟩

end Check
end ScriptFront
