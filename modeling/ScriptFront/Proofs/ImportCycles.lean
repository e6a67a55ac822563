import ScriptFront.Proofs.ImportRuns

/-!
Cycles of imports are found exactly. Every state of an analysis in which a file is underway has a
chain of importing files in progress; a cycle is reported where the chain comes back to one of them;
and where none is reported there is none to be found. How often a cycle is reported is left open.
-/

namespace ScriptFront

open Relation

/-- The run in which a file is analysed, with the first of its imports bound. -/
def midway (fs : Files) (depth : Nat) (file : Path) (s : Session)
    (bound : List ImportDeclaration) : Session :=
  (bound.foldl (Workspace.bind (importFiles fs depth) file)
    (Workspace.opening file .fresh s)).session

/--
In the course of the analysis of a file, with so many levels of imports below it, a file is underway
with the first of its imports bound and the run in some state. It is the analysed file itself, or
one that is loaded for the next import of a file that is underway.
-/
inductive Underway (fs : Files) : Nat → Path → Program → Session →
    Path → Program → List ImportDeclaration → Session → Prop
  | own {depth file program s bound} : bound <+: program.imports →
      Underway fs depth file program s file program bound (midway fs depth file s bound)
  | loaded {depth file program s bound i program' file'' program'' bound'' t} :
      bound ++ [i] <+: program.imports → i.isNative = false →
      (midway fs (depth + 1) file s bound).isInProgress (file.resolveImport i.source) = false →
      (midway fs (depth + 1) file s bound).exportsOf (file.resolveImport i.source) = none →
      fs.program? (file.resolveImport i.source) = some program' →
      Underway fs depth (file.resolveImport i.source) program'
        ((midway fs (depth + 1) file s bound).asked (readingCalls (file.resolveImport i.source)))
        file'' program'' bound'' t →
      Underway fs (depth + 1) file program s file'' program'' bound'' t

/--
A diagnostic tells of a cycle: part of the files in progress, each of which imports the next one,
while the last one has an import declaration that leads back to the first one, where the diagnostic
stands.
-/
structure Genuine (fs : Files) (file : Path) (i : ImportDeclaration) (stack : List Path)
    (d : Diagnostic) : Prop where
  cycle : ∃ below first rest, stack = below ++ first :: rest ∧
    (first :: rest).IsChain fs.Imports ∧ (first :: rest).getLast? = some file ∧
    file.resolveImport i.source = first ∧
    d.message = "Circular import detected: "
      ++ " -> ".intercalate ((first :: rest ++ [first]).map Path.fileName)
  kind : d.kind = .circularImport
  place : d.file = file ∧ d.location = i.location

variable {fs : Files} {depth : Nat} {file : Path} {program : Program} {s : Session}

theorem bound_midway {bound : List ImportDeclaration} (hp : fs.program? file = some program)
    (sub : bound <+: program.imports) (h : fs.Stacked (s.inProgress ++ [file]) file)
    (enough : fs.size < depth + (s.inProgress ++ [file]).length) (sound : s.Sound fs) :
    (midway fs depth file s bound).inProgress = s.inProgress ++ [file] ∧
      (midway fs depth file s bound).Sound fs := by
  obtain ⟨opened, _, hs⟩ := Workspace.session_opening file .fresh s
  have binds := Workspace.foldl_bind_binds (importFiles fs depth) file bound
    (Workspace.opening file .fresh s)
  rw [hs] at binds
  have begun : ((s.begin file).report opened).Sound fs := sound.of_same fun _ => rfl
  have result := bound_of_binds binds begun fun i hi hn =>
    importFiles_sound h ⟨program, hp, i, sub.subset hi, hn, rfl⟩ enough
  exact ⟨result.stack, result.sound⟩

/--
While a file is underway, the files in progress are those from the beginning, then the one whose
analysis it is, and so on to the file that is underway, each importing the next one and none twice.
-/
theorem underway_stacked {file' : Path} {program' : Program} {bound : List ImportDeclaration}
    {t : Session} (underway : Underway fs depth file program s file' program' bound t)
    (hp : fs.program? file = some program) (h : fs.Stacked (s.inProgress ++ [file]) file)
    (enough : fs.size < depth + (s.inProgress ++ [file]).length) (sound : s.Sound fs) :
    fs.Stacked t.inProgress file' ∧ s.inProgress ++ [file] <+: t.inProgress ∧
      fs.program? file' = some program' := by
  induction underway with
  | own sub =>
      obtain ⟨stack, _⟩ := bound_midway hp sub h enough sound
      rw [stack]
      exact ⟨h, List.prefix_rfl, hp⟩
  | @loaded depth file program s bound i program' _ _ _ t sub hn progress new hp' _ ih =>
      have before : bound <+: program.imports := (List.prefix_append _ _).trans sub
      have hi : i ∈ program.imports := sub.subset (by simp)
      have imports : fs.Imports file (file.resolveImport i.source) := ⟨program, hp, i, hi, hn, rfl⟩
      obtain ⟨stack, sound'⟩ := bound_midway hp before h enough sound
      have notIn : file.resolveImport i.source ∉ s.inProgress ++ [file] := by
        rw [← h.mem_iff imports.normal, ← stack]
        simpa [Session.isInProgress] using progress
      have deeper := h.push imports notIn (by simp [hp'])
      rw [Session.inProgress_asked, stack] at ih
      obtain ⟨stacked, sub', hq⟩ := ih hp' deeper
        (by rw [List.length_append, List.length_singleton]; omega) (sound'.of_same fun _ => rfl)
      exact ⟨stacked, (List.prefix_append _ _).trans sub', hq⟩

/-! ### Where cycles are told of -/

/-- From one state of a run to a later one, all diagnostics that tell of a cycle have a property. -/
def Session.Traces (s t : Session) (P : Diagnostic → Prop) : Prop :=
  ∃ ds, t.log.items = s.log.items ++ ds ∧ ∀ d ∈ ds, d.kind = .circularImport → P d

namespace Session

variable {t u : Session} {P Q : Diagnostic → Prop}

theorem Traces.of_logs (h : s.log = t.log) : t.Traces s P := ⟨[], by simp [h], by simp⟩

theorem Traces.trans (h : s.Traces t P) (h' : t.Traces u P) : s.Traces u P := by
  obtain ⟨ds, items, traces⟩ := h
  obtain ⟨ds', items', traces'⟩ := h'
  refine ⟨ds ++ ds', by rw [items', items, List.append_assoc], fun d hd => ?_⟩
  rcases List.mem_append.mp hd with hd | hd
  · exact traces d hd
  · exact traces' d hd

theorem Traces.report {ds : List Diagnostic} (h : ∀ d ∈ ds, d.kind = .circularImport → P d) :
    t.Traces (t.report ds) P :=
  ⟨ds, items_report t ds, h⟩

theorem Traces.quiet {ds : List Diagnostic} (h : Quiet file ds) : t.Traces (t.report ds) P :=
  .report fun d hd told => absurd told (h d hd).2

theorem Traces.mono (h : s.Traces t P) (weaker : ∀ d, P d → Q d) : s.Traces t Q := by
  obtain ⟨ds, items, traces⟩ := h
  exact ⟨ds, items, fun d hd told => weaker d (traces d hd told)⟩

end Session

/--
A diagnostic is that of the next import of a file which is underway in an analysis, and the import
names a file in progress.
-/
def Origin (fs : Files) (depth : Nat) (file : Path) (program : Program) (s : Session)
    (d : Diagnostic) : Prop :=
  ∃ file' program' bound i t, Underway fs depth file program s file' program' bound t ∧
    bound ++ [i] <+: program'.imports ∧ i.isNative = false ∧
    t.isInProgress (file'.resolveImport i.source) = true ∧
    d = Workspace.failure file' i (.circularImport (t.cycleTo (file'.resolveImport i.source)))

/-- An import adds only diagnostics with an origin, and fails over a cycle if there is one. -/
def OriginalImport (fs : Files) (depth : Nat) (file : Path) (program : Program) (s : Session)
    (i : ImportDeclaration) (u : Session) : Prop :=
  u.Traces (importFiles fs depth file i u).2 (Origin fs depth file program s) ∧
    ∀ fault, (importFiles fs depth file i u).1 = .error fault → fault.kind = .circularImport →
      u.isInProgress (file.resolveImport i.source) = true ∧
        fault = .circularImport (u.cycleTo (file.resolveImport i.source))

theorem traces_midway
    (original : ∀ bound i, bound ++ [i] <+: program.imports → i.isNative = false →
      OriginalImport fs depth file program s i (midway fs depth file s bound))
    {bound : List ImportDeclaration} (sub : bound <+: program.imports) :
    s.Traces (midway fs depth file s bound) (Origin fs depth file program s) := by
  induction bound using List.reverseRecOn with
  | nil =>
      obtain ⟨opened, quiet, hs⟩ := Workspace.session_opening file .fresh s
      have begun : s.Traces ((s.begin file).report opened) (Origin fs depth file program s) :=
        (Session.Traces.of_logs rfl).trans (.quiet quiet)
      rw [← hs] at begun
      exact begun
  | append_singleton bound i ih =>
      have before := ih ((List.prefix_append _ _).trans sub)
      let w := bound.foldl (Workspace.bind (importFiles fs depth) file)
        (Workspace.opening file .fresh s)
      have step : midway fs depth file s (bound ++ [i]) =
          (Workspace.bind (importFiles fs depth) file w i).session := by
        simp only [midway, List.foldl_append, List.foldl_cons, List.foldl_nil, w]
      rw [step]
      cases hn : i.isNative with
      | true =>
          obtain ⟨ds, quiet, hs⟩ := Workspace.bind_native (importFiles fs depth) file hn w
          rw [hs]
          exact before.trans (.quiet quiet)
      | false =>
          obtain ⟨traces, circular⟩ := original bound i sub hn
          rw [Workspace.bind_file hn, Workspace.session_perform]
          refine before.trans (traces.trans ?_)
          cases answer : (importFiles fs depth file i w.session).1 with
          | ok exports =>
              exact .quiet (Workspace.quiet_found (Check.bindImport_acyclic i exports) _ _)
          | error fault =>
              rw [Workspace.found_importing_error]
              refine .report fun d hd told => ?_
              obtain rfl := List.mem_singleton.mp hd
              obtain ⟨progress, rfl⟩ := circular fault answer told
              exact ⟨file, program, bound, i, _, .own ((List.prefix_append _ _).trans sub), sub, hn,
                progress, rfl⟩

theorem traces_analyzeWith
    (original : ∀ bound i, bound ++ [i] <+: program.imports → i.isNative = false →
      OriginalImport fs depth file program s i (midway fs depth file s bound)) :
    s.Traces (analyzeWith (importFiles fs depth) file program .fresh s).session
      (Origin fs depth file program s) := by
  let w := program.imports.foldl (Workspace.bind (importFiles fs depth) file)
    (Workspace.opening file .fresh s)
  obtain ⟨result, left, ds, quiet, _, closed⟩ := Workspace.closing_spec file program w
  have ended : analyzeWith (importFiles fs depth) file program .fresh s =
      ⟨result, left, (w.session.finish file).report ds⟩ := closed w.session
  rw [ended]
  have through := traces_midway original (List.prefix_refl program.imports)
  exact through.trans ((Session.Traces.of_logs rfl).trans (.quiet quiet))

/-- Every diagnostic of an analysis that tells of a cycle has an origin in the analysis. -/
theorem analyzeWith_origin (fs : Files) (depth : Nat) (file : Path) (program : Program)
    (s : Session) :
    s.Traces (analyzeWith (importFiles fs depth) file program .fresh s).session
      (Origin fs depth file program s) := by
  induction depth generalizing file program s with
  | zero =>
      refine traces_analyzeWith fun bound i _ _ => ⟨.of_logs rfl, fun fault h told => ?_⟩
      cases h
      cases told
  | succ depth ih =>
      refine traces_analyzeWith fun bound i sub hn => ?_
      unfold OriginalImport
      cases progress : (midway fs (depth + 1) file s bound).isInProgress
          (file.resolveImport i.source) with
      | true =>
          rw [importFiles_of_inProgress progress]
          refine ⟨.of_logs rfl, fun fault h _ => ?_⟩
          cases h
          exact ⟨rfl, rfl⟩
      | false =>
          cases cached : (midway fs (depth + 1) file s bound).exportsOf
              (file.resolveImport i.source) with
          | some exports =>
              rw [importFiles_of_cached progress cached]
              refine ⟨.of_logs rfl, fun fault h _ => ?_⟩
              cases h
          | none =>
              rw [importFiles_of_new progress cached]
              cases hp : fs.program? (file.resolveImport i.source) with
              | none =>
                  obtain ⟨fault, calls, ds, hk, quiet, load⟩ := loadFile_of_no_program hp i.source
                  rw [load]
                  refine ⟨(Session.Traces.of_logs rfl).trans (.quiet quiet),
                    fun fault' h told => ?_⟩
                  cases h
                  exact absurd told hk
              | some program' =>
                  rw [loadFile_of_program hp]
                  have inner := ih (file.resolveImport i.source) program'
                    ((midway fs (depth + 1) file s bound).asked
                      (readingCalls (file.resolveImport i.source)))
                  generalize analyzeWith (importFiles fs depth) (file.resolveImport i.source)
                    program' .fresh _ = a at inner ⊢
                  refine ⟨?_, fun fault h told => absurd told (Analyzed.kind_imported h)⟩
                  have outer : (midway fs (depth + 1) file s bound).Traces a.session
                      (Origin fs (depth + 1) file program s) := by
                    refine Session.Traces.trans (.of_logs rfl) (inner.mono fun d origin => ?_)
                    obtain ⟨file', program'', bound', j, t, underway, rest⟩ := origin
                    exact ⟨file', program'', bound', j, t,
                      .loaded sub hn progress cached hp underway, rest⟩
                  exact outer.trans (.of_logs (a.log_imported _ _))

/-! ### Cycles that are told of are cycles -/

/-- The chain to a path in progress starts with the path and goes to the last file in progress. -/
theorem cycleTo_eq {stack : List Path} {p : Path} (h : fs.Stacked stack file) (normal : p.Normal)
    (hs : s.inProgress = stack) (progress : s.isInProgress p = true) :
    ∃ below rest, stack = below ++ p :: rest ∧
      s.cycleTo p = (p :: rest ++ [p]).map Path.fileName := by
  have some : (stack.findIdx? (·.same p)).isSome = true := by
    rw [List.findIdx?_isSome, ← hs]
    exact progress
  obtain ⟨k, hk⟩ := Option.isSome_iff_exists.mp some
  obtain ⟨inside, same, _⟩ := List.findIdx?_eq_some_iff_getElem.mp hk
  have at_k : stack[k] = p := (h.parsed _ (List.getElem_mem inside)).1.eq_of_same normal same
  have split : stack.drop k = p :: stack.drop (k + 1) := by
    rw [List.drop_eq_getElem_cons inside, at_k]
  refine ⟨stack.take k, stack.drop (k + 1), ?_, ?_⟩
  · rw [← split, List.take_append_drop]
  · simp only [Session.cycleTo, hs, hk, Option.getD_some, split]

theorem genuine_of_stacked {t : Session} {i : ImportDeclaration}
    (h : fs.Stacked t.inProgress file)
    (progress : t.isInProgress (file.resolveImport i.source) = true) :
    Genuine fs file i t.inProgress
      (Workspace.failure file i (.circularImport (t.cycleTo (file.resolveImport i.source)))) := by
  obtain ⟨below, rest, split, chain⟩ :=
    cycleTo_eq h (Path.normal_resolveImport file i.source) rfl progress
  refine ⟨⟨below, _, rest, split, ?_, ?_, rfl, ?_⟩, rfl, rfl, rfl⟩
  · exact (split ▸ h.chain).right_of_append
  · have last := h.last
    rw [split, List.getLast?_append_of_ne_nil _ (List.cons_ne_nil _ rest)] at last
    exact last
  · rw [← chain]
    rfl

theorem reachesCycle_of_genuine {stack : List Path} {p : Path} {i : ImportDeclaration}
    {d : Diagnostic} (h : fs.Stacked stack file) (first : [p] <+: stack)
    (imports : fs.Imports file (file.resolveImport i.source))
    (genuine : Genuine fs file i stack d) : fs.ReachesCycle p := by
  obtain ⟨below, q, rest, split, chain, last, target, _⟩ := genuine.cycle
  have through : ReflTransGen fs.Imports q file := h.reaches (by simp [split])
  refine ⟨q, ?_, .tail' through (target ▸ imports)⟩
  obtain ⟨others, rfl⟩ := first
  obtain ⟨before, same⟩ : ∃ before, p :: others = before ++ q :: rest := ⟨below, split⟩
  cases before with
  | nil =>
      cases same
      exact .refl
  | cons r before =>
      cases same
      refine List.relationReflTransGen_of_exists_isChain_cons (before ++ [q]) ?_ (by simp)
      have whole : (p :: (before ++ [q]) ++ rest).IsChain fs.Imports := by
        simpa using h.chain
      exact whole.left_of_append

/-! ### Levels of imports -/

/-- Analyses whose importers do the same in sound runs are the same. -/
theorem analyzeWith_congr {importer importer' : Importer} {stack : List Path} (state : FileState)
    (hs : s.inProgress ++ [file] = stack) (sound : s.Sound fs)
    (importerSound : ∀ i ∈ program.imports, i.isNative = false → importer.Sound fs stack file i)
    (same : ∀ i ∈ program.imports, i.isNative = false → ∀ t, t.inProgress = stack → t.Sound fs →
      importer file i t = importer' file i t) :
    analyzeWith importer file program state s = analyzeWith importer' file program state s := by
  let R (t u : Session) := t = u ∧ t.inProgress = stack ∧ t.Sound fs
  have reporting : Workspace.Reporting file R := by
    rintro t _ ds _ ⟨rfl, ht, sound⟩
    exact ⟨rfl, ht, sound.of_same fun _ => rfl⟩
  have agree : ∀ i ∈ program.imports, i.isNative = false →
      Workspace.Agree R False importer importer' file i := by
    rintro i hi hn t _ ⟨rfl, ht, sound⟩
    have imported := importerSound i hi hn t ht sound
    rw [← same i hi hn t ht sound]
    exact .inr ⟨rfl, rfl, imported.stack.trans ht, imported.sound⟩
  have begun : R (s.begin file) (s.begin file) := ⟨rfl, hs, sound.of_same fun _ => rfl⟩
  rcases analyzeWith_related state reporting agree begun with
    ⟨impossible, _⟩ | ⟨t, _, ds, _, ⟨rfl, _⟩, result, left, session, session'⟩
  · exact impossible.elim
  · generalize analyzeWith importer file program state s = a at *
    generalize analyzeWith importer' file program state s = b at *
    cases a
    cases b
    simp_all

/-- With enough levels for the files not in progress, an import does not run out of them. -/
theorem importFiles_levels {n m : Nat} {stack : List Path} {i : ImportDeclaration}
    (h : fs.Stacked stack file) (imports : fs.Imports file (file.resolveImport i.source))
    (hn : fs.size < n + stack.length) (hm : fs.size < m + stack.length)
    (hs : s.inProgress = stack) (sound : s.Sound fs) :
    importFiles fs n file i s = importFiles fs m file i s := by
  have bounded := h.length_le
  induction n generalizing m stack file i s with
  | zero => omega
  | succ n ih =>
      cases m with
      | zero => omega
      | succ m =>
          cases progress : s.isInProgress (file.resolveImport i.source) with
          | true => rw [importFiles_of_inProgress progress, importFiles_of_inProgress progress]
          | false =>
              cases cached : s.exportsOf (file.resolveImport i.source) with
              | some exports =>
                  rw [importFiles_of_cached progress cached, importFiles_of_cached progress cached]
              | none =>
                  rw [importFiles_of_new progress cached, importFiles_of_new progress cached]
                  have new : file.resolveImport i.source ∉ stack := by
                    rw [← h.mem_iff imports.normal, ← hs]
                    simpa [Session.isInProgress] using progress
                  cases hp : fs.program? (file.resolveImport i.source) with
                  | none =>
                      obtain ⟨fault, calls, ds, _, _, load⟩ := loadFile_of_no_program hp i.source
                      rw [load, load]
                  | some program =>
                      have deeper := h.push imports new (by simp [hp])
                      have grown : (stack ++ [file.resolveImport i.source]).length
                          = stack.length + 1 := by simp
                      have sound' :
                          (s.asked (readingCalls (file.resolveImport i.source))).Sound fs :=
                        sound.of_same fun _ => rfl
                      have importerSound : ∀ j ∈ program.imports, j.isNative = false →
                          (importFiles fs n).Sound fs (stack ++ [file.resolveImport i.source])
                            (file.resolveImport i.source) j := fun j hj hnj =>
                        importFiles_sound deeper ⟨program, hp, j, hj, hnj, rfl⟩ (by omega)
                      have same := analyzeWith_congr .fresh (hs ▸ rfl) sound' importerSound
                        fun j hj hnj t ht soundt => ih (m := m) deeper
                          ⟨program, hp, j, hj, hnj, rfl⟩ (by omega) (by omega) ht soundt
                          deeper.length_le
                      rw [loadFile_of_program hp, loadFile_of_program hp, same]

/-- No chain of imports runs out of levels, however many there are beyond the number of files. -/
theorem analyzeWith_levels {n m : Nat} (hp : fs.program? file = some program)
    (normal : file.Normal) (idle : s.inProgress = []) (sound : s.Sound fs)
    (hn : fs.size < n + 1) (hm : fs.size < m + 1) :
    analyzeWith (importFiles fs n) file program .fresh s =
      analyzeWith (importFiles fs m) file program .fresh s := by
  have h : fs.Stacked [file] file := .single normal (by simp [hp])
  have idle' : s.inProgress ++ [file] = [file] := by simp [idle]
  refine analyzeWith_congr .fresh idle' sound (fun i hi hni => ?_) fun i hi hni t ht soundt => ?_
  · exact importFiles_sound h ⟨program, hp, i, hi, hni, rfl⟩ (by simpa using hn)
  · exact importFiles_levels h ⟨program, hp, i, hi, hni, rfl⟩ (by simpa using hn)
      (by simpa using hm)
      ht soundt

/-! ### Compilations -/

/-- While a file is compiled, the files in progress lead from it to the file that is underway. -/
theorem underway_of_compile {p : Path} {t : Session} {bound : List ImportDeclaration}
    {program' : Program} (hp : fs.program? p = some program) (normal : p.Normal)
    (idle : s.inProgress = []) (sound : s.Sound fs)
    (underway : Underway fs (fs.size + 1) p program s file program' bound t) :
    fs.Stacked t.inProgress file ∧ [p] <+: t.inProgress ∧ fs.program? file = some program' := by
  have h : fs.Stacked (s.inProgress ++ [p]) p := by
    rw [idle]
    exact .single normal (by simp [hp])
  have enough : fs.size < fs.size + 1 + (s.inProgress ++ [p]).length := by
    rw [idle, List.nil_append, List.length_singleton]
    omega
  have result := underway_stacked underway hp h enough sound
  rwa [idle] at result

/--
In a run that compiled any files before, the compilation of a file that can be analysed is the
analysis of the file with any number of levels from the number of files on. It reports a cycle of
imports if and only if imports lead from the file into one. Each cycle that it reports is genuine,
for the files that are in progress in the state where it is found. In no state is a file in progress
twice, and in the end none is.
-/
theorem compile_reports_cycles_exactly (fs : Files) (log : DiagnosticLog) (history : List Path)
    (p : Path) (program : Program) (hp : fs.program? p.normalize = some program) :
    let s := (Session.start log).compileAll fs history
    let begun := s.asked (readingCalls p.normalize)
    let t := (s.compile fs p).2
    (∀ depth, fs.size ≤ depth →
      t = (analyzeWith (importFiles fs depth) p.normalize program .fresh begun).session) ∧
    ((∃ d ∈ t.reportedSince s, d.kind = .circularImport) ↔ fs.ReachesCycle p.normalize) ∧
    (∀ d ∈ t.reportedSince s, d.kind = .circularImport →
      ∃ file program' bound i u,
        Underway fs (fs.size + 1) p.normalize program begun file program' bound u ∧
        bound ++ [i] <+: program'.imports ∧ i.isNative = false ∧
        Genuine fs file i u.inProgress d) ∧
    (∀ file program' bound u,
      Underway fs (fs.size + 1) p.normalize program begun file program' bound u →
      u.inProgress.Nodup) ∧
    t.inProgress = [] := by
  intro s begun t
  obtain ⟨idle, sound⟩ : s.inProgress = [] ∧ s.Sound fs :=
    Session.compileAll_idle_sound history rfl (Session.sound_start fs log)
  have normal := Path.normal_normalize p
  have idle' : begun.inProgress = [] := idle
  have sound' : begun.Sound fs := sound.of_same fun _ => rfl
  have compiled : t = (analyze fs p.normalize program .fresh begun).session := by
    rw [← Analyzed.session_compiled _ program, ← Session.compile_of_program hp]
  have fits := Session.analyze_fits (s := begun) normal hp idle' sound'
  obtain ⟨ds, items, noneTold⟩ := fits.tells
  obtain ⟨ds', items', origin⟩ := analyzeWith_origin fs (fs.size + 1) p.normalize program begun
  rw [← analyze] at items'
  have same : ds' = ds := List.append_cancel_left (items'.symm.trans items)
  have reported : t.reportedSince s = ds := Session.reportedSince_eq (compiled ▸ items)
  have genuine : ∀ d ∈ ds, d.kind = .circularImport →
      ∃ file program' bound i u,
        Underway fs (fs.size + 1) p.normalize program begun file program' bound u ∧
        bound ++ [i] <+: program'.imports ∧ i.isNative = false ∧
        Genuine fs file i u.inProgress d := by
    intro d hd told
    obtain ⟨file, program', bound, i, u, underway, sub, hn, progress, rfl⟩ :=
      origin d (same ▸ hd) told
    have stacked := underway_of_compile hp normal idle' sound' underway
    exact ⟨file, program', bound, i, u, underway, sub, hn, genuine_of_stacked stacked.1 progress⟩
  rw [reported]
  refine ⟨?_, ⟨?_, ?_⟩, ?_, ?_, ?_⟩
  · intro depth enough
    rw [compiled]
    exact congrArg Analyzed.session
      (analyzeWith_levels hp normal idle' sound' (by omega) (by omega))
  · rintro ⟨d, hd, told⟩
    obtain ⟨file, program', bound, i, u, underway, sub, hn, cycle⟩ := genuine d hd told
    obtain ⟨stacked, first, hp'⟩ := underway_of_compile hp normal idle' sound' underway
    exact reachesCycle_of_genuine stacked first
      ⟨program', hp', i, sub.subset (by simp), hn, rfl⟩ cycle
  · rintro ⟨q, reach, cycle⟩
    by_contra none
    push Not at none
    exact (noneTold none q reach).2 cycle
  · exact genuine
  · intro file program' bound u underway
    exact (underway_of_compile hp normal idle' sound' underway).1.nodup
  · rw [compiled]
    exact fits.stack.trans idle'

/-- A file that imports itself is reported. -/
theorem self_import_is_reported :
    let fs : Files := ⟨[(⟨"a.ky"⟩, .ok "import b from \"a\";")]⟩
    (∃ program, fs.program? (Path.normalize ⟨"a.ky"⟩) = some program) ∧
      ∃ d ∈ ((Session.start .empty).compile fs ⟨"a.ky"⟩).2.reportedSince (.start .empty),
        d.kind = .circularImport := by
  intro fs
  let targets (program : Program) :=
    program.imports.map fun i => (i.isNative, Path.resolveImport ⟨"a.ky"⟩ i.source)
  have evaluated : (fs.program? ⟨"a.ky"⟩).map targets = some [(false, ⟨"a.ky"⟩)] := by
    decide +kernel
  have normal : Path.normalize ⟨"a.ky"⟩ = ⟨"a.ky"⟩ := by decide +kernel
  obtain ⟨program, hp, himports⟩ := Option.map_eq_some_iff.mp evaluated
  have own : (false, Path.mk "a.ky") ∈ targets program := by simp [himports]
  obtain ⟨i, hi, target⟩ := List.mem_map.mp own
  have imports : fs.Imports ⟨"a.ky"⟩ ⟨"a.ky"⟩ :=
    ⟨program, hp, i, hi, congrArg Prod.fst target, congrArg Prod.snd target⟩
  rw [← normal] at hp
  refine ⟨⟨program, hp⟩, ?_⟩
  refine (compile_reports_cycles_exactly fs .empty [] ⟨"a.ky"⟩ program hp).2.1.mpr ?_
  rw [normal]
  exact ⟨_, .refl, .single imports⟩

end ScriptFront
