import ScriptFront.Proofs.ImportRuns

/-!
The kept exports cannot be told from exports that are worked out anew. A file that gives exports
gives them to every importer, in whatever state the run is; so a run that compiled other files
before and a run that starts afresh come to the same results, and the first one only leaves out
diagnostics of imported files that it kept from before. How much work the kept exports save is left
open.
-/

namespace ScriptFront

open Relation

/-- From one state of a run to a later one, exports and diagnostics are new only for some files. -/
structure Session.Adds (s t : Session) (files : Path → Prop) : Prop where
  kept : ∀ p exports, p.Normal → t.exportsOf p = some exports →
    s.exportsOf p = some exports ∨ files p
  log : ∃ ds, t.log.items = s.log.items ++ ds ∧ ∀ d ∈ ds, files d.file

namespace Session

variable {s t u : Session} {files : Path → Prop}

theorem Adds.of_same (kept : ∀ p, t.exportsOf p = s.exportsOf p) (log : t.log = s.log) :
    s.Adds t files where
  kept p exports _ h := .inl (kept p ▸ h)
  log := ⟨[], by simp [log], by simp⟩

theorem Adds.trans (h : s.Adds t files) (h' : t.Adds u files) : s.Adds u files where
  kept p exports normal hp := by
    rcases h'.kept p exports normal hp with hp | new
    · exact h.kept p exports normal hp
    · exact .inr new
  log := by
    obtain ⟨ds, items, new⟩ := h.log
    obtain ⟨ds', items', new'⟩ := h'.log
    refine ⟨ds ++ ds', by rw [items', items, List.append_assoc], fun d hd => ?_⟩
    rcases List.mem_append.mp hd with hd | hd
    · exact new d hd
    · exact new' d hd

theorem Adds.mono {files' : Path → Prop} (h : s.Adds t files) (more : ∀ p, files p → files' p) :
    s.Adds t files' where
  kept p exports normal hp := (h.kept p exports normal hp).imp_right (more p)
  log := by
    obtain ⟨ds, items, new⟩ := h.log
    exact ⟨ds, items, fun d hd => more _ (new d hd)⟩

theorem Adds.report {ds : List Diagnostic} (h : ∀ d ∈ ds, files d.file) :
    s.Adds (s.report ds) files where
  kept _ _ _ hp := .inl hp
  log := ⟨ds, items_report s ds, h⟩

theorem Adds.store {p : Path} (normal : p.Normal) (exports : ExportTable) (h : files p) :
    s.Adds (s.store p exports) files where
  kept q exports' hq kept := by
    rw [exportsOf_store] at kept
    split at kept
    · next same => exact .inr (normal.eq_of_same hq same ▸ h)
    · exact .inl kept
  log := ⟨[], by simp, by simp⟩

end Session

variable {fs : Files} {depth : Nat} {stack : List Path} {file : Path} {i : ImportDeclaration}

/-- An analysis whose imports are answered as in the one by which a file gives its exports. -/
theorem analyzeWith_gives {importer : Importer} {p : Path} {program : Program} {m : AnalyzedModule}
    {answers : ImportDeclaration → ExportTable} {t : Session} {files : Path → Prop}
    (success :
      (analyzeWith (Files.answering answers) p program .fresh (.start .empty)).result = .ok m)
    (sound : t.Sound fs) (own : files p)
    (importerSound : ∀ i ∈ program.imports, i.isNative = false →
      importer.Sound fs (t.inProgress ++ [p]) p i)
    (answered : ∀ i ∈ program.imports, i.isNative = false → ∀ u,
      u.inProgress = t.inProgress ++ [p] → u.Sound fs →
      (importer p i u).1 = .ok (answers i) ∧ u.Adds (importer p i u).2 files) :
    (analyzeWith importer p program .fresh t).result = .ok m ∧
      t.Adds (analyzeWith importer p program .fresh t).session files := by
  let R (_ u : Session) := u.inProgress = t.inProgress ++ [p] ∧ u.Sound fs ∧ t.Adds u files
  have reporting : Workspace.Reporting p R := by
    rintro _ u ds about ⟨hu, soundu, adds⟩
    refine ⟨hu, soundu.of_same fun _ => rfl, adds.trans (.report fun d hd => ?_)⟩
    rw [about d hd]
    exact own
  have agree : ∀ i ∈ program.imports, i.isNative = false →
      Workspace.Agree R False (Files.answering answers) importer p i := by
    rintro i hi hn _ u ⟨hu, soundu, adds⟩
    obtain ⟨answer, more⟩ := answered i hi hn u hu soundu
    have imported := importerSound i hi hn u hu soundu
    exact .inr ⟨answer.symm, imported.stack.trans hu, imported.sound, adds.trans more⟩
  have begun : R ((Session.start .empty).begin p) (t.begin p) :=
    ⟨rfl, sound.of_same fun _ => rfl, .of_same (fun _ => rfl) rfl⟩
  rcases analyzeWith_related .fresh reporting agree begun with
    ⟨impossible, _⟩ | ⟨_, u, ds, about, ⟨_, _, adds⟩, result, _, _, session⟩
  · exact impossible.elim
  · refine ⟨result ▸ success, ?_⟩
    rw [session]
    have left : u.Adds (u.finish p) files := .of_same (fun _ => rfl) rfl
    refine (adds.trans left).trans (.report fun d hd => ?_)
    rw [about d hd]
    exact own

/--
A file that gives exports gives them to every file that imports it, in every sound run, and all that
is new in the run is about files that it reaches.
-/
theorem importFiles_gives {p : Path} {exports : ExportTable} (given : fs.Gives p exports)
    {t : Session} (h : fs.Stacked stack file) (target : file.resolveImport i.source = p)
    (imports : fs.Imports file p) (enough : fs.size < depth + stack.length)
    (ht : t.inProgress = stack) (sound : t.Sound fs) :
    (importFiles fs depth file i t).1 = .ok exports ∧
      t.Adds (importFiles fs depth file i t).2 (ReflTransGen fs.Imports p) := by
  induction given generalizing depth stack file i t with
  | @intro p program m answers hp given success ih =>
      have bounded := h.length_le
      have whole : fs.Gives p m.exports := .intro answers hp given success
      have new : p ∉ stack := (whole.clear h imports p .refl).1
      cases depth with
      | zero => omega
      | succ depth =>
          have progress : t.isInProgress (file.resolveImport i.source) = false := by
            rw [target, ← Bool.not_eq_true, Session.isInProgress, ht, h.mem_iff imports.normal]
            exact new
          cases cached : t.exportsOf (file.resolveImport i.source) with
          | some exports =>
              rw [importFiles_of_cached progress cached]
              have gives := sound.gives _ _ (target ▸ imports.normal) cached
              refine ⟨?_, .of_same (fun _ => rfl) rfl⟩
              rw [whole.unique (target ▸ gives)]
          | none =>
              rw [importFiles_of_new progress cached, target, loadFile_of_program hp]
              have deeper := h.push imports new (by simp [hp])
              have grown : (stack ++ [p]).length = stack.length + 1 := by simp
              let asked := t.asked (readingCalls p)
              have sound' : asked.Sound fs := sound.of_same fun _ => rfl
              have stacked : asked.inProgress ++ [p] = stack ++ [p] := congrArg (· ++ [p]) ht
              have importerSound : ∀ j ∈ program.imports, j.isNative = false →
                  (importFiles fs depth).Sound fs (asked.inProgress ++ [p]) p j := by
                intro j hj hn
                rw [stacked]
                exact importFiles_sound deeper ⟨program, hp, j, hj, hn, rfl⟩ (by omega)
              have answered : ∀ j ∈ program.imports, j.isNative = false → ∀ u,
                  u.inProgress = asked.inProgress ++ [p] → u.Sound fs →
                  (importFiles fs depth p j u).1 = .ok (answers j) ∧
                    u.Adds (importFiles fs depth p j u).2 (ReflTransGen fs.Imports p) := by
                intro j hj hn u hu soundu
                have edge : fs.Imports p (p.resolveImport j.source) := ⟨program, hp, j, hj, hn, rfl⟩
                have levels : fs.size < depth + (stack ++ [p]).length := by omega
                obtain ⟨answer, adds⟩ := ih j hj hn deeper rfl edge levels (hu.trans stacked) soundu
                exact ⟨answer, adds.mono fun q reach => .head edge reach⟩
              obtain ⟨result, adds⟩ := analyzeWith_gives success sound' .refl importerSound answered
              generalize analyzeWith (importFiles fs depth) p program .fresh _ = a at result adds ⊢
              simp only [Analyzed.imported, result]
              refine ⟨trivial, ?_⟩
              have before : t.Adds asked (ReflTransGen fs.Imports p) := .of_same (fun _ => rfl) rfl
              exact (before.trans adds).trans (.store imports.normal m.exports .refl)

/-! ### A run that goes on and one that starts afresh -/

/-- A diagnostic about a file for which a run kept nothing, or about the compiled file. -/
def Session.Shows (base : Session) (root : Path) (d : Diagnostic) : Bool :=
  d.file == root || (base.exportsOf d.file).isNone

/--
A run that went on from one state and a run that went on from another one are at the same place: the
first one keeps what the second one keeps and what it kept from the beginning, and its diagnostics
are those of the second one, without those about files it kept from the beginning.
-/
structure Aligned (base fresh : Session) (root : Path) (s t : Session) : Prop where
  stack : t.inProgress = s.inProgress
  more : ∀ p exports, p.Normal → t.exportsOf p = some exports → s.exportsOf p = some exports
  only : ∀ p exports, p.Normal → s.exportsOf p = some exports →
    t.exportsOf p = some exports ∨ base.exportsOf p = some exports
  held : base.Grows s
  log : ∃ ds, t.log.items = fresh.log.items ++ ds ∧
    s.log.items = base.log.items ++ ds.filter (base.Shows root)

variable {base fresh : Session} {root : Path} {s t : Session}

theorem Aligned.step (h : Aligned base fresh root s t) {s' t' : Session}
    (stack : t'.inProgress = s'.inProgress) (hs : ∀ p, s'.exportsOf p = s.exportsOf p)
    (ht : ∀ p, t'.exportsOf p = t.exportsOf p) (logs : s'.log = s.log) (logt : t'.log = t.log) :
    Aligned base fresh root s' t' where
  stack := stack
  more p exports normal kept := (hs p).trans (h.more p exports normal ((ht p).symm.trans kept))
  only p exports normal kept :=
    (h.only p exports normal ((hs p).symm.trans kept)).imp_left (ht p).trans
  held p exports kept := (hs p).trans (h.held p exports kept)
  log := by
    rw [logs, logt]
    exact h.log

/-- The same diagnostics about a file that nothing was kept for keep two runs together. -/
theorem Aligned.report (h : Aligned base fresh root s t) {ds : List Diagnostic}
    (shown : ∀ d ∈ ds, base.Shows root d = true) :
    Aligned base fresh root (s.report ds) (t.report ds) where
  stack := h.stack
  more := h.more
  only := h.only
  held := h.held
  log := by
    obtain ⟨ds', items, items'⟩ := h.log
    refine ⟨ds' ++ ds, by simp [items], ?_⟩
    rw [List.filter_append, List.filter_eq_self.mpr shown]
    simp [items']

theorem Aligned.store (h : Aligned base fresh root s t) {p : Path} (exports : ExportTable)
    (new : base.exportsOf p = none) :
    Aligned base fresh root (s.store p exports) (t.store p exports) where
  stack := h.stack
  more q exports' hq kept := by
    rw [Session.exportsOf_store] at kept ⊢
    split at kept
    · next same => rw [if_pos same, kept]
    · next different =>
        rw [if_neg different]
        exact h.more q exports' hq kept
  only q exports' hq kept := by
    rw [Session.exportsOf_store] at kept ⊢
    split at kept
    · next same => exact .inl (by rw [if_pos same, kept])
    · next different =>
        rw [if_neg different]
        exact h.only q exports' hq kept
  held := h.held.store exports new
  log := h.log

/-- The second run loads a file that the first one kept from the beginning. -/
theorem Aligned.load (h : Aligned base fresh root s t) (baseSound : base.Sound fs)
    (sound : s.Sound fs) {t' : Session} (soundt : t'.Sound fs) {p : Path} {exports : ExportTable}
    (normal : p.Normal) (kept : base.exportsOf p = some exports)
    (away : ¬ ReflTransGen fs.Imports p root) (stack : t'.inProgress = t.inProgress)
    (grows : t.Grows t') (adds : t.Adds t' (ReflTransGen fs.Imports p)) :
    Aligned base fresh root s t' := by
  have keptAll : ∀ q, ReflTransGen fs.Imports p q →
      q.Normal ∧ ∃ exports', base.exportsOf q = some exports' := by
    intro q reach
    induction reach with
    | refl => exact ⟨normal, exports, kept⟩
    | tail _ step ih =>
        obtain ⟨normal', exports', kept'⟩ := ih
        exact ⟨step.normal, baseSound.closed _ exports' _ normal' kept' step⟩
  refine ⟨stack.trans h.stack, ?_, ?_, h.held, ?_⟩
  · intro q exports' hq kept'
    rcases adds.kept q exports' hq kept' with old | reach
    · exact h.more q exports' hq old
    · obtain ⟨_, exports'', kept''⟩ := keptAll q reach
      have keptNow := h.held q exports'' kept''
      rw [(soundt.gives q exports' hq kept').unique (sound.gives q exports'' hq keptNow)]
      exact keptNow
  · intro q exports' hq kept'
    exact (h.only q exports' hq kept').imp_left (grows q exports')
  · obtain ⟨ds, items, items'⟩ := h.log
    obtain ⟨loaded, itemsLoaded, about⟩ := adds.log
    refine ⟨ds ++ loaded, by rw [itemsLoaded, items, List.append_assoc], ?_⟩
    have hidden : loaded.filter (base.Shows root) = [] := by
      rw [List.filter_eq_nil_iff]
      intro d hd
      obtain ⟨_, exports', kept'⟩ := keptAll d.file (about d hd)
      have other : d.file ≠ root := fun e => away (e ▸ about d hd)
      simp [Session.Shows, kept', other]
    rw [List.filter_append, hidden, List.append_nil, items']

/-- What both runs are while a file is analysed in them. -/
structure Together (fs : Files) (base fresh : Session) (root : Path) (stack : List Path)
    (s t : Session) : Prop where
  aligned : Aligned base fresh root s t
  stack : s.inProgress = stack
  sound : s.Sound fs
  soundt : t.Sound fs

theorem Together.stackt {stack : List Path} (h : Together fs base fresh root stack s t) :
    t.inProgress = stack := h.aligned.stack.trans h.stack

theorem Together.step {stack stack' : List Path} (h : Together fs base fresh root stack s t)
    {s' t' : Session} (hs' : s'.inProgress = stack') (ht' : t'.inProgress = stack')
    (hs : ∀ p, s'.exportsOf p = s.exportsOf p) (ht : ∀ p, t'.exportsOf p = t.exportsOf p)
    (logs : s'.log = s.log) (logt : t'.log = t.log) :
    Together fs base fresh root stack' s' t' where
  aligned := h.aligned.step (ht'.trans hs'.symm) hs ht logs logt
  stack := hs'
  sound := h.sound.of_same hs
  soundt := h.soundt.of_same ht

theorem Together.report {stack : List Path} (h : Together fs base fresh root stack s t)
    {ds : List Diagnostic} (shown : ∀ d ∈ ds, base.Shows root d = true) :
    Together fs base fresh root stack (s.report ds) (t.report ds) where
  aligned := h.aligned.report shown
  stack := h.stack
  sound := h.sound.of_same fun _ => rfl
  soundt := h.soundt.of_same fun _ => rfl

/-- An import gets the same answer in both runs, which stay together. -/
def Importer.Keeps (importer : Importer) (fs : Files) (base fresh : Session) (root : Path)
    (stack : List Path) (file : Path) (i : ImportDeclaration) : Prop :=
  ∀ s t, Together fs base fresh root stack s t →
    (importer file i s).1 = (importer file i t).1 ∧
      Together fs base fresh root stack (importer file i s).2 (importer file i t).2

/-- The analysis of a file whose diagnostics both runs show has the same result in both. -/
theorem analyzeWith_together {importer : Importer} {p : Path} {program : Program}
    {stack : List Path} (h : Together fs base fresh root stack s t)
    (shown : p = root ∨ base.exportsOf p = none)
    (keeps : ∀ i ∈ program.imports, i.isNative = false →
      importer.Keeps fs base fresh root (stack ++ [p]) p i) :
    (analyzeWith importer p program .fresh s).result =
        (analyzeWith importer p program .fresh t).result ∧
      Together fs base fresh root stack (analyzeWith importer p program .fresh s).session
        (analyzeWith importer p program .fresh t).session := by
  have shows : ∀ ds : List Diagnostic, (∀ d ∈ ds, d.file = p) →
      ∀ d ∈ ds, base.Shows root d = true := by
    intro ds about d hd
    rcases shown with rfl | new
    · simp [Session.Shows, about d hd]
    · simp [Session.Shows, about d hd, new]
  have reporting : Workspace.Reporting p (Together fs base fresh root (stack ++ [p])) :=
    fun _ _ ds about together => together.report (shows ds about)
  have agree : ∀ i ∈ program.imports, i.isNative = false →
      Workspace.Agree (Together fs base fresh root (stack ++ [p])) False importer importer p i :=
    fun i hi hn s t together => .inr (keeps i hi hn s t together)
  have begun : Together fs base fresh root (stack ++ [p]) (s.begin p) (t.begin p) :=
    h.step (by simp [h.stack]) (by simp [h.stackt]) (fun _ => rfl) (fun _ => rfl) rfl rfl
  rcases analyzeWith_related .fresh reporting agree begun with
    ⟨impossible, _⟩ | ⟨s', t', ds, about, together, result, _, hs, ht⟩
  · exact impossible.elim
  · refine ⟨result, ?_⟩
    rw [hs, ht]
    refine Together.report ?_ (shows ds about)
    exact together.step (Session.inProgress_finish p together.stack)
      (Session.inProgress_finish p together.stackt) (fun _ => rfl) (fun _ => rfl) rfl rfl

theorem Aligned.imported {a b : Analyzed} {p : Path}
    (h : Aligned base fresh root a.session b.session) (same : a.result = b.result)
    (new : base.exportsOf p = none) (source : String) :
    (a.imported source p).1 = (b.imported source p).1 ∧
      Aligned base fresh root (a.imported source p).2 (b.imported source p).2 := by
  unfold Analyzed.imported
  rw [← same]
  cases a.result with
  | error failure => exact ⟨rfl, h⟩
  | ok m => exact ⟨rfl, h.store m.exports new⟩

/-- Imports get the same answers in both runs, which stay together. -/
theorem importFiles_keeps (h : fs.Stacked stack file) (rooted : root ∈ stack)
    (baseSound : base.Sound fs) (imports : fs.Imports file (file.resolveImport i.source))
    (enough : fs.size < depth + stack.length) :
    (importFiles fs depth).Keeps fs base fresh root stack file i := by
  induction depth generalizing stack file i with
  | zero =>
      have := h.length_le
      omega
  | succ depth ih =>
      intro s t together
      have importedS := importFiles_sound h imports enough s together.stack together.sound
      have importedT := importFiles_sound h imports enough t together.stackt together.soundt
      suffices answers : (importFiles fs (depth + 1) file i s).1
          = (importFiles fs (depth + 1) file i t).1 ∧
          Aligned base fresh root (importFiles fs (depth + 1) file i s).2
            (importFiles fs (depth + 1) file i t).2 from
        ⟨answers.1, answers.2, importedS.stack.trans together.stack, importedS.sound,
          importedT.sound⟩
      have progressT : t.isInProgress (file.resolveImport i.source)
          = s.isInProgress (file.resolveImport i.source) := by
        simp only [Session.isInProgress, together.aligned.stack]
      cases progress : s.isInProgress (file.resolveImport i.source) with
      | true =>
          rw [importFiles_of_inProgress progress, importFiles_of_inProgress (progressT ▸ progress)]
          refine ⟨?_, together.aligned⟩
          simp only [Session.cycleTo, together.aligned.stack]
      | false =>
          have progressT' := progressT.trans progress
          cases cached : s.exportsOf (file.resolveImport i.source) with
          | some exports =>
              rw [importFiles_of_cached progress cached]
              rcases together.aligned.only _ exports imports.normal cached with cachedT | kept
              · rw [importFiles_of_cached progressT' cachedT]
                exact ⟨rfl, together.aligned⟩
              · have given := baseSound.gives _ exports imports.normal kept
                have away := fun reach => (given.clear h imports root reach).1 rooted
                obtain ⟨answer, adds⟩ :=
                  importFiles_gives given h rfl imports enough together.stackt together.soundt
                exact ⟨answer.symm, together.aligned.load baseSound together.sound importedT.sound
                  imports.normal kept away importedT.stack importedT.grows adds⟩
          | none =>
              have cachedT : t.exportsOf (file.resolveImport i.source) = none := by
                cases hc : t.exportsOf (file.resolveImport i.source) with
                | none => rfl
                | some exports =>
                    rw [together.aligned.more _ exports imports.normal hc] at cached
                    cases cached
              have new : base.exportsOf (file.resolveImport i.source) = none := by
                cases hc : base.exportsOf (file.resolveImport i.source) with
                | none => rfl
                | some exports =>
                    rw [together.aligned.held _ exports hc] at cached
                    cases cached
              rw [importFiles_of_new progress cached, importFiles_of_new progressT' cachedT]
              cases hp : fs.program? (file.resolveImport i.source) with
              | none =>
                  obtain ⟨fault, calls, ds, _, quiet, load⟩ := loadFile_of_no_program hp i.source
                  rw [load, load]
                  refine ⟨rfl, Aligned.report ?_ fun d hd => ?_⟩
                  · exact together.aligned.step together.aligned.stack (fun _ => rfl)
                      (fun _ => rfl) rfl
                      rfl
                  · simp [Session.Shows, (quiet d hd).1, new]
              | some program =>
                  have notIn : file.resolveImport i.source ∉ stack := by
                    rw [← h.mem_iff imports.normal, ← together.stack]
                    simpa [Session.isInProgress] using progress
                  have deeper := h.push imports notIn (by simp [hp])
                  have grown : (stack ++ [file.resolveImport i.source]).length
                      = stack.length + 1 := by simp
                  have asked : Together fs base fresh root stack
                      (s.asked (readingCalls (file.resolveImport i.source)))
                      (t.asked (readingCalls (file.resolveImport i.source))) :=
                    together.step together.stack together.stackt (fun _ => rfl) (fun _ => rfl) rfl
                      rfl
                  have results := analyzeWith_together (p := file.resolveImport i.source) asked
                    (.inr new) fun j hj hn =>
                    ih deeper (by simp [rooted]) ⟨program, hp, j, hj, hn, rfl⟩ (by omega)
                  rw [loadFile_of_program hp, loadFile_of_program hp]
                  exact results.2.aligned.imported results.1 new i.source

theorem together_start (sound : base.Sound fs) (idle : base.inProgress = []) (log : DiagnosticLog)
    (root : Path) : Together fs base (.start log) root [] base (.start log) where
  aligned :=
    { stack := idle.symm
      more := fun _ _ _ kept => by cases kept
      only := fun _ _ _ kept => .inr kept
      held := fun _ _ kept => kept
      log := ⟨[], by simp, by simp⟩ }
  stack := idle
  sound := sound
  soundt := Session.sound_start fs log

theorem Analyzed.compiled_congr {a b : Analyzed} (same : a.result = b.result) (program : Program) :
    (a.compiled program).1 = (b.compiled program).1 := by
  unfold compiled
  rw [← same]
  split <;> rfl

theorem compile_aligned (sound : base.Sound fs) (idle : base.inProgress = []) (log : DiagnosticLog)
    (p : Path) :
    (base.compile fs p).1 = ((Session.start log).compile fs p).1 ∧
      Aligned base (.start log) p.normalize (base.compile fs p).2
        ((Session.start log).compile fs p).2 := by
  have started := together_start sound idle log p.normalize
  cases hp : fs.program? p.normalize with
  | none =>
      obtain ⟨error, calls, ds, quiet, compiled⟩ := Session.compile_of_no_program hp
      rw [compiled, compiled]
      refine ⟨rfl, Aligned.report ?_ fun d hd => ?_⟩
      · exact started.aligned.step started.aligned.stack (fun _ => rfl) (fun _ => rfl) rfl rfl
      · simp [Session.Shows, (quiet d hd).1]
  | some program =>
      have asked : Together fs base (.start log) p.normalize []
          (base.asked (readingCalls p.normalize))
          ((Session.start log).asked (readingCalls p.normalize)) :=
        started.step idle rfl (fun _ => rfl) (fun _ => rfl) rfl rfl
      have single : fs.Stacked [p.normalize] p.normalize :=
        .single (Path.normal_normalize p) (by simp [hp])
      have enough : fs.size < fs.size + 1 + [p.normalize].length := by
        rw [List.length_singleton]
        omega
      have results := analyzeWith_together asked (.inl rfl) fun i hi hn =>
        importFiles_keeps single (by simp) sound ⟨program, hp, i, hi, hn, rfl⟩ enough
      rw [Session.compile_of_program hp, Session.compile_of_program hp, Analyzed.session_compiled,
        Analyzed.session_compiled]
      exact ⟨Analyzed.compiled_congr results.1 program, results.2.aligned⟩

/--
In a run that compiled any files before, the compilation of a file has the result that it has in a
fresh run. The diagnostics that it reports are those of the fresh run in the same order, without
those about imported files for which exports were kept from before.
-/
theorem compile_after_any_history (fs : Files) (log log' : DiagnosticLog) (history : List Path)
    (p : Path) :
    let s := (Session.start log).compileAll fs history
    (s.compile fs p).1 = ((Session.start log').compile fs p).1 ∧
    (s.compile fs p).2.reportedSince s =
      (((Session.start log').compile fs p).2.reportedSince (.start log')).filter fun d =>
        d.file == p.normalize || (s.exportsOf d.file).isNone := by
  intro s
  obtain ⟨idle, sound⟩ : s.inProgress = [] ∧ s.Sound fs :=
    Session.compileAll_idle_sound history rfl (Session.sound_start fs log)
  obtain ⟨result, aligned⟩ := compile_aligned sound idle log' p
  refine ⟨result, ?_⟩
  obtain ⟨ds, items, items'⟩ := aligned.log
  rw [Session.reportedSince_eq items', Session.reportedSince_eq items]
  rfl

end ScriptFront
