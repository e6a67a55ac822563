import ScriptFront.Proofs.AccountedRuns

/-!
The walk over imports that starts at a text. What is kept for a file from earlier jobs was given
without the text, and it is not looked at again; so a walk goes from the text through the files that
nothing is kept for, and reports a cycle if and only if it can be led into one this way.
-/

namespace ScriptFront

open Relation

/-- A text as the file at a path, among other files, of which some need not be looked at again. -/
structure Walk where
  files : Files
  root : Path
  program : Program
  kept : Path → Prop

namespace Walk

/-- The program that is analysed for a path: that of the text, or of a file that is not kept. -/
inductive Analyses (w : Walk) : Path → Program → Prop
  | root : Analyses w w.root w.program
  | file {p program} : p ≠ w.root → ¬ w.kept p → w.files.program? p = some program →
      Analyses w p program

/-- A file that is analysed has an import declaration that names another file. -/
def Leads (w : Walk) (p q : Path) : Prop :=
  ∃ program, w.Analyses p program ∧
    ∃ i ∈ program.imports, i.isNative = false ∧ p.resolveImport i.source = q

/-- From the text, imports lead into a cycle of imports. -/
def ReachesCycle (w : Walk) : Prop := ∃ q, ReflTransGen w.Leads w.root q ∧ TransGen w.Leads q q

/-- The walk from the same text on which nothing is kept. -/
def fresh (w : Walk) : Walk := { w with kept := fun _ => False }

/-- From a file, imports lead neither to one of several files nor into a cycle. -/
def Clear (w : Walk) (stack : List Path) (p : Path) : Prop :=
  ∀ q, ReflTransGen w.Leads p q → q ∉ stack ∧ ¬ TransGen w.Leads q q

variable {w : Walk} {p q file : Path} {stack : List Path} {program program' : Program}

theorem Analyses.unique (h : w.Analyses p program) (h' : w.Analyses p program') :
    program = program' := by
  cases h with
  | root =>
      cases h' with
      | root => rfl
      | file other _ _ => exact absurd rfl other
  | file other _ found =>
      cases h' with
      | root => exact absurd rfl other
      | file _ _ found' => exact Option.some.inj (found.symm.trans found')

/-- Only the text is analysed without a file. -/
theorem Analyses.found (h : w.Analyses p program) (other : p ≠ w.root) :
    w.files.program? p = some program := by
  cases h with
  | root => exact absurd rfl other
  | file _ _ found => exact found

theorem Leads.normal (h : w.Leads p q) : q.Normal := by
  obtain ⟨_, _, i, _, _, rfl⟩ := h
  exact Path.normal_resolveImport p i.source

/-- Where nothing is analysed, the walk is at an end. -/
theorem clear_of_unread (unread : ∀ program, ¬ w.Analyses p program) (new : p ∉ stack) :
    w.Clear stack p := by
  intro q reach
  have stuck {r : Path} : ¬ w.Leads p r := fun ⟨program, has, _⟩ => unread program has
  rcases reach.cases_head with rfl | ⟨r, leads, _⟩
  · refine ⟨new, fun cycle => ?_⟩
    obtain ⟨r, leads, _⟩ := TransGen.head'_iff.mp cycle
    exact stuck leads
  · exact absurd leads stuck

theorem clear_of_leads (new : p ∉ stack) (h : ∀ q, w.Leads p q → w.Clear (stack ++ [p]) q) :
    w.Clear stack p := clear_of_next new h

/-- A file is on no cycle if none of the files that it leads to reaches one. -/
theorem clear_of_clear (new : p ∉ stack) (h : ∀ q, w.Leads p q → w.Clear stack q) :
    w.Clear stack p := by
  intro r reach
  rcases reach.cases_head with rfl | ⟨q, leads, rest⟩
  · refine ⟨new, fun cycle => ?_⟩
    obtain ⟨q, leads, back⟩ := TransGen.head'_iff.mp cycle
    exact (h q leads q .refl).2 (.tail' back leads)
  · exact h q leads r rest

/-! ### Files in progress -/

/--
The files in progress while one of them is analysed: the text comes first, each leads to the next
one, none is there twice, and the analysed file is the last one.
-/
structure Stacked (w : Walk) (stack : List Path) (file : Path) : Prop where
  nodup : stack.Nodup
  head : ∃ rest, stack = w.root :: rest ∧ ∀ p ∈ rest, (w.files.program? p).isSome
  normal : ∀ p ∈ stack, p.Normal
  chain : stack.IsChain w.Leads
  last : stack.getLast? = some file

theorem Stacked.single (normal : w.root.Normal) : w.Stacked [w.root] w.root where
  nodup := List.nodup_singleton _
  head := ⟨[], rfl, List.forall_mem_nil _⟩
  normal := List.forall_mem_singleton.mpr normal
  chain := by simp
  last := rfl

theorem Stacked.push (h : w.Stacked stack file) (leads : w.Leads file q) (new : q ∉ stack)
    (parsed : (w.files.program? q).isSome) : w.Stacked (stack ++ [q]) q where
  nodup := List.concat_eq_append ▸ h.nodup.concat new
  head := by
    obtain ⟨rest, rfl, all⟩ := h.head
    exact ⟨rest ++ [q], rfl, List.forall_mem_append.mpr ⟨all, List.forall_mem_singleton.mpr parsed⟩⟩
  normal := List.forall_mem_append.mpr ⟨h.normal, List.forall_mem_singleton.mpr leads.normal⟩
  chain := isChain_concat h.chain h.last leads
  last := by simp

theorem Stacked.mem_iff (h : w.Stacked stack file) (normal : q.Normal) :
    (stack.any (·.same q)) = true ↔ q ∈ stack := any_same_iff h.normal normal

theorem Stacked.root_mem (h : w.Stacked stack file) : w.root ∈ stack := by
  obtain ⟨rest, rfl, -⟩ := h.head
  exact List.mem_cons_self

/-- Every file in progress reaches the one that is analysed. -/
theorem Stacked.reaches (h : w.Stacked stack file) (hp : p ∈ stack) :
    ReflTransGen w.Leads p file := reaches_last h.chain h.last hp

/-- There is one file more in progress than there are files at the most. -/
theorem Stacked.length_le (h : w.Stacked stack file) : stack.length ≤ w.files.size + 1 := by
  obtain ⟨rest, rfl, parsed⟩ := h.head
  refine Nat.succ_le_succ (Files.length_le_size (List.nodup_cons.mp h.nodup).2 fun p hp => ?_)
  obtain ⟨program, hprogram⟩ := Option.isSome_iff_exists.mp (parsed p hp)
  obtain ⟨text, hfind, _⟩ := Files.find?_of_program? hprogram
  exact ⟨h.normal p (List.mem_cons_of_mem _ hp), hfind ▸ rfl⟩

/-- An import of a file in progress closes a cycle. -/
theorem Stacked.cycle (h : w.Stacked stack file) (leads : w.Leads file q) (hq : q ∈ stack) :
    w.ReachesCycle :=
  ⟨q, (h.reaches h.root_mem).tail leads, .tail' (h.reaches hq) leads⟩

/-! ### Runs on a walk -/

/--
In the course of a walk, nothing that is kept is lost, and the files that something is kept for lead
neither back to the text nor into a cycle.
-/
structure Fits (w : Walk) (s : Session) : Prop where
  clear : ∀ p exports, p.Normal → p ≠ w.root → s.exportsOf p = some exports → w.Clear [w.root] p
  kept : ∀ p, w.kept p → ∃ exports, s.exportsOf p = some exports

theorem Fits.of_same {s t : Session} (h : w.Fits s) (same : ∀ p, t.exportsOf p = s.exportsOf p) :
    w.Fits t where
  clear p exports normal other kept := h.clear p exports normal other (same p ▸ kept)
  kept p kept := by
    rw [same]
    exact h.kept p kept

theorem Fits.store {s : Session} {exports : ExportTable} (h : w.Fits s) (normal : p.Normal)
    (clear : w.Clear [w.root] p) : w.Fits (s.store p exports) where
  clear q exports' hq other kept := by
    rw [Session.exportsOf_store] at kept
    split at kept
    · next same => exact normal.eq_of_same hq same ▸ clear
    · exact h.clear q exports' hq other kept
  kept q kept := by
    rw [Session.exportsOf_store]
    split
    · exact ⟨exports, rfl⟩
    · exact h.kept q kept

/-- What the import of a file did to a run on a walk. -/
structure Imported (w : Walk) (p : Path) (s : Session) (answer : Except SemanticFault ExportTable)
    (t : Session) : Prop where
  stack : t.inProgress = s.inProgress
  fits : w.Fits t
  clear : ∀ exports, answer = .ok exports → w.Clear [w.root] p
  tells : s.Tells t ((∀ fault, answer = .error fault → fault.kind ≠ .circularImport) →
    w.Clear s.inProgress p)
  traces : s.Traces t fun _ => w.ReachesCycle
  cycle : ∀ fault, answer = .error fault → fault.kind = .circularImport → w.ReachesCycle

/-- What the imports of a file did to a run on a walk. -/
structure Bound (w : Walk) (file : Path) (mayFail : Prop) (is : List ImportDeclaration)
    (s t : Session) : Prop where
  stack : t.inProgress = s.inProgress
  fits : w.Fits t
  clear : ¬ mayFail → ∀ i ∈ is, i.isNative = false →
    w.Clear [w.root] (file.resolveImport i.source)
  tells : s.Tells t (∀ i ∈ is, i.isNative = false →
    w.Clear s.inProgress (file.resolveImport i.source))
  traces : s.Traces t fun _ => w.ReachesCycle

end Walk

/-- An importer does to every run on a walk, with certain files in progress, what it should. -/
def Importer.Walks (importer : Importer) (w : Walk) (stack : List Path) (file : Path)
    (i : ImportDeclaration) : Prop :=
  ∀ s, s.inProgress = stack → w.Fits s →
    w.Imported (file.resolveImport i.source) s (importer file i s).1 (importer file i s).2

namespace Walk

variable {w : Walk} {p q file : Path} {stack : List Path} {program : Program} {mayFail : Prop}
  {importer : Importer} {s s' t : Session} {i : ImportDeclaration} {is : List ImportDeclaration}
  {ds : List Diagnostic}

theorem Bound.nil (fits : w.Fits s) : w.Bound file mayFail [] s s where
  stack := rfl
  fits := fits
  clear _ := List.forall_mem_nil _
  tells := .refl (List.forall_mem_nil _)
  traces := .of_logs rfl

theorem Bound.cons_native (native : i.isNative = true) (quiet : Quiet file ds)
    (rest : w.Bound file mayFail is (s.report ds) t) : w.Bound file mayFail (i :: is) s t where
  stack := rest.stack
  fits := rest.fits
  clear sure := by
    refine List.forall_mem_cons.mpr ⟨fun other => ?_, rest.clear sure⟩
    rw [native] at other
    cases other
  tells := by
    refine (Session.Tells.report fun _ => trivial).trans rest.tells fun _ clear => ?_
    refine List.forall_mem_cons.mpr ⟨fun other => ?_, clear⟩
    rw [native] at other
    cases other
  traces := (Session.Traces.quiet quiet).trans rest.traces

theorem Bound.cons_file {answer : Except SemanticFault ExportTable}
    (head : w.Imported (file.resolveImport i.source) s answer s')
    (sure : ¬ mayFail → ∃ exports, answer = .ok exports)
    (told : Session.NoCycle ds → ∀ fault, answer = .error fault → fault.kind ≠ .circularImport)
    (traced : ∀ d ∈ ds, d.kind = .circularImport → w.ReachesCycle)
    (rest : w.Bound file mayFail is (s'.report ds) t) : w.Bound file mayFail (i :: is) s t where
  stack := rest.stack.trans head.stack
  fits := rest.fits
  clear success := by
    obtain ⟨exports, ok⟩ := sure success
    exact List.forall_mem_cons.mpr ⟨fun _ => head.clear exports ok, rest.clear success⟩
  tells := by
    have reported : s.Tells (s'.report ds) (w.Clear s.inProgress (file.resolveImport i.source)) :=
      head.tells.trans (.report told) fun clear told => clear told
    refine reported.trans rest.tells fun clear clears => ?_
    have same : (s'.report ds).inProgress = s.inProgress := head.stack
    exact List.forall_mem_cons.mpr ⟨fun _ => clear, same ▸ clears⟩
  traces := (head.traces.trans (.report traced)).trans rest.traces

theorem bound_of_binds (binds : Workspace.Binds importer file mayFail is s t) (fits : w.Fits s)
    (walks : ∀ i ∈ is, i.isNative = false → importer.Walks w s.inProgress file i) :
    w.Bound file mayFail is s t := by
  induction binds with
  | nil => exact .nil fits
  | native hn quiet _ ih =>
      refine .cons_native hn quiet (ih (fits.of_same fun _ => rfl) fun j hj => ?_)
      exact walks j (List.mem_cons_of_mem _ hj)
  | @given i is ds s s' t exports hn ha quiet _ ih =>
      have head := walks i (by simp) hn s rfl fits
      rw [ha] at head
      have rest : w.Bound file mayFail is (s'.report ds) t := by
        refine ih (head.fits.of_same fun _ => rfl) fun j hj hnj => ?_
        rw [Session.inProgress_report, head.stack]
        exact walks j (List.mem_cons_of_mem _ hj) hnj
      refine .cons_file head (fun _ => ⟨exports, rfl⟩) (fun _ => nofun) ?_ rest
      exact fun d hd told => absurd told (quiet d hd).2
  | @failed i is s s' t fault may hn ha _ ih =>
      have head := walks i (by simp) hn s rfl fits
      rw [ha] at head
      have rest : w.Bound file mayFail is (s'.report [Workspace.failure file i fault]) t := by
        refine ih (head.fits.of_same fun _ => rfl) fun j hj hnj => ?_
        rw [Session.inProgress_report, head.stack]
        exact walks j (List.mem_cons_of_mem _ hj) hnj
      refine .cons_file head (fun sure => absurd may sure) (fun noCycle fault' h => ?_) ?_ rest
      · cases h
        exact noCycle _ (List.mem_singleton.mpr rfl)
      · exact List.forall_mem_singleton.mpr fun told => head.cycle fault rfl told

/-- What the analysis of a file did to a run on a walk. -/
structure Analysed (w : Walk) (p : Path) (s : Session) (a : Analyzed) : Prop where
  stack : a.session.inProgress = s.inProgress
  fits : w.Fits a.session
  clear : ∀ m, a.result = .ok m → ∀ q, w.Leads p q → w.Clear [w.root] q
  tells : s.Tells a.session (w.Clear s.inProgress p)
  traces : s.Traces a.session fun _ => w.ReachesCycle

/-- An analysis asks for the imports of its program, and for nothing else. -/
theorem analyzeWith_walks (has : w.Analyses p program) (new : p ∉ s.inProgress) (fits : w.Fits s)
    (walks : ∀ i ∈ program.imports, i.isNative = false →
      importer.Walks w (s.inProgress ++ [p]) p i) :
    w.Analysed p s (analyzeWith importer p program .fresh s) := by
  obtain ⟨opened, t, ds, quietOpened, quiet, binds, session⟩ :=
    analyzeWith_binds importer p program .fresh s
  have begun : w.Fits ((s.begin p).report opened) := fits.of_same fun _ => rfl
  have bound := bound_of_binds binds begun walks
  have stack : t.inProgress = s.inProgress ++ [p] := bound.stack
  have imports {P : Path → Prop} (all : ∀ i ∈ program.imports, i.isNative = false →
      P (p.resolveImport i.source)) (q : Path) (leads : w.Leads p q) : P q := by
    obtain ⟨program', has', i, hi, hn, rfl⟩ := leads
    cases has.unique has'
    exact all i hi hn
  have opening : s.Traces ((s.begin p).report opened) fun _ => w.ReachesCycle :=
    (Session.Traces.of_logs rfl).trans (Session.Traces.quiet quietOpened)
  have leaving : t.Traces ((t.finish p).report ds) fun _ => w.ReachesCycle :=
    (Session.Traces.of_logs rfl).trans (Session.Traces.quiet quiet)
  refine ⟨?_, ?_, fun m hm => ?_, ?_, ?_⟩
  · rw [session]
    exact Session.inProgress_finish p stack
  · rw [session]
    exact bound.fits.of_same fun _ => rfl
  · exact imports (bound.clear fun failing => failing ⟨m, hm⟩)
  · rw [session]
    have first : s.Tells ((s.begin p).report opened) True := ⟨opened, by simp, fun _ => trivial⟩
    have last : t.Tells ((t.finish p).report ds) True := ⟨ds, by simp, fun _ => trivial⟩
    refine first.trans (bound.tells.trans last fun clear _ => clear) fun _ clear => ?_
    exact clear_of_leads new (imports clear)
  · rw [session]
    exact opening.trans (bound.traces.trans leaving)

/-! ### One import -/

theorem Imported.of_inProgress (h : w.Stacked stack file) (leads : w.Leads file q) (hq : q ∈ stack)
    (fits : w.Fits s) (chain : List String) :
    w.Imported q s (.error (.circularImport chain)) s where
  stack := rfl
  fits := fits
  clear _ := nofun
  tells := .refl fun told => absurd rfl (told _ rfl)
  traces := .of_logs rfl
  cycle _ _ _ := h.cycle leads hq

/-- A file that something is kept for is clear of all files in progress, not of the first alone. -/
theorem Imported.of_kept {exports : ExportTable} (h : w.Stacked stack file)
    (leads : w.Leads file q) (new : q ∉ stack) (hs : s.inProgress = stack) (fits : w.Fits s)
    (kept : s.exportsOf q = some exports) : w.Imported q s (.ok exports) s := by
  have clear : w.Clear [w.root] q :=
    fits.clear q exports leads.normal (fun same => new (same ▸ h.root_mem)) kept
  have away : w.Clear stack q := by
    refine fun r reach => ⟨fun hr => ?_, (clear r reach).2⟩
    have back : TransGen w.Leads r q := .tail' (h.reaches hr) leads
    exact (clear r reach).2 (back.trans_left reach)
  exact ⟨rfl, fits, fun _ _ => clear, .refl fun _ => hs ▸ away, .of_logs rfl, fun _ => nofun⟩

theorem Imported.of_unread {fault : SemanticFault} {calls : List FileCall}
    (unread : ∀ program, ¬ w.Analyses q program) (new : q ∉ s.inProgress) (fits : w.Fits s)
    (kind : fault.kind ≠ .circularImport) (quiet : Quiet q ds) :
    w.Imported q s (.error fault) ((s.asked calls).report ds) where
  stack := rfl
  fits := fits.of_same fun _ => rfl
  clear _ := nofun
  tells := ⟨ds, by simp, fun _ _ => clear_of_unread unread new⟩
  traces := (Session.Traces.of_logs rfl).trans (.quiet quiet)
  cycle fault' same told := by
    cases same
    exact absurd told kind

theorem Imported.of_analysed {a : Analyzed} {calls : List FileCall} (source : String)
    (h : w.Analysed q (s.asked calls) a) (normal : q.Normal) (other : q ≠ w.root) :
    w.Imported q s (a.imported source q).1 (a.imported source q).2 := by
  have tells : s.Tells a.session (w.Clear s.inProgress q) := h.tells.of_logs rfl rfl
  have traces : s.Traces a.session fun _ => w.ReachesCycle :=
    (Session.Traces.of_logs rfl).trans h.traces
  cases result : a.result with
  | error failure =>
      simp only [Analyzed.imported, result]
      refine ⟨h.stack, h.fits, ?_, tells.mono fun clear _ => clear, traces, ?_⟩
      · intro _ found
        cases found
      · rintro _ ⟨⟩ told
        cases told
  | ok m =>
      have clear : w.Clear [w.root] q :=
        clear_of_clear (List.mem_singleton.not.mpr other) (h.clear m result)
      simp only [Analyzed.imported, result]
      refine ⟨h.stack, h.fits.store normal clear, fun _ _ => clear, ?_, ?_, ?_⟩
      · exact (tells.of_logs rfl rfl).mono fun clear _ => clear
      · exact traces.trans (.of_logs rfl)
      · intro _ failed
        cases failed

/-- A file that nothing is kept for is imported as it should be if its imports are. -/
theorem Imported.of_loadFile {source : String} (lost : s.exportsOf q = none)
    (new : q ∉ s.inProgress) (normal : q.Normal) (other : q ≠ w.root) (fits : w.Fits s)
    (walks : ∀ program, w.Analyses q program → ∀ i ∈ program.imports, i.isNative = false →
      importer.Walks w (s.inProgress ++ [q]) q i) :
    w.Imported q s (loadFile w.files importer source q s).1
      (loadFile w.files importer source q s).2 := by
  cases found : w.files.program? q with
  | none =>
      obtain ⟨fault, calls, ds, kind, quiet, load⟩ := loadFile_of_no_program found source
      have unread (program : Program) : ¬ w.Analyses q program := fun has => by
        cases found.symm.trans (has.found other)
      rw [load]
      exact .of_unread unread new fits kind quiet
  | some program =>
      have unkept : ¬ w.kept q := fun kept => by
        obtain ⟨exports, here⟩ := fits.kept q kept
        cases lost.symm.trans here
      have has : w.Analyses q program := .file other unkept found
      have fits' : w.Fits (s.asked (readingCalls q)) := fits.of_same fun _ => rfl
      rw [loadFile_of_program found]
      exact .of_analysed source (analyzeWith_walks has new fits' (walks program has)) normal other

/--
An import that is asked for by the last file in progress does to a run what it should, as long as
there are levels left for the files that are not in progress.
-/
theorem importFiles_walks {depth : Nat} (h : w.Stacked stack file)
    (leads : w.Leads file (file.resolveImport i.source))
    (enough : w.files.size + 1 < depth + stack.length) :
    (importFiles w.files depth).Walks w stack file i := by
  induction depth generalizing stack file i with
  | zero =>
      have bounded := h.length_le
      omega
  | succ depth ih =>
      intro s hs fits
      have here : s.isInProgress (file.resolveImport i.source) = true ↔
          file.resolveImport i.source ∈ stack := by
        rw [← h.mem_iff leads.normal, ← hs]
        rfl
      cases progress : s.isInProgress (file.resolveImport i.source) with
      | true =>
          rw [importFiles_of_inProgress progress]
          exact .of_inProgress h leads (here.mp progress) fits _
      | false =>
          have new : file.resolveImport i.source ∉ stack := fun mem =>
            Bool.false_ne_true (progress.symm.trans (here.mpr mem))
          cases cached : s.exportsOf (file.resolveImport i.source) with
          | some exports =>
              rw [importFiles_of_cached progress cached]
              exact .of_kept h leads new hs fits cached
          | none =>
              have other : file.resolveImport i.source ≠ w.root := fun e => new (e ▸ h.root_mem)
              rw [importFiles_of_new progress cached]
              refine .of_loadFile cached (hs ▸ new) leads.normal other fits
                fun program has j hj hn => ?_
              have deeper := h.push leads new (has.found other ▸ rfl)
              rw [hs]
              refine ih deeper ⟨program, has, j, hj, hn, rfl⟩ ?_
              rw [List.length_append, List.length_singleton]
              omega

/-- The analysis of the text of a walk in a run in which no file is in progress. -/
theorem analyze_walks (normal : w.root.Normal) (idle : s.inProgress = []) (fits : w.Fits s) :
    w.Analysed w.root s (analyze w.files w.root w.program .fresh s) := by
  have has : w.Analyses w.root w.program := .root
  refine analyzeWith_walks has (idle ▸ List.not_mem_nil) fits fun i hi hn => ?_
  rw [idle, List.nil_append]
  refine importFiles_walks (.single normal) ⟨w.program, has, i, hi, hn, rfl⟩ ?_
  rw [List.length_singleton]
  omega

/-- The analysis of the text of a walk reports a cycle if and only if the walk leads into one. -/
theorem Analysed.reports_iff {a : Analyzed} (h : w.Analysed w.root s a) :
    ∃ ds, a.session.log.items = s.log.items ++ ds ∧
      ((∃ d ∈ ds, d.kind = .circularImport) ↔ w.ReachesCycle) := by
  obtain ⟨ds, items, none⟩ := h.tells
  obtain ⟨ds', items', traced⟩ := h.traces
  obtain rfl : ds' = ds := List.append_cancel_left (items'.symm.trans items)
  refine ⟨ds', items, fun ⟨d, mem, told⟩ => traced d mem told, fun ⟨q, reach, cycle⟩ => ?_⟩
  by_contra silent
  push Not at silent
  exact (none silent q reach).2 cycle

/-! ### Walks on which nothing is kept -/

theorem Leads.fresh (h : w.Leads p q) : w.fresh.Leads p q := by
  obtain ⟨program, has, imports⟩ := h
  refine ⟨program, ?_, imports⟩
  cases has with
  | root => exact .root
  | file other _ found => exact .file other not_false found

/-- Where nothing is kept, a walk goes on as it would if nothing were kept anywhere. -/
theorem Leads.of_fresh (h : w.fresh.Leads p q) (new : p = w.root ∨ ¬ w.kept p) : w.Leads p q := by
  obtain ⟨program, has, imports⟩ := h
  refine ⟨program, ?_, imports⟩
  cases has with
  | root => exact .root
  | file other _ found => exact .file other (new.resolve_left other) found

/-- If nothing is kept for the files that a text leads to, the walk finds all cycles. -/
theorem reachesCycle_iff_fresh
    (new : ∀ q, ReflTransGen w.fresh.Leads w.root q → q = w.root ∨ ¬ w.kept q) :
    w.ReachesCycle ↔ w.fresh.ReachesCycle := by
  have follow {p q : Path} (reach : ReflTransGen w.fresh.Leads w.root p)
      (path : ReflTransGen w.fresh.Leads p q) : ReflTransGen w.Leads p q := by
    induction path with
    | refl => exact .refl
    | tail path leads ih => exact ih.tail (leads.of_fresh (new _ (reach.trans path)))
  constructor
  · rintro ⟨q, reach, cycle⟩
    exact ⟨q, reach.lift id fun _ _ => Leads.fresh, cycle.lift id fun _ _ => Leads.fresh⟩
  · rintro ⟨q, reach, cycle⟩
    obtain ⟨r, leads, back⟩ := TransGen.head'_iff.mp cycle
    refine ⟨q, follow .refl reach, .head' (leads.of_fresh (new q reach)) ?_⟩
    exact follow (reach.tail leads) back

end Walk

/-! ### Compilations of texts -/

theorem Session.fits_kept (s : Session) (fs : Files) (p : Path) (program : Program) :
    (Walk.mk fs p program fun q => (s.exportsOf q).isSome = true).Fits s where
  clear q exports _ other kept := by
    refine Walk.clear_of_unread (fun program' has => ?_) (List.mem_singleton.not.mpr other)
    cases has with
    | root => exact other rfl
    | file _ lost _ => exact lost (Option.isSome_iff_exists.mpr ⟨exports, kept⟩)
  kept _ kept := Option.isSome_iff_exists.mp kept

/--
The compilation of a text, after any other jobs, reports a cycle of imports if and only if imports
lead from the text into one by way of files that nothing is kept for, and then it fails. If nothing
is kept for any file that the text leads to, as in a run without other jobs, these are all the
cycles that it leads to.
-/
theorem Session.compileSource_reports_cycles (fs : Files) (log : DiagnosticLog)
    (history : List Job) (source : String) (p : Path) (program : Program)
    (parsed : (parseFile p.normalize source).result = .ok program) :
    let s := (start log).runAll fs history
    let walk : Walk := ⟨fs, p.normalize, program, fun q => (s.exportsOf q).isSome = true⟩
    let answer := (s.compileSource fs source p).1
    let reports := ∃ d ∈ (s.compileSource fs source p).2.reportedSince s, d.kind = .circularImport
    (reports ↔ walk.ReachesCycle) ∧
    (reports → ∃ f, answer = .error (.phase f)) ∧
    ((∀ q, ReflTransGen walk.fresh.Leads walk.root q → q = walk.root ∨ s.exportsOf q = none) →
      (reports ↔ walk.fresh.ReachesCycle)) := by
  intro s walk answer reports
  have idle : s.inProgress = [] := runAll_idle fs log history
  obtain ⟨all, ⟨-, items⟩, ends⟩ := run_ends idle fs (.text source p)
  have ended : (s.compileSource fs source p).2 = (analyze walk.files walk.root walk.program .fresh
      (s.asked [.parse p.normalize])).session := by
    rw [compileSource_eq, parsed, diagnostics_parseFile parsed, report_nil, finishJob,
      Analyzed.session_compiled]
  have fits : walk.Fits (s.asked [.parse p.normalize]) :=
    (s.fits_kept fs p.normalize program).of_same fun _ => rfl
  have exactly : reports ↔ walk.ReachesCycle := by
    obtain ⟨ds, items', iff⟩ := (Walk.analyze_walks (s := s.asked [.parse p.normalize])
      (Path.normal_normalize p) idle fits).reports_iff
    have reported : (s.compileSource fs source p).2.reportedSince s = ds :=
      reportedSince_eq (ended ▸ items')
    rwa [← reported] at iff
  refine ⟨exactly, ?_, fun new => ?_⟩
  · rintro ⟨d, mem, told⟩
    rcases ends.ok_or_phase rfl with ⟨c, ok⟩ | failed
    · -- A job that succeeds reports no errors.
      have clean := (ok ▸ ends).source_isSome_of_ok.2 d (reportedSince_eq items ▸ mem)
      rw [Diagnostic.isError, Diagnostic.severity, told] at clean
      cases clean
    · exact failed
  · refine exactly.trans (Walk.reachesCycle_iff_fresh fun q reach => (new q reach).imp_right ?_)
    intro none (kept : (s.exportsOf q).isSome = true)
    rw [none] at kept
    cases kept

/-- A cycle is reported in a fresh run, but not if the file that closes it is kept from before. -/
theorem Session.cycle_through_kept_file_is_missed :
    let fs : Files := ⟨[(⟨"a.ky"⟩, .ok ""), (⟨"b.ky"⟩, .ok "import * from \"a\";")]⟩
    let text := "import * from \"b\";"
    let answer (s : Session) := (s.compileSource fs text ⟨"a.ky"⟩).1
    let reports (s : Session) :=
      ∃ d ∈ (s.compileSource fs text ⟨"a.ky"⟩).2.reportedSince s, d.kind = .circularImport
    (∃ program, (parseFile (Path.normalize ⟨"a.ky"⟩) text).result = .ok program) ∧
      (reports (.start .empty) ∧ ∃ f, answer (.start .empty) = .error (.phase f)) ∧
      ¬ reports ((start .empty).runAll fs [.text text ⟨"main.ky"⟩]) := by
  intro fs text answer reports
  have parses : (parseFile (Path.normalize ⟨"a.ky"⟩) text).result.toOption.isSome = true := by
    decide +kernel
  obtain ⟨program, parsed⟩ := Option.isSome_iff_exists.mp parses
  have parsed := eq_ok_of_toOption parsed
  have fresh : reports (.start .empty) := by decide +kernel
  have missed : ¬ reports ((start .empty).runAll fs [.text text ⟨"main.ky"⟩]) := by decide +kernel
  obtain ⟨-, fails, -⟩ := compileSource_reports_cycles fs .empty [] text ⟨"a.ky"⟩ program parsed
  exact ⟨⟨program, parsed⟩, ⟨fresh, fails fresh⟩, missed⟩

end ScriptFront
