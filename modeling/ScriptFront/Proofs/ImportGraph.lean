import Mathlib.Data.List.Chain
import Mathlib.Data.List.Nodup
import Mathlib.Data.List.Perm.Subperm
import Mathlib.Logic.Relation
import ScriptFront.Proofs.AnalysisRuns
import ScriptFront.Proofs.PathKeys

/-!
The graph of imports between files, what a file gives to those that import it, and the files that
can be in progress at one time. What a file gives is described without a run: a file that gives
exports lies on no cycle, and neither does any file it reaches.
-/

namespace ScriptFront

open Relation

/-! ### Chains of files -/

section Chains

variable {R : Path → Path → Prop} {stack : List Path} {p q file : Path}

/-- Every file of a chain leads to the last one. -/
theorem reaches_last (chain : stack.IsChain R) (last : stack.getLast? = some file)
    (hp : p ∈ stack) : ReflTransGen R p file := by
  obtain ⟨before, after, rfl⟩ := List.append_of_mem hp
  apply List.relationReflTransGen_of_exists_isChain_cons after chain.right_of_append
  rw [List.getLast?_append_of_ne_nil _ (List.cons_ne_nil p after),
    List.getLast?_eq_some_getLast (List.cons_ne_nil p after)] at last
  exact Option.some.inj last

theorem isChain_concat (chain : stack.IsChain R) (last : stack.getLast? = some file)
    (step : R file q) : (stack ++ [q]).IsChain R := by
  apply chain.append (List.isChain_singleton q)
  intro p hp r hr
  rw [last] at hp
  cases hp
  cases hr
  exact step

theorem any_same_iff (normal : ∀ p ∈ stack, p.Normal) (normal' : q.Normal) :
    (stack.any (·.same q)) = true ↔ q ∈ stack := by
  rw [List.any_eq_true]
  constructor
  · rintro ⟨p, hp, same⟩
    exact (normal p hp).eq_of_same normal' same ▸ hp
  · exact fun hq => ⟨q, hq, Path.same_self q⟩

/--
A file leads neither to one of several files nor into a cycle, if the next ones do not and do not
lead back to it either.
-/
theorem clear_of_next (new : p ∉ stack)
    (h : ∀ q, R p q → ∀ r, ReflTransGen R q r → r ∉ stack ++ [p] ∧ ¬ TransGen R r r) (r : Path)
    (reach : ReflTransGen R p r) : r ∉ stack ∧ ¬ TransGen R r r := by
  rcases reach.cases_head with rfl | ⟨q, step, rest⟩
  · refine ⟨new, fun cycle => ?_⟩
    obtain ⟨q, step, back⟩ := TransGen.head'_iff.mp cycle
    exact (h q step _ back).1 (by simp)
  · have clear := h q step r rest
    exact ⟨fun hr => clear.1 (by simp [hr]), clear.2⟩

end Chains

namespace Files

/-- The program of a file that exists, can be read and parses. -/
def program? (fs : Files) (p : Path) : Option Program :=
  match fs.find? p with
  | some (.ok text) =>
    match (parseFile p text).result with
    | .ok program => some program
    | .error _ => none
  | _ => none

/-- A file that can be analysed has an import declaration that names another file. -/
def Imports (fs : Files) (p q : Path) : Prop :=
  ∃ program, fs.program? p = some program ∧
    ∃ i ∈ program.imports, i.isNative = false ∧ p.resolveImport i.source = q

/-- From a file, imports lead into a cycle of imports. -/
def ReachesCycle (fs : Files) (p : Path) : Prop :=
  ∃ q, ReflTransGen fs.Imports p q ∧ TransGen fs.Imports q q

/-- From a file, imports lead neither to one of several files nor into a cycle. -/
def Clear (fs : Files) (stack : List Path) (p : Path) : Prop :=
  ∀ q, ReflTransGen fs.Imports p q → q ∉ stack ∧ ¬ TransGen fs.Imports q q

/-- Answers imports from a table that does not depend on the run. -/
def answering (answers : ImportDeclaration → ExportTable) : Importer :=
  fun _ i s => (.ok (answers i), s)

/--
A file gives exports: every file that it imports gives exports, and its analysis with these for
answers succeeds with the exports of the file.
-/
inductive Gives (fs : Files) : Path → ExportTable → Prop
  | intro {p program m} (answers : ImportDeclaration → ExportTable) :
      fs.program? p = some program →
      (∀ i ∈ program.imports, i.isNative = false →
        Gives fs (p.resolveImport i.source) (answers i)) →
      (analyzeWith (answering answers) p program .fresh (.start .empty)).result = .ok m →
      Gives fs p m.exports

variable {fs : Files} {p q : Path}

theorem program?_eq {text : String} {program : Program} (found : fs.find? p = some (.ok text))
    (parsed : (parseFile p text).result = .ok program) : fs.program? p = some program := by
  simp [program?, found, parsed]

theorem find?_of_program? {program : Program} (h : fs.program? p = some program) :
    ∃ text, fs.find? p = some (.ok text) ∧ (parseFile p text).result = .ok program := by
  unfold program? at h
  split at h
  · next text found =>
      split at h
      · next parsed =>
          cases h
          exact ⟨text, found, parsed⟩
      · cases h
  · cases h

/-- Imports lead from a file without a program nowhere. -/
theorem eq_of_reaches (h : fs.program? p = none) (reach : ReflTransGen fs.Imports p q) : q = p := by
  rcases reach.cases_head with rfl | ⟨r, ⟨program, hp, _⟩, _⟩
  · rfl
  · rw [h] at hp
    cases hp

theorem Imports.normal (h : fs.Imports p q) : q.Normal := by
  obtain ⟨_, _, i, _, _, rfl⟩ := h
  exact Path.normal_resolveImport p i.source

/-- The result of an analysis depends on the answers of the imports that are there. -/
theorem result_answering {answers answers' : ImportDeclaration → ExportTable} {program : Program}
    (same : ∀ i ∈ program.imports, i.isNative = false → answers i = answers' i) (s t : Session) :
    (analyzeWith (answering answers) p program .fresh s).result =
      (analyzeWith (answering answers') p program .fresh t).result := by
  have agree : ∀ i ∈ program.imports, i.isNative = false → Workspace.Agree (fun _ _ => True) False
      (answering answers) (answering answers') p i :=
    fun i hi hn _ _ _ => .inr ⟨congrArg Except.ok (same i hi hn), trivial⟩
  have reporting : Workspace.Reporting p fun _ _ => True := fun _ _ _ _ _ => trivial
  rcases analyzeWith_related .fresh (s := s) (t := t) reporting agree trivial with
    ⟨impossible, _⟩ | ⟨_, _, _, _, _, h, _⟩
  · exact impossible.elim
  · exact h

/-- What a file gives is unique. -/
theorem Gives.unique {exports exports' : ExportTable} (h : fs.Gives p exports)
    (h' : fs.Gives p exports') : exports = exports' := by
  induction h generalizing exports' with
  | @intro p program m answers hp _ hr ih =>
      obtain ⟨answers', hp', given', hr'⟩ := h'
      rw [hp] at hp'
      cases hp'
      have same : ∀ i ∈ program.imports, i.isNative = false → answers i = answers' i :=
        fun i hi hn => ih i hi hn (given' i hi hn)
      have results := result_answering (p := p) same (.start .empty) (.start .empty)
      rw [hr, hr'] at results
      cases results
      rfl

theorem Gives.imported {exports : ExportTable} (h : fs.Gives p exports) (imports : fs.Imports p q) :
    ∃ exports', fs.Gives q exports' := by
  obtain ⟨answers, hp, given, _⟩ := h
  obtain ⟨program, hp', i, hi, hn, rfl⟩ := imports
  rw [hp] at hp'
  cases hp'
  exact ⟨answers i, given i hi hn⟩

theorem Gives.reached {exports : ExportTable} (h : fs.Gives p exports)
    (reach : ReflTransGen fs.Imports p q) : ∃ exports', fs.Gives q exports' := by
  induction reach with
  | refl => exact ⟨exports, h⟩
  | tail _ step ih =>
      obtain ⟨_, h⟩ := ih
      exact h.imported step

theorem Gives.acc {exports : ExportTable} (h : fs.Gives p exports) :
    Acc (fun q p => fs.Imports p q) p := by
  induction h with
  | @intro p program m answers hp _ _ ih =>
      refine .intro p fun q imports => ?_
      obtain ⟨program', hp', i, hi, hn, rfl⟩ := imports
      rw [hp] at hp'
      cases hp'
      exact ih i hi hn

/-- A file that gives exports is on no cycle of imports. -/
theorem Gives.acyclic {exports : ExportTable} (h : fs.Gives p exports) :
    ¬ TransGen fs.Imports p p := by
  have acc := h.acc.transGen
  clear h
  induction acc with
  | intro p _ ih =>
      intro cycle
      have back : TransGen (fun q p => fs.Imports p q) p p := transGen_swap.mpr cycle
      exact ih p back cycle

/-! ### Files in progress -/

/--
The files in progress while one of them is analysed: each imports the next one, none is there twice,
and the analysed file is the last one.
-/
structure Stacked (fs : Files) (stack : List Path) (file : Path) : Prop where
  nodup : stack.Nodup
  parsed : ∀ p ∈ stack, p.Normal ∧ (fs.program? p).isSome
  chain : stack.IsChain fs.Imports
  last : stack.getLast? = some file

variable {stack : List Path} {file : Path}

theorem Stacked.single (normal : p.Normal) (parsed : (fs.program? p).isSome) :
    fs.Stacked [p] p where
  nodup := by simp
  parsed := by simpa using ⟨normal, parsed⟩
  chain := by simp
  last := rfl

theorem Stacked.push (h : fs.Stacked stack file) (imports : fs.Imports file q) (new : q ∉ stack)
    (parsed : (fs.program? q).isSome) : fs.Stacked (stack ++ [q]) q where
  nodup := List.concat_eq_append ▸ h.nodup.concat new
  parsed := by
    intro p hp
    rcases List.mem_append.mp hp with hp | hp
    · exact h.parsed p hp
    · obtain rfl := List.mem_singleton.mp hp
      exact ⟨imports.normal, parsed⟩
  chain := isChain_concat h.chain h.last imports
  last := by simp

theorem Stacked.mem_iff (h : fs.Stacked stack file) (normal : q.Normal) :
    (stack.any (·.same q)) = true ↔ q ∈ stack :=
  any_same_iff (fun p hp => (h.parsed p hp).1) normal

/-- Every file in progress reaches the one that is analysed. -/
theorem Stacked.reaches (h : fs.Stacked stack file) (hp : p ∈ stack) :
    ReflTransGen fs.Imports p file := reaches_last h.chain h.last hp

/-- There are no more different paths of files than there are files. -/
theorem length_le_size {ps : List Path} (nodup : ps.Nodup)
    (exist : ∀ p ∈ ps, p.Normal ∧ (fs.find? p).isSome) : ps.length ≤ fs.size := by
  let entry (p : Path) := fs.entries.find? fun e => e.1.same p
  have of_find {p : Path} {e : Path × Except String String} (he : entry p = some e) :
      e.1.same p = true :=
    List.find?_some (p := fun e : Path × Except String String => e.1.same p) he
  have found : ∀ p ∈ ps, ∃ e ∈ fs.entries, entry p = some e ∧ e.1.same p = true := by
    intro p hp
    obtain ⟨content, hfind⟩ := Option.isSome_iff_exists.mp (exist p hp).2
    obtain ⟨e, he, _⟩ := Option.map_eq_some_iff.mp hfind
    exact ⟨e, List.mem_of_find?_eq_some he, he, of_find he⟩
  have injective : ∀ p ∈ ps, ∀ q ∈ ps, entry p = entry q → p = q := by
    intro p hp q hq same
    obtain ⟨e, _, hep, sep⟩ := found p hp
    obtain ⟨e', _, heq, seq⟩ := found q hq
    rw [hep, heq] at same
    cases same
    refine (exist p hp).1.eq_of_same (exist q hq).1 ?_
    simp only [Path.same, beq_iff_eq] at sep seq ⊢
    rw [← sep, seq]
  have nodup : (ps.map entry).Nodup := List.Nodup.map_on injective nodup
  have subset : ps.map entry ⊆ fs.entries.map some := by
    intro o ho
    obtain ⟨p, hp, rfl⟩ := List.mem_map.mp ho
    obtain ⟨e, he, hep, _⟩ := found p hp
    exact List.mem_map.mpr ⟨e, he, hep.symm⟩
  simpa [size] using (List.subperm_of_subset nodup subset).length_le

/-- There are no more files in progress than there are files. -/
theorem Stacked.length_le (h : fs.Stacked stack file) : stack.length ≤ fs.size := by
  refine length_le_size h.nodup fun p hp => ⟨(h.parsed p hp).1, ?_⟩
  obtain ⟨program, hprogram⟩ := Option.isSome_iff_exists.mp (h.parsed p hp).2
  obtain ⟨text, hfind, _⟩ := find?_of_program? hprogram
  rw [hfind]
  rfl

/-! ### Files that are clear of those in progress -/

theorem clear_of_no_program (h : fs.program? p = none) (new : p ∉ stack) : fs.Clear stack p := by
  intro q reach
  obtain rfl := eq_of_reaches h reach
  refine ⟨new, fun cycle => ?_⟩
  obtain ⟨r, ⟨program, hp, _⟩, _⟩ := TransGen.head'_iff.mp cycle
  rw [h] at hp
  cases hp

/-- A file that gives exports reaches none of the files that led to it. -/
theorem Gives.clear {exports : ExportTable} (given : fs.Gives q exports)
    (h : fs.Stacked stack file) (imports : fs.Imports file q) : fs.Clear stack q := by
  intro r reach
  obtain ⟨_, given'⟩ := given.reached reach
  refine ⟨fun hr => ?_, given'.acyclic⟩
  have back : TransGen fs.Imports r q := .tail' (h.reaches hr) imports
  exact given'.acyclic (back.trans_left reach)

theorem clear_of_imports (new : p ∉ stack)
    (h : ∀ q, fs.Imports p q → fs.Clear (stack ++ [p]) q) : fs.Clear stack p := clear_of_next new h

end Files
end ScriptFront
