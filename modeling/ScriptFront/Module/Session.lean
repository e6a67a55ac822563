import ScriptFront.Diagnostic.Log
import ScriptFront.Module.Exports
import ScriptFront.Path.Basic

/-!
What the analyses of one run share: the files being analysed at the moment, the exports of the files
analysed so far, and the diagnostics.
-/

namespace ScriptFront

/-- A question that was put to the files. -/
inductive FileCall
  | exists_ (p : Path)
  | read (p : Path)
  | parse (p : Path)
  deriving DecidableEq, Repr, Inhabited

/--
The state of a run: the files in progress with the outermost first, the exports by file, the
questions put to the files in order, and the diagnostics.
-/
structure Session where
  inProgress : List Path
  cache : List (Path × ExportTable)
  calls : List FileCall
  log : DiagnosticLog
  deriving Inhabited

namespace Session

def start (log : DiagnosticLog) : Session := ⟨[], [], [], log⟩

/-- Enters a file. -/
def begin (s : Session) (p : Path) : Session := { s with inProgress := s.inProgress ++ [p] }

/-- Removes the last path of a list that is the same as a given one. -/
def removeLast (p : Path) (ps : List Path) : List Path :=
  (ps.reverse.eraseP (·.same p)).reverse

/-- Leaves a file. -/
def finish (s : Session) (p : Path) : Session :=
  { s with inProgress := removeLast p s.inProgress }

def isInProgress (s : Session) (p : Path) : Bool := s.inProgress.any (·.same p)

/--
The chain of files that leads back to a path, by name: from where the path is in progress to the
last file, and then the path again.
-/
def cycleTo (s : Session) (p : Path) : List String :=
  let start := (s.inProgress.findIdx? (·.same p)).getD 0
  (s.inProgress.drop start ++ [p]).map Path.fileName

def exportsOf (s : Session) (p : Path) : Option ExportTable :=
  (s.cache.find? fun e => e.1.same p).map (·.2)

/-- Keeps the exports of a file. -/
def store (s : Session) (p : Path) (exports : ExportTable) : Session :=
  { s with cache := (p, exports) :: s.cache.filter fun e => !e.1.same p }

def call (s : Session) (c : FileCall) : Session := { s with calls := s.calls ++ [c] }

def report (s : Session) (ds : List Diagnostic) : Session := { s with log := s.log.append ds }

section Laws

variable (s : Session) (p q : Path) (c : FileCall) (ds es : List Diagnostic) (exports : ExportTable)

@[simp] theorem inProgress_begin : (s.begin p).inProgress = s.inProgress ++ [p] := rfl
@[simp] theorem inProgress_call : (s.call c).inProgress = s.inProgress := rfl
@[simp] theorem inProgress_report : (s.report ds).inProgress = s.inProgress := rfl
@[simp] theorem inProgress_store : (s.store p exports).inProgress = s.inProgress := rfl

@[simp] theorem exportsOf_begin : (s.begin p).exportsOf q = s.exportsOf q := rfl
@[simp] theorem exportsOf_finish : (s.finish p).exportsOf q = s.exportsOf q := rfl
@[simp] theorem exportsOf_call : (s.call c).exportsOf q = s.exportsOf q := rfl
@[simp] theorem exportsOf_report : (s.report ds).exportsOf q = s.exportsOf q := rfl

@[simp] theorem log_begin : (s.begin p).log = s.log := rfl
@[simp] theorem log_finish : (s.finish p).log = s.log := rfl
@[simp] theorem log_call : (s.call c).log = s.log := rfl
@[simp] theorem log_store : (s.store p exports).log = s.log := rfl

@[simp] theorem items_report : (s.report ds).log.items = s.log.items ++ ds :=
  DiagnosticLog.items_append _ _

@[simp] theorem report_nil : s.report [] = s := rfl

theorem report_report : (s.report ds).report es = s.report (ds ++ es) := by
  simp [report, DiagnosticLog.append]

theorem finish_report : (s.report ds).finish p = (s.finish p).report ds := rfl

theorem removeLast_concat (ps : List Path) : removeLast p (ps ++ [p]) = ps := by
  simp [removeLast, Path.same]

/-- Leaving the file that was entered last takes it back. -/
theorem inProgress_finish {s : Session} {ps : List Path} (h : s.inProgress = ps ++ [p]) :
    (s.finish p).inProgress = ps := by
  simp [finish, h, removeLast_concat]

/-- What is kept for a file replaces what was kept for it, and nothing else. -/
theorem exportsOf_store :
    (s.store p exports).exportsOf q = if p.same q then some exports else s.exportsOf q := by
  unfold exportsOf store
  rw [List.find?_cons]
  split
  · next h => simp [h]
  · next h =>
      have other : ∀ e : Path × ExportTable, e.1.same q = true → (!e.1.same p) = true := by
        intro e he
        simp only [Path.same, beq_iff_eq] at h he ⊢
        simp only [Bool.not_eq_true', beq_eq_false_iff_ne]
        intro hp
        simp [← hp, he] at h
      rw [List.find?_filter]
      simp only [h, Bool.false_eq_true, if_false]
      congr 2
      funext e
      cases he : e.1.same q with
      | false => simp
      | true => simp [other e he]

end Laws

end Session
end ScriptFront
