import ScriptFront.Diagnostic.Basic

/-!
The log that the phases report into. A listener, where there is one, hears each diagnostic as it is
reported.
-/

namespace ScriptFront

/-- Diagnostics in reporting order, and those heard by the listener if the log has one. -/
structure DiagnosticLog where
  items : List Diagnostic
  heard : Option (List Diagnostic)
  deriving DecidableEq, Repr, Inhabited

namespace DiagnosticLog

/-- A log that nobody listens to. -/
def empty : DiagnosticLog := ⟨[], none⟩

/-- A log with a listener. -/
def withListener : DiagnosticLog := ⟨[], some []⟩

/-- Reports one diagnostic. -/
def push (log : DiagnosticLog) (d : Diagnostic) : DiagnosticLog :=
  ⟨log.items ++ [d], log.heard.map (· ++ [d])⟩

/-- Reports diagnostics in order. -/
def append (log : DiagnosticLog) (ds : List Diagnostic) : DiagnosticLog :=
  ds.foldl push log

def errors (log : DiagnosticLog) : List Diagnostic :=
  log.items.filter (·.isError)

def warnings (log : DiagnosticLog) : List Diagnostic :=
  log.items.filter (!·.isError)

def errorCount (log : DiagnosticLog) : Nat :=
  log.errors.length

def ofKind (log : DiagnosticLog) (k : DiagnosticKind) : List Diagnostic :=
  log.items.filter (·.kind == k)

def hasKind (log : DiagnosticLog) (k : DiagnosticKind) : Bool :=
  !(log.ofKind k).isEmpty

theorem items_push (log : DiagnosticLog) (d : Diagnostic) :
    (log.push d).items = log.items ++ [d] := rfl

theorem items_append (log : DiagnosticLog) (ds : List Diagnostic) :
    (log.append ds).items = log.items ++ ds := by
  induction ds generalizing log with
  | nil => simp [append]
  | cons d ds ih =>
    have := ih (log.push d)
    simp only [append, List.foldl_cons] at this ⊢
    rw [this, items_push, List.append_assoc]
    rfl

end DiagnosticLog
end ScriptFront
