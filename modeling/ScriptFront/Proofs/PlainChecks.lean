import ScriptFront.Proofs.AnalysisParts
import ScriptFront.Proofs.BalancedStatements

/-!
Checks that only report. Most steps of a check look at what names stand for and change nothing; what
they report is neither about a write nor about a name that was never read. Writes are judged by one
check, which reports refused writes and nothing else.
-/

namespace ScriptFront

/-- The finding is about a write. -/
def Finding.isRefusal (f : Finding) : Bool := f.kind == .invalidAssignment

/-- The finding is about a variable or a parameter that was never read. -/
def Finding.isUnread (f : Finding) : Bool :=
  f.kind == .unusedDeclaration || f.kind == .unusedParameter

/-- The finding is neither about a write nor about a name that was never read. -/
def Finding.Plain (f : Finding) : Prop := f.isRefusal = false ∧ f.isUnread = false

namespace Check

variable {α : Type}

/-- A check that changes nothing reports nothing. -/
theorem onlyReports_of_same {Q : Finding → Prop} {m : Check α} (h : ∀ c, (m.run c).2 = c) :
    OnlyReports Q m :=
  fun c => ⟨[], by rw [h c, List.append_nil], nofun⟩

theorem OnlyReports.mono {Q R : Finding → Prop} {m : Check α} (h : OnlyReports Q m)
    (weaker : ∀ f, Q f → R f) : OnlyReports R m := by
  intro c
  obtain ⟨found, run, all⟩ := h c
  exact ⟨found, run, fun f mem => weaker f (all f mem)⟩

theorem error_onlyReports {Q : Finding → Prop} {fault : SemanticFault} {place : Location}
    (h : Q (.error ⟨fault, place⟩)) : OnlyReports Q (error fault place) :=
  fun _ => ⟨_, rfl, List.forall_mem_singleton.mpr h⟩

theorem error_plain {fault : SemanticFault} (h : fault.kind ≠ .invalidAssignment)
    (place : Location) : OnlyReports Finding.Plain (error fault place) :=
  error_onlyReports ⟨beq_eq_false_iff_ne.mpr h, by cases fault <;> rfl⟩

theorem warn_plain {w : Warning} (h : (Finding.warning w .nowhere).isUnread = false)
    (place : Location) : OnlyReports Finding.Plain (warn w place) :=
  fun _ => ⟨_, rfl, List.forall_mem_singleton.mpr ⟨by cases w <;> rfl, h⟩⟩

theorem lookup_onlyReports {Q : Finding → Prop} (name : String) : OnlyReports Q (lookup name) :=
  onlyReports_of_same fun _ => rfl

theorem meaning_onlyReports {Q : Finding → Prop} : OnlyReports Q meaning :=
  onlyReports_of_same fun _ => rfl

theorem thisType_onlyReports {Q : Finding → Prop} : OnlyReports Q thisType :=
  onlyReports_of_same fun _ => rfl

theorem classMember_onlyReports {Q : Finding → Prop} (className member : String) :
    OnlyReports Q (classMember className member) :=
  onlyReports_of_same fun _ => rfl

theorem resolveType_plain (t : TypeExpr) : OnlyReports Finding.Plain (resolveType t) := by
  refine meaning_onlyReports.bind fun m => ?_
  split
  · exact onlyReports_pure _
  · next e failed =>
      obtain ⟨-, kind⟩ := typeExpr_error_at m t (within_anything _) e failed
      exact (error_plain (by simp [kind]) _).bind fun _ => onlyReports_pure _

theorem genericTypes_plain (ts : List TypeExpr) : OnlyReports Finding.Plain (genericTypes ts) := by
  induction ts with
  | nil => exact onlyReports_pure _
  | cons t ts ih =>
      exact (resolveType_plain t).bind fun _ => ih.bind fun _ => onlyReports_pure _

theorem assignable_plain (found expected : Ty) (place : Location) :
    OnlyReports Finding.Plain (assignable found expected place) := by
  unfold assignable
  split
  · exact error_plain (by simp [SemanticFault.kind]) _
  · exact onlyReports_pure _

theorem assignable?_plain (found expected : Option Ty) (place : Location) :
    OnlyReports Finding.Plain (assignable? found expected place) := by
  unfold assignable?
  split
  · exact assignable_plain _ _ _
  · exact onlyReports_pure _

theorem call_plain (name : String) (callee : Ty) (count : Nat) (place : Location) :
    OnlyReports Finding.Plain (call name callee count place) := by
  unfold call
  split
  · dsimp only
    split
    · exact (error_plain (by simp [SemanticFault.kind]) _).bind fun _ => onlyReports_pure _
    · exact onlyReports_pure _
  · exact onlyReports_pure _

theorem memberType_plain (object : Option Ty) (property : Expr) :
    OnlyReports Finding.Plain (memberType object property) := by
  unfold memberType
  split
  · exact (classMember_onlyReports _ _).bind fun _ => onlyReports_pure _
  · exact onlyReports_pure _
  · exact onlyReports_pure _

theorem objectType_onlyReports {Q : Finding → Prop} (object : Expr) :
    OnlyReports Q (objectType object) := by
  unfold objectType
  split
  · exact thisType_onlyReports
  · exact (lookup_onlyReports _).bind fun _ => onlyReports_pure _
  · exact onlyReports_pure _

/-- A write is refused, or nothing comes of it. -/
theorem writable_refuses (target : Expr) :
    OnlyReports (fun f => f.isRefusal = true) (writable target) := by
  have refused (fault : WriteFault) : OnlyReports (fun f => f.isRefusal = true)
      (error (.invalidAssignment fault) target.location) := error_onlyReports rfl
  unfold writable
  split
  · refine (lookup_onlyReports _).bind fun entry => ?_
    split
    · exact refused _
    · exact onlyReports_pure _
  · refine (objectType_onlyReports _).bind fun type => ?_
    split
    · refine (classMember_onlyReports _ _).bind fun found => ?_
      split
      · intro c
        rw [run_get_bind]
        dsimp only
        split
        · exact refused _ c
        · exact onlyReports_pure _ c
      · exact onlyReports_pure _
    · exact onlyReports_pure _
  · exact onlyReports_pure _

/-- The types that a class extends and implements. -/
theorem parents_plain (superclass : Option TypeExpr) (interfaces : List TypeExpr) :
    OnlyReports Finding.Plain (parents superclass interfaces) := by
  have resolved : OnlyReports Finding.Plain (interfaces.forM fun t => do let _ ← resolveType t) :=
    onlyReports_forM fun t _ => (resolveType_plain t).bind fun _ => onlyReports_pure _
  unfold parents
  dsimp only
  split
  · refine (resolveType_plain _).bind fun type => ?_
    split
    · split
      · exact (error_plain (by simp [SemanticFault.kind]) _).bind fun _ => resolved
      · exact resolved
    · exact resolved
  · exact resolved

end Check
end ScriptFront
