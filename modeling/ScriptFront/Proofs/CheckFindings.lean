import ScriptFront.Proofs.StatementSteps

/-!
What checks report. A check only adds to the findings, and the checks of a program's body, down to
each expression, pattern and type, report nothing about imports: those findings come from binding
the imports alone. Which of the other findings arise, and when, is left open.
-/

namespace ScriptFront
namespace Check

variable {α : Type} {Q : Finding → Prop}

/-- A check leaves the findings that were there, and each that it adds has a property. -/
def Reports (Q : Finding → Prop) (m : Check α) : Prop :=
  ∀ c, ∃ found, (m.run c).2.findings = c.findings ++ found ∧ ∀ f ∈ found, Q f

theorem reports_mono {Q' : Finding → Prop} {m : Check α} (h : Reports Q m)
    (hQ : ∀ f, Q f → Q' f) : Reports Q' m := by
  intro c
  obtain ⟨found, he, hf⟩ := h c
  exact ⟨found, he, fun f hm => hQ f (hf f hm)⟩

theorem reports_of_passes {m : Check α} (h : Passes (fun _ => True) Q m) : Reports Q m := by
  intro c
  have steps := h c
  generalize (m.run c).2 = last at steps
  induction steps with
  | refl => exact ⟨[], (List.append_nil _).symm, nofun⟩
  | tail _ step ih =>
      obtain ⟨found, he, hf⟩ := ih
      cases step with
      | report good =>
          have all := List.forall_mem_append.mpr ⟨hf, List.forall_mem_singleton.mpr good⟩
          refine ⟨found ++ [_], ?_, all⟩
          rw [he, List.append_assoc]
      | enter | leave | read | define | complete | goOn => exact ⟨found, he, hf⟩

/-- A program may declare any class. -/
theorem declares_any (n : Node) : n.Declares fun _ => True := fun _ _ _ _ _ => trivial

theorem builtins_local : Reports Finding.Local builtins :=
  reports_of_passes builtins_passes

theorem body_local (p : Program) : Reports Finding.Local (body p) :=
  reports_of_passes (body_passes (p.outline.all_of_forall declares_any))

theorem unusedImports_local (p : Program) : Reports Finding.Local (unusedImports p) :=
  reports_of_passes (unusedImports_passes p)

theorem bindImport_acyclic (i : ImportDeclaration) (exports : ExportTable) :
    Reports Finding.Acyclic (bindImport i exports) :=
  reports_of_passes (bindImport_passes fun _ _ _ _ => trivial)

end Check
end ScriptFront
