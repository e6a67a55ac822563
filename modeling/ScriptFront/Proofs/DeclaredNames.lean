import Mathlib.Data.List.Forall2
import Mathlib.Data.List.Induction
import ScriptFront.Proofs.AnalysisParts
import ScriptFront.Proofs.BalancedStatements

/-!
Declarations in the global scope. Four phases write to it: the built-in entries, what imports bind,
what is declared ahead and completed twice, and variables as their statements are checked. In all of
them the first declaration of a name stands and the later ones are reported; a completion reaches the
entry of its own declaration only.
-/

namespace ScriptFront

/-- What declares a name in the global scope of a file. -/
inductive Declared
  /-- An entry that is built in, or that an import binds. -/
  | given (e : Entry)
  /-- A function, class or type. -/
  | ahead (s : Statement) (name : Ident)
  /-- One of the variables of a statement. -/
  | var (d : VariableDeclaration) (name : Ident)

namespace Declared

def name : Declared → String
  | given e => e.name
  | ahead _ name | var _ name => name.text

/-- Where a declaration has its name. -/
def place : Declared → Location
  | given e => e.location.getD .nowhere
  | ahead _ name | var _ name => name.location

/-- The error for a declaration of a name that is taken. -/
def redeclaration (d : Declared) : Finding := .error ⟨.redeclaration d.name, d.place⟩

/-- An entry is that of a declaration. What is declared ahead was completed by itself. -/
def Means : Declared → Entry → Prop
  | given e, e' => e' = e
  | ahead s name, e' => e'.name = name.text ∧ ∃ m, s.completed? m = some e'
  | var d name, e' => ∃ type, e' = Check.variableEntry d name type

/-- Whether the name of a declaration is declared before. -/
def Taken (before : List Declared) (d : Declared) : Prop := d.name ∈ before.map name

instance (before : List Declared) (d : Declared) : Decidable (Taken before d) :=
  inferInstanceAs (Decidable (_ ∈ _))

/-- The declarations that are the first ones of their names, behind others. -/
def firsts : List Declared → List Declared → List Declared
  | _, [] => []
  | before, d :: ds => (if Taken before d then [] else [d]) ++ firsts (before ++ [d]) ds

/-- The declarations of names that were declared before, behind others. -/
def laters : List Declared → List Declared → List Declared
  | _, [] => []
  | before, d :: ds => (if Taken before d then [d] else []) ++ laters (before ++ [d]) ds

variable (before ds es : List Declared) (d : Declared)

theorem firsts_append :
    firsts before (ds ++ es) = firsts before ds ++ firsts (before ++ ds) es := by
  induction ds generalizing before with
  | nil => rw [List.append_nil]; rfl
  | cons d ds ih => rw [List.cons_append, firsts, firsts, ih, List.append_assoc, List.append_assoc,
      List.singleton_append]

theorem laters_append :
    laters before (ds ++ es) = laters before ds ++ laters (before ++ ds) es := by
  induction ds generalizing before with
  | nil => rw [List.append_nil]; rfl
  | cons d ds ih => rw [List.cons_append, laters, laters, ih, List.append_assoc, List.append_assoc,
      List.singleton_append]

theorem firsts_concat :
    firsts [] (ds ++ [d]) = firsts [] ds ++ if Taken ds d then [] else [d] := by
  rw [firsts_append, List.nil_append, firsts, firsts, List.append_nil]

theorem laters_singleton : laters before [d] = if Taken before d then [d] else [] := by
  rw [laters, laters, List.append_nil]

theorem firsts_subset : firsts before ds ⊆ ds := by
  induction ds generalizing before with
  | nil => exact List.Subset.refl _
  | cons d ds ih =>
      rw [firsts]
      split
      · exact List.subset_cons_of_subset d (ih _)
      · exact List.cons_subset_cons d (ih _)

/-- Where no name is declared again, all declarations are first ones. -/
theorem firsts_of_laters (h : laters before ds = []) : firsts before ds = ds := by
  induction ds generalizing before with
  | nil => rfl
  | cons d ds ih =>
      obtain ⟨here, below⟩ := List.append_eq_nil_iff.mp h
      have new : ¬ Taken before d := fun known => by
        rw [if_pos known] at here
        cases here
      rw [firsts, if_neg new, ih _ below]
      rfl

theorem laters_of_nodup (h : ((before ++ ds).map name).Nodup) : laters before ds = [] := by
  induction ds generalizing before with
  | nil => rfl
  | cons d ds ih =>
      have new : ¬ Taken before d := by
        rw [List.map_append, List.nodup_append] at h
        exact fun known => h.2.2 _ known _ (List.mem_map_of_mem List.mem_cons_self) rfl
      rw [laters, if_neg new]
      refine ih _ ?_
      rwa [List.append_assoc]

/-- The first declarations have all names. -/
theorem mem_names_firsts (name : String) :
    name ∈ (firsts [] ds).map Declared.name ↔ name ∈ ds.map Declared.name := by
  induction ds using List.reverseRecOn with
  | nil => rfl
  | append_singleton ds d ih =>
      rw [firsts_concat, List.map_append, List.map_append, List.mem_append, List.mem_append, ih]
      split
      · next known =>
          refine ⟨fun h => .inl (h.resolve_right nofun), fun h => .inl (h.elim id fun here => ?_)⟩
          rw [List.mem_singleton.mp here]
          exact known
      · rfl

/-- No two of the first declarations have one name. -/
theorem nodup_names_firsts : ((firsts [] ds).map Declared.name).Nodup := by
  induction ds using List.reverseRecOn with
  | nil => exact List.nodup_nil
  | append_singleton ds d ih =>
      rw [firsts_concat, List.map_append]
      split
      · rw [List.map_nil, List.append_nil]
        exact ih
      · next new =>
          refine List.nodup_append.mpr ⟨ih, List.nodup_singleton _, ?_⟩
          rintro _ known _ here rfl
          rw [List.mem_singleton.mp here, mem_names_firsts] at known
          exact new known

end Declared

/-! ### States that show declarations -/

/-- A finding that a name was declared again. -/
def Finding.isRedeclaration (f : Finding) : Bool := f.kind == .redeclaration

/-- A relation of declarations to entries of their names. -/
def Named (R : Declared → Entry → Prop) : Prop := ∀ d e, R d e → e.name = d.name

/-- A state in which there is the global scope alone, with an entry for each first declaration. -/
def Checker.Shows (R : Declared → Entry → Prop) (c : Checker) (ds : List Declared) : Prop :=
  ∃ es, c.scopes.frames.map Frame.entries = [es] ∧ List.Forall₂ R (Declared.firsts [] ds) es

theorem Checker.Shows.entries_global {R : Declared → Entry → Prop} {c : Checker}
    {ds : List Declared} (h : c.Shows R ds) :
    List.Forall₂ R (Declared.firsts [] ds) c.scopes.global.entries := by
  obtain ⟨es, frames, all⟩ := h
  rw [Scopes.frames, List.map_append, List.map_singleton, ← List.nil_append [es]] at frames
  rw [List.singleton_inj.mp (List.append_inj_right' frames rfl)]
  exact all

namespace Check

open Declared

variable {α β : Type} {R : Declared → Entry → Prop} {Q : Finding → Prop}

/-- What a check found that declares some names behind others: the redeclarations, and more. -/
structure Declares (R : Declared → Entry → Prop) (Q : Finding → Prop) (m : Check α)
    (ds : List Declared) (before : List Declared) (c : Checker) : Prop where
  shows : Checker.Shows R (m.run c).2 (before ++ ds)
  found : ∃ found, (m.run c).2.findings = c.findings ++ found ∧
    found.filter (·.isRedeclaration) = (laters before ds).map redeclaration ∧
    ∀ f ∈ found, f.isRedeclaration = false → Q f

/-- A check that declares some names in order, as long as they are new. -/
def Declaring (R : Declared → Entry → Prop) (Q : Finding → Prop) (m : Check α)
    (ds : List Declared) : Prop :=
  ∀ before c, Checker.Shows R c before → Declares R Q m ds before c

theorem Declaring.bind {m : Check α} {f : α → Check β} {ds es : List Declared}
    (hm : Declaring R Q m ds) (hf : ∀ a, Declaring R Q (f a) es) :
    Declaring R Q (m >>= f) (ds ++ es) := by
  intro before c here
  obtain ⟨there, found, first, redeclared, others⟩ := hm before c here
  obtain ⟨last, more, second, redeclared', others'⟩ := hf (m.run c).1 _ _ there
  refine ⟨?_, found ++ more, ?_, ?_, List.forall_mem_append.mpr ⟨others, others'⟩⟩
  · rw [← List.append_assoc]
    exact last
  · change ((f (m.run c).1).run (m.run c).2).2.findings = _
    rw [second, first, List.append_assoc]
  · rw [List.filter_append, redeclared, redeclared', laters_append, List.map_append]

/-- A check that declares one name and goes on as another one. -/
theorem Declares.cons {m : Check α} {m' : Check β} {d : Declared} {ds before : List Declared}
    {c c' : Checker} {first : List Finding} (rest : Declares R Q m' ds (before ++ [d]) c')
    (state : (m.run c).2 = (m'.run c').2) (found : c'.findings = c.findings ++ first)
    (redeclared : first.filter (·.isRedeclaration) = (laters before [d]).map redeclaration)
    (others : ∀ f ∈ first, f.isRedeclaration = false → Q f) :
    Declares R Q m (d :: ds) before c := by
  obtain ⟨shows, more, found', redeclared', others'⟩ := rest
  refine ⟨?_, first ++ more, ?_, ?_, List.forall_mem_append.mpr ⟨others, others'⟩⟩
  · rw [state, ← List.singleton_append, ← List.append_assoc]
    exact shows
  · rw [state, found', found, List.append_assoc]
  · rw [List.filter_append, redeclared, redeclared', ← List.map_append, ← laters_append]
    rfl

theorem declaring_pure (a : α) : Declaring R Q (pure a : Check α) [] :=
  fun before _ here => ⟨(List.append_nil before).symm ▸ here, [], (List.append_nil _).symm, rfl,
    nofun⟩

theorem declaring_forM {l : List α} {f : α → Check Unit} {ds : α → List Declared}
    (h : ∀ a ∈ l, Declaring R Q (f a) (ds a)) : Declaring R Q (l.forM f) (l.flatMap ds) := by
  induction l with
  | nil => exact declaring_pure _
  | cons a l ih =>
      obtain ⟨here, below⟩ := List.forall_mem_cons.mp h
      exact here.bind fun _ => ih below

theorem names_eq {ds : List Declared} {es : List Entry} (named : Named R)
    (all : List.Forall₂ R ds es) : es.map Entry.name = ds.map Declared.name := by
  induction all with
  | nil => rfl
  | cons here _ ih => rw [List.map_cons, List.map_cons, named _ _ here, ih]

/-- The entries of a state are found by the names of the first declarations. -/
theorem taken_iff {ds : List Declared} {es : List Entry} (named : Named R)
    (all : List.Forall₂ R (firsts [] ds) es) (name : String) :
    name ∈ es.map Entry.name ↔ name ∈ ds.map Declared.name := by
  rw [names_eq named all, mem_names_firsts]

/-- An entry can be defined if it is the first one of its name, and is then the last one. -/
theorem define_shows {d : Declared} {e : Entry} {c : Checker} {before : List Declared}
    (named : Named R) (means : R d e) (here : c.Shows R before) :
    (Taken before d ∧ ∃ existing, existing.name = d.name ∧ c.scopes.define e = .error existing) ∨
      ¬ Taken before d ∧ ∃ s, c.scopes.define e = .ok s ∧
        Checker.Shows R { c with scopes := s } (before ++ [d]) := by
  obtain ⟨es, frames, all⟩ := here
  rw [Scopes.frames_eq, List.map_cons, List.cons.injEq, List.map_eq_nil_iff] at frames
  obtain ⟨current, alone⟩ := frames
  unfold Scopes.define Frame.define Frame.find?
  rw [current]
  cases found : es.find? (·.name == e.name) with
  | some existing =>
      have matching := List.find?_some found
      have same : existing.name = d.name := (beq_iff_eq.mp matching).trans (named d e means)
      refine .inl ⟨?_, existing, same, rfl⟩
      rw [Taken, ← same, ← taken_iff named all]
      exact List.mem_map_of_mem (List.mem_of_find?_eq_some found)
  | none =>
      have new : ¬ Taken before d := by
        rw [Taken, ← named d e means, ← taken_iff named all, List.mem_map]
        rintro ⟨old, mem, same⟩
        exact List.find?_eq_none.mp found old mem (beq_iff_eq.mpr same)
      refine .inr ⟨new, _, rfl, es ++ [e], ?_, ?_⟩
      · dsimp only
        rw [Scopes.frames_eq, Scopes.current_modifyCurrent, Scopes.outer_modifyCurrent, alone]
        rfl
      · rw [firsts_concat, if_neg new]
        exact List.rel_append all (.cons means .nil)

theorem run_declare_taken {c : Checker} {e existing : Entry}
    (h : c.scopes.define e = .error existing) (place : Location) :
    (declare e place).run c
      = ((), { c with findings := c.findings ++ [.error ⟨.redeclaration existing.name, place⟩] }) := by
  unfold declare
  rw [run_get_bind]
  simp only [h]
  rfl

theorem run_declare_free {c : Checker} {e : Entry} {s : Scopes} (h : c.scopes.define e = .ok s)
    (place : Location) : (declare e place).run c = ((), { c with scopes := s }) := by
  unfold declare
  rw [run_get_bind]
  simp only [h]
  rfl

/-- A declaration of a name that is taken changes nothing. -/
theorem shows_taken {d : Declared} {c : Checker} {before : List Declared} (h : c.Shows R before)
    (known : Taken before d) : c.Shows R (before ++ [d]) := by
  obtain ⟨es, frames, all⟩ := h
  refine ⟨es, frames, ?_⟩
  rwa [firsts_concat, if_pos known, List.append_nil]

theorem declare_declaring {d : Declared} {e : Entry} (named : Named R) (means : R d e) :
    Declaring R Q (declare e d.place) [d] := by
  intro before c here
  obtain ⟨known, existing, same, taken⟩ | ⟨new, s, free, after⟩ := define_shows named means here
  · refine ⟨?_, [d.redeclaration], ?_, ?_, ?_⟩
    · rw [run_declare_taken taken]
      exact shows_taken here known
    · rw [run_declare_taken taken, same]
      rfl
    · rw [laters_singleton, if_pos known]
      rfl
    · exact List.forall_mem_singleton.mpr nofun
  · refine ⟨?_, [], ?_, ?_, nofun⟩
    · rw [run_declare_free free]
      exact after
    · rw [run_declare_free free, List.append_nil]
    · rw [laters_singleton, if_neg new]
      rfl

/-! ### Built-in entries and imports -/

theorem shows_of_entries {c d : Checker} {ds : List Declared} (h : c.Shows R ds)
    (same : d.scopes.frames.map Frame.entries = c.scopes.frames.map Frame.entries) :
    d.Shows R ds := by
  obtain ⟨es, frames, all⟩ := h
  exact ⟨es, same.trans frames, all⟩

theorem shows_mono {R' : Declared → Entry → Prop} {c : Checker} {ds : List Declared}
    (weaker : ∀ d e, R d e → R' d e) (h : c.Shows R ds) : c.Shows R' ds := by
  obtain ⟨es, frames, all⟩ := h
  exact ⟨es, frames, all.imp weaker⟩

/-- A check that reports something else declares nothing. -/
theorem error_declaring {fault : SemanticFault} {place : Location} (h : fault.kind ≠ .redeclaration)
    (h' : Q (.error ⟨fault, place⟩)) : Declaring R Q (error fault place) [] := by
  intro before c here
  have other : Finding.isRedeclaration (.error ⟨fault, place⟩) = false := beq_eq_false_iff_ne.mpr h
  refine ⟨?_, [.error ⟨fault, place⟩], rfl, ?_, List.forall_mem_singleton.mpr fun _ => h'⟩
  · rw [List.append_nil]
    exact shows_of_entries here rfl
  · rw [List.filter_cons_of_neg (by simp [other])]
    rfl

theorem named_means : Named Means := by
  rintro (e | ⟨s, name⟩ | ⟨d, name⟩) e' means
  · exact congrArg Entry.name means
  · exact means.1
  · obtain ⟨type, rfl⟩ := means
    rfl

/-- The built-in entries. No proof looks at them one by one. -/
@[irreducible] def builtinEntries : List Entry :=
  Primitive.all.map (fun p => Entry.named ⟨p.name, .primitive p, .empty, none⟩)
    ++ [.func (NativeModule.function "print" [("value", .string)] .void)]

/-- Defines a built-in entry; where its name is taken there is no report. -/
def defineBuiltin (e : Entry) : Check Unit := modify fun c =>
  match c.scopes.define e with
  | .ok scopes => { c with scopes := scopes }
  | .error _ => c

theorem builtins_eq : builtins = builtinEntries.forM defineBuiltin := by
  unfold builtinEntries
  rfl

theorem run_defineBuiltin (e : Entry) (c : Checker) : ((defineBuiltin e).run c).2 =
    match c.scopes.define e with
    | .ok scopes => { c with scopes := scopes }
    | .error _ => c := rfl

theorem defineBuiltin_shows (e : Entry) {before : List Declared} {c : Checker}
    (h : c.Shows Means before) :
    ((defineBuiltin e).run c).2.Shows Means (before ++ [.given e]) := by
  rw [run_defineBuiltin]
  obtain ⟨known, existing, -, taken⟩ | ⟨-, s, free, after⟩ :=
    define_shows named_means (d := .given e) rfl h
  · rw [taken]
    exact shows_taken h known
  · rw [free]
    exact after

theorem builtins_show {before : List Declared} {c : Checker} (h : c.Shows Means before) :
    (builtins.run c).2.Shows Means (before ++ builtinEntries.map .given) := by
  rw [builtins_eq]
  generalize builtinEntries = es
  induction es generalizing before c with
  | nil => exact (List.append_nil before).symm ▸ h
  | cons e es ih =>
      have shows := ih (defineBuiltin_shows e h)
      rw [List.append_assoc] at shows
      exact shows

theorem findings_builtins (c : Checker) : (builtins.run c).2.findings = c.findings := by
  rw [builtins_eq]
  generalize builtinEntries = es
  induction es generalizing c with
  | nil => rfl
  | cons e es ih =>
      have kept : ((defineBuiltin e).run c).2.findings = c.findings := by
        rw [run_defineBuiltin]
        split <;> rfl
      exact (ih _).trans kept

theorem declareImport_declaring (e : Entry) (tracked : Bool) :
    Declaring Means Q (declareImport e tracked) [.given e] := by
  have declared : Declaring Means Q (declare e (e.location.getD .nowhere)) [.given e] :=
    declare_declaring named_means (d := .given e) rfl
  unfold declareImport
  dsimp only
  split
  · have noted : Declaring Means Q (modify fun c => { c with
        imported := c.imported ++ [(e.name, e.location.getD .nowhere)] } : Check Unit) [] :=
      fun before c here => ⟨(List.append_nil before).symm ▸ here, [], (List.append_nil _).symm, rfl,
        nofun⟩
    exact noted.bind fun _ => declared
  · exact declared

/-- What was looked for is not exported. -/
def MissesExport (f : Finding) : Prop := f.kind = .missingExport

theorem bindName_declaring (i : ImportDeclaration) (wanted : String) (entry : Option Entry)
    (name : Ident) (place : Location) :
    Declaring Means MissesExport (bindName i wanted entry name place)
      ((entry.map (·.renamed name.text name.location)).toList.map .given) := by
  unfold bindName
  cases entry with
  | some e => exact declareImport_declaring _ _
  | none => exact error_declaring (by simp [SemanticFault.kind]) rfl

theorem bindImport_declaring (i : ImportDeclaration) (exports : ExportTable) :
    Declaring Means MissesExport (bindImport i exports) ((boundEntries i exports).map .given) := by
  unfold bindImport
  extract_lets named whole
  have listed (u : Unit) : Declaring Means MissesExport (named u)
      ((i.named.filterMap fun s =>
        (exports.find? s.imported.text).map (·.renamed s.binding.text s.binding.location)).map
          .given) := by
    rw [List.filterMap_eq_flatMap_toList, List.map_flatMap]
    exact declaring_forM fun s _ => bindName_declaring _ _ _ _ _
  have default (u : Unit) : Declaring Means MissesExport (whole u)
      ((i.whole.toList.filterMap fun name =>
        exports.default.map (·.renamed name.text name.location)).map .given ++
      (i.named.filterMap fun s =>
        (exports.find? s.imported.text).map (·.renamed s.binding.text s.binding.location)).map
          .given) := by
    dsimp only [whole]
    cases i.whole with
    | none => exact listed ()
    | some name =>
        have bound := bindName_declaring i "default" exports.default name name.location
        have all := bound.bind listed
        cases given : exports.default <;> rw [given] at all <;> exact all
  rw [boundEntries, List.map_append, List.map_append, List.append_assoc]
  split
  · refine Declaring.bind ?_ default
    rw [List.map_map, List.map_eq_flatMap]
    exact declaring_forM fun e _ => declareImport_declaring _ _
  · exact default ()

/-! ### Declarations ahead -/

/-- What statements declare ahead of their block. -/
def aheads (ss : List Statement) : List Declared :=
  ss.filterMap fun s => s.provisional?.map fun (name, _) => .ahead s name

/--
An entry is that of a declaration, in the course of completions: those of some statements were
completed, and the others may have their provisional entry still.
-/
def Stands (done : Statement → Prop) (d : Declared) (e : Entry) : Prop :=
  Means d e ∨ ∃ s name, d = .ahead s name ∧ ¬ done s ∧ s.provisional? = some (name, e)

theorem stands_mono {done done' : Statement → Prop} {d : Declared} {e : Entry}
    (fewer : ∀ s, done' s → done s) (h : Stands done d e) : Stands done' d e := by
  obtain means | ⟨s, name, same, waiting, provisional⟩ := h
  · exact .inl means
  · exact .inr ⟨s, name, same, fun ended => waiting (fewer s ended), provisional⟩

theorem named_stands (done : Statement → Prop) : Named (Stands done) := by
  rintro d e (means | ⟨s, name, rfl, -, provisional⟩)
  · exact named_means d e means
  · exact Statement.name_provisional provisional

theorem aheads_cons_of_some {s : Statement} {name : Ident} {e : Entry}
    (h : s.provisional? = some (name, e)) (ss : List Statement) :
    aheads (s :: ss) = .ahead s name :: aheads ss := by
  rw [aheads, List.filterMap_cons, h]
  rfl

theorem aheads_cons_of_none {s : Statement} (h : s.provisional? = none) (ss : List Statement) :
    aheads (s :: ss) = aheads ss := by
  rw [aheads, List.filterMap_cons, h]
  rfl

/-- Declarations ahead; those that are given back are the first ones of their names. -/
theorem declareAhead_declares (ss : List Statement) {before : List Declared} {c : Checker}
    (h : c.Shows (Stands fun _ => False) before) :
    Declares (Stands fun _ => False) (fun _ => False) (declareAhead ss) (aheads ss) before c ∧
      aheads ((declareAhead ss).run c).1 = firsts before (aheads ss) := by
  induction ss generalizing before c with
  | nil => exact ⟨declaring_pure _ before c h, rfl⟩
  | cons s ss ih =>
      cases ahead : s.provisional? with
      | none =>
          rw [declareAhead, ahead, aheads_cons_of_none ahead]
          exact ih h
      | some provisional =>
          obtain ⟨name, e⟩ := provisional
          rw [aheads_cons_of_some ahead, firsts]
          obtain ⟨known, existing, -, taken⟩ | ⟨new, t, free, after⟩ :=
            define_shows (d := .ahead s name) (named_stands _) (.inr ⟨s, name, rfl, id, ahead⟩) h
          · have run : (declareAhead (s :: ss)).run c = (declareAhead ss).run
                { c with findings := c.findings ++ [(Declared.ahead s name).redeclaration] } := by
              rw [declareAhead, ahead]
              dsimp only
              rw [run_get_bind]
              simp only [taken]
              rfl
            have next := shows_of_entries (d := { c with
              findings := c.findings ++ [(Declared.ahead s name).redeclaration] })
              (shows_taken h known) rfl
            obtain ⟨rest, same⟩ := ih next
            refine ⟨rest.cons (by rw [run]) rfl ?_ (List.forall_mem_singleton.mpr fun other =>
              Bool.false_ne_true other.symm), ?_⟩
            · rw [laters_singleton, if_pos known]
              rfl
            · rw [run, same, if_pos known]
              rfl
          · have run : (declareAhead (s :: ss)).run c =
                (s :: ((declareAhead ss).run { c with scopes := t }).1,
                  ((declareAhead ss).run { c with scopes := t }).2) := by
              rw [declareAhead, ahead]
              dsimp only
              rw [run_get_bind]
              simp only [free]
              rfl
            obtain ⟨rest, same⟩ := ih after
            refine ⟨rest.cons (by rw [run]) (List.append_nil _).symm ?_
              (List.forall_mem_nil _), ?_⟩
            · rw [laters_singleton, if_neg new]
              rfl
            · rw [run, aheads_cons_of_some ahead, same, if_neg new]
              rfl

/-- A completion reaches the entry of its own declaration only. -/
theorem completeEntry_shows {done : Statement → Prop} {s : Statement} {name : Ident} {e : Entry}
    {ds : List Declared} {c : Checker} (ahead : s.provisional? = some (name, e))
    (mem : .ahead s name ∈ firsts [] ds) (h : c.Shows (Stands done) ds) :
    ((completeEntry s).run c).2.Shows (Stands fun t => done t ∨ t = s) ds ∧
      ((completeEntry s).run c).2.findings = c.findings := by
  obtain ⟨completed, known, named⟩ := Statement.completed_of_provisional ahead c.scopes.lookup
  have run : (completeEntry s).run c = ((), { c with scopes := c.scopes.complete completed }) := by
    unfold completeEntry
    rw [run_meaning_bind, known]
    rfl
  rw [run]
  refine ⟨?_, rfl⟩
  obtain ⟨es, frames, all⟩ := h
  rw [Scopes.frames_eq, List.map_cons, List.cons.injEq, List.map_eq_nil_iff] at frames
  obtain ⟨current, alone⟩ := frames
  refine ⟨es.map fun old => if old.name == completed.name then completed else old, ?_, ?_⟩
  · change (c.scopes.complete completed).frames.map Frame.entries = _
    rw [Scopes.frames_complete, alone, Frame.complete, current]
    rfl
  · rw [List.forall₂_map_right_iff]
    have inside := (List.forall₂_and_left (p := (· ∈ firsts [] ds)) _ _).mpr ⟨fun _ => id, all⟩
    -- Only the entry of the completed name is replaced: no two of the first declarations share one.
    refine inside.imp fun d old both => ?_
    obtain ⟨first, stands⟩ := both
    have same := named_stands done d old stands
    split
    · next here =>
        have own : d = .ahead s name :=
          List.inj_on_of_nodup_map (nodup_names_firsts ds) first mem
            (same.symm.trans ((beq_iff_eq.mp here).trans named))
        rw [own]
        exact .inl ⟨named, _, known⟩
    · next other =>
        obtain means | ⟨t, name', rfl, waiting, provisional⟩ := stands
        · exact .inl means
        · refine .inr ⟨t, name', rfl, ?_, provisional⟩
          rintro (ended | rfl)
          · exact waiting ended
          · rw [ahead] at provisional
            cases provisional
            exact other (beq_iff_eq.mpr (same.trans named.symm))

theorem completeEntries_show {ss : List Statement} {done : Statement → Prop} {ds : List Declared}
    {c : Checker} (ahead : ∀ s ∈ ss, ∃ name e, s.provisional? = some (name, e) ∧
      .ahead s name ∈ firsts [] ds) (h : c.Shows (Stands done) ds) :
    ((ss.forM completeEntry).run c).2.Shows (Stands fun t => done t ∨ t ∈ ss) ds ∧
      ((ss.forM completeEntry).run c).2.findings = c.findings := by
  induction ss generalizing done c with
  | nil => exact ⟨shows_mono (fun d e => stands_mono fun t => (·.resolve_right nofun)) h, rfl⟩
  | cons s ss ih =>
      obtain ⟨⟨name, e, provisional, first⟩, below⟩ := List.forall_mem_cons.mp ahead
      obtain ⟨shows, findings⟩ := completeEntry_shows provisional first h
      obtain ⟨shows', findings'⟩ := ih below shows
      refine ⟨shows_mono (fun d e => stands_mono fun t ended => ?_) shows', findings'.trans findings⟩
      rwa [List.mem_cons, ← or_assoc] at ended

/-- Functions, classes and types are declared in source order, and completed by themselves. -/
theorem hoist_declares (body : List Statement) {before : List Declared} {c : Checker}
    (given : ∀ d ∈ before, ∃ e, d = .given e) (h : c.Shows Means before) :
    Declares Means (fun _ => False) (hoist body) (aheads body) before c := by
  have provisional : c.Shows (Stands fun _ => False) before := shows_mono (fun _ _ => .inl) h
  obtain ⟨⟨shows, found⟩, names⟩ := declareAhead_declares body provisional
  let declared := ((declareAhead body).run c).1
  have known : ∀ s ∈ declared, ∃ name e, s.provisional? = some (name, e) ∧
      .ahead s name ∈ firsts [] (before ++ aheads body) := by
    intro s mem
    obtain ⟨name, e, ahead, -⟩ := (declareAhead_accepted body c).entries s mem
    refine ⟨name, e, ahead, ?_⟩
    rw [firsts_append, List.nil_append, ← names]
    refine List.mem_append_right _ (List.mem_filterMap.mpr ⟨s, mem, ?_⟩)
    rw [ahead]
    rfl
  let order := CompletionOrder.of declared ++ CompletionOrder.of declared
    ++ declared.filter (·.isFunction)
  have inside : ∀ s ∈ order, s ∈ declared := by
    intro s mem
    obtain types | function := List.mem_append.mp mem
    · exact CompletionOrder.mem_of_mem_of ((List.mem_append.mp types).elim id id)
    · exact List.mem_of_mem_filter function
  have complete : ∀ s ∈ declared, s ∈ order := by
    intro s mem
    obtain ⟨name, e, ahead, -⟩ := known s mem
    by_cases function : s.isFunction = true
    · exact List.mem_append_right _ (List.mem_filter.mpr ⟨mem, function⟩)
    · refine List.mem_append_left _ (List.mem_append_left _ (CompletionOrder.mem_of_of_mem mem ?_))
      obtain ⟨form, place⟩ := s
      cases form <;> first | exact absurd rfl function | rfl | cases ahead
  obtain ⟨⟨es, frames, all⟩, findings⟩ :=
    completeEntries_show (fun s mem => known s (inside s mem)) shows
  have run : ((hoist body).run c).2
      = ((order.forM completeEntry).run ((declareAhead body).run c).2).2 := rfl
  refine ⟨⟨es, run ▸ frames, ?_⟩, ?_⟩
  · have first := (List.forall₂_and_left (p := (· ∈ firsts [] (before ++ aheads body))) _ _).mpr
      ⟨fun _ => id, all⟩
    refine first.imp fun d e ⟨mem, stands⟩ => ?_
    obtain means | ⟨s, name, rfl, waiting, -⟩ := stands
    · exact means
    · rw [firsts_append, List.nil_append, ← names] at mem
      obtain old | new := List.mem_append.mp mem
      · obtain ⟨e, same⟩ := given _ (firsts_subset _ _ old)
        cases same
      · obtain ⟨t, here, ahead⟩ := List.mem_filterMap.mp new
        obtain ⟨_, -, same⟩ := Option.map_eq_some_iff.mp ahead
        cases same
        exact absurd (.inr (complete _ here)) waiting
  · rw [run, findings]
    exact found

/-! ### Statements -/

/-- The variables of a statement as declarations. -/
def grouped (s : Statement) : List Declared :=
  match s.form with
  | .varGroup d => d.names.map (.var d)
  | _ => []

/-- A statement without the names of the variables that it declares. -/
def nameless (s : Statement) : Statement :=
  match s.form with
  | .varGroup d => ⟨.varGroup { d with names := [] }, s.location⟩
  | _ => s

/-- A statement declares variables, or it is nameless from the start. -/
theorem group_or_nameless (s : Statement) :
    (∃ d place, s = ⟨.varGroup d, place⟩) ∨
      nameless s = s ∧ grouped s = [] ∧ ∀ d, s.form ≠ .varGroup d := by
  obtain ⟨form, place⟩ := s
  cases form with
  | varGroup d => exact .inl ⟨d, place, rfl⟩
  | _ => exact .inr ⟨rfl, rfl, nofun⟩

theorem nameless_balanced (s : Statement) :
    Balanced (fun _ => True) 0 0 (statement (nameless s)) := by
  obtain ⟨d, place, rfl⟩ | ⟨same, -, noGroup⟩ := group_or_nameless s
  · have init : AllOf (Node.Within (AllAt fun _ => True)) (ScriptFront.optionalExpr d.init) :=
      allOf_iff.mpr fun o _ => within_anything o
    change Balanced _ 0 0 (varGroup { d with names := [] })
    rw [varGroup_eq]
    exact (variableType_balanced (within_anything _) init).bind fun _ => balanced_pure _
  · rw [same]
    exact statement_balanced s (within_anything _) fun d isGroup => absurd isGroup (noGroup d)

/-- A state with one more scope around the place that is checked, without entries. -/
def inside (c : Checker) : Checker := { c with scopes := c.scopes.enter }

theorem twin_inside (c : Checker) : c.Twin 0 (inside c) :=
  ⟨.outer c.scopes.frames_ne_nil (Scopes.frames_ne_nil _) ⟨fun _ => rfl, rfl⟩, rfl, rfl, rfl⟩

/-- A balanced check finds the same inside one more scope, which it leaves without entries. -/
theorem Balanced.sealed {m : Check α} (h : Balanced Q 0 0 m) (c : Checker) :
    reported m (inside c) = reported m c ∧
      (m.run (inside c)).2.scopes.frames.map Frame.entries
        = [] :: c.scopes.frames.map Frame.entries := by
  obtain ⟨-, -, -, -, found, first, second, -⟩ :=
    h { c with findings := [] } (inside { c with findings := [] }) (twin_inside _) nofun
  obtain ⟨-, -, -, keeps, -⟩ := h (inside c) (inside c) (.self _) nofun
  exact ⟨second.trans first.symm, keeps.entries⟩

/-- What a balanced check finds does not depend on what was found before. -/
theorem Balanced.reports {m : Check α} (h : Balanced Q 0 0 m) (c : Checker) :
    (m.run c).2.findings = c.findings ++ reported m c := by
  obtain ⟨-, -, -, -, found, first, second, -⟩ :=
    h c { c with findings := [] } ⟨(Checker.Twin.self c).frames, rfl, rfl, rfl⟩ nofun
  rw [first]
  exact congrArg (c.findings ++ ·) second.symm

/--
A statement reports what it reports without the variables that it declares, and then a redeclaration
for each of them whose name is taken.
-/
theorem statement_shows (s : Statement) {before : List Declared} {c : Checker}
    (h : c.Shows Means before) :
    ((statement s).run c).2.Shows Means (before ++ grouped s) ∧
      ((statement s).run c).2.findings = c.findings
        ++ (reported (statement (nameless s)) c
          ++ (laters before (grouped s)).map redeclaration) := by
  obtain ⟨d, place, rfl⟩ | ⟨same, none, -⟩ := group_or_nameless s
  · let start := ((variableType d).run c).2
    let type := ((variableType d).run c).1
    have own := (nameless_balanced ⟨.varGroup d, place⟩).reports c
    have kept := (nameless_balanced ⟨.varGroup d, place⟩ c c (.self c) nofun).keeps.entries
    have first : ((statement (nameless ⟨.varGroup d, place⟩)).run c).2 = start := by
      change ((varGroup { d with names := [] }).run c).2 = start
      rw [varGroup_eq]
      rfl
    rw [first] at own kept
    have declared : Declaring Means (fun _ => False)
        (d.names.forM fun name => declare (variableEntry d name type) name.location)
        (d.names.flatMap fun name => [.var d name]) :=
      declaring_forM fun name _ => declare_declaring (d := .var d name) named_means ⟨type, rfl⟩
    rw [← List.map_eq_flatMap] at declared
    obtain ⟨shows, found, findings, redeclared, others⟩ :=
      declared before start (shows_of_entries h kept)
    have all : found.filter (·.isRedeclaration) = found :=
      List.filter_eq_self.mpr fun f mem => by
        cases isOne : f.isRedeclaration with
        | true => rfl
        | false => exact (others f mem isOne).elim
    rw [all] at redeclared
    have run : ((statement ⟨.varGroup d, place⟩).run c).2
        = ((d.names.forM fun name => declare (variableEntry d name type) name.location).run
          start).2 := by
      change ((varGroup d).run c).2 = _
      rw [varGroup_eq]
      rfl
    rw [run]
    refine ⟨shows, ?_⟩
    rw [findings, own, redeclared, List.append_assoc]
    rfl
  · have balanced := nameless_balanced s
    rw [same] at balanced
    rw [none, same, List.append_nil]
    refine ⟨shows_of_entries h (balanced c c (.self c) nofun).keeps.entries, ?_⟩
    rw [balanced.reports c, laters, List.map_nil, List.append_nil]

/-- Statements declare their variables, and report among others those that are declared again. -/
theorem statements_show (ended warned : Bool) (ss : List Statement) {before : List Declared}
    {c : Checker} (h : c.Shows Means before) :
    ((statements ended warned ss).run c).2.Shows Means (before ++ ss.flatMap grouped) ∧
      ∃ found, ((statements ended warned ss).run c).2.findings = c.findings ++ found ∧
        ∀ d ∈ laters before (ss.flatMap grouped), d.redeclaration ∈ found := by
  induction ss generalizing ended warned before c with
  | nil => exact ⟨(List.append_nil before).symm ▸ h, [], (List.append_nil _).symm, nofun⟩
  | cons s ss ih =>
      have rest {c : Checker} (warned : Bool) (h : c.Shows Means before) :
          ((statements (ended || s.isTerminator) warned ss).run ((statement s).run c).2).2.Shows
              Means (before ++ (s :: ss).flatMap grouped) ∧
            ∃ found, ((statements (ended || s.isTerminator) warned ss).run
                ((statement s).run c).2).2.findings = c.findings ++ found ∧
              ∀ d ∈ laters before ((s :: ss).flatMap grouped), d.redeclaration ∈ found := by
        obtain ⟨shows, here⟩ := statement_shows s h
        obtain ⟨shows', found, there, below⟩ := ih (ended || s.isTerminator) warned shows
        rw [List.flatMap_cons, ← List.append_assoc]
        refine ⟨shows', _, (there.trans (congrArg (· ++ found) here)).trans
          (List.append_assoc _ _ _), ?_⟩
        rw [laters_append, List.forall_mem_append]
        exact ⟨fun d mem => List.mem_append_left _ (List.mem_append_right _
          (List.mem_map_of_mem mem)), fun d mem => List.mem_append_right _ (below d mem)⟩
      rw [statements]
      dsimp only
      split
      · obtain ⟨shows, found, there, again⟩ := rest (warned || ended && !warned)
          (shows_of_entries (d := { c with
            findings := c.findings ++ [.warning .unreachableCode s.location] }) h rfl)
        exact ⟨shows, _, there.trans (List.append_assoc _ _ _),
          fun d mem => List.mem_append_right _ (again d mem)⟩
      · exact rest _ h

end Check

end ScriptFront
