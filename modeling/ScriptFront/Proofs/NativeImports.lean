import ScriptFront.Proofs.ExportTables

/-!
Imports of native functions into a file that declares nothing itself. Each function that a clause
picks is bound under its local name, unless the name is that of the built-in function: then the
built-in function stays, and the import reports a redeclaration where it picks the name. What the
statements of the file report is left open.
-/

namespace ScriptFront

/-! ### What a clause picks -/

/-- The functions of a native module that a clause picks, each with the name that it gets. -/
def NativeModule.picked (m : NativeModule) (i : ImportDeclaration) : List (FunctionEntry × Ident) :=
  if i.wildcard then m.functions.map fun f => (f, ⟨f.name, i.location⟩)
  else i.named.filterMap fun s =>
    (m.functions.find? (·.name == s.imported.text)).map fun f => (f, s.binding)

/-- The entry of a function under the name that it gets. -/
def pickedEntry (picked : FunctionEntry × Ident) : Entry :=
  .func { picked.1 with name := picked.2.text, location := some picked.2.location }

/--
A clause that picks functions of a native module: all of them, or some that are listed, whose local
names are different and no names of built-in types.
-/
structure ImportDeclaration.Picks (i : ImportDeclaration) (m : NativeModule) : Prop where
  native : i.isNative = true
  source : i.source = m.name
  whole : i.whole = none
  names : i.wildcard = true ∧ i.named = [] ∨
    i.wildcard = false ∧ (∀ s ∈ i.named, ∃ f ∈ m.functions, f.name = s.imported.text) ∧
      (i.named.map (·.binding.text)).Nodup ∧
      ∀ s ∈ i.named, ∀ t : Primitive, s.binding.text ≠ t.name

namespace NativeModule

variable {m : NativeModule} {i : ImportDeclaration}

theorem find?_of_mem (mem : m ∈ all) : find? m.name = some m := by
  simp only [all, List.mem_cons, List.not_mem_nil, or_false] at mem
  obtain rfl | rfl | rfl | rfl := mem <;> rfl

/-- No two functions of a module have one name, and none has that of a built-in type. -/
theorem names_of_mem (mem : m ∈ all) : (m.functions.map (·.name)).Nodup ∧
    ∀ f ∈ m.functions, ∀ t : Primitive, f.name ≠ t.name := by
  have ordinary : ∀ name ∈ all.flatMap fun m => m.functions.map (·.name), ∀ t ∈ Primitive.all,
      name ≠ t.name := by decide
  refine ⟨?_, fun f inside t => ordinary f.name ?_ t (by cases t <;> decide)⟩
  · simp only [all, List.mem_cons, List.not_mem_nil, or_false] at mem
    obtain rfl | rfl | rfl | rfl := mem <;> decide
  · exact List.mem_flatMap.mpr ⟨m, mem, List.mem_map_of_mem inside⟩

theorem find?_ofNative (m : NativeModule) (name : String) :
    (ExportTable.ofNative m).find? name
      = (m.functions.find? (·.name == name)).map Entry.func := by
  rw [ExportTable.find?, ExportTable.ofNative, List.find?_map]
  rfl

theorem find?_functions (mem : m ∈ all) {f : FunctionEntry} (inside : f ∈ m.functions) :
    m.functions.find? (·.name == f.name) = some f := by
  have nodup : ((m.functions.map Entry.func).map Entry.name).Nodup := by
    rw [List.map_map]
    exact (names_of_mem mem).1
  have found : (ExportTable.ofNative m).find? f.name = some (.func f) :=
    find?_of_nodup nodup (List.mem_map_of_mem inside)
  rw [find?_ofNative] at found
  obtain ⟨g, here, same⟩ := Option.map_eq_some_iff.mp found
  cases same
  exact here

/-- What a clause picks is what it binds. -/
theorem boundEntries_eq (h : i.Picks m) :
    Check.boundEntries i (.ofNative m) = (m.picked i).map pickedEntry := by
  unfold Check.boundEntries picked
  rw [h.whole]
  obtain ⟨wildcard, none_⟩ | ⟨listed, -⟩ := h.names
  · rw [if_pos wildcard, if_pos wildcard, none_, ExportTable.ofNative]
    simp only [Option.toList_none, List.filterMap_nil, List.append_nil, List.map_map]
    rfl
  · rw [listed, if_neg Bool.false_ne_true, if_neg Bool.false_ne_true, Option.toList_none,
      List.filterMap_nil, List.nil_append, List.nil_append, List.map_filterMap]
    refine List.filterMap_congr fun s _ => ?_
    rw [find?_ofNative, Option.map_map, Option.map_map]
    rfl

/-- The names that a clause gives are different, and none is that of a built-in type. -/
theorem names_picked (mem : m ∈ all) (h : i.Picks m) :
    ((m.picked i).map (·.2.text)).Nodup ∧ ∀ r ∈ m.picked i, ∀ t : Primitive, r.2.text ≠ t.name := by
  unfold picked
  obtain ⟨wildcard, -⟩ | ⟨listed, exported, nodup, ordinary⟩ := h.names
  · obtain ⟨nodup, ordinary⟩ := names_of_mem mem
    rw [if_pos wildcard, List.map_map, List.forall_mem_map]
    exact ⟨nodup, ordinary⟩
  · rw [if_neg (by rw [listed]; exact Bool.false_ne_true), List.map_filterMap]
    have names (s : ImportSpecifier) (inside : s ∈ i.named) :
        ((m.functions.find? (·.name == s.imported.text)).map fun f => (f, s.binding)).map (·.2.text)
          = some s.binding.text := by
      obtain ⟨f, inside, same⟩ := exported s inside
      rw [← same, find?_functions mem inside]
      rfl
    refine ⟨?_, fun r chosen t => ?_⟩
    · rw [List.filterMap_congr names]
      exact (congrArg List.Nodup (congrFun List.filterMap_eq_map i.named)).mpr nodup
    · obtain ⟨s, inside, picked⟩ := List.mem_filterMap.mp chosen
      obtain ⟨f, -, rfl⟩ := Option.map_eq_some_iff.mp picked
      exact ordinary s inside t

end NativeModule

/-! ### Declarations with names of their own -/

namespace Declared

variable {before ds : List Declared} {d : Declared}

/-- A declaration takes no name of those that follow it, if they have other names. -/
theorem taken_concat (new : d.name ∉ ds.map name) :
    ∀ e ∈ ds, Taken (before ++ [d]) e ↔ Taken before e := by
  intro e mem
  rw [Taken, List.map_append, List.mem_append, Taken, or_iff_left]
  intro here
  rw [List.map_singleton, List.mem_singleton] at here
  exact new (here ▸ List.mem_map_of_mem mem)

/-- Of names that differ among themselves, those that were declared before are declared again. -/
theorem laters_of_distinct (nodup : (ds.map name).Nodup) :
    laters before ds = ds.filter (Taken before ·) := by
  induction ds generalizing before with
  | nil => rfl
  | cons d ds ih =>
      obtain ⟨new, rest⟩ := List.nodup_cons.mp nodup
      have same : ds.filter (Taken (before ++ [d]) ·) = ds.filter (Taken before ·) :=
        List.filter_congr fun e mem => decide_eq_decide.mpr (taken_concat new e mem)
      rw [laters, ih rest, same, List.filter_cons]
      by_cases taken : Taken before d <;> simp [taken]

/-- Of names that differ among themselves, the others are declared first. -/
theorem firsts_of_distinct (nodup : (ds.map name).Nodup) :
    firsts before ds = ds.filter (¬ Taken before ·) := by
  induction ds generalizing before with
  | nil => rfl
  | cons d ds ih =>
      obtain ⟨new, rest⟩ := List.nodup_cons.mp nodup
      have same : ds.filter (¬ Taken (before ++ [d]) ·) = ds.filter (¬ Taken before ·) :=
        List.filter_congr fun e mem => decide_eq_decide.mpr (not_congr (taken_concat new e mem))
      rw [firsts, ih rest, same, List.filter_cons]
      by_cases taken : Taken before d <;> simp [taken]

end Declared

open Declared

/-! ### Binding what is picked -/

section Binding

variable {m : NativeModule} {i : ImportDeclaration}

/-- What a clause picks as declarations. -/
def pickedNames (m : NativeModule) (i : ImportDeclaration) : List Declared :=
  (m.picked i).map fun r => .given (pickedEntry r)

/-- A clause that picks functions declares them, and reports the names that are taken only. -/
theorem Check.bindImport_picks (mem : m ∈ NativeModule.all) (h : i.Picks m) :
    Declaring Means (fun _ => False) (bindImport i (.ofNative m)) (pickedNames m i) := by
  unfold bindImport
  extract_lets named whole
  have rest (u : Unit) : whole u = named u := by
    dsimp only [whole]
    rw [h.whole]
  unfold pickedNames NativeModule.picked
  obtain ⟨wildcard, none_⟩ | ⟨listed, exported, -⟩ := h.names
  · have last (u : Unit) : named u = pure () := by
      dsimp only [named]
      rw [none_]
      rfl
    have bound : Declaring Means (fun _ => False)
        ((ExportTable.ofNative m).symbols.forM fun e =>
          declareImport (e.renamed e.name i.location) false)
        ((ExportTable.ofNative m).symbols.flatMap fun e => [.given (e.renamed e.name i.location)]) :=
      declaring_forM fun e _ => declareImport_declaring _ _
    have all := bound.bind fun _ => declaring_pure ()
    rw [List.append_nil, ← List.map_eq_flatMap, ExportTable.ofNative, List.map_map] at all
    simp only [if_pos wildcard, List.map_map, rest, last]
    exact all
  · rw [listed, if_neg Bool.false_ne_true, if_neg Bool.false_ne_true, rest ()]
    dsimp only [named]
    rw [List.filterMap_eq_flatMap_toList, List.map_flatMap]
    refine declaring_forM fun s inside => ?_
    obtain ⟨f, own, same⟩ := exported s inside
    rw [NativeModule.find?_ofNative, ← same, NativeModule.find?_functions mem own]
    exact declareImport_declaring (pickedEntry (f, s.binding)) true

theorem name_picked (r : FunctionEntry × Ident) : (Declared.given (pickedEntry r)).name = r.2.text :=
  rfl

/-- The built-in entries have the names of the built-in types, and that of a function. -/
theorem names_builtinEntries :
    (Check.builtinEntries.map Declared.given).map Declared.name
      = Primitive.all.map Primitive.name ++ ["print"] := by
  unfold Check.builtinEntries
  rfl

/-- Of the names that a clause gives, that of the built-in function alone is taken. -/
theorem taken_picked (mem : m ∈ NativeModule.all) (h : i.Picks m) :
    ∀ r ∈ m.picked i, Taken (Check.builtinEntries.map .given) (.given (pickedEntry r)) ↔
      r.2.text = "print" := by
  intro r chosen
  rw [Taken, names_builtinEntries, name_picked, List.mem_append, List.mem_singleton]
  refine or_iff_right fun type => ?_
  obtain ⟨t, -, same⟩ := List.mem_map.mp type
  exact (NativeModule.names_picked mem h).2 r chosen t same.symm

theorem nodup_pickedNames (mem : m ∈ NativeModule.all) (h : i.Picks m) :
    ((pickedNames m i).map Declared.name).Nodup := by
  rw [pickedNames, List.map_map]
  exact (NativeModule.names_picked mem h).1

theorem laters_picked (mem : m ∈ NativeModule.all) (h : i.Picks m) :
    laters (Check.builtinEntries.map .given) (pickedNames m i)
      = ((m.picked i).filter (·.2.text = "print")).map fun r => .given (pickedEntry r) := by
  rw [laters_of_distinct (nodup_pickedNames mem h), pickedNames, List.filter_map]
  exact congrArg _ (List.filter_congr fun r chosen =>
    decide_eq_decide.mpr (taken_picked mem h r chosen))

theorem firsts_picked (mem : m ∈ NativeModule.all) (h : i.Picks m) :
    firsts (Check.builtinEntries.map .given) (pickedNames m i)
      = ((m.picked i).filter (·.2.text ≠ "print")).map fun r => .given (pickedEntry r) := by
  rw [firsts_of_distinct (nodup_pickedNames mem h), pickedNames, List.filter_map]
  exact congrArg _ (List.filter_congr fun r chosen =>
    decide_eq_decide.mpr (not_congr (taken_picked mem h r chosen)))

theorem exportsFor_picked (mem : m ∈ NativeModule.all) (h : i.Picks m) (importer : Importer)
    (file : Path) (session : Session) :
    Workspace.exportsFor importer file i session = (.ok (.ofNative m), session) := by
  unfold Workspace.exportsFor
  rw [if_pos h.native, h.source, NativeModule.find?_of_mem mem]

/-- What is declared before the body of a file whose one import picks functions. -/
theorem known_picked (mem : m ∈ NativeModule.all) (h : i.Picks m) (importer : Importer)
    (file : Path) (session : Session) :
    Workspace.known importer file session [i]
      = Check.builtinEntries.map .given ++ pickedNames m i := by
  rw [Workspace.known, Workspace.answers, Workspace.answers, exportsFor_picked mem h,
    List.flatMap_singleton,
    Workspace.declares, NativeModule.boundEntries_eq h, List.map_map]
  rfl

/-- Statements that declare no names declare none ahead, and no variables. -/
theorem declares_nothing {body : List Statement} (quiet : ∀ s ∈ body, s.declaredNames = []) :
    Check.aheads body = [] ∧ body.flatMap Check.grouped = [] := by
  constructor
  · refine List.filterMap_eq_nil_iff.mpr fun s inside => ?_
    have none_ := quiet s inside
    obtain ⟨form, place⟩ := s
    cases form <;> first | rfl | cases none_
  · refine List.flatMap_eq_nil_iff.mpr fun s inside => ?_
    have none_ := quiet s inside
    obtain ⟨form, place⟩ := s
    cases form with
    | varGroup d => exact List.map_eq_nil_iff.mpr none_
    | _ => rfl

end Binding

theorem mem_builtinEntries :
    .func (NativeModule.function "print" [("value", .string)] .void) ∈ Check.builtinEntries := by
  unfold Check.builtinEntries
  exact List.mem_append_right _ (List.mem_singleton_self _)

/-- No two global entries have one name. -/
theorem nodup_entries (importer : Importer) (file : Path) (session : Session) (p : Program) :
    ((analyzeWith importer file p .fresh session).state.global.entries.map Entry.name).Nodup := by
  rw [Check.names_eq Check.named_means (Workspace.entries_declared importer file session p)]
  exact nodup_names_firsts _

/-- The entries after the analysis of a file that declares nothing besides. -/
theorem entries_of_picked {m : NativeModule} (mem : m ∈ NativeModule.all) {i : ImportDeclaration}
    (h : i.Picks m) {p : Program} (imports : p.imports = [i])
    (quiet : ∀ s ∈ p.body, s.declaredNames = []) (importer : Importer) (file : Path)
    (session : Session) :
    (analyzeWith importer file p .fresh session).state.global.entries
      = Check.builtinEntries ++ ((m.picked i).filter (·.2.text ≠ "print")).map pickedEntry := by
  have shown := Workspace.entries_declared importer file session p
  obtain ⟨ahead, grouped⟩ := declares_nothing quiet
  have builtIn : firsts [] (Check.builtinEntries.map .given)
      = Check.builtinEntries.map .given := by
    refine firsts_of_laters _ _ (laters_of_nodup _ _ ?_)
    rw [List.nil_append, names_builtinEntries]
    decide
  have all : firsts [] (Workspace.declared importer file session p)
      = (Check.builtinEntries
          ++ ((m.picked i).filter (·.2.text ≠ "print")).map pickedEntry).map .given := by
    rw [Workspace.declared, ahead, grouped, imports, known_picked mem h, List.append_nil,
      List.append_nil, firsts_append, builtIn, List.nil_append, firsts_picked mem h,
      List.map_append, List.map_map]
    rfl
  rw [all, List.forall₂_map_left_iff] at shown
  have same := shown.imp fun _ _ (means : _ = _) => means.symm
  rw [List.forall₂_eq_eq_eq] at same
  exact same.symm

/-- A check that reports nothing but redeclarations reports those of the names that are taken. -/
theorem Check.Declaring.reported_eq {R : Declared → Entry → Prop} {check : Check Unit}
    {ds before : List Declared} (h : Declaring R (fun _ => False) check ds) {c : Checker}
    (shows : c.Shows R before) : reported check c = (laters before ds).map redeclaration := by
  obtain ⟨-, found, findings, redeclared, others⟩ :=
    h before { c with findings := [] } (shows_of_entries shows rfl)
  have all : found.filter (·.isRedeclaration) = found :=
    List.filter_eq_self.mpr fun f mem =>
      (Bool.eq_false_or_eq_true _).resolve_right (others f mem)
  rw [reported, findings, List.nil_append, ← redeclared, all]

/-- An import that picks functions reports where it gives the name of the built-in function. -/
theorem log_bind_picked {m : NativeModule} (mem : m ∈ NativeModule.all) {i : ImportDeclaration}
    (h : i.Picks m) (importer : Importer) (file : Path) (session : Session) :
    (Workspace.bind importer file (.opening file .fresh session) i).session.log.items
      = session.log.items ++ ((m.picked i).filter (·.2.text = "print")).map fun r =>
        Finding.toDiagnostic file (.error ⟨.redeclaration "print", r.2.location⟩) := by
  have opened := Workspace.opening_shows file session
  have log := Workspace.log_opening file session
  generalize Workspace.opening file .fresh session = w at opened log
  have binds : Check.importing i (.ok (.ofNative m)) = Check.bindImport i (.ofNative m) := rfl
  rw [Workspace.log_bind, exportsFor_picked mem h, binds,
    (Check.bindImport_picks mem h).reported_eq opened, laters_picked mem h, log, List.map_map,
    List.map_map]
  refine congrArg (session.log.items ++ ·) (List.map_congr_left fun r inside => ?_)
  have same : r.2.text = "print" := of_decide_eq_true (List.mem_filter.mp inside).2
  rw [← same]
  rfl

/--
Native functions are bound under the names that a clause gives them, if it is the only import of a
file and the file declares nothing itself: behind the built-in entries the global scope has each
function that is picked, as it is but for its name and place. The one exception is the name of the
built-in function, whose entry stays; the import reports a redeclaration wherever it gives this
name, and no other error.
-/
theorem native_names_bound {m : NativeModule} (mem : m ∈ NativeModule.all) {i : ImportDeclaration}
    (picks : i.Picks m) {p : Program} (imports : p.imports = [i])
    (quiet : ∀ s ∈ p.body, s.declaredNames = []) (importer : Importer) (file : Path)
    (session : Session) :
    let bound := Workspace.bind importer file (Workspace.opening file .fresh session) i
    let refused := (m.picked i).filter (·.2.text = "print")
    let a := analyzeWith importer file p .fresh session
    bound.session.log.items = session.log.items
      ++ refused.map (fun r => Finding.toDiagnostic file
        (.error ⟨.redeclaration "print", r.2.location⟩)) ∧
    (refused = [] ↔ ∀ r ∈ m.picked i, r.2.text ≠ "print") ∧
    (∃ tail, (∀ x ∈ tail, x.file = file ∧ (x.kind = .unusedImport ∨ x.kind = .programAnalysis)) ∧
      a.session.log.items = bound.session.log.items
        ++ (Check.reported (Check.body p) bound.checker).map (·.toDiagnostic file) ++ tail) ∧
    a.state.global.entries
      = Check.builtinEntries ++ ((m.picked i).filter (·.2.text ≠ "print")).map pickedEntry ∧
    ∀ r ∈ m.picked i, a.state.global.find? r.2.text =
      some (if r.2.text = "print" then
          .func (NativeModule.function "print" [("value", .string)] .void)
        else pickedEntry r) := by
  have entries := entries_of_picked mem picks imports quiet importer file session
  have nodup := nodup_entries importer file session p
  have here := log_bind_picked mem picks importer file session
  have log := Workspace.log_closing file p
    (p.imports.foldl (Workspace.bind importer file) (.opening file .fresh session))
  rw [← Workspace.analyzeWith_eq, imports, List.foldl_cons, List.foldl_nil] at log
  generalize analyzeWith importer file p .fresh session = a at entries nodup log ⊢
  generalize Workspace.bind importer file (.opening file .fresh session) i = bound at here log ⊢
  refine ⟨here, ?_, log, entries, fun r chosen => ?_⟩
  · rw [List.filter_eq_nil_iff]
    simp only [decide_eq_true_eq]
  · have find (e : Entry) (inside : e ∈ a.state.global.entries) (name : e.name = r.2.text) :
        a.state.global.find? r.2.text = some e := name ▸ find?_of_nodup nodup inside
    rw [entries] at find
    split
    · next same => exact find _ (List.mem_append_left _ mem_builtinEntries) same.symm
    · next other =>
        refine find _ (List.mem_append_right _ (List.mem_map_of_mem ?_)) rfl
        exact List.mem_filter.mpr ⟨chosen, decide_eq_true other⟩

/--
All functions of the console module at once: the name of the built-in function is reported, and the
others are bound.
-/
theorem console_meets_builtin_function :
    let i : ImportDeclaration := ⟨true, none, true, [], "console", .start⟩
    let p : Program := { (default : Program) with imports := [i] }
    let file : Path := ⟨"main.ky"⟩
    let importer := importFiles .empty 0
    let session : Session := .start .empty
    let bound := Workspace.bind importer file (Workspace.opening file .fresh session) i
    let println := NativeModule.function "println" [("value", .string)] .void
    NativeModule.console ∈ NativeModule.all ∧ i.Picks .console ∧
      (∀ s ∈ p.body, s.declaredNames = []) ∧
      bound.session.log.items
        = [Finding.toDiagnostic file (.error ⟨.redeclaration "print", .start⟩)] ∧
      (analyzeWith importer file p .fresh session).state.global.find? "println"
        = some (pickedEntry (println, ⟨"println", .start⟩)) := by
  intro i p file importer session bound println
  have mem : NativeModule.console ∈ NativeModule.all := List.mem_cons_self
  have picks : i.Picks .console := ⟨rfl, rfl, rfl, .inl ⟨rfl, rfl⟩⟩
  have quiet : ∀ s ∈ p.body, s.declaredNames = [] := List.forall_mem_nil _
  have result := native_names_bound mem picks rfl quiet importer file session
  have refused : (NativeModule.console.picked i).filter (·.2.text = "print")
      = [(NativeModule.function "print" [("value", .string)] .void, ⟨"print", .start⟩)] := by
    simp [NativeModule.picked, NativeModule.console, NativeModule.function, i]
  have chosen : (println, ⟨"println", .start⟩) ∈ NativeModule.console.picked i :=
    List.mem_cons_of_mem _ List.mem_cons_self
  have other : ¬ "println" = "print" := by decide
  obtain ⟨log, -, -, -, found⟩ := result
  rw [refused] at log
  exact ⟨mem, picks, quiet, log, (found _ chosen).trans (congrArg some (if_neg other))⟩

end ScriptFront
