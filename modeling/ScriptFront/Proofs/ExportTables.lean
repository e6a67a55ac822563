import Mathlib.Data.List.Flatten
import ScriptFront.Proofs.GlobalScope
import ScriptFront.Proofs.WellFormedPrograms

/-!
What a file exports. The grammar keeps the positions of the declarations that are written with the
modifiers for it; where the analysis succeeds no name is declared twice in the global scope, so that
each position leads to the entries of its own declaration.
-/

namespace ScriptFront

/-! ### Positions of exported declarations -/

namespace Statement

def isPublic (s : Statement) : Bool := s.modifiers.has .public_

def isDefault (s : Statement) : Bool := s.modifiers.has .default_

end Statement

/-- Some positions of a list, strictly increasing: those of the statements with a property. -/
structure Positions (body : List Statement) (property : Statement → Bool) (positions : List Nat) :
    Prop where
  increasing : positions.Pairwise (· < ·)
  mem_iff : ∀ k, k ∈ positions ↔ ∃ s, body[k]? = some s ∧ property s = true
  marked : positions.filterMap (body[·]?) = body.filter property

namespace Positions

variable {body : List Statement} {property : Statement → Bool} {positions : List Nat}

theorem empty (property : Statement → Bool) : Positions [] property [] where
  increasing := .nil
  mem_iff k := by simp
  marked := rfl

/-- One more statement has the position behind all others. -/
theorem concat (h : Positions body property positions) (s : Statement) :
    Positions (body ++ [s]) property
      (if property s then positions ++ [body.length] else positions) := by
  have inside {k : Nat} (mem : k ∈ positions) : k < body.length := by
    obtain ⟨t, there, -⟩ := (h.mem_iff k).mp mem
    exact (List.getElem?_eq_some_iff.mp there).1
  have kept : positions.filterMap ((body ++ [s])[·]?) = body.filter property := by
    rw [← h.marked]
    exact List.filterMap_congr fun k mem => List.getElem?_append_left (inside mem)
  have before (k : Nat) : (∃ t, (body ++ [s])[k]? = some t ∧ property t = true) ↔
      k ∈ positions ∨ k = body.length ∧ property s = true := by
    rw [h.mem_iff]
    constructor
    · rintro ⟨t, there, holds⟩
      rw [List.getElem?_append] at there
      split at there
      · exact .inl ⟨t, there, holds⟩
      · obtain ⟨here, rfl⟩ := List.getElem?_eq_some_iff.mp there
        rw [List.length_singleton] at here
        exact .inr ⟨by omega, by simpa using holds⟩
    · rintro (⟨t, there, holds⟩ | ⟨rfl, holds⟩)
      · exact ⟨t, List.getElem?_append_left (List.getElem?_eq_some_iff.mp there).1 ▸ there, holds⟩
      · exact ⟨s, List.getElem?_concat_length, holds⟩
  split
  · next holds =>
      refine ⟨?_, fun k => ?_, ?_⟩
      · refine List.pairwise_append.mpr ⟨h.increasing, List.pairwise_singleton _ _, ?_⟩
        intro k mem l last
        rw [List.mem_singleton.mp last]
        exact inside mem
      · rw [before, List.mem_append, List.mem_singleton, and_iff_left holds]
      · rw [List.filterMap_append, kept, List.filter_append,
          List.filter_singleton, holds]
        simp
  · next fails =>
      refine ⟨h.increasing, fun k => ?_, ?_⟩
      · rw [before, or_iff_left fun last => fails last.2]
      · rw [kept, List.filter_append, List.filter_singleton, eq_false_of_ne_true fails]
        exact (List.append_nil _).symm

end Positions

/-- A draft that knows the positions of its public statements, and of the default one. -/
structure Draft.Marked (d : Draft) : Prop where
  exports : Positions d.body (·.isPublic) d.exports
  default : Positions d.body (·.isDefault) d.defaultExport.toList

theorem Draft.marked_addStatement {d d' : Draft} {s : Statement} (h : d.Marked)
    (added : d.addStatement s = .ok d') : d'.Marked := by
  unfold addStatement at added
  split at added
  · cases added
  · next single =>
      cases added
      refine ⟨h.exports.concat s, ?_⟩
      have default := h.default.concat s
      rw [Bool.and_eq_true, not_and, Option.not_isSome_iff_eq_none] at single
      dsimp only
      cases isDefault : s.isDefault with
      | false =>
          rw [isDefault] at default
          exact (if_neg (ne_of_eq_of_ne isDefault Bool.false_ne_true)).symm ▸ default
      | true =>
          rw [isDefault, single isDefault] at default
          exact (if_pos isDefault).symm ▸ default

theorem Reads.marked {g : Grammar} {d d' : Draft} {s s' : Cursor} (reads : Reads g d s d' s')
    (h : d.Marked) : d'.Marked := by
  induction reads with
  | done _ => exact h
  | stray _ _ ih => exact ih h
  | statement _ _ first _ _ ih =>
      obtain ⟨_, _, _, added⟩ := readStatement_eq_ok.mp first
      exact ih (Draft.marked_addStatement h added)

/-- Imports leave everything else of a draft as it is, but for faults. -/
theorem readImports_keeps (d : Draft) (s : Cursor) :
    ∃ imports errors, (readImports d s).1 = { d with imports := imports, errors := errors } := by
  induction hn : s.rest.length using Nat.strongRecOn generalizing d s with
  | ind n ih =>
      have step : ∃ imports errors, (settle d s (readImport d { s with depth := 0 })).1
          = { d with imports := imports, errors := errors } := by
        cases read : readImport d { s with depth := 0 } with
        | error e s₁ => exact ⟨d.imports, d.errors ++ [e], rfl⟩
        | ok d₁ s₁ =>
            obtain ⟨i, rfl⟩ := imports_readImport read
            exact ⟨d.imports ++ [i], d.errors, rfl⟩
      obtain ⟨imports, errors, here⟩ := step
      rw [readImports]
      split
      · dsimp only
        split
        · next shorter =>
            obtain ⟨imports', errors', below⟩ := ih _ (hn ▸ shorter)
              (settle d s (readImport d { s with depth := 0 })).1 _ rfl
            rw [here] at below
            exact ⟨imports', errors', here ▸ below⟩
        · exact ⟨imports, errors, here⟩
      · exact ⟨d.imports, d.errors, rfl⟩

namespace Program

variable {limit : Nat} {tokens : List Token} {p : Program}

/-- The exports of a program that is read are the positions of the declarations for export. -/
theorem positions_of_parse (h : parse limit tokens = .ok p) :
    Positions p.body (·.isPublic) p.exports ∧
      Positions p.body (·.isDefault) p.defaultExport.toList := by
  obtain ⟨-, s, reads⟩ := parse_eq_ok.mp h
  obtain ⟨imports, errors, start⟩ := readImports_keeps .empty (.ofTokens tokens)
  have marked : (Draft.afterImports tokens).1.Marked := by
    rw [Draft.afterImports, start]
    exact ⟨.empty _, .empty _⟩
  have marked' := reads.marked marked
  exact ⟨marked'.exports, marked'.default⟩

/-- A declaration for export declares a name. -/
theorem declaredNames_ne_nil (h : parse limit tokens = .ok p) {s : Statement} (mem : s ∈ p.body)
    {m : Modifier} (has : s.modifiers.has m = true) : s.declaredNames ≠ [] := by
  obtain ⟨-, t, reads⟩ := parse_eq_ok.mp h
  have empty : (Draft.afterImports tokens).1.body = [] := (readImports_grows _ _).1
  have sound := reads.body_of (Grammar.sound_ofLevels limit (limit + 1)).statement
    (by rw [empty]; exact nofun) s mem
  obtain ⟨form, place⟩ := s
  cases form with
  | varGroup d => exact sound.1.2
  | function d | classType d | structType d => exact List.cons_ne_nil _ _
  | _ => exact absurd has (by simp [Statement.modifiers, Modifiers.has_empty])

end Program

/-! ### Checks that end without errors -/

namespace Check

open Declared

variable {α β : Type} {P P' : Prop}

/-- There is no error among findings. -/
def Clean (found : List Finding) : Prop := ∀ f ∈ found, f.isError = false

/-- Where a check ends without errors there were none at its start, and something holds. -/
def Ensures (P : Prop) (m : Check α) : Prop :=
  ∀ c, Clean (m.run c).2.findings → Clean c.findings ∧ P

theorem ensures_of_reports {Q : Finding → Prop} {m : Check α} (h : Reports Q m) :
    Ensures True m := by
  intro c clean
  obtain ⟨found, findings, -⟩ := h c
  rw [findings] at clean
  exact ⟨fun f mem => clean f (List.mem_append_left _ mem), trivial⟩

theorem Ensures.bind {m : Check α} {f : α → Check β} (hm : Ensures P m)
    (hf : ∀ a, Ensures P' (f a)) : Ensures (P ∧ P') (m >>= f) := by
  intro c clean
  obtain ⟨midway, there⟩ := hf (m.run c).1 (m.run c).2 clean
  obtain ⟨start, here⟩ := hm c midway
  exact ⟨start, here, there⟩

theorem Ensures.mono {m : Check α} (h : Ensures P m) (weaker : P → P') : Ensures P' m :=
  fun c clean => (h c clean).imp_right weaker

theorem ensures_forM {l : List α} {f : α → Check Unit} {P : α → Prop}
    (h : ∀ a ∈ l, Ensures (P a) (f a)) : Ensures (∀ a ∈ l, P a) (l.forM f) := by
  induction l with
  | nil => exact fun c clean => ⟨clean, nofun⟩
  | cons a l ih =>
      obtain ⟨here, below⟩ := List.forall_mem_cons.mp h
      exact (here.bind fun _ => ih below).mono List.forall_mem_cons.mpr

theorem declareImport_ensures (e : Entry) (tracked : Bool) :
    Ensures True (declareImport e tracked) :=
  ensures_of_reports (reports_of_passes (declareImport_passes (fun _ _ => trivial) tracked))

theorem bindName_ensures (i : ImportDeclaration) (wanted : String) (entry : Option Entry)
    (name : Ident) (place : Location) :
    Ensures (entry.isSome = true) (bindName i wanted entry name place) := by
  cases entry with
  | some e => exact (declareImport_ensures _ _).mono fun _ => rfl
  | none =>
      intro c clean
      have here : Finding.error ⟨.missingExport wanted i.source, place⟩
          ∈ ((bindName i wanted none name place).run c).2.findings :=
        List.mem_append_right _ (List.mem_singleton_self _)
      exact absurd (clean _ here) (by simp [Finding.isError])

/-- There is an export for each name that an import asks for. -/
def Serves (i : ImportDeclaration) (exports : ExportTable) : Prop :=
  (∀ name ∈ i.whole, exports.default.isSome = true) ∧
    ∀ s ∈ i.named, (exports.find? s.imported.text).isSome = true

theorem bindImport_ensures (i : ImportDeclaration) (exports : ExportTable) :
    Ensures (Serves i exports) (bindImport i exports) := by
  unfold bindImport
  extract_lets named whole
  have listed (u : Unit) : Ensures (∀ s ∈ i.named, (exports.find? s.imported.text).isSome = true)
      (named u) := ensures_forM fun s _ => bindName_ensures _ _ _ _ _
  have default (u : Unit) : Ensures (Serves i exports) (whole u) := by
    dsimp only [whole, Serves]
    cases i.whole with
    | none => exact (listed ()).mono fun all => ⟨nofun, all⟩
    | some name =>
        refine ((bindName_ensures i "default" exports.default name name.location).bind listed).mono ?_
        exact fun ⟨here, all⟩ => ⟨fun _ _ => here, all⟩
  split
  · have all : Ensures (∀ e ∈ exports.symbols, True) (exports.symbols.forM fun e =>
        declareImport (e.renamed e.name i.location) false) :=
      ensures_forM fun e _ => declareImport_ensures _ _
    exact (all.bind default).mono (·.2)
  · exact default ()

/-- Names that are declared again are reported as errors. -/
theorem laters_of_clean {before ds : List Declared} {found : List Finding}
    (again : ∀ d ∈ laters before ds, d.redeclaration ∈ found) (clean : Clean found) :
    laters before ds = [] := by
  refine List.eq_nil_iff_forall_not_mem.mpr fun d mem => ?_
  exact absurd (clean _ (again d mem)) (by simp [redeclaration, Finding.isError])

theorem laters_of_filter {before ds : List Declared} {found : List Finding}
    (redeclared : found.filter (·.isRedeclaration) = (laters before ds).map redeclaration)
    (clean : Clean found) : laters before ds = [] :=
  laters_of_clean (fun _ mem => List.mem_of_mem_filter
    (redeclared ▸ List.mem_map_of_mem mem)) clean

theorem body_declares_once (p : Program) {before : List Declared} {c : Checker}
    (given : ∀ d ∈ before, ∃ e, d = .given e) (h : c.Shows Means before)
    (clean : Clean ((body p).run c).2.findings) :
    laters before (aheads p.body ++ p.body.flatMap grouped) = [] := by
  obtain ⟨shows, found, first, redeclared, -⟩ := hoist_declares p.body given h
  obtain ⟨-, more, second, again⟩ := statements_show false false p.body shows
  have all : ((body p).run c).2.findings = c.findings ++ found ++ more :=
    second.trans (congrArg (· ++ more) first)
  rw [all] at clean
  rw [laters_append, List.append_eq_nil_iff]
  constructor
  · refine laters_of_filter redeclared fun f mem => clean f ?_
    exact List.mem_append_left _ (List.mem_append_right _ mem)
  · exact laters_of_clean again fun f mem => clean f (List.mem_append_right _ mem)

theorem builtins_declare_once : laters [] (builtinEntries.map .given) = [] := by
  refine laters_of_nodup _ _ ?_
  rw [List.nil_append, List.map_map]
  unfold builtinEntries
  decide

end Check

namespace Workspace

open Declared

variable {importer : Importer} {file : Path} {session : Session} {p : Program}

theorem errors_bind (w : Workspace) (i : ImportDeclaration) :
    (bind importer file w i).errors = w.errors + ((Check.reported (Check.importing i
      (exportsFor importer file i w.session).1) w.checker).filter (·.isError)).length := rfl

/-- An import of a file without errors gives exports, and one for each name that is asked for. -/
def Answered (x : ImportDeclaration × Except SemanticFault ExportTable) : Prop :=
  ∃ exports, x.2 = .ok exports ∧ Check.Serves x.1 exports

theorem bind_declares_once {w : Workspace} {i : ImportDeclaration} {before : List Declared}
    (h : w.checker.Shows Means before) (none : (bind importer file w i).errors = 0) :
    Answered (i, (exportsFor importer file i w.session).1) ∧
      laters before (declares (i, (exportsFor importer file i w.session).1)) = [] := by
  rw [errors_bind] at none
  have clean := (Nat.add_eq_zero_iff.mp none).2
  rw [List.length_eq_zero_iff, List.filter_eq_nil_iff] at clean
  generalize (exportsFor importer file i w.session).1 = answer at clean
  cases answer with
  | error fault => exact absurd rfl (clean _ (List.mem_singleton_self _))
  | ok exports =>
      have clean : Check.Clean (Check.reported (Check.importing i (.ok exports)) w.checker) :=
        fun f mem => eq_false_of_ne_true (clean f mem)
      refine ⟨⟨exports, rfl, ?_⟩, ?_⟩
      · exact (Check.bindImport_ensures i exports { w.checker with findings := [] } clean).2
      · exact Check.laters_of_filter (importing_redeclares i exports h) clean

theorem imports_declare_once (is : List ImportDeclaration) {before : List Declared}
    {w : Workspace} (h : w.checker.Shows Means before)
    (none : (is.foldl (bind importer file) w).errors = 0) :
    (∀ x ∈ w.answers importer file is, Answered x) ∧
      laters before ((w.answers importer file is).flatMap declares) = [] := by
  induction is generalizing before w with
  | nil => exact ⟨List.forall_mem_nil _, rfl⟩
  | cons i is ih =>
      have here := Nat.eq_zero_of_le_zero
        (none ▸ errors_le_foldl_bind importer file is (bind importer file w i))
      obtain ⟨answered, first⟩ := bind_declares_once h here
      obtain ⟨below, rest⟩ := ih (bind_shows importer file i h) none
      refine ⟨List.forall_mem_cons.mpr ⟨answered, below⟩, ?_⟩
      rw [answers, List.flatMap_cons, laters_append, first, List.nil_append]
      exact rest

/-- An analysis succeeds only if no name is declared twice, so that every declaration has its entry. -/
theorem globals_of_ok {m : AnalyzedModule}
    (ok : (analyzeWith importer file p .fresh session).result = .ok m) :
    (∃ global : Frame, m = ⟨file, global.entries, .ofProgram p global⟩) ∧
      List.Forall₂ Means (declared importer file session p) m.globals ∧
      (m.globals.map Entry.name).Nodup ∧
      ∀ x ∈ (opening file .fresh session).answers importer file p.imports, Answered x := by
  have shown := entries_declared importer file session p
  have nodup := nodup_names_firsts (declared importer file session p)
  rw [analyzeWith_eq] at ok shown
  obtain ⟨rfl, none, clean⟩ := closing_ok ok
  rw [global_closing] at shown
  obtain ⟨answered, bound⟩ := imports_declare_once p.imports (opening_shows file session) none
  let imported := (p.imports.foldl (bind importer file) (opening file .fresh session)).checker
  have here : Checker.Shows Means { imported with findings := [] }
      (known importer file session p.imports) :=
    Check.shows_of_entries (imports_show importer file session p.imports) rfl
  have body := Check.body_declares_once p (given_of_mem_known importer file session p.imports) here
    clean
  have once : laters [] (declared importer file session p) = [] := by
    rw [declared, List.append_assoc, laters_append, known, laters_append,
      Check.builtins_declare_once, List.nil_append, List.nil_append, bound]
    exact body
  rw [firsts_of_laters _ _ once] at shown nodup
  rw [← Check.names_eq Check.named_means shown] at nodup
  exact ⟨⟨_, rfl⟩, shown, nodup, answered⟩

end Workspace

/-! ### Export tables -/

open Declared

/-- An entry of a module is the one of a name that a declaration in the file has introduced. -/
structure AnalyzedModule.Holds (m : AnalyzedModule) (name : Ident) (e : Entry) : Prop where
  found : m.global? name.text = some e
  named : e.name = name.text
  placed : e.location = some name.location

/-- What a module exports: all names of public declarations, and the first one of the default one. -/
structure AnalyzedModule.Exports (m : AnalyzedModule) (p : Program) : Prop where
  symbols : List.Forall₂ m.Holds ((p.body.filter (·.isPublic)).flatMap (·.declaredNames))
    m.exports.symbols
  distinct : (m.exports.symbols.map Entry.name).Nodup
  default : match p.body.filter (·.isDefault) with
    | [] => m.exports.default = none
    | [s] => ∃ name ∈ s.declaredNames.head?, ∃ e, m.exports.default = some e ∧ m.Holds name e
    | _ => False

namespace Check

/-- What a statement declares in the global scope: ahead, or as variables. -/
def declaredBy (s : Statement) : List Declared := aheads [s] ++ grouped s

theorem names_declaredBy (s : Statement) :
    (declaredBy s).map Declared.name = s.declaredNames.map (·.text) := by
  obtain ⟨form, place⟩ := s
  cases form with
  | varGroup d => exact (List.map_map ..).trans rfl
  | _ => rfl

/-- The entry that a declaration has made is named and placed like one of its names. -/
theorem exists_declaredBy {s : Statement} {name : Ident} (mem : name ∈ s.declaredNames) :
    ∃ d ∈ declaredBy s, d.name = name.text ∧
      ∀ e, Means d e → e.name = name.text ∧ e.location = some name.location := by
  obtain ⟨form, place⟩ := s
  cases form with
  | varGroup d =>
      refine ⟨.var d name, List.mem_append_right _ (List.mem_map_of_mem mem), rfl, ?_⟩
      rintro e ⟨type, rfl⟩
      exact ⟨rfl, rfl⟩
  | function d =>
      cases List.mem_singleton.mp mem
      refine ⟨.ahead _ d.name, List.mem_singleton_self _, rfl, ?_⟩
      rintro e ⟨named, m, completed⟩
      cases completed
      exact ⟨named, rfl⟩
  | classType d =>
      cases List.mem_singleton.mp mem
      refine ⟨.ahead _ d.name, List.mem_singleton_self _, rfl, ?_⟩
      rintro e ⟨named, m, completed⟩
      cases completed
      exact ⟨named, Signature.location_ofClass m d⟩
  | structType d =>
      cases List.mem_singleton.mp mem
      refine ⟨.ahead _ d.name, List.mem_singleton_self _, rfl, ?_⟩
      rintro e ⟨named, m, completed⟩
      cases completed
      exact ⟨named, rfl⟩
  | _ => cases mem

/-- By statements, the same is declared as in the order in which it is done. -/
theorem declaredBy_perm (ss : List Statement) :
    (ss.flatMap declaredBy).Perm (aheads ss ++ ss.flatMap grouped) := by
  induction ss with
  | nil => exact .refl _
  | cons s ss ih =>
      have ahead : aheads (s :: ss) = aheads [s] ++ aheads ss := List.filterMap_append (l := [s])
      rw [List.flatMap_cons, List.flatMap_cons, ahead, declaredBy, List.append_assoc,
        List.append_assoc]
      refine .append_left _ ((ih.append_left _).trans ?_)
      rw [← List.append_assoc, ← List.append_assoc]
      exact List.perm_append_comm.append_right _

end Check

namespace ExportTable

theorem insert_of_new {e : Entry} {es : List Entry} (new : e.name ∉ es.map Entry.name) :
    insert e es = es ++ [e] := by
  induction es with
  | nil => rfl
  | cons old es ih =>
      obtain ⟨here, below⟩ := not_or.mp (List.mem_cons.not.mp new)
      rw [insert, if_neg (by simpa using Ne.symm here), ih below]
      rfl

/-- Entries of different names are all kept, in order. -/
theorem foldl_insert (acc es : List Entry) (nodup : ((acc ++ es).map Entry.name).Nodup) :
    es.foldl (fun es e => insert e es) acc = acc ++ es := by
  induction es generalizing acc with
  | nil => exact (List.append_nil acc).symm
  | cons e es ih =>
      have new : e.name ∉ acc.map Entry.name := by
        rw [List.map_append, List.nodup_append] at nodup
        exact fun old => nodup.2.2 _ old _ (List.mem_map_of_mem List.mem_cons_self) rfl
      rw [List.append_cons] at nodup
      rw [List.foldl_cons, insert_of_new new, ih _ nodup, List.append_assoc]
      rfl

/-- Positions lead to what their statements have declared. -/
theorem flatMap_declaredEntries (p : Program) (global : Frame) (positions : List Nat) :
    positions.flatMap (declaredEntries p global)
      = ((positions.filterMap (p.body[·]?)).flatMap (·.declaredNames)).filterMap
        fun name => global.find? name.text := by
  induction positions with
  | nil => rfl
  | cons k positions ih =>
      rw [List.flatMap_cons, ih, declaredEntries, List.filterMap_cons]
      cases p.body[k]? with
      | none => rfl
      | some s => rw [List.flatMap_cons, List.filterMap_append]; rfl

end ExportTable

section Tables

variable {importer : Importer} {file : Path} {session : Session} {p : Program} {m : AnalyzedModule}

theorem find?_of_nodup {es : List Entry} (nodup : (es.map Entry.name).Nodup) {e : Entry}
    (mem : e ∈ es) : es.find? (·.name == e.name) = some e := by
  obtain ⟨before, after, rfl⟩ := List.append_of_mem mem
  rw [List.map_append, List.nodup_append] at nodup
  refine List.find?_eq_some_iff_append.mpr ⟨beq_self_eq_true _, before, after, rfl, ?_⟩
  intro old there
  have other := nodup.2.2 _ (List.mem_map_of_mem there) _ List.mem_cons_self
  exact bne_iff_ne.mpr other

/-- In a module without two entries of one name, each declaration leads to its entry. -/
theorem AnalyzedModule.exists_global {ds : List Declared}
    (all : List.Forall₂ Means ds m.globals) (nodup : (m.globals.map Entry.name).Nodup)
    {d : Declared} (mem : d ∈ ds) : ∃ e, Means d e ∧ m.global? d.name = some e := by
  have exists_ : ∃ e ∈ m.globals, Means d e := by
    generalize m.globals = es at all
    induction all with
    | nil => cases mem
    | cons here _ ih =>
        obtain rfl | mem := List.mem_cons.mp mem
        · exact ⟨_, List.mem_cons_self, here⟩
        · obtain ⟨e, there, means⟩ := ih mem
          exact ⟨e, List.mem_cons_of_mem _ there, means⟩
  obtain ⟨e, there, means⟩ := exists_
  refine ⟨e, means, ?_⟩
  rw [← Check.named_means d e means]
  exact find?_of_nodup nodup there

/-- What the statements of a program declare is declared when it is analysed. -/
theorem Workspace.declaredBy_subset {s : Statement} (mem : s ∈ p.body) :
    Check.declaredBy s ⊆ Workspace.declared importer file session p := by
  intro d here
  have inside := (Check.declaredBy_perm p.body).subset (List.mem_flatMap.mpr ⟨s, mem, here⟩)
  rw [Workspace.declared, List.append_assoc]
  exact List.mem_append_right _ inside

/-- Every name that a declaration introduces leads to an entry with its place. -/
theorem exists_holds (ok : (analyzeWith importer file p .fresh session).result = .ok m)
    {s : Statement} (mem : s ∈ p.body) {name : Ident} (here : name ∈ s.declaredNames) :
    ∃ e, m.Holds name e := by
  obtain ⟨-, all, nodup, -⟩ := Workspace.globals_of_ok ok
  obtain ⟨d, there, same, means⟩ := Check.exists_declaredBy here
  obtain ⟨e, meant, found⟩ :=
    AnalyzedModule.exists_global all nodup (Workspace.declaredBy_subset mem there)
  obtain ⟨named, placed⟩ := means e meant
  exact ⟨e, same ▸ found, named, placed⟩

/-- No two declarations of a program that is analysed with success introduce one name. -/
theorem declaredNames_nodup (ok : (analyzeWith importer file p .fresh session).result = .ok m) :
    ((p.body.flatMap (·.declaredNames)).map (·.text)).Nodup := by
  obtain ⟨-, all, nodup, -⟩ := Workspace.globals_of_ok ok
  rw [Check.names_eq Check.named_means all, Workspace.declared, List.append_assoc, List.map_append,
    List.nodup_append] at nodup
  have own := ((Check.declaredBy_perm p.body).map Declared.name).nodup_iff.mpr nodup.2.1
  rw [List.map_flatMap] at own ⊢
  simpa only [Check.names_declaredBy] using own

namespace AnalyzedModule

variable {names : List Ident}

theorem holds_filterMap (h : ∀ name ∈ names, ∃ e, m.Holds name e) :
    List.Forall₂ m.Holds names (names.filterMap fun name => m.global? name.text) := by
  induction names with
  | nil => exact .nil
  | cons name names ih =>
      obtain ⟨⟨e, here⟩, below⟩ := List.forall_mem_cons.mp h
      rw [List.filterMap_cons, here.found]
      exact .cons here (ih below)

theorem names_of_holds {es : List Entry} (h : List.Forall₂ m.Holds names es) :
    es.map Entry.name = names.map (·.text) := by
  induction h with
  | nil => rfl
  | cons here _ ih => rw [List.map_cons, List.map_cons, here.named, ih]

end AnalyzedModule

/-- A table has the entries of the public declarations in source order, and the default entry. -/
theorem exports_of_ok {limit : Nat} {tokens : List Token}
    (parsed : Program.parse limit tokens = .ok p)
    (ok : (analyzeWith importer file p .fresh session).result = .ok m) : m.Exports p := by
  obtain ⟨listed, chosen⟩ := Program.positions_of_parse parsed
  have holds : ∀ s ∈ p.body, ∀ name ∈ s.declaredNames, ∃ e, m.Holds name e :=
    fun s mem name here => exists_holds ok mem here
  have distinct := declaredNames_nodup ok
  obtain ⟨⟨global, same⟩, -⟩ := Workspace.globals_of_ok ok
  have table : m.exports = .ofProgram p global := by rw [same]
  have found : ∀ name, global.find? name = m.global? name := by
    intro name
    rw [same]
    rfl
  have entries (positions : List Nat) : positions.flatMap (ExportTable.declaredEntries p global)
      = ((positions.filterMap (p.body[·]?)).flatMap (·.declaredNames)).filterMap
        fun name => m.global? name.text := by
    rw [ExportTable.flatMap_declaredEntries]
    simp only [found]
  have all : List.Forall₂ m.Holds ((p.body.filter (·.isPublic)).flatMap (·.declaredNames))
      (p.exports.flatMap (ExportTable.declaredEntries p global)) := by
    rw [entries, listed.marked]
    refine AnalyzedModule.holds_filterMap fun name mem => ?_
    obtain ⟨s, inside, here⟩ := List.mem_flatMap.mp mem
    exact holds s (List.mem_of_mem_filter inside) name here
  have nodup : ((p.exports.flatMap (ExportTable.declaredEntries p global)).map Entry.name).Nodup := by
    rw [AnalyzedModule.names_of_holds all]
    exact distinct.sublist ((List.filter_sublist.flatMap _).map _)
  have symbols : m.exports.symbols
      = p.exports.flatMap (ExportTable.declaredEntries p global) := by
    rw [table]
    exact ExportTable.foldl_insert [] _ nodup
  refine ⟨symbols ▸ all, symbols ▸ nodup, ?_⟩
  have marked := chosen.marked
  have default : m.exports.default = p.defaultExport.bind fun k =>
      (ExportTable.declaredEntries p global k).head? := by rw [table]; rfl
  cases position : p.defaultExport with
  | none =>
      rw [position] at marked default
      rw [← marked]
      exact default
  | some k =>
      rw [position] at marked default
      obtain ⟨s, there, isDefault⟩ := (chosen.mem_iff k).mp (by simp [position])
      have only : p.body.filter (·.isDefault) = [s] := by
        rw [← marked, Option.toList_some, List.filterMap_cons, there]
        rfl
      have mem : s ∈ p.body := List.mem_of_getElem? there
      rw [only]
      cases names : s.declaredNames with
      | nil => exact absurd names (Program.declaredNames_ne_nil parsed mem isDefault)
      | cons name rest =>
          obtain ⟨e, here⟩ := holds s mem name (names ▸ List.mem_cons_self)
          refine ⟨name, by rw [names]; rfl, e, ?_, here⟩
          have single := entries [k]
          rw [List.flatMap_singleton, List.filterMap_cons, there] at single
          rw [default, Option.bind_some, single]
          dsimp only
          rw [List.filterMap_nil, List.flatMap_singleton, names, List.filterMap_cons, here.found]
          rfl

end Tables
end ScriptFront
